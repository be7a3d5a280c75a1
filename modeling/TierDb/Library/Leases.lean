import Mathlib.Data.Set.Lattice

/-! Leases held by owners and the ones the outside can see. The table is balanced when
what is visible is what somebody holds, and nobody holds another's lease. -/
namespace Leases

variable {ο ι : Type}

@[ext] structure Table (ο ι : Type) where
  held : ο → Set ι
  visible : Set ι

structure Balanced (table : Table ο ι) : Prop where
  visible : table.visible = ⋃ o, table.held o
  apart : ∀ o p i, i ∈ table.held o → i ∈ table.held p → o = p

theorem Balanced.held_visible {table : Table ο ι} (balanced : Balanced table) {o : ο} {i : ι}
    (member : i ∈ table.held o) : i ∈ table.visible := by
  rw [balanced.visible]
  exact Set.mem_iUnion_of_mem o member

theorem Balanced.visible_held {table : Table ο ι} (balanced : Balanced table) {i : ι}
    (member : i ∈ table.visible) : ∃ o, i ∈ table.held o := by
  rw [balanced.visible] at member
  exact Set.mem_iUnion.mp member

variable [DecidableEq ο]

def Table.acquire (table : Table ο ι) (o : ο) (i : ι) : Table ο ι where
  held := Function.update table.held o (insert i (table.held o))
  visible := insert i table.visible

def Table.release (table : Table ο ι) (o : ο) (i : ι) : Table ο ι where
  held := Function.update table.held o (table.held o \ {i})
  visible := table.visible \ {i}

theorem mem_acquire {table : Table ο ι} {o p : ο} {i j : ι} :
    j ∈ (table.acquire o i).held p ↔ (p = o ∧ j = i) ∨ j ∈ table.held p := by
  by_cases same : p = o
  · subst same; simp [Table.acquire]
  · simp [Table.acquire, same]

theorem mem_release {table : Table ο ι} {o p : ο} {i j : ι} :
    j ∈ (table.release o i).held p ↔ j ∈ table.held p ∧ ¬(p = o ∧ j = i) := by
  by_cases same : p = o
  · subst same; simp [Table.release]
  · simp [Table.release, same]

/-- Acquiring a lease nobody holds keeps the table balanced. -/
theorem Balanced.acquire {table : Table ο ι} (balanced : Balanced table) (o : ο) {i : ι}
    (fresh : ∀ p, i ∉ table.held p) : Balanced (table.acquire o i) where
  visible := by
    ext j
    change j ∈ insert i table.visible ↔ _
    simp only [Set.mem_iUnion, mem_acquire, Set.mem_insert_iff]
    constructor
    · rintro (rfl | seen)
      · exact ⟨o,.inl ⟨rfl,rfl⟩⟩
      · obtain ⟨p,held⟩ := balanced.visible_held seen
        exact ⟨p,.inr held⟩
    · rintro ⟨p,⟨_,rfl⟩ | held⟩
      · exact .inl rfl
      · exact .inr (balanced.held_visible held)
  apart p q j inP inQ := by
    rw [mem_acquire] at inP inQ
    rcases inP with ⟨rfl,rfl⟩ | inP <;> rcases inQ with ⟨rfl,same⟩ | inQ
    · rfl
    · exact absurd inQ (fresh q)
    · exact absurd (same ▸ inP) (fresh p)
    · exact balanced.apart p q j inP inQ

/-- Releasing a lease that its owner holds keeps the table balanced. -/
theorem Balanced.release {table : Table ο ι} (balanced : Balanced table) {o : ο} {i : ι}
    (own : i ∈ table.held o) : Balanced (table.release o i) where
  visible := by
    ext j
    change j ∈ table.visible \ {i} ↔ _
    simp only [Set.mem_iUnion, mem_release, Set.mem_sdiff, Set.mem_singleton_iff]
    constructor
    · rintro ⟨seen,other⟩
      obtain ⟨p,held⟩ := balanced.visible_held seen
      exact ⟨p,held,fun same => other same.2⟩
    · rintro ⟨p,held,kept⟩
      refine ⟨balanced.held_visible held,?_⟩
      rintro rfl
      exact kept ⟨balanced.apart p o j held own,rfl⟩
  apart p q j inP inQ := by
    rw [mem_release] at inP inQ
    exact balanced.apart p q j inP.1 inQ.1

end Leases
