import Mathlib.Data.List.Nodup
import Mathlib.Data.List.Perm.Basic

/-! An operation on a list of keyed rows that may be cut. Calls on the parts of a list, one
after the other, return when one call on the whole list does, in any order of its rows. -/
namespace Batches

variable {α κ σ : Type}

/-- Every row has a key, and no two rows have the same one. -/
def Distinct (key : α → Option κ) (rows : List α) : Prop :=
  (∀ row ∈ rows, (key row).isSome) ∧ (rows.map key).Nodup

/-- The calls on the parts, one after the other. -/
def Chain (call : List α → σ → σ → Prop) : List (List α) → σ → σ → Prop
  | [], s, t => s = t
  | rows :: rest, s, t => ∃ m, call rows s m ∧ Chain call rest m t

/-- A call returns when each of its rows passes, and then it has done them. A row passes
after others are done as it does before. -/
structure Cuttable (call : List α → σ → σ → Prop) (key : α → Option κ) (inv : σ → Prop)
    (passes : σ → α → Prop) (done : List α → σ → σ → Prop) : Prop where
  goes : ∀ rows s, inv s → Distinct key rows →
    ((∃ t, call rows s t) ↔ ∀ row ∈ rows, passes s row)
  does : ∀ rows s t, inv s → Distinct key rows → call rows s t → inv t ∧ done rows s t
  others : ∀ rows s t row, done rows s t → key row ∉ rows.map key →
    (passes t row ↔ passes s row)
  nothing : ∀ s, done [] s s
  joins : ∀ xs ys s m t, done xs s m → done ys m t → done (xs ++ ys) s t

variable {call : List α → σ → σ → Prop} {key : α → Option κ} {inv : σ → Prop}
  {passes : σ → α → Prop} {done : List α → σ → σ → Prop}

theorem Distinct.split {xs ys : List α} (distinct : Distinct key (xs ++ ys)) :
    Distinct key xs ∧ Distinct key ys ∧ ∀ y ∈ ys, key y ∉ xs.map key := by
  obtain ⟨keyed,nodup⟩ := distinct
  rw [List.forall_mem_append] at keyed
  rw [List.map_append, List.nodup_append] at nodup
  obtain ⟨front,back,apart⟩ := nodup
  exact ⟨⟨keyed.1,front⟩,⟨keyed.2,back⟩,fun y member inFront =>
    apart _ inFront _ (List.mem_map_of_mem member) rfl⟩

theorem Distinct.perm {xs ys : List α} (distinct : Distinct key xs) (perm : xs.Perm ys) :
    Distinct key ys :=
  ⟨fun row member => distinct.1 row (perm.mem_iff.mpr member),
    (perm.map key).nodup_iff.mp distinct.2⟩

/-- The calls on the parts do all their rows. -/
theorem Cuttable.chain_does (cuttable : Cuttable call key inv passes done)
    {parts : List (List α)} {s t : σ} (holds : inv s) (distinct : Distinct key parts.flatten)
    (ran : Chain call parts s t) : inv t ∧ done parts.flatten s t := by
  induction parts generalizing s with
  | nil =>
    obtain rfl : s = t := ran
    exact ⟨holds,cuttable.nothing s⟩
  | cons rows rest ih =>
    obtain ⟨own,later,_⟩ := distinct.split
    obtain ⟨m,first,ran⟩ := ran
    obtain ⟨holds',first'⟩ := cuttable.does rows s m holds own first
    obtain ⟨holds'',rest'⟩ := ih holds' later ran
    exact ⟨holds'',cuttable.joins _ _ s m t first' rest'⟩

theorem Cuttable.chain_goes (cuttable : Cuttable call key inv passes done)
    {parts : List (List α)} {s : σ} (holds : inv s) (distinct : Distinct key parts.flatten) :
    (∃ t, Chain call parts s t) ↔ ∀ row ∈ parts.flatten, passes s row := by
  induction parts generalizing s with
  | nil => simp [Chain]
  | cons rows rest ih =>
    obtain ⟨own,later,apart⟩ := distinct.split
    rw [List.flatten_cons, List.forall_mem_append, ← cuttable.goes rows s holds own]
    have after : ∀ m, call rows s m →
        ((∃ t, Chain call rest m t) ↔ ∀ row ∈ rest.flatten, passes s row) := by
      intro m first
      obtain ⟨holds',first'⟩ := cuttable.does rows s m holds own first
      rw [ih holds' later]
      exact forall₂_congr fun row member => cuttable.others rows s m row first' (apart row member)
    constructor
    · rintro ⟨t,m,first,ran⟩
      exact ⟨⟨m,first⟩,(after m first).mp ⟨t,ran⟩⟩
    · rintro ⟨⟨m,first⟩,pass⟩
      obtain ⟨t,ran⟩ := (after m first).mpr pass
      exact ⟨t,m,first,ran⟩

/-- One call on the rows, in another order, returns when the calls on the parts do. -/
theorem Cuttable.whole_goes (cuttable : Cuttable call key inv passes done) {whole : List α}
    {parts : List (List α)} {s : σ} (holds : inv s) (distinct : Distinct key parts.flatten)
    (perm : parts.flatten.Perm whole) :
    (∃ t, call whole s t) ↔ ∃ t, Chain call parts s t := by
  rw [cuttable.goes whole s holds (distinct.perm perm), cuttable.chain_goes holds distinct]
  exact forall_congr' fun row => by rw [perm.mem_iff]

end Batches
