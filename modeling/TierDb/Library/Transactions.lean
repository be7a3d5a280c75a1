import TierDb.Library.Keyed

/-! A keyed store that is changed in transactions. What a transaction assigns is kept aside
until it commits, and forgotten when it is undone. -/
namespace Transactions

variable {ρ σ : Type}

structure Store (ρ σ : Type) where
  stored : List ρ
  pending : Nat → List (σ × Option ρ) := fun _ => []

inductive Action (ρ σ : Type) where
  | change (t : Nat) (steps : List (σ × Option ρ))
  | commit (t : Nat)
  | undo (t : Nat)

def Store.setPending (s : Store ρ σ) (t : Nat) (steps : List (σ × Option ρ)) : Store ρ σ :=
  { s with pending := fun u => if u = t then steps else s.pending u }

section Fields

variable (s : Store ρ σ) (t : Nat) (steps : List (σ × Option ρ))

@[simp] theorem setPending_stored : (s.setPending t steps).stored = s.stored := rfl

@[simp] theorem setPending_same : (s.setPending t steps).pending t = steps := by
  simp [Store.setPending]

@[simp] theorem setPending_other {u : Nat} (apart : u ≠ t) :
    (s.setPending t steps).pending u = s.pending u := by simp [Store.setPending, apart]

end Fields

variable [DecidableEq σ] (slot : ρ → Option σ)

/-- What transaction `t` reads. -/
def Store.seen (s : Store ρ σ) (t : Nat) : List ρ := Keyed.assignAll slot (s.pending t) s.stored

def Store.act (s : Store ρ σ) : Action ρ σ → Store ρ σ
  | .change t steps => s.setPending t (s.pending t ++ steps)
  | .commit t => { s.setPending t [] with stored := s.seen slot t }
  | .undo t => s.setPending t []

variable {slot} {s : Store ρ σ} {t : Nat}

theorem seen_idle (idle : s.pending t = []) : s.seen slot t = s.stored := by
  simp [Store.seen, idle, Keyed.assignAll]

theorem seen_change (steps : List (σ × Option ρ)) :
    (s.act slot (.change t steps)).seen slot t = Keyed.assignAll slot steps (s.seen slot t) := by
  simp [Store.act, Store.seen, Keyed.assignAll_append]

theorem change_nil : s.act slot (.change t []) = s := by
  have same : (fun u => if u = t then s.pending t else s.pending u) = s.pending := by
    funext u
    split
    · rename_i here
      rw [here]
    · rfl
  simp [Store.act, Store.setPending, same]

end Transactions
