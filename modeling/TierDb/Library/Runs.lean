import Mathlib.Data.List.Basic

/-! Finite runs of a partial step function: an event the state does not allow has no
successor. Invariants may depend on a condition every step of the run meets. -/
namespace Runs

variable {σ ε : Type}

def run (step : σ → ε → Option σ) : σ → List ε → Option σ
  | s, [] => some s
  | s, e :: rest => (step s e).bind fun t => run step t rest

/-- Every event of the run meets `cond` in the state it is taken in. -/
def Meets (step : σ → ε → Option σ) (cond : σ → ε → Prop) : σ → List ε → Prop
  | _, [] => True
  | s, e :: rest => cond s e ∧ ∀ t, step s e = some t → Meets step cond t rest

/-- The states a run goes through, its first one included. -/
def visited (step : σ → ε → Option σ) : σ → List ε → List σ
  | s, [] => [s]
  | s, e :: rest => s :: match step s e with
    | some t => visited step t rest
    | none => []

/-- What the steps of a run put out, in order. -/
def trace {α : Type} (step : σ → ε → Option σ) (out : σ → ε → List α) : σ → List ε → List α
  | _, [] => []
  | s, e :: rest => out s e ++ match step s e with
    | some t => trace step out t rest
    | none => []

variable {step : σ → ε → Option σ} {cond : σ → ε → Prop}

@[simp] theorem run_nil (s : σ) : run step s [] = some s := rfl

theorem run_cons {s u : σ} {e : ε} {rest : List ε} :
    run step s (e :: rest) = some u ↔ ∃ t, step s e = some t ∧ run step t rest = some u := by
  simp [run, Option.bind_eq_some_iff]

theorem run_append (s : σ) (front back : List ε) :
    run step s (front ++ back) = (run step s front).bind fun t => run step t back := by
  induction front generalizing s with
  | nil => rfl
  | cons e rest ih =>
    simp only [List.cons_append, run]
    cases step s e with
    | none => rfl
    | some t => exact ih t

theorem run_append_some {s u : σ} {front back : List ε} :
    run step s (front ++ back) = some u ↔
      ∃ t, run step s front = some t ∧ run step t back = some u := by
  simp [run_append, Option.bind_eq_some_iff]

/-- A run with a first and a last event of its own. -/
theorem run_between {s u : σ} {first last : ε} {middle : List ε} :
    run step s (first :: (middle ++ [last])) = some u ↔
      ∃ t v, step s first = some t ∧ run step t middle = some v ∧ step v last = some u := by
  simp only [run_cons, run_append_some, run_nil, Option.some.injEq, exists_eq_right]
  constructor
  · rintro ⟨t,begun,v,ran,ended⟩
    exact ⟨t,v,begun,ran,ended⟩
  · rintro ⟨t,v,begun,ran,ended⟩
    exact ⟨t,begun,v,ran,ended⟩

instance decidableMeets [∀ s e, Decidable (cond s e)] :
    ∀ s events, Decidable (Meets step cond s events)
  | _, [] => isTrue trivial
  | s, e :: rest =>
    match taken : step s e with
    | none => decidable_of_iff (cond s e) (by simp [Meets, taken])
    | some t =>
      have := decidableMeets t rest
      decidable_of_iff (cond s e ∧ Meets step cond t rest) (by simp [Meets, taken])

/-- What every step meeting the condition keeps, every run of such steps keeps. -/
theorem run_invariant {inv : σ → Prop}
    (preserved : ∀ s e t, inv s → cond s e → step s e = some t → inv t)
    {s u : σ} {events : List ε} (start : inv s) (meets : Meets step cond s events)
    (ran : run step s events = some u) : inv u := by
  induction events generalizing s with
  | nil => cases ran; exact start
  | cons e rest ih =>
    obtain ⟨t,first,later⟩ := run_cons.mp ran
    exact ih (preserved s e t start meets.1 first) (meets.2 t first) later

/-- Run invariance for a condition-free step. -/
theorem run_preserves {inv : σ → Prop}
    (preserved : ∀ s e t, inv s → step s e = some t → inv t)
    {s u : σ} {events : List ε} (start : inv s) (ran : run step s events = some u) : inv u := by
  induction events generalizing s with
  | nil => cases ran; exact start
  | cons e rest ih =>
    obtain ⟨t,first,later⟩ := run_cons.mp ran
    exact ih (preserved s e t start first) later

/-- A relation that one step and what it puts out keep is kept by a run and what that puts
out. -/
theorem run_simulates {α τ : Type} {rel : σ → τ → Prop} {act : τ → α → τ} {out : σ → ε → List α}
    (simulated : ∀ s e t a, rel s a → cond s e → step s e = some t →
      rel t ((out s e).foldl act a))
    {s u : σ} {a : τ} {events : List ε} (start : rel s a) (meets : Meets step cond s events)
    (ran : run step s events = some u) : rel u ((trace step out s events).foldl act a) := by
  induction events generalizing s a with
  | nil => cases ran; exact start
  | cons e rest ih =>
    obtain ⟨t,first,later⟩ := run_cons.mp ran
    rw [trace, first, List.foldl_append]
    exact ih (simulated s e t a start meets.1 first) (meets.2 t first) later

/-- A run whose steps meet a condition keeps its invariant, and meets all that the two
imply. -/
theorem Meets.of_invariant {inv : σ → Prop} {good : σ → ε → Prop}
    (preserved : ∀ s e t, inv s → cond s e → step s e = some t → inv t)
    (implies : ∀ s e, inv s → cond s e → good s e) {s : σ} {events : List ε} (start : inv s)
    (meets : Meets step cond s events) : Meets step good s events := by
  induction events generalizing s with
  | nil => trivial
  | cons e rest ih =>
    exact ⟨implies s e start meets.1,fun t first =>
      ih (preserved s e t start meets.1 first) (meets.2 t first)⟩

theorem Meets.and_all {always : ε → Prop} {s : σ} {events : List ε}
    (all : ∀ e ∈ events, always e) (meets : Meets step cond s events) :
    Meets step (fun s e => always e ∧ cond s e) s events := by
  induction events generalizing s with
  | nil => trivial
  | cons e rest ih =>
    refine ⟨⟨all e List.mem_cons_self,meets.1⟩,fun t first => ?_⟩
    exact ih (fun f member => all f (List.mem_cons_of_mem _ member)) (meets.2 t first)

theorem Meets.of_all {s : σ} {events : List ε} (all : ∀ e ∈ events, ∀ t, cond t e) :
    Meets step cond s events := by
  induction events generalizing s with
  | nil => trivial
  | cons e rest ih =>
    exact ⟨all e List.mem_cons_self s,fun _ _ => ih fun f member =>
      all f (List.mem_cons_of_mem _ member)⟩

theorem Meets.and {other : σ → ε → Prop} {s : σ} {events : List ε}
    (first : Meets step cond s events) (second : Meets step other s events) :
    Meets step (fun s e => cond s e ∧ other s e) s events := by
  induction events generalizing s with
  | nil => trivial
  | cons e rest ih =>
    exact ⟨⟨first.1,second.1⟩,fun t taken => ih (first.2 t taken) (second.2 t taken)⟩

theorem Meets.front {s : σ} {front back : List ε}
    (meets : Meets step cond s (front ++ back)) : Meets step cond s front := by
  induction front generalizing s with
  | nil => trivial
  | cons e rest ih => exact ⟨meets.1,fun t first => ih (meets.2 t first)⟩

theorem Meets.back {s t : σ} {front back : List ε} (meets : Meets step cond s (front ++ back))
    (ran : run step s front = some t) : Meets step cond t back := by
  induction front generalizing s with
  | nil => cases ran; exact meets
  | cons e rest ih =>
    obtain ⟨u,first,later⟩ := run_cons.mp ran
    exact ih (meets.2 u first) later

end Runs
