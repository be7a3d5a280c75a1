import Mathlib.Data.List.Forall2

/-! Rules for computations that change a state and may throw. A thrown error keeps
the state reached so far, as an early return or an exception does; nothing here
rolls back. -/
namespace Effect

variable {ε σ τ α β : Type}

/-- The state a computation leaves, whether it returned or threw. -/
def final : EStateM.Result ε σ α → σ
  | .ok _ s => s
  | .error _ s => s

def Returned : EStateM.Result ε σ α → Prop
  | .ok _ _ => True
  | .error _ _ => False

def returns : EStateM.Result ε σ α → Bool
  | .ok _ _ => true
  | .error _ _ => false

theorem returns_iff {result : EStateM.Result ε σ α} :
    returns result = true ↔ ∃ a s, result = .ok a s := by
  cases result <;> simp [returns]

theorem returns_not_iff {result : EStateM.Result ε σ α} :
    returns result = false ↔ ∃ e s, result = .error e s := by
  cases result <;> simp [returns]

@[simp] theorem final_ok (a : α) (s : σ) : final (.ok a s : EStateM.Result ε σ α) = s := rfl
@[simp] theorem final_error (e : ε) (s : σ) : final (.error e s : EStateM.Result ε σ α) = s := rfl

/-- A thrown error becomes a value; the state is the one the throw left. -/
def attempt (x : EStateM ε σ α) : EStateM ε σ (Except ε α) := fun s =>
  match x s with
  | .ok a t => .ok (.ok a) t
  | .error e t => .ok (.error e) t

def mapError (f : ε → ε) (x : EStateM ε σ α) : EStateM ε σ α := fun s =>
  match x s with
  | .ok a t => .ok a t
  | .error e t => .error (f e) t

def ofExcept (x : Except ε α) : EStateM ε σ α := fun s =>
  match x with
  | .ok a => .ok a s
  | .error e => .error e s

/-- Runs a computation on one component of a larger state. -/
def zoom (get : σ → τ) (set : τ → σ → σ) (x : EStateM ε τ α) : EStateM ε σ α := fun s =>
  match x (get s) with
  | .ok a t => .ok a (set t s)
  | .error e t => .error e (set t s)

@[simp] theorem pure_apply (a : α) (s : σ) : (pure a : EStateM ε σ α) s = .ok a s := rfl
@[simp] theorem throw_apply (e : ε) (s : σ) : (throw e : EStateM ε σ α) s = .error e s := rfl
@[simp] theorem get_apply (s : σ) : (get : EStateM ε σ σ) s = .ok s s := rfl
@[simp] theorem modify_apply (f : σ → σ) (s : σ) :
    (modify f : EStateM ε σ PUnit) s = .ok ⟨⟩ (f s) := rfl

theorem bind_apply (x : EStateM ε σ α) (f : α → EStateM ε σ β) (s : σ) :
    (x >>= f) s = match x s with
      | .ok a t => f a t
      | .error e t => .error e t := rfl

theorem map_apply (f : α → β) (x : EStateM ε σ α) (s : σ) :
    (f <$> x) s = match x s with
      | .ok a t => .ok (f a) t
      | .error e t => .error e t := rfl

theorem bind_of_ok {x : EStateM ε σ α} {f : α → EStateM ε σ β} {s t : σ} {a : α}
    (first : x s = .ok a t) : (x >>= f) s = f a t := by
  rw [bind_apply, first]

theorem bind_of_error {x : EStateM ε σ α} {f : α → EStateM ε σ β} {s t : σ} {e : ε}
    (first : x s = .error e t) : (x >>= f) s = .error e t := by
  rw [bind_apply, first]

/-- A sequence returns exactly when both of its parts do. -/
theorem bind_ok {x : EStateM ε σ α} {f : α → EStateM ε σ β} {s u : σ} {b : β} :
    (x >>= f) s = .ok b u ↔ ∃ a t, x s = .ok a t ∧ f a t = .ok b u := by
  cases first : x s with
  | ok a t => simp [bind_apply, first]
  | error e t => simp [bind_apply, first]

theorem bind_error {x : EStateM ε σ α} {f : α → EStateM ε σ β} {s u : σ} {e : ε} :
    (x >>= f) s = .error e u ↔
      x s = .error e u ∨ ∃ a t, x s = .ok a t ∧ f a t = .error e u := by
  cases first : x s with
  | ok a t => simp [bind_apply, first]
  | error e t => simp [bind_apply, first]

@[simp] theorem mapError_ok {f : ε → ε} {x : EStateM ε σ α} {s t : σ} {a : α} :
    mapError f x s = .ok a t ↔ x s = .ok a t := by
  cases first : x s <;> simp [mapError, first]

theorem mapError_error {f : ε → ε} {x : EStateM ε σ α} {s t : σ} {e : ε} :
    mapError f x s = .error e t ↔ ∃ cause, x s = .error cause t ∧ e = f cause := by
  cases first : x s with
  | ok a u => simp [mapError, first]
  | error cause u => simp [mapError, first, eq_comm, and_comm]

@[simp] theorem final_mapError (f : ε → ε) (x : EStateM ε σ α) (s : σ) :
    final (mapError f x s) = final (x s) := by
  cases first : x s <;> simp [mapError, first]

@[simp] theorem ofExcept_ok {x : Except ε α} {s t : σ} {a : α} :
    (ofExcept x : EStateM ε σ α) s = .ok a t ↔ x = .ok a ∧ t = s := by
  cases x <;> simp [ofExcept, eq_comm]

@[simp] theorem final_ofExcept (x : Except ε α) (s : σ) :
    final ((ofExcept x : EStateM ε σ α) s) = s := by
  cases x <;> rfl

@[simp] theorem final_attempt (x : EStateM ε σ α) (s : σ) :
    final (attempt x s) = final (x s) := by
  cases first : x s <;> simp [attempt, first]

/-- A two-sided contract: a run that returns moves the state by `good`, a run that
throws moves it by `bad`. -/
structure Moves (good bad : σ → σ → Prop) (x : EStateM ε σ α) : Prop where
  ok : ∀ s a t, x s = .ok a t → good s t
  error : ∀ s e t, x s = .error e t → bad s t

section Moves

variable {good bad : σ → σ → Prop}

theorem Moves.pure (refl : ∀ s, good s s) (a : α) :
    Moves good bad (Pure.pure a : EStateM ε σ α) where
  ok s b t run := by cases run; exact refl s
  error s e t run := by cases run

theorem Moves.throw (refl : ∀ s, bad s s) (e : ε) :
    Moves good bad (MonadExcept.throw e : EStateM ε σ α) where
  ok s b t run := by cases run
  error s f t run := by cases run; exact refl s

theorem Moves.ofExcept (good_refl : ∀ s, good s s) (bad_refl : ∀ s, bad s s) (x : Except ε α) :
    Moves good bad (Effect.ofExcept x : EStateM ε σ α) := by
  cases x with
  | ok a => exact Moves.pure good_refl a
  | error e => exact Moves.throw bad_refl e

theorem Moves.get (refl : ∀ s, good s s) : Moves good bad (MonadState.get : EStateM ε σ σ) where
  ok s a t run := by cases run; exact refl s
  error s e t run := by cases run

/-- Contracts compose when `good` does and `bad` absorbs a `good` prefix. -/
theorem Moves.bind (trans : ∀ a b c, good a b → good b c → good a c)
    (absorb : ∀ a b c, good a b → bad b c → bad a c)
    {x : EStateM ε σ α} {f : α → EStateM ε σ β}
    (first : Moves good bad x) (next : ∀ a, Moves good bad (f a)) :
    Moves good bad (x >>= f) where
  ok s b u run := by
    obtain ⟨a,t,hx,hf⟩ := bind_ok.mp run
    exact trans s t u (first.ok s a t hx) ((next a).ok t b u hf)
  error s e u run := by
    rcases bind_error.mp run with hx | ⟨a,t,hx,hf⟩
    · exact first.error s e u hx
    · exact absorb s t u (first.ok s a t hx) ((next a).error t e u hf)

theorem Moves.mapError {x : EStateM ε σ α} (moves : Moves good bad x) (f : ε → ε) :
    Moves good bad (Effect.mapError f x) where
  ok s a t run := moves.ok s a t (mapError_ok.mp run)
  error s e t run := by
    obtain ⟨cause,first,_⟩ := mapError_error.mp run
    exact moves.error s cause t first

end Moves

/-- The computation keeps `inv`, whether it returns or throws. -/
def Keeps (inv : σ → Prop) (x : EStateM ε σ α) : Prop := ∀ s, inv s → inv (final (x s))

section Keeps

variable {inv : σ → Prop}

theorem Keeps.pure (a : α) : Keeps inv (Pure.pure a : EStateM ε σ α) := fun _ holds => holds

theorem Keeps.throw (e : ε) : Keeps inv (MonadExcept.throw e : EStateM ε σ α) :=
  fun _ holds => holds

theorem Keeps.get : Keeps inv (MonadState.get : EStateM ε σ σ) := fun _ holds => holds

theorem Keeps.modify {f : σ → σ} (kept : ∀ s, inv s → inv (f s)) :
    Keeps inv (MonadStateOf.modifyGet (fun s => (PUnit.unit,f s)) : EStateM ε σ PUnit) := kept

theorem Keeps.ofExcept (x : Except ε α) : Keeps inv (Effect.ofExcept x : EStateM ε σ α) :=
  fun s holds => by simpa using holds

theorem Keeps.bind {x : EStateM ε σ α} {f : α → EStateM ε σ β} (first : Keeps inv x)
    (next : ∀ a, Keeps inv (f a)) : Keeps inv (x >>= f) := by
  intro s holds
  have middle := first s holds
  cases ran : x s with
  | ok a t => rw [bind_of_ok ran]; exact next a t (by simpa [ran] using middle)
  | error e t => rw [bind_of_error ran]; simpa [ran] using middle

theorem Keeps.mapError {x : EStateM ε σ α} (keeps : Keeps inv x) (f : ε → ε) :
    Keeps inv (Effect.mapError f x) := fun s holds => by simpa using keeps s holds

theorem Keeps.attempt {x : EStateM ε σ α} (keeps : Keeps inv x) : Keeps inv (Effect.attempt x) :=
  fun s holds => by simpa using keeps s holds

theorem Keeps.zoom {part : τ → Prop} {get : σ → τ} {set : τ → σ → σ} {x : EStateM ε τ α}
    (keeps : Keeps part x) (enter : ∀ s, inv s → part (get s))
    (leave : ∀ s t, inv s → part t → inv (set t s)) : Keeps inv (Effect.zoom get set x) := by
  intro s holds
  have after := keeps (get s) (enter s holds)
  cases ran : x (get s) with
  | ok a t => simpa [Effect.zoom, ran] using leave s t holds (by simpa [ran] using after)
  | error e t => simpa [Effect.zoom, ran] using leave s t holds (by simpa [ran] using after)

end Keeps

theorem except_bind_ok {x : Except ε α} {f : α → Except ε β} {b : β} :
    (x >>= f) = .ok b ↔ ∃ a, x = .ok a ∧ f a = .ok b := by
  cases x <;> simp [bind, Except.bind]

/-- A list of fallible steps returns one result for each element. -/
theorem mapM_ok {f : α → Except ε β} {as : List α} {bs : List β} :
    as.mapM f = .ok bs ↔ List.Forall₂ (fun a b => f a = .ok b) as bs := by
  induction as generalizing bs with
  | nil => simp [pure, Except.pure, eq_comm]
  | cons a rest ih =>
    rw [List.mapM_cons]
    cases first : f a with
    | error e => simp [bind, Except.bind, List.forall₂_cons_left_iff, first]
    | ok b =>
      cases later : rest.mapM f with
      | error e =>
        simp only [bind, Except.bind, reduceCtorEq, List.forall₂_cons_left_iff, false_iff]
        rintro ⟨_,tail,_,all,_⟩
        simp [ih.mpr all] at later
      | ok tail =>
        have all := ih.mp later
        simp only [bind, Except.bind, pure, Except.pure, Except.ok.injEq,
          List.forall₂_cons_left_iff, first]
        constructor
        · rintro rfl
          exact ⟨b,tail,rfl,all,rfl⟩
        · rintro ⟨_,other,rfl,all',rfl⟩
          rw [Except.ok.inj (later.symm.trans (ih.mpr all'))]

theorem mapM_each {f : α → Except ε β} {as : List α} {bs : List β}
    (returned : as.mapM f = .ok bs) : ∀ a ∈ as, ∃ b, f a = .ok b := by
  have each := mapM_ok.mp returned
  clear returned
  induction each with
  | nil => simp
  | cons first _ ih => exact List.forall_mem_cons.mpr ⟨⟨_,first⟩,ih⟩

theorem mapM_returns {f : α → Except ε β} {as : List α} (each : ∀ a ∈ as, ∃ b, f a = .ok b) :
    ∃ bs, as.mapM f = .ok bs := by
  induction as with
  | nil => exact ⟨[],rfl⟩
  | cons a rest ih =>
    obtain ⟨b,first⟩ := each a List.mem_cons_self
    obtain ⟨bs,later⟩ := ih fun a member => each a (List.mem_cons_of_mem _ member)
    exact ⟨b :: bs,mapM_ok.mpr (.cons first (mapM_ok.mp later))⟩

end Effect
