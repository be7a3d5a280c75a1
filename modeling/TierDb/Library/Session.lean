import TierDb.Library.Effect

/-! One SQL session over a store `σ`. Outside a block a statement commits by itself;
inside one it changes a working copy, and an error aborts the block until it ends.
The server's refusals are an input: a tape with one verdict for each statement. -/
namespace Sql

inductive Block (σ : Type) where
  | idle
  | open (working : σ)
  | aborted
  deriving DecidableEq, Repr

/-- `locks` are transaction-scoped advisory locks; `nested` counts the BEGINs that
reached the server inside a block. -/
structure Session (σ κ : Type) where
  durable : σ
  block : Block σ := .idle
  locks : List κ := []
  verdicts : List (Option String) := []
  nested : Nat := 0
  deriving DecidableEq, Repr

variable {σ κ α : Type}

abbrev Exec (σ κ α : Type) := EStateM String (Session σ κ) α

/-- What the session's own statements read. -/
def Session.view (s : Session σ κ) : σ :=
  match s.block with
  | .open working => working
  | _ => s.durable

/-- The refusal of the next statement, if the tape holds one. -/
def Session.verdict (s : Session σ κ) : Option String := s.verdicts.head?.join

def Session.next (s : Session σ κ) : Session σ κ := { s with verdicts := s.verdicts.tail }

def Session.fail (s : Session σ κ) : Session σ κ :=
  match s.block with
  | .open _ => { s with block := .aborted }
  | _ => s

def Session.write (s : Session σ κ) (value : σ) : Session σ κ :=
  match s.block with
  | .idle => { s with durable := value }
  | .open _ => { s with block := .open value }
  | .aborted => s

def abortedMessage : String :=
  "current transaction is aborted, commands ignored until end of transaction block"

def Session.InBlock (s : Session σ κ) : Prop := s.block ≠ .idle

instance (s : Session σ κ) : Decidable s.InBlock :=
  match block : s.block with
  | .idle => isFalse (by simp [Session.InBlock, block])
  | .open _ => isTrue (by simp [Session.InBlock, block])
  | .aborted => isTrue (by simp [Session.InBlock, block])

/-- One statement: refused by the server, failing by itself, or taking effect. -/
def statement (run : σ → Except String (α × σ)) : Exec σ κ α := fun s =>
  match s.block with
  | .aborted => .error abortedMessage s.next
  | _ =>
    match s.verdict with
    | some e => .error e s.next.fail
    | none =>
      match run s.view with
      | .ok (a, value) => .ok a (s.next.write value)
      | .error e => .error e s.next.fail

def query (read : σ → Except String α) : Exec σ κ α :=
  statement fun value => (read value).map fun a => (a, value)

/-- BEGIN inside an open block is only a warning. -/
def beginBlock : Exec σ κ Unit := fun s =>
  let nested := match s.block with | .idle => s.nested | _ => s.nested + 1
  match s.verdict, s.block with
  | some e, _ => .error e { s.next.fail with nested := nested }
  | none, .aborted => .error abortedMessage { s.next with nested := nested }
  | none, .open _ => .ok () { s.next with nested := nested }
  | none, .idle => .ok () { s.next with block := .open s.durable }

def Session.leave (s : Session σ κ) : Session σ κ := { s.next with block := .idle, locks := [] }

/-- A refused COMMIT discards the block. COMMIT of an aborted block rolls back and
reports no error; outside a block it does nothing. -/
def commit : Exec σ κ Unit := fun s =>
  match s.verdict, s.block with
  | some e, _ => .error e s.leave
  | none, .open working => .ok () { s.leave with durable := working }
  | none, _ => .ok () s.leave

def rollback : Exec σ κ Unit := fun s =>
  match s.verdict with
  | some e => .error e s.leave
  | none => .ok () s.leave

/-- Takes a transaction-scoped lock; outside a block it is gone with its statement. -/
def lock (k : κ) : Exec σ κ Unit := fun s =>
  match statement (fun value => .ok ((), value)) s with
  | .ok _ t => .ok () (match t.block with
    | .open _ => { t with locks := k :: t.locks }
    | _ => t)
  | .error e t => .error e t

section Fields

@[simp] theorem next_durable (s : Session σ κ) : s.next.durable = s.durable := rfl
@[simp] theorem next_block (s : Session σ κ) : s.next.block = s.block := rfl
@[simp] theorem next_view (s : Session σ κ) : s.next.view = s.view := rfl
@[simp] theorem next_nested (s : Session σ κ) : s.next.nested = s.nested := rfl
@[simp] theorem leave_durable (s : Session σ κ) : s.leave.durable = s.durable := rfl
@[simp] theorem leave_block (s : Session σ κ) : s.leave.block = .idle := rfl

@[simp] theorem fail_durable (s : Session σ κ) : s.fail.durable = s.durable := by
  cases h : s.block <;> simp [Session.fail, h]

@[simp] theorem fail_block (s : Session σ κ) :
    s.fail.block = match s.block with | .idle => .idle | _ => .aborted := by
  cases h : s.block <;> simp [Session.fail, h]

/-- Whatever a failed statement left in a block is lost. -/
@[simp] theorem fail_view (s : Session σ κ) : s.fail.view = s.durable := by
  cases h : s.block <;> simp [Session.fail, Session.view, h]

@[simp] theorem fail_nested (s : Session σ κ) : s.fail.nested = s.nested := by
  cases h : s.block <;> simp [Session.fail, h]

@[simp] theorem write_nested (s : Session σ κ) (value : σ) : (s.write value).nested = s.nested := by
  cases h : s.block <;> simp [Session.write, h]

@[simp] theorem leave_nested (s : Session σ κ) : s.leave.nested = s.nested := rfl

@[simp] theorem next_locks (s : Session σ κ) : s.next.locks = s.locks := rfl

/-- An aborted block holds its locks until it ends. -/
@[simp] theorem fail_locks (s : Session σ κ) : s.fail.locks = s.locks := by
  cases h : s.block <;> simp [Session.fail, h]

@[simp] theorem write_locks (s : Session σ κ) (value : σ) : (s.write value).locks = s.locks := by
  cases h : s.block <;> simp [Session.write, h]

end Fields

/-- A statement that returns ran in a live session on the value the session reads,
and what it wrote is what the session reads next. -/
theorem statement_ok {run : σ → Except String (α × σ)} {s t : Session σ κ} {a : α}
    (returned : statement run s = .ok a t) :
    ∃ value, run s.view = .ok (a, value) ∧ s.block ≠ .aborted ∧ s.verdict = none ∧
      t = s.next.write value := by
  unfold statement at returned
  split at returned
  · cases returned
  · rename_i live
    split at returned
    · cases returned
    · rename_i accepted
      split at returned
      · rename_i value ran
        cases returned
        exact ⟨value,ran,fun dead => live dead,accepted,rfl⟩
      · cases returned

/-- A statement that throws changes no stored value and aborts an open block. -/
theorem statement_error {run : σ → Except String (α × σ)} {s t : Session σ κ} {e : String}
    (thrown : statement run s = .error e t) : t = s.next.fail := by
  unfold statement at thrown
  split at thrown
  · rename_i dead
    cases thrown
    simp [Session.fail, dead]
  · split at thrown
    · cases thrown; rfl
    · split at thrown
      · cases thrown
      · cases thrown; rfl

theorem write_view (s : Session σ κ) (value : σ) (live : s.block ≠ .aborted) :
    (s.write value).view = value := by
  cases h : s.block with
  | aborted => exact absurd h live
  | idle => simp [Session.write, Session.view, h]
  | «open» working => simp [Session.write, Session.view, h]

@[simp] theorem write_verdicts (s : Session σ κ) (value : σ) :
    (s.write value).verdicts = s.verdicts := by
  cases h : s.block <;> simp [Session.write, h]

theorem write_block (s : Session σ κ) (value : σ) :
    (s.write value).block = match s.block with
      | .idle => .idle
      | .open _ => .open value
      | .aborted => .aborted := by
  cases h : s.block <;> simp [Session.write, h]

theorem write_durable (s : Session σ κ) (value : σ) :
    (s.write value).durable = match s.block with
      | .idle => value
      | _ => s.durable := by
  cases h : s.block <;> simp [Session.write, h]

theorem fail_inBlock (s : Session σ κ) : s.fail.InBlock ↔ s.InBlock := by
  cases h : s.block <;> simp [Session.InBlock, h]

theorem write_inBlock (s : Session σ κ) (value : σ) : (s.write value).InBlock ↔ s.InBlock := by
  cases h : s.block <;> simp [Session.InBlock, write_block, h]

/-- The session is inside a block as before, and was sent no BEGIN while inside one. -/
structure SameBlocks (s t : Session σ κ) : Prop where
  inBlock : t.InBlock ↔ s.InBlock
  nested : t.nested = s.nested

theorem SameBlocks.refl (s : Session σ κ) : SameBlocks s s := ⟨.rfl,rfl⟩

theorem SameBlocks.trans {s t u : Session σ κ} (first : SameBlocks s t)
    (second : SameBlocks t u) : SameBlocks s u :=
  ⟨second.inBlock.trans first.inBlock,second.nested.trans first.nested⟩

theorem statement_sameBlocks (run : σ → Except String (α × σ)) :
    Effect.Moves SameBlocks SameBlocks (statement run : Exec σ κ α) where
  ok s a t ran := by
    obtain ⟨value,_,_,_,rfl⟩ := statement_ok ran
    exact ⟨write_inBlock s.next value,write_nested s.next value⟩
  error s e t ran := by
    rw [statement_error ran]
    exact ⟨fail_inBlock s.next,fail_nested s.next⟩

theorem lock_sameBlocks (k : κ) : Effect.Moves SameBlocks SameBlocks (lock k : Exec σ κ Unit) where
  ok s a t ran := by
    unfold lock at ran
    split at ran
    · rename_i u sent
      have same := (statement_sameBlocks _).ok _ _ _ sent
      cases ran
      split
      · exact ⟨same.inBlock,same.nested⟩
      · exact same
    · cases ran
  error s e t ran := by
    unfold lock at ran
    split at ran
    · cases ran
    · rename_i sent
      cases ran
      exact (statement_sameBlocks _).error _ _ _ sent

theorem statement_locks (run : σ → Except String (α × σ)) (s : Session σ κ) :
    (Effect.final (statement run s)).locks = s.locks := by
  cases ran : statement run s with
  | ok a t =>
    obtain ⟨value,_,_,_,rfl⟩ := statement_ok ran
    simp
  | error e t =>
    rw [statement_error ran]
    simp

theorem lock_keeps (k : κ) {j : κ} {s : Session σ κ} (held : j ∈ s.locks) :
    j ∈ (Effect.final (lock k s)).locks := by
  have kept : j ∈ (Effect.final (statement (fun value => .ok ((),value)) s)).locks := by
    rwa [statement_locks]
  unfold lock
  cases ran : statement (fun value => Except.ok ((),value)) s with
  | error e t => simpa [ran] using kept
  | ok a t =>
    simp only [ran, Effect.final_ok] at kept ⊢
    split
    · exact List.mem_cons_of_mem _ kept
    · exact kept

/-- Inside a block a lock that was taken is held. -/
theorem lock_held {k : κ} {s t : Session σ κ} (taken : lock k s = .ok () t) (inside : s.InBlock) :
    k ∈ t.locks := by
  unfold lock at taken
  cases ran : statement (fun value => Except.ok ((),value)) s with
  | error e u => simp [ran] at taken
  | ok a u =>
    simp only [ran, EStateM.Result.ok.injEq, true_and] at taken
    subst taken
    obtain ⟨value,_,live,_,rfl⟩ := statement_ok ran
    cases block : s.block with
    | idle => exact absurd block inside
    | aborted => exact absurd block live
    | «open» w => simp [write_block, block]

/-- The next `n` statements find a live session and no refusal. -/
def Session.Accepts (s : Session σ κ) (n : Nat) : Prop :=
  (0 < n → s.block ≠ .aborted) ∧ ∀ v ∈ s.verdicts.take n, v = none

def Session.skip (n : Nat) (s : Session σ κ) : Session σ κ :=
  { s with verdicts := s.verdicts.drop n }

theorem Session.verdict_none (s : Session σ κ) :
    s.verdict = none ↔ ∀ v ∈ s.verdicts.take 1, v = none := by
  cases h : s.verdicts with
  | nil => simp [Session.verdict, h]
  | cons v rest => cases v <;> simp [Session.verdict, h]

theorem Session.accepts_add (s : Session σ κ) (n m : Nat) :
    s.Accepts (n + m) ↔ s.Accepts n ∧ (s.skip n).Accepts m := by
  simp only [Session.Accepts, Session.skip, List.take_add, List.mem_append]
  constructor
  · rintro ⟨live,all⟩
    exact ⟨⟨fun some => live (by omega),fun v front => all v (.inl front)⟩,
      fun some => live (by omega),fun v back => all v (.inr back)⟩
  · rintro ⟨⟨live,front⟩,live',back⟩
    refine ⟨fun some => ?_,fun v member => member.elim (front v) (back v)⟩
    by_cases first : 0 < n
    · exact live first
    · exact live' (by omega)

theorem next_eq_skip (s : Session σ κ) : s.next = s.skip 1 := by
  simp [Session.next, Session.skip]

/-- Writing back what the session reads changes nothing. -/
theorem write_view_self (s : Session σ κ) : s.write s.view = s := by
  cases h : s.block with
  | aborted => simp [Session.write, h]
  | idle | «open» working =>
    simp only [Session.write, Session.view, h]
    cases s
    simp_all

theorem statement_of_accepted (run : σ → Except String (α × σ)) {s : Session σ κ}
    (accepted : s.Accepts 1) : statement run s = match run s.view with
      | .ok (a, value) => .ok a (s.next.write value)
      | .error e => .error e s.next.fail := by
  have clear := s.verdict_none.mpr accepted.2
  unfold statement
  cases h : s.block with
  | aborted => exact absurd h (accepted.1 (by omega))
  | idle => simp [clear]
  | «open» working => simp [clear]

theorem query_of_accepted (read : σ → Except String α) {s : Session σ κ} (accepted : s.Accepts 1) :
    query read s = match read s.view with
      | .ok a => .ok a s.next
      | .error e => .error e s.next.fail := by
  have same := write_view_self s.next
  rw [next_view] at same
  rw [query, statement_of_accepted _ accepted]
  cases read s.view <;> simp [Except.map, same]

/-- With an empty tape and a live session a statement does what its text does. -/
theorem statement_of_quiet (run : σ → Except String (α × σ)) {s : Session σ κ}
    (quiet : s.verdicts = []) (live : s.block ≠ .aborted) :
    statement run s = match run s.view with
      | .ok (a, value) => .ok a (s.next.write value)
      | .error e => .error e s.next.fail :=
  statement_of_accepted run ⟨fun _ => live,by simp [quiet]⟩

/-- A refused statement fails an open block; a dead session refuses every statement. -/
theorem statement_of_refused (run : σ → Except String (α × σ)) {s : Session σ κ}
    (refused : ¬s.Accepts 1) : ∃ e, statement run s = .error e s.next.fail := by
  unfold statement
  cases h : s.block with
  | aborted => exact ⟨_,by simp [Session.fail, h]; rfl⟩
  | idle | «open» working =>
    cases verdict : s.verdict with
    | some e => exact ⟨e,by simp⟩
    | none => exact absurd ⟨by simp [h],s.verdict_none.mp verdict⟩ refused

theorem query_ok {read : σ → Except String α} {s t : Session σ κ} {a : α}
    (returned : query read s = .ok a t) :
    read s.view = .ok a ∧ s.block ≠ .aborted ∧ t = s.next.write s.view := by
  obtain ⟨value,ran,live,_,rfl⟩ := statement_ok returned
  cases h : read s.view with
  | error e => simp [h, Except.map] at ran
  | ok b =>
    simp only [h, Except.map, Except.ok.injEq, Prod.mk.injEq] at ran
    exact ⟨by rw [ran.1],live,by rw [ran.2]⟩

/-- Outside a block BEGIN is refused or opens one on the durable value. -/
theorem beginBlock_idle {s : Session σ κ} (idle : s.block = .idle) :
    beginBlock s = match s.verdict with
      | some e => .error e s.next
      | none => .ok () { s.next with block := .open s.durable } := by
  cases verdict : s.verdict <;> simp [beginBlock, idle, verdict, Session.fail, Session.next]

theorem beginBlock_verdicts {s t : Session σ κ} (begun : beginBlock s = .ok () t) :
    t.verdicts = s.verdicts.tail := by
  cases verdict : s.verdict <;> cases block : s.block <;>
    simp only [beginBlock, verdict, block, reduceCtorEq, EStateM.Result.ok.injEq, true_and] at begun
  all_goals
    subst begun
    rfl

theorem beginBlock_clear {s t : Session σ κ} (begun : beginBlock s = .ok () t) :
    ∀ v ∈ s.verdicts.take 1, v = none := by
  refine s.verdict_none.mp ?_
  cases verdict : s.verdict with
  | none => rfl
  | some e => simp [beginBlock, verdict] at begun

theorem beginBlock_view {s t : Session σ κ} (begun : beginBlock s = .ok () t) :
    t.view = s.view := by
  cases verdict : s.verdict <;> cases block : s.block <;>
    simp only [beginBlock, verdict, block, reduceCtorEq, EStateM.Result.ok.injEq, true_and] at begun
  all_goals
    subst begun
    simp [Session.view, Session.next, block]

/-- A COMMIT is refused, discarding an open block, or makes durable what the session
reads. -/
theorem commit_apply (s : Session σ κ) :
    commit s = match s.verdict with
      | some e => .error e s.leave
      | none => .ok () { s.leave with durable := s.view } := by
  cases verdict : s.verdict <;> cases block : s.block <;>
    simp [commit, block, verdict, Session.view, Session.leave, Session.next]

/-- `P` holds of the durable value and of the copy an open block works on. -/
def Session.All (P : σ → Prop) (s : Session σ κ) : Prop :=
  P s.durable ∧ ∀ working, s.block = .open working → P working

section All

variable {P : σ → Prop} {s : Session σ κ}

theorem Session.All.view (all : s.All P) : P s.view := by
  cases block : s.block with
  | «open» w => simpa [Session.view, block] using all.2 w block
  | idle => simpa [Session.view, block] using all.1
  | aborted => simpa [Session.view, block] using all.1

theorem Session.All.fail (all : s.All P) : s.fail.All P :=
  ⟨by simpa using all.1,fun w inside => by cases block : s.block <;> simp [block] at inside⟩

theorem Session.All.write (all : s.All P) {value : σ} (new : P value) : (s.write value).All P := by
  cases block : s.block with
  | idle => exact ⟨by simpa [write_durable, block] using new,by simp [write_block, block]⟩
  | aborted => simpa [Session.write, block] using all
  | «open» w =>
    refine ⟨by simpa [write_durable, block] using all.1,fun w' inside => ?_⟩
    simp only [write_block, block, Block.open.injEq] at inside
    exact inside ▸ new

theorem Session.All.leave (all : s.All P) : s.leave.All P := ⟨all.1,by simp⟩

/-- A statement keeps what its text keeps. -/
theorem statement_keeps {run : σ → Except String (α × σ)}
    (kept : ∀ value a next, run value = .ok (a,next) → P value → P next) :
    Effect.Keeps (Session.All P) (statement run : Exec σ κ α) := by
  intro s all
  have next : s.next.All P := all
  cases ran : statement run s with
  | ok a t =>
    obtain ⟨value,wrote,_,_,rfl⟩ := statement_ok ran
    exact next.write (kept _ _ _ wrote all.view)
  | error e t =>
    rw [statement_error ran]
    exact next.fail

theorem beginBlock_keeps : Effect.Keeps (Session.All P) (beginBlock : Exec σ κ Unit) := by
  intro s all
  cases verdict : s.verdict with
  | some e =>
    have failed : s.next.fail.All P := Session.All.fail all
    simp only [beginBlock, verdict, Effect.final_error]
    exact ⟨failed.1,failed.2⟩
  | none =>
    cases block : s.block with
    | idle =>
      simp only [beginBlock, verdict, block, Effect.final_ok]
      exact ⟨all.1,fun w inside => Block.open.inj inside ▸ all.1⟩
    | aborted =>
      simp only [beginBlock, verdict, block, Effect.final_error]
      exact ⟨all.1,fun w inside => by simp [block] at inside⟩
    | «open» w =>
      simp only [beginBlock, verdict, block, Effect.final_ok]
      exact ⟨all.1,fun w' inside => all.2 w' inside⟩

theorem commit_keeps : Effect.Keeps (Session.All P) (commit : Exec σ κ Unit) := by
  intro s all
  rw [commit_apply]
  cases s.verdict with
  | some e => exact all.leave
  | none => exact ⟨all.view,by simp⟩

theorem rollback_keeps : Effect.Keeps (Session.All P) (rollback : Exec σ κ Unit) := by
  intro s all
  cases verdict : s.verdict <;> simpa [rollback, verdict] using all.leave

end All

/-- Outside a block the durable value moves by `rel`, inside one the working copy does; an
error may abort the block. -/
def Working (rel : σ → σ → Prop) (aborts : Prop) (s t : Session σ κ) : Prop :=
  match s.block with
  | .idle => t.block = .idle ∧ rel s.durable t.durable
  | .open w => t.durable = s.durable ∧
      ((∃ w', t.block = .open w' ∧ rel w w') ∨ (aborts ∧ t.block = .aborted))
  | .aborted => t.block = .aborted ∧ t.durable = s.durable

section Working

variable {rel : σ → σ → Prop} {aborts : Prop} {s t u : Session σ κ}

theorem Working.refl (refl : ∀ value, rel value value) (aborts : Prop) (s : Session σ κ) :
    Working rel aborts s s := by
  unfold Working
  cases block : s.block with
  | idle => exact ⟨rfl,refl _⟩
  | «open» w => exact ⟨rfl,.inl ⟨w,rfl,refl w⟩⟩
  | aborted => exact ⟨rfl,rfl⟩

theorem Working.trans (compose : ∀ a b c, rel a b → rel b c → rel a c)
    (first : Working rel False s t) (second : Working rel aborts t u) : Working rel aborts s u := by
  unfold Working at first ⊢
  cases block : s.block with
  | idle =>
    simp only [block] at first
    simp only [Working, first.1] at second
    exact ⟨second.1,compose _ _ _ first.2 second.2⟩
  | «open» w =>
    simp only [block, false_and, or_false] at first
    obtain ⟨durable,w',copy,moved⟩ := first
    simp only [Working, copy] at second
    refine ⟨second.1.trans durable,second.2.imp ?_ id⟩
    rintro ⟨w'',copy',moved'⟩
    exact ⟨w'',copy',compose _ _ _ moved moved'⟩
  | aborted =>
    simp only [block] at first
    simp only [Working, first.1] at second
    exact ⟨second.1,second.2.trans first.2⟩

/-- A statement moves what it works on as its text does. -/
theorem statement_working {run : σ → Except String (α × σ)} (refl : ∀ value, rel value value)
    (moved : ∀ value a next, run value = .ok (a,next) → rel value next) :
    Effect.Moves (Working rel False) (Working rel True) (statement run : Exec σ κ α) where
  ok s a t returned := by
    obtain ⟨value,ran,live,_,rfl⟩ := statement_ok returned
    have step := moved _ _ _ ran
    unfold Working
    cases block : s.block with
    | idle =>
      simp only [Session.view, block] at step
      simpa [write_block, write_durable, block] using step
    | «open» w =>
      simp only [Session.view, block] at step
      simpa [write_block, write_durable, block] using step
    | aborted => exact absurd block live
  error s e t thrown := by
    rw [statement_error thrown]
    unfold Working
    cases block : s.block with
    | idle => exact ⟨by simp [block],by simpa using refl _⟩
    | «open» w => exact ⟨by simp,.inr ⟨trivial,by simp [block]⟩⟩
    | aborted => exact ⟨by simp [block],by simp⟩

end Working

end Sql
