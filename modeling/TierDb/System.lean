import TierDb.Library.Runs
import TierDb.Transaction

/-! One attached catalog with any number of DuckDB transactions. An event is one call
DuckDB makes for one transaction; the verdicts and answers it carries are the
outcomes of the statements the call sends. The client calls of an event come one after
the other; in `Calls.step` those of other transactions come between. -/
namespace TierDb

/-- How a transaction ended, as DuckDB was told. -/
inductive Ending where
  | committed
  | refused (error : String)
  | rolledBack
  deriving DecidableEq, Repr

/-- `failed` and `ended` are auxiliary: the transactions with a failed call, and how
the past ones ended. -/
structure System where
  conn : Conn
  lake : Lake
  transactions : Nat → Option TierDBTransaction := fun _ => none
  failed : Nat → Bool := fun _ => false
  ended : Nat → Option Ending := fun _ => none

def System.journal (sys : System) : List (Nat × Write) :=
  sys.conn.client.session.durable.journal

def System.issued (sys : System) : List (Nat × Write) := sys.conn.client.issued

def System.durable (sys : System) : Database := sys.conn.client.session.durable.database

inductive Event where
  | start (t : Nat)
  | scan (t : Nat) (ref : TableRef) (verdicts : List (Option String))
  | chunk (t : Nat) (kind : ChunkKind) (schema table : String) (rows : JsonText)
      (verdicts answers : List (Option String))
  | commit (t : Nat) (verdicts : List (Option String))
  | rollback (t : Nat) (verdicts : List (Option String))

def assign {α : Type} (f : Nat → α) (t : Nat) (value : α) : Nat → α :=
  fun u => if u = t then value else f u

/-- The call's view of the system: its transaction, the tapes of its statements. -/
def System.enter (sys : System) (t : Nat) (txn : TierDBTransaction)
    (verdicts answers : List (Option String)) : Attached where
  txn := txn
  conn := { sys.conn with client := { sys.conn.client with
    author := t
    session := { sys.conn.client.session with verdicts := verdicts } } }
  lakeSide := ⟨sys.lake,answers⟩

def System.settle (sys : System) (t : Nat) (a : Attached) : System :=
  { sys with conn := a.conn, lake := a.lakeSide.lake,
             transactions := assign sys.transactions t (some a.txn) }

def System.close (sys : System) (t : Nat) (ending : Ending) (a : Attached) : System :=
  { sys with conn := a.conn, lake := a.lakeSide.lake,
             transactions := assign sys.transactions t none,
             ended := assign sys.ended t (some ending) }

/-- A call that throws marks its transaction, which DuckDB will then only roll back. -/
def System.settleResult {α : Type} (sys : System) (t : Nat) :
    EStateM.Result String Attached α → System
  | .ok _ a => sys.settle t a
  | .error _ a => { sys.settle t a with failed := assign sys.failed t true }

def step (core : Core) (sys : System) : Event → Option System
  | .start t =>
    if sys.transactions t = none ∧ sys.ended t = none then
      some { sys with transactions := assign sys.transactions t (some {}) }
    else none
  | .scan t ref verdicts => do
    let txn ← sys.transactions t
    if sys.failed t then none
    else some (sys.settleResult t (getPinnedScan core ref (sys.enter t txn verdicts [])))
  | .chunk t kind schema table rows verdicts answers => do
    let txn ← sys.transactions t
    if sys.failed t then none
    else some (sys.settleResult t
      (sinkChunk core kind schema table rows (sys.enter t txn verdicts answers)))
  | .commit t verdicts => do
    let txn ← sys.transactions t
    if sys.failed t then none
    else match commitTransaction (sys.enter t txn verdicts []) with
      | .ok none a => some (sys.close t .committed a)
      | .ok (some e) a => some (sys.close t (.refused e) a)
      | .error e a => some (sys.close t (.refused e) a)
  | .rollback t verdicts => do
    let txn ← sys.transactions t
    some (sys.close t .rolledBack
      (Effect.final (rollbackTransaction (sys.enter t txn verdicts []))))

section Fields

variable (sys : System) (t : Nat) (txn : TierDBTransaction)
  (verdicts answers : List (Option String)) (a : Attached)

@[simp] theorem assign_same {α : Type} (f : Nat → α) (value : α) : assign f t value t = value := by
  simp [assign]

@[simp] theorem assign_other {α : Type} {f : Nat → α} {u : Nat} {value : α} (apart : u ≠ t) :
    assign f t value u = f u := by simp [assign, apart]

@[simp] theorem enter_txn : (sys.enter t txn verdicts answers).txn = txn := rfl
@[simp] theorem enter_inTxn :
    (sys.enter t txn verdicts answers).conn.inTxn = sys.conn.inTxn := rfl
@[simp] theorem enter_block : (sys.enter t txn verdicts answers).conn.client.session.block =
    sys.conn.client.session.block := rfl
@[simp] theorem enter_durable : (sys.enter t txn verdicts answers).conn.client.session.durable =
    sys.conn.client.session.durable := rfl
@[simp] theorem enter_verdicts : (sys.enter t txn verdicts answers).conn.client.session.verdicts =
    verdicts := rfl
@[simp] theorem enter_issued :
    (sys.enter t txn verdicts answers).conn.client.issued = sys.conn.client.issued := rfl
@[simp] theorem enter_sequence :
    (sys.enter t txn verdicts answers).conn.client.sequence = sys.conn.client.sequence := rfl
@[simp] theorem enter_lake :
    (sys.enter t txn verdicts answers).lakeSide.lake = sys.lake := rfl

@[simp] theorem settle_conn : (sys.settle t a).conn = a.conn := rfl
@[simp] theorem settle_ended : (sys.settle t a).ended = sys.ended := rfl
@[simp] theorem settle_transactions :
    (sys.settle t a).transactions = assign sys.transactions t (some a.txn) := rfl

@[simp] theorem close_conn (ending : Ending) : (sys.close t ending a).conn = a.conn := rfl
@[simp] theorem close_transactions (ending : Ending) :
    (sys.close t ending a).transactions = assign sys.transactions t none := rfl
@[simp] theorem close_ended (ending : Ending) :
    (sys.close t ending a).ended = assign sys.ended t (some ending) := rfl
@[simp] theorem close_failed (ending : Ending) : (sys.close t ending a).failed = sys.failed := rfl

variable {α : Type} (result : EStateM.Result String Attached α)

@[simp] theorem settleResult_conn :
    (sys.settleResult t result).conn = (Effect.final result).conn := by cases result <;> rfl

@[simp] theorem settleResult_transactions : (sys.settleResult t result).transactions =
    assign sys.transactions t (some (Effect.final result).txn) := by cases result <;> rfl

@[simp] theorem settleResult_ended : (sys.settleResult t result).ended = sys.ended := by
  cases result <;> rfl

theorem settleResult_failed {result : EStateM.Result String Attached α}
    (thrown : ¬Effect.Returned result) : (sys.settleResult t result).failed t = true := by
  cases result with
  | ok value a => exact absurd trivial thrown
  | error e a => simp [System.settleResult]

end Fields

section Step

variable {core : Core} {sys next : System} {t : Nat}

theorem step_start (taken : step core sys (.start t) = some next) :
    sys.transactions t = none ∧ sys.ended t = none ∧
      next = { sys with transactions := assign sys.transactions t (some {}) } := by
  simp only [step] at taken
  split at taken
  · rename_i free
    exact ⟨free.1,free.2,(Option.some.inj taken).symm⟩
  · cases taken

/-- A call of an open transaction that has not failed. -/
theorem live_call {call : TierDBTransaction → Option System}
    (taken : (do
      let txn ← sys.transactions t
      if sys.failed t then none else call txn) = some next) :
    ∃ txn, sys.transactions t = some txn ∧ sys.failed t = false ∧ call txn = some next := by
  simp only [Option.bind_eq_bind, Option.bind_eq_some_iff] at taken
  obtain ⟨txn,found,taken⟩ := taken
  split at taken
  · cases taken
  · rename_i live
    exact ⟨txn,found,by simpa using live,taken⟩

theorem step_scan {ref : TableRef} {verdicts : List (Option String)}
    (taken : step core sys (.scan t ref verdicts) = some next) :
    ∃ txn, sys.transactions t = some txn ∧ sys.failed t = false ∧
      next = sys.settleResult t (getPinnedScan core ref (sys.enter t txn verdicts [])) := by
  obtain ⟨txn,found,live,called⟩ := live_call taken
  exact ⟨txn,found,live,(Option.some.inj called).symm⟩

theorem step_chunk {kind : ChunkKind} {schema table : String} {rows : JsonText}
    {verdicts answers : List (Option String)}
    (taken : step core sys (.chunk t kind schema table rows verdicts answers) = some next) :
    ∃ txn, sys.transactions t = some txn ∧ sys.failed t = false ∧
      next = sys.settleResult t
        (sinkChunk core kind schema table rows (sys.enter t txn verdicts answers)) := by
  obtain ⟨txn,found,live,called⟩ := live_call taken
  exact ⟨txn,found,live,(Option.some.inj called).symm⟩

theorem step_commit {verdicts : List (Option String)}
    (taken : step core sys (.commit t verdicts) = some next) :
    ∃ txn ending, sys.transactions t = some txn ∧ sys.failed t = false ∧
      next = sys.close t ending
        (Effect.final (commitTransaction (sys.enter t txn verdicts []))) ∧
      (ending = .committed ↔
        ∃ a, commitTransaction (sys.enter t txn verdicts []) = .ok none a) ∧
      ending ≠ .rolledBack := by
  obtain ⟨txn,found,live,called⟩ := live_call taken
  split at called <;> rename_i ran <;> cases called
  · exact ⟨txn,_,found,live,by rw [ran]; rfl,by simp [ran],by simp⟩
  · exact ⟨txn,_,found,live,by rw [ran]; rfl,by simp [ran],by simp⟩
  · exact ⟨txn,_,found,live,by rw [ran]; rfl,by simp [ran],by simp⟩

theorem step_rollback {verdicts : List (Option String)}
    (taken : step core sys (.rollback t verdicts) = some next) :
    ∃ txn, sys.transactions t = some txn ∧ next = sys.close t .rolledBack
      (Effect.final (rollbackTransaction (sys.enter t txn verdicts []))) := by
  simp only [step, Option.bind_eq_bind, Option.bind_eq_some_iff] at taken
  obtain ⟨txn,found,taken⟩ := taken
  exact ⟨txn,found,(Option.some.inj taken).symm⟩

theorem settleResult_keeps_failed {α : Type} {result : EStateM.Result String Attached α} {u : Nat}
    (failed : sys.failed u = true) : (sys.settleResult t result).failed u = true := by
  cases result with
  | ok value a => exact failed
  | error e a => simp [System.settleResult, assign, failed]

/-- A failed call is never forgotten. -/
theorem step_keeps_failed {event : Event} {u : Nat} (failed : sys.failed u = true)
    (taken : step core sys event = some next) : next.failed u = true := by
  cases event with
  | start t => obtain ⟨_,_,rfl⟩ := step_start taken; exact failed
  | scan t ref verdicts =>
    obtain ⟨_,_,_,rfl⟩ := step_scan taken
    exact settleResult_keeps_failed failed
  | chunk t kind schema table rows verdicts answers =>
    obtain ⟨_,_,_,rfl⟩ := step_chunk taken
    exact settleResult_keeps_failed failed
  | commit t verdicts => obtain ⟨_,_,_,_,rfl,_,_⟩ := step_commit taken; exact failed
  | rollback t verdicts => obtain ⟨_,_,rfl⟩ := step_rollback taken; exact failed

theorem run_keeps_unfailed {events : List Event} {u : Nat} (unfailed : next.failed u = false)
    (ran : Runs.run (step core) sys events = some next) : sys.failed u = false := by
  by_contra failed
  have kept : next.failed u = true := Runs.run_preserves
    (fun _ _ _ failed taken => step_keeps_failed failed taken) (by simpa using failed) ran
  simp [kept] at unfailed

end Step

end TierDb
