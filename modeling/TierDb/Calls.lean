import TierDb.Stable

/-! The attached catalog call by call. A sink and a boundary make several calls of the
client, each under the connection's lock of its own, so that the calls of other
transactions may come between any two of them. -/
namespace TierDb

/-- Where a sink or a boundary stands between two of its calls. `release` has the pins
that `ReleasePins` moved out and still has to release. -/
inductive Pending where
  | chunk (kind : ChunkKind) (schema table : String) (rows : JsonText)
  | lake (attachSql : String) (lakeSql : List LakeStatement)
  | release (ending : Ending) (pins : List Int)

structure Calls where
  sys : System
  pending : Nat → Option Pending := fun _ => none

/-- `sink` is the `EnsureWriteTxn` of a sink, `commit` the `CommitWrite` of a boundary and
`rollback` its `RollbackWrite`; `resume` is the next call of what the transaction has begun. -/
inductive Call where
  | start (t : Nat)
  | scan (t : Nat) (ref : TableRef) (verdicts : List (Option String))
  | sink (t : Nat) (kind : ChunkKind) (schema table : String) (rows : JsonText)
      (verdicts : List (Option String))
  | commit (t : Nat) (verdicts : List (Option String))
  | rollback (t : Nat) (verdicts : List (Option String))
  | resume (t : Nat) (verdicts answers : List (Option String))

/-- A release that throws is reported unless an error is there already; a rollback
reports none. -/
def Ending.blame (error : String) : Ending → Ending
  | .committed => .refused error
  | other => other

namespace Calls

/-- The transaction, when it is open and has begun nothing it has yet to finish. -/
def ready (c : Calls) (t : Nat) : Option TierDBTransaction :=
  match c.pending t with
  | none => c.sys.transactions t
  | some _ => none

/-- As `ready`, for what DuckDB only calls while no call of the transaction has failed. -/
def live (c : Calls) (t : Nat) : Option TierDBTransaction :=
  if c.sys.failed t then none else c.ready t

def wait (c : Calls) (t : Nat) (next : Option Pending) (a : Attached) : Calls where
  sys := c.sys.settle t a
  pending := assign c.pending t next

/-- The transaction's call threw, and the sink with it. -/
def throws (c : Calls) (t : Nat) (a : Attached) : Calls where
  sys := { c.sys.settle t a with failed := assign c.sys.failed t true }
  pending := assign c.pending t none

/-- `ReleasePins` moves the pins out before the first release. -/
def leave (c : Calls) (t : Nat) (ending : Ending) (a : Attached) : Calls :=
  c.wait t (some (.release ending a.txn.pins)) a.forget

/-- One call of a pending sink or boundary; a boundary without a pin left returns. -/
def resume (core : Core) (c : Calls) (t : Nat) (a : Attached) : Pending → Calls
  | .chunk kind schema table rows =>
    match client (chunkFunction core kind schema table rows) a with
    | .ok outcome b => c.wait t (some (.lake (outcome.attachSql.getD "") outcome.lakeSql)) b
    | .error _ b => c.throws t b
  | .lake attachSql lakeSql =>
    match executeLakeDml attachSql lakeSql a.lakeSide with
    | .ok _ side => c.wait t none { a with lakeSide := side }
    | .error _ side => c.throws t { a with lakeSide := side }
  | .release ending [] => { sys := c.sys.close t ending a, pending := assign c.pending t none }
  | .release ending (id :: rest) =>
    match client (releasePin id) a with
    | .ok _ b => c.wait t (some (.release ending rest)) b
    | .error e b => c.wait t (some (.release (ending.blame e) [])) b

/-- One call DuckDB makes for a transaction, or the next one of a sink or boundary. -/
def step (core : Core) (c : Calls) : Call → Option Calls
  | .start t =>
    if c.sys.transactions t = none ∧ c.sys.ended t = none then
      some { c with sys := { c.sys with transactions := assign c.sys.transactions t (some {}) } }
    else none
  | .scan t ref verdicts => do
    let txn ← c.live t
    some { c with sys :=
      c.sys.settleResult t (getPinnedScan core ref (c.sys.enter t txn verdicts [])) }
  | .sink t kind schema table rows verdicts => do
    let txn ← c.live t
    match ensureWriteTxn (c.sys.enter t txn verdicts []) with
    | .ok _ a => some (c.wait t (some (.chunk kind schema table rows)) a)
    | .error _ a => some (c.throws t a)
  | .commit t verdicts => do
    let txn ← c.live t
    match commitWrite (c.sys.enter t txn verdicts []) with
    | .ok _ a => some (c.leave t .committed a)
    | .error e a => some (c.leave t (.refused e) (Effect.final (rollbackWrite a)))
  | .rollback t verdicts => do
    let txn ← c.ready t
    some (c.leave t .rolledBack (Effect.final (rollbackWrite (c.sys.enter t txn verdicts []))))
  | .resume t verdicts answers => do
    let txn ← c.sys.transactions t
    let pending ← c.pending t
    some (c.resume core t (c.sys.enter t txn verdicts answers) pending)

end Calls

section Steps

variable {core : Core} {c next : Calls} {t : Nat} {txn : TierDBTransaction}

theorem ready_some : c.ready t = some txn ↔ c.pending t = none ∧ c.sys.transactions t = some txn := by
  unfold Calls.ready
  cases c.pending t <;> simp

theorem live_some : c.live t = some txn ↔
    c.sys.failed t = false ∧ c.pending t = none ∧ c.sys.transactions t = some txn := by
  unfold Calls.live
  cases c.sys.failed t <;> simp [ready_some]

theorem calls_start (taken : Calls.step core c (.start t) = some next) :
    c.sys.transactions t = none ∧ c.sys.ended t = none ∧ next = { c with
      sys := { c.sys with transactions := assign c.sys.transactions t (some {}) } } := by
  simp only [Calls.step, Option.ite_none_right_eq_some, Option.some.injEq] at taken
  exact ⟨taken.1.1,taken.1.2,taken.2.symm⟩

theorem calls_scan {ref : TableRef} {verdicts : List (Option String)}
    (taken : Calls.step core c (.scan t ref verdicts) = some next) :
    ∃ txn, c.sys.failed t = false ∧ c.pending t = none ∧ c.sys.transactions t = some txn ∧
      next = { c with sys :=
        c.sys.settleResult t (getPinnedScan core ref (c.sys.enter t txn verdicts [])) } := by
  simp only [Calls.step, Option.bind_eq_bind, Option.bind_eq_some_iff, live_some,
    Option.some.injEq] at taken
  obtain ⟨txn,⟨live,ready,found⟩,rfl⟩ := taken
  exact ⟨txn,live,ready,found,rfl⟩

theorem calls_sink {kind : ChunkKind} {schema table : String} {rows : JsonText}
    {verdicts : List (Option String)}
    (taken : Calls.step core c (.sink t kind schema table rows verdicts) = some next) :
    ∃ txn, c.sys.failed t = false ∧ c.pending t = none ∧ c.sys.transactions t = some txn ∧
      ((∃ b, ensureWriteTxn (c.sys.enter t txn verdicts []) = .ok () b ∧
          next = c.wait t (some (.chunk kind schema table rows)) b) ∨
        ∃ e b, ensureWriteTxn (c.sys.enter t txn verdicts []) = .error e b ∧
          next = c.throws t b) := by
  simp only [Calls.step, Option.bind_eq_bind, Option.bind_eq_some_iff, live_some] at taken
  obtain ⟨txn,⟨live,ready,found⟩,taken⟩ := taken
  refine ⟨txn,live,ready,found,?_⟩
  cases ran : ensureWriteTxn (c.sys.enter t txn verdicts []) with
  | ok u b =>
    rw [ran] at taken
    cases taken
    exact .inl ⟨b,rfl,rfl⟩
  | error e b =>
    rw [ran] at taken
    cases taken
    exact .inr ⟨e,b,rfl,rfl⟩

theorem calls_commit {verdicts : List (Option String)}
    (taken : Calls.step core c (.commit t verdicts) = some next) :
    ∃ txn ending, c.sys.failed t = false ∧ c.pending t = none ∧
      c.sys.transactions t = some txn ∧
      next = c.leave t ending (Effect.final (commitWrite (c.sys.enter t txn verdicts []))) := by
  simp only [Calls.step, Option.bind_eq_bind, Option.bind_eq_some_iff, live_some] at taken
  obtain ⟨txn,⟨live,ready,found⟩,taken⟩ := taken
  have cleared := commitWrite_final (c.sys.enter t txn verdicts [])
  cases ran : commitWrite (c.sys.enter t txn verdicts []) with
  | ok u a =>
    rw [ran] at taken
    cases taken
    exact ⟨txn,.committed,live,ready,found,by rw [ran]; rfl⟩
  | error e a =>
    rw [ran, Effect.final_error] at cleared
    have skipped : rollbackWrite a = .ok () a := by simp [rollbackWrite_apply, cleared]
    rw [ran] at taken
    cases taken
    exact ⟨txn,.refused e,live,ready,found,by rw [ran, skipped]; rfl⟩

theorem calls_rollback {verdicts : List (Option String)}
    (taken : Calls.step core c (.rollback t verdicts) = some next) :
    ∃ txn, c.pending t = none ∧ c.sys.transactions t = some txn ∧ next = c.leave t .rolledBack
      (Effect.final (rollbackWrite (c.sys.enter t txn verdicts []))) := by
  simp only [Calls.step, Option.bind_eq_bind, Option.bind_eq_some_iff, ready_some,
    Option.some.injEq] at taken
  obtain ⟨txn,⟨ready,found⟩,rfl⟩ := taken
  exact ⟨txn,ready,found,rfl⟩

theorem calls_resume {verdicts answers : List (Option String)}
    (taken : Calls.step core c (.resume t verdicts answers) = some next) :
    ∃ txn pending, c.sys.transactions t = some txn ∧ c.pending t = some pending ∧
      next = c.resume core t (c.sys.enter t txn verdicts answers) pending := by
  simp only [Calls.step, Option.bind_eq_bind, Option.bind_eq_some_iff, Option.some.injEq] at taken
  obtain ⟨txn,found,pending,waits,rfl⟩ := taken
  exact ⟨txn,pending,found,waits,rfl⟩

end Steps

section Whole

/-! A call of `step` is what comes of its calls when no other transaction's come between. -/

variable {core : Core} {c : Calls} {t : Nat} {txn : TierDBTransaction}

theorem assign_assign {α : Type} (f : Nat → α) (t : Nat) (first second : α) :
    assign (assign f t first) t second = assign f t second := by
  funext u
  by_cases same : u = t <;> simp [assign, same]

theorem assign_self {α : Type} {f : Nat → α} {t : Nat} {value : α} (same : f t = value) :
    assign f t value = f := by
  funext u
  by_cases here : u = t
  · rw [here, assign_same, same]
  · rw [assign_other _ here]

theorem settle_settle (sys : System) (t : Nat) (a b : Attached) :
    (sys.settle t a).settle t b = sys.settle t b := by
  simp [System.settle, assign_assign]

theorem settle_settleResult {α : Type} (sys : System) (t : Nat) (a : Attached)
    (result : EStateM.Result String Attached α) :
    (sys.settle t a).settleResult t result = sys.settleResult t result := by
  cases result <;> simp [System.settleResult, System.settle, assign_assign]

theorem settle_close (sys : System) (t : Nat) (ending : Ending) (a b : Attached) :
    (sys.settle t a).close t ending b = sys.close t ending b := by
  simp [System.settle, System.close, assign_assign]

theorem wait_wait (p q : Option Pending) (a b : Attached) :
    (c.wait t p a).wait t q b = c.wait t q b := by
  simp [Calls.wait, settle_settle, assign_assign]

theorem wait_throws (p : Option Pending) (a b : Attached) :
    (c.wait t p a).throws t b = c.throws t b := by
  simp [Calls.wait, Calls.throws, System.settle, assign_assign]

/-- The next call finds what the last one left, with the outcomes it left. -/
theorem enter_settle (sys : System) {a : Attached} (author : a.conn.client.author = t) :
    (sys.settle t a).enter t a.txn a.conn.client.session.verdicts a.lakeSide.answers = a := by
  obtain ⟨txn,⟨⟨session,sequence,_,issued⟩,dsn,inTxn⟩,lakeSide⟩ := a
  cases author
  rfl

/-- The next call of a transaction that waits, when no other comes between. -/
theorem resume_wait (core : Core) (p : Pending) {a : Attached} (author : a.conn.client.author = t) :
    Calls.step core (c.wait t (some p) a)
        (.resume t a.conn.client.session.verdicts a.lakeSide.answers) =
      some ((c.wait t (some p) a).resume core t a p) := by
  simp [Calls.step, Calls.wait, enter_settle c.sys author]

theorem authored (core : Core) (t : Nat) :
    BoundaryKeeps core fun a => a.conn.client.author = t := by
  have keep : CallsKeep core (Conn.Stores t fun _ => True) := stores_callsKeep fun _ _ => id
  have all (a : Attached) (author : a.conn.client.author = t) : a.conn.Stores t fun _ => True :=
    ⟨author,trivial,fun _ _ => trivial⟩
  exact {
    txn f a author := author
    begins a author := (keep.boundary.begins a (all a author)).1
    commits a author := (keep.boundary.commits a (all a author)).1
    undoes a author := (keep.boundary.undoes a (all a author)).1
    scans schema table a author := (keep.boundary.scans schema table a (all a author)).1
    releases id a author := (keep.boundary.releases id a (all a author)).1 }

theorem chunkFunction_author (core : Core) (kind : ChunkKind) (schema table : String)
    (rows : JsonText) (t : Nat) :
    Effect.Keeps (fun c : Conn => c.client.author = t)
      (chunkFunction core kind schema table rows) := by
  intro c author
  have framed := (chunkFunction_sent core kind schema table rows).framed
  cases ran : chunkFunction core kind schema table rows c with
  | ok outcome d => exact (framed.ok _ _ _ ran).author.trans author
  | error e d => exact (framed.error _ _ _ ran).author.trans author

/-- The return of a boundary whose releases ended so. -/
def Calls.released (c : Calls) (t : Nat) (ending : Ending) :
    EStateM.Result String Attached Unit → Calls
  | .ok _ a => ⟨c.sys.close t ending a,assign c.pending t none⟩
  | .error e a => ⟨c.sys.close t (ending.blame e) a,assign c.pending t none⟩

theorem return_run (ending : Ending) {a : Attached} (author : a.conn.client.author = t) :
    Runs.run (Calls.step core) (c.wait t (some (.release ending [])) a)
        [.resume t a.conn.client.session.verdicts a.lakeSide.answers] =
      some ⟨c.sys.close t ending a,assign c.pending t none⟩ := by
  refine Runs.run_cons.mpr ⟨_,resume_wait core _ author,?_⟩
  simp [Calls.resume, Calls.wait, settle_close, assign_assign]

/-- The releases of a boundary, one call each, and its return. -/
theorem releases_run (core : Core) (c : Calls) (t : Nat) (ids : List Int) (ending : Ending)
    {a : Attached} (author : a.conn.client.author = t) :
    ∃ calls, Runs.run (Calls.step core) (c.wait t (some (.release ending ids)) a) calls =
      some (c.released t ending (releaseEach ids a)) := by
  induction ids generalizing ending a with
  | nil => exact ⟨_,return_run ending author⟩
  | cons id rest ih =>
    have kept := (authored core t).releases id a author
    have first : ∃ calls, Runs.run (Calls.step core)
        ((c.wait t (some (.release ending (id :: rest))) a).resume core t a
          (.release ending (id :: rest))) calls =
        some (c.released t ending (releaseEach (id :: rest) a)) := by
      rw [releaseEach]
      cases released : client (releasePin id) a with
      | ok u b =>
        rw [released] at kept
        simp only [Calls.resume, released, wait_wait]
        rw [Effect.bind_of_ok released]
        exact ih ending kept
      | error e b =>
        rw [released] at kept
        simp only [Calls.resume, released, wait_wait]
        rw [Effect.bind_of_error released]
        exact ⟨_,return_run _ kept⟩
    obtain ⟨calls,ran⟩ := first
    exact ⟨_,Runs.run_cons.mpr ⟨_,resume_wait core _ author,ran⟩⟩

/-- A boundary in `step` is its write's end, its releases and its return. -/
theorem leave_run (core : Core) (c : Calls) (t : Nat) (ending : Ending) {a : Attached}
    (author : a.conn.client.author = t) :
    ∃ calls, Runs.run (Calls.step core) (c.leave t ending a) calls =
      some (c.released t ending (releasePins a)) := by
  rw [releasePins_apply]
  exact releases_run core c t a.txn.pins ending author

/-- Beginning a write sends nothing to the lake. -/
theorem ensureWriteTxn_side (a : Attached) (side : LakeSide) :
    (∀ b, ensureWriteTxn a = .ok () b →
      ensureWriteTxn { a with lakeSide := side } = .ok () { b with lakeSide := side }) ∧
    ∀ e b, ensureWriteTxn a = .error e b →
      ensureWriteTxn { a with lakeSide := side } = .error e { b with lakeSide := side } := by
  rw [ensureWriteTxn_apply, ensureWriteTxn_apply]
  cases active : a.txn.writeActive with
  | true => simp
  | false => cases txnBegin a.conn <;> simp [Attached.withConn, Attached.active]

/-- A chunk in `step` is its sink's calls: the write's begin, the chunk function and the
lake statements, up to the first that throws. -/
theorem sink_run (core : Core) {c : Calls} (kind : ChunkKind) (schema table : String)
    (rows : JsonText) (verdicts answers : List (Option String)) (live : c.live t = some txn) :
    ∃ calls, Runs.run (Calls.step core) c calls = some (Calls.mk
      (c.sys.settleResult t
        (sinkChunk core kind schema table rows (c.sys.enter t txn verdicts answers)))
      (assign c.pending t none)) := by
  have sides := ensureWriteTxn_side (c.sys.enter t txn verdicts answers) ⟨c.sys.lake,[]⟩
  have author := ensureWriteTxn_keeps (authored core t) (c.sys.enter t txn verdicts answers) rfl
  have side := ensureWriteTxn_keeps (lakeSide_boundary core ⟨c.sys.lake,answers⟩)
    (c.sys.enter t txn verdicts answers) rfl
  unfold sinkChunk
  cases begun : ensureWriteTxn (c.sys.enter t txn verdicts answers) with
  | error e b =>
    rw [begun] at side
    have lake : b.lakeSide.lake = c.sys.lake := congrArg LakeSide.lake side
    refine ⟨[.sink t kind schema table rows verdicts],Runs.run_cons.mpr ⟨_,?_,rfl⟩⟩
    have refused : ensureWriteTxn (c.sys.enter t txn verdicts []) =
        .error e { b with lakeSide := ⟨c.sys.lake,[]⟩ } := sides.2 e b begun
    simp only [Calls.step, live, Option.bind_eq_bind, Option.bind_some, refused]
    rw [Effect.bind_of_error begun]
    simp [Calls.throws, System.settleResult, System.settle, lake]
  | ok u b =>
    rw [begun, Effect.final_ok] at author side
    have lake : b.lakeSide.lake = c.sys.lake := congrArg LakeSide.lake side
    have begins : Calls.step core c (.sink t kind schema table rows verdicts) =
        some (c.wait t (some (.chunk kind schema table rows)) b) := by
      have began : ensureWriteTxn (c.sys.enter t txn verdicts []) =
          .ok () { b with lakeSide := ⟨c.sys.lake,[]⟩ } := sides.1 b begun
      simp only [Calls.step, live, Option.bind_eq_bind, Option.bind_some, began]
      simp [Calls.wait, System.settle, lake]
    rw [Effect.bind_of_ok begun]
    have sends := resume_wait core (c := c) (.chunk kind schema table rows) author
    have author' := client_keeps (chunkFunction_author core kind schema table rows t) b author
    cases chunked : client (chunkFunction core kind schema table rows) b with
    | error e d =>
      simp only [Calls.resume, chunked, wait_throws] at sends
      rw [Effect.bind_of_error chunked]
      exact ⟨_,Runs.run_cons.mpr ⟨_,begins,Runs.run_cons.mpr ⟨_,sends,Runs.run_nil _⟩⟩⟩
    | ok outcome d =>
      simp only [Calls.resume, chunked, wait_wait] at sends
      rw [chunked, Effect.final_ok] at author'
      have ends := resume_wait core (c := c)
        (.lake (outcome.attachSql.getD "") outcome.lakeSql) author'
      rw [Effect.bind_of_ok chunked]
      refine ⟨_,Runs.run_cons.mpr ⟨_,begins,Runs.run_cons.mpr ⟨_,sends,
        Runs.run_cons.mpr ⟨_,ends,(Runs.run_nil _).trans (congrArg some ?_)⟩⟩⟩⟩
      cases ran : executeLakeDml (outcome.attachSql.getD "") outcome.lakeSql d.lakeSide <;>
        simp only [Calls.resume, ran, wait_wait, wait_throws] <;>
        simp [Effect.bind_apply, Effect.zoom, ran, Calls.wait, Calls.throws, System.settleResult]

variable {sys next : System} {event : Event}

/-- Every call of `step` is a run of the calls it makes. -/
theorem step_calls (taken : step core sys event = some next) :
    ∃ calls, Runs.run (Calls.step core) { sys } calls = some { sys := next } := by
  have returned (t : Nat) : assign (fun _ : Nat => (none : Option Pending)) t none = fun _ => none :=
    assign_self rfl
  cases event with
  | start t =>
    obtain ⟨free,fresh,rfl⟩ := step_start taken
    exact ⟨[.start t],Runs.run_cons.mpr ⟨_,if_pos ⟨free,fresh⟩,rfl⟩⟩
  | scan t ref verdicts =>
    obtain ⟨txn,found,live,rfl⟩ := step_scan taken
    refine ⟨[.scan t ref verdicts],Runs.run_cons.mpr ⟨_,?_,rfl⟩⟩
    have open_ : (Calls.mk sys fun _ => none).live t = some txn := live_some.mpr ⟨live,rfl,found⟩
    simp [Calls.step, open_]
  | chunk t kind schema table rows verdicts answers =>
    obtain ⟨txn,found,live,rfl⟩ := step_chunk taken
    obtain ⟨calls,ran⟩ := sink_run core (c := { sys }) kind schema table rows verdicts answers
      (live_some.mpr ⟨live,rfl,found⟩)
    exact ⟨calls,by rw [ran, returned]⟩
  | commit t verdicts =>
    obtain ⟨txn,found,live,called⟩ := live_call taken
    have open_ : (Calls.mk sys fun _ => none).live t = some txn := live_some.mpr ⟨live,rfl,found⟩
    have author := commitWrite_keeps (authored core t) (sys.enter t txn verdicts []) rfl
    have cleared := commitWrite_final (sys.enter t txn verdicts [])
    rw [commitTransaction_apply] at called
    cases wrote : commitWrite (sys.enter t txn verdicts []) with
    | ok u a =>
      rw [wrote] at author
      obtain ⟨calls,ran⟩ := leave_run core ⟨sys,fun _ => none⟩ t .committed author
      refine ⟨.commit t verdicts :: calls,Runs.run_cons.mpr ⟨_,?_,ran.trans ?_⟩⟩
      · simp [Calls.step, open_, wrote]
      · cases released : releasePins a <;> simp only [wrote, released] at called <;>
          cases called <;> simp [Calls.released, released, Ending.blame, returned]
    | error e a =>
      rw [wrote] at author cleared
      have skipped : rollbackWrite a = .ok () a := by
        simp [rollbackWrite_apply, show a.txn.writeActive = false from cleared]
      obtain ⟨calls,ran⟩ := leave_run core ⟨sys,fun _ => none⟩ t (.refused e) author
      refine ⟨.commit t verdicts :: calls,Runs.run_cons.mpr ⟨_,?_,ran.trans ?_⟩⟩
      · simp [Calls.step, open_, wrote, skipped]
      · cases released : releasePins a <;> simp only [wrote, released] at called <;>
          cases called <;> simp [Calls.released, released, Ending.blame, returned]
  | rollback t verdicts =>
    obtain ⟨txn,found,rfl⟩ := step_rollback taken
    have ready : (Calls.mk sys fun _ => none).ready t = some txn := ready_some.mpr ⟨rfl,found⟩
    have author := rollbackWrite_keeps (authored core t) (sys.enter t txn verdicts []) rfl
    obtain ⟨calls,ran⟩ := leave_run core ⟨sys,fun _ => none⟩ t .rolledBack author
    refine ⟨.rollback t verdicts :: calls,Runs.run_cons.mpr ⟨_,?_,ran.trans ?_⟩⟩
    · simp [Calls.step, ready]
    · rw [rollbackTransaction_final]
      cases releasePins (Effect.final (rollbackWrite (sys.enter t txn verdicts []))) <;>
        simp [Calls.released, Ending.blame, returned]

/-- So is every run of `step`, when each call returns before the next one begins. -/
theorem run_calls {events : List Event} (ran : Runs.run (step core) sys events = some next) :
    ∃ calls, Runs.run (Calls.step core) { sys } calls = some { sys := next } := by
  induction events generalizing sys with
  | nil => cases ran; exact ⟨[],rfl⟩
  | cons event rest ih =>
    obtain ⟨mid,taken,later⟩ := Runs.run_cons.mp ran
    obtain ⟨first,began⟩ := step_calls taken
    obtain ⟨second,ended⟩ := ih later
    exact ⟨first ++ second,Runs.run_append_some.mpr ⟨_,began,ended⟩⟩

end Whole

end TierDb
