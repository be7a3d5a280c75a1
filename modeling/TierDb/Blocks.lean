import TierDb.Catalog

/-! Transaction blocks on the shared connection. The write flag is set whenever the
session is inside a block, so that neither a write nor a scan sends a BEGIN there. -/
namespace TierDb

/-- `Conn::connect`, on what the database stores by then. -/
def Conn.connect (dsn : String) (stored : Snapshot) : Conn where
  client := { session := { durable := stored } }
  dsn := dsn

def Conn.withVerdicts (verdicts : List (Option String)) (conn : Conn) : Conn :=
  conn.setSession { conn.client.session with verdicts := verdicts }

/-- A call on the connection, or a change another session commits between two calls. -/
inductive ConnCall where
  | begin
  | commit
  | rollback
  | acquire (schema table : String)
  | release (pinId : Int)
  | chunk (kind : ChunkKind) (schema table : String) (rows : JsonText)
  | elsewhere (change : Database → Database)

def connCall (core : Core) : ConnCall → Pg Unit
  | .begin => txnBegin
  | .commit => txnCommit
  | .rollback => txnRollback
  | .acquire schema table => do
    let _ ← acquireScan core schema table
  | .release pinId => releasePin pinId
  | .chunk kind schema table rows => do
    let _ ← chunkFunction core kind schema table rows
  | .elsewhere change => modify fun conn => conn.setSession (alter change conn.client.session)

/-- Calls in order, each with the verdicts on its statements, whatever they return. -/
def Conn.calls (core : Core) (conn : Conn) : List (ConnCall × List (Option String)) → Conn
  | [] => conn
  | (call,verdicts) :: rest =>
    (Effect.final (connCall core call (conn.withVerdicts verdicts))).calls core rest

/-- The write flag and the blocks are as they were. -/
structure SameStatus (c d : Conn) : Prop where
  inTxn : d.inTxn = c.inTxn
  blocks : Sql.SameBlocks c.client.session d.client.session

theorem SameStatus.refl (c : Conn) : SameStatus c c := ⟨rfl,.refl _⟩

theorem SameStatus.trans {a b c : Conn} (first : SameStatus a b) (second : SameStatus b c) :
    SameStatus a c :=
  ⟨second.inTxn.trans first.inTxn,first.blocks.trans second.blocks⟩

/-- A computation that keeps the status, whether it returns or throws. -/
abbrev Steady {α : Type} (x : Pg α) : Prop := Effect.Moves SameStatus SameStatus x

section Steady

variable {core : Core} {α β : Type}

theorem Steady.final {x : Pg α} (steady : Steady x) (c : Conn) :
    SameStatus c (Effect.final (x c)) := by
  cases ran : x c with
  | ok a d => exact steady.ok c a d ran
  | error e d => exact steady.error c e d ran

theorem Steady.pure (a : α) : Steady (Pure.pure a : Pg α) := Effect.Moves.pure SameStatus.refl a

theorem Steady.ofExcept (x : Except String α) : Steady (Effect.ofExcept x : Pg α) :=
  Effect.Moves.ofExcept SameStatus.refl SameStatus.refl x

theorem Steady.bind {x : Pg α} {f : α → Pg β} (first : Steady x) (next : ∀ a, Steady (f a)) :
    Steady (x >>= f) :=
  Effect.Moves.bind (fun _ _ _ => .trans) (fun _ _ _ => .trans) first next

theorem onSession_steady {x : Sql.Exec Snapshot Int α}
    (same : Effect.Moves Sql.SameBlocks Sql.SameBlocks x) : Steady (onSession x) where
  ok c a d run := by
    obtain ⟨s,ran,rfl⟩ := onSession_ok.mp run
    exact ⟨rfl,same.ok _ _ _ ran⟩
  error c e d run := by
    obtain ⟨s,ran,rfl⟩ := onSession_error.mp run
    exact ⟨rfl,same.error _ _ _ ran⟩

theorem execute_steady (w : Write) : Steady (execute core w) := by
  refine (Effect.Moves.get SameStatus.refl).bind (fun _ _ _ => .trans) (fun _ _ _ => .trans)
    fun c => (onSession_steady (Sql.statement_sameBlocks _)).bind fun _ => ⟨?_,?_⟩
  · rintro s _ t ran
    cases ran
    exact ⟨rfl,.refl _⟩
  · rintro s _ t ran
    cases ran

theorem Sent.steady {x : Pg α} (sent : Sent core x) : Steady x := by
  induction sent with
  | pure a => exact .pure a
  | throw e => exact Effect.Moves.throw SameStatus.refl e
  | ofExcept x => exact .ofExcept x
  | get => exact Effect.Moves.get SameStatus.refl
  | query read => exact onSession_steady (Sql.statement_sameBlocks _)
  | execute w => exact execute_steady w
  | lock tableId => exact onSession_steady (Sql.lock_sameBlocks tableId)
  | bind _ _ first next => exact first.bind next
  | mapError _ f steady => exact steady.mapError f

theorem pinCut_steady (tableId : Int) (cut : Option Cutline) : Steady (pinCut tableId cut) := by
  cases cut with
  | none => exact .pure none
  | some cut =>
    refine .bind (.mapError ?_ _) fun pinId => .pure (some pinId)
    refine (Effect.Moves.get SameStatus.refl).bind (fun _ _ _ => .trans) (fun _ _ _ => .trans)
      fun c => Steady.bind ⟨?_,?_⟩ fun _ => onSession_steady (Sql.statement_sameBlocks _)
    · rintro s _ t ran
      cases ran
      exact ⟨rfl,.refl _⟩
    · rintro s _ t ran
      cases ran

theorem pinAndRender_steady (core : Core) (ts : TableSchema) (dsn : String)
    (lake : Option LakeCatalog) : Steady (pinAndRender core ts dsn lake) :=
  (cutline_sent core ts.tableId).steady.bind fun cut => (pinCut_steady ts.tableId cut).bind fun _ =>
    .bind (.ofExcept _) fun _ => .pure _

theorem releasePin_steady (pinId : Int) : Steady (releasePin pinId) :=
  (onSession_steady (Sql.statement_sameBlocks _)).mapError _

/-- The session is inside a block only while the flag is set, and no BEGIN has reached it
there. -/
structure Flagged (c : Conn) : Prop where
  inTxn : c.client.session.InBlock → c.inTxn = true
  nested : c.client.session.nested = 0

theorem Flagged.same {c d : Conn} (flagged : Flagged c) (same : SameStatus c d) : Flagged d where
  inTxn inside := same.inTxn.trans (flagged.inTxn (same.blocks.inBlock.mp inside))
  nested := same.blocks.nested.trans flagged.nested

theorem Flagged.idle {c : Conn} (flagged : Flagged c) (clear : c.inTxn = false) :
    c.client.session.block = .idle := by
  by_contra inside
  have set := flagged.inTxn inside
  simp [clear] at set

theorem Flagged.of_idle {c : Conn} (idle : c.client.session.block = .idle)
    (nested : c.client.session.nested = 0) : Flagged c :=
  ⟨fun inside => absurd idle inside,nested⟩

/-- A pin's own block is closed again at every exit. -/
theorem pinInOwnBlock_status {ts : TableSchema} {dsn : String} {lake : Option LakeCatalog} {c : Conn}
    (idle : c.client.session.block = .idle) :
    SameStatus c (Effect.final (pinInOwnBlock core ts dsn lake c)) := by
  have begun := Sql.beginBlock_idle idle
  cases verdict : c.client.session.verdict with
  | some e =>
    rw [verdict] at begun
    have refused : onSession Sql.beginBlock c = .error e (c.setSession c.client.session.next) :=
      onSession_error.mpr ⟨_,begun,rfl⟩
    unfold pinInOwnBlock
    rw [Effect.bind_of_error (Effect.mapError_error.mpr ⟨e,refused,rfl⟩)]
    exact ⟨rfl,.rfl,rfl⟩
  | none =>
    rw [verdict] at begun
    have opened := onSession_ok.mpr ⟨_,begun,rfl⟩
    unfold pinInOwnBlock
    rw [Effect.bind_of_ok (Effect.mapError_ok.mpr opened)]
    have rendered := (pinAndRender_steady core ts dsn lake).final (c.setSession
      { c.client.session.next with block := .open c.client.session.durable })
    obtain ⟨result,m,attempted⟩ : ∃ result m, Effect.attempt (pinAndRender core ts dsn lake)
        (c.setSession { c.client.session.next with block := .open c.client.session.durable }) =
          .ok result m := by
      unfold Effect.attempt
      split <;> exact ⟨_,_,rfl⟩
    have reached := Effect.final_attempt (pinAndRender core ts dsn lake) (c.setSession
      { c.client.session.next with block := .open c.client.session.durable })
    rw [attempted, Effect.final_ok] at reached
    rw [← reached] at rendered
    rw [Effect.bind_of_ok attempted]
    have outside : ∀ d : Conn, d.inTxn = m.inTxn → d.client.session.block = .idle →
        d.client.session.nested = m.client.session.nested → SameStatus c d := by
      intro d flag left nested
      refine ⟨flag.trans rendered.inTxn,?_,nested.trans rendered.blocks.nested⟩
      simp [Sql.Session.InBlock, left, idle]
    cases result with
    | error e => rw [endOwnBlock_error]; exact outside _ rfl rfl rfl
    | ok pinned =>
      rw [endOwnBlock_ok]
      split
      · exact outside _ rfl rfl rfl
      · exact outside _ rfl rfl rfl

/-- A scan leaves the flag and the blocks as it found them, at every exit. -/
theorem acquireScan_status (core : Core) {c : Conn} (flagged : Flagged c) (schema table : String) :
    SameStatus c (Effect.final (acquireScan core schema table c)) := by
  unfold acquireScan
  cases read : tableSchema core schema table c with
  | error e d =>
    rw [Effect.bind_of_error read]
    exact (tableSchema_sent core schema table).steady.error _ _ _ read
  | ok ts m =>
    have first := (tableSchema_sent core schema table).steady.ok _ _ _ read
    rw [Effect.bind_of_ok read, Effect.bind_of_ok (Effect.get_apply m)]
    cases found : scanLake core ts m with
    | error e d =>
      rw [Effect.bind_of_error found]
      exact first.trans ((scanLake_sent ts).steady.error _ _ _ found)
    | ok lake m' =>
      have second := first.trans ((scanLake_sent ts).steady.ok _ _ _ found)
      rw [Effect.bind_of_ok found, Effect.bind_of_ok (Effect.get_apply m')]
      cases flag : m'.inTxn with
      | true => exact second.trans ((pinAndRender_steady core ts m.dsn lake).final m')
      | false => exact second.trans (pinInOwnBlock_status ((flagged.same second).idle flag))

theorem txnBegin_flagged {c : Conn} (flagged : Flagged c) : Flagged (Effect.final (txnBegin c)) := by
  rw [txnBegin_apply]
  cases flag : c.inTxn with
  | true => exact flagged
  | false =>
    have idle := flagged.idle flag
    rw [Sql.beginBlock_idle idle]
    cases c.client.session.verdict with
    | some e => exact .of_idle idle flagged.nested
    | none => exact ⟨fun _ => rfl,flagged.nested⟩

theorem txnCommit_flagged {c : Conn} (flagged : Flagged c) :
    Flagged (Effect.final (txnCommit c)) := by
  rw [txnCommit_apply]
  cases flag : c.inTxn with
  | false => exact flagged
  | true =>
    rw [Sql.commit_apply]
    cases c.client.session.verdict with
    | some e => exact .of_idle rfl flagged.nested
    | none => exact .of_idle rfl flagged.nested

theorem txnRollback_flagged {c : Conn} (flagged : Flagged c) :
    Flagged (Effect.final (txnRollback c)) := by
  rw [txnRollback_apply]
  cases flag : c.inTxn with
  | false => exact flagged
  | true =>
    unfold Sql.rollback
    cases c.client.session.verdict with
    | some e => exact .of_idle rfl flagged.nested
    | none => exact .of_idle rfl flagged.nested

theorem alter_blocks (change : Database → Database) (s : Sql.Session Snapshot Int) :
    Sql.SameBlocks s (alter change s) := by
  refine ⟨?_,rfl⟩
  cases h : s.block <;> simp [Sql.Session.InBlock, alter, h]

end Steady

section Calls

variable {core : Core}

theorem connCall_flagged {c : Conn} (flagged : Flagged c) (call : ConnCall) :
    Flagged (Effect.final (connCall core call c)) := by
  cases call with
  | begin => exact txnBegin_flagged flagged
  | commit => exact txnCommit_flagged flagged
  | rollback => exact txnRollback_flagged flagged
  | acquire schema table =>
    have same := acquireScan_status core flagged schema table
    cases ran : acquireScan core schema table c <;>
      simpa [connCall, Effect.map_apply, ran] using flagged.same (by simpa [ran] using same)
  | release pinId => exact flagged.same ((releasePin_steady pinId).final c)
  | chunk kind schema table rows =>
    have same := (chunkFunction_sent core kind schema table rows).steady.final c
    cases ran : chunkFunction core kind schema table rows c <;>
      simpa [connCall, Effect.map_apply, ran] using flagged.same (by simpa [ran] using same)
  | elsewhere change => exact flagged.same ⟨rfl,alter_blocks change c.client.session⟩

theorem calls_flagged (core : Core) {c : Conn} (flagged : Flagged c)
    (calls : List (ConnCall × List (Option String))) : Flagged (c.calls core calls) := by
  induction calls generalizing c with
  | nil => exact flagged
  | cons step rest ih =>
    have ready : Flagged (c.withVerdicts step.2) := ⟨flagged.inTxn,flagged.nested⟩
    exact ih (connCall_flagged ready step.1)

theorem connect_flagged (dsn : String) (stored : Snapshot) : Flagged (Conn.connect dsn stored) :=
  .of_idle rfl rfl

/-- Whatever is called and whatever the server refuses, no BEGIN reaches the session inside
a block, and a scan that follows leaves the flag and the block status as it found them. -/
theorem blocks_never_nest (core : Core) (dsn : String) (stored : Snapshot)
    (calls : List (ConnCall × List (Option String))) (schema table : String)
    (verdicts : List (Option String)) :
    let conn := (Conn.connect dsn stored).calls core calls
    let after := Effect.final (acquireScan core schema table (conn.withVerdicts verdicts))
    conn.client.session.nested = 0 ∧ after.inTxn = conn.inTxn ∧
      (after.client.session.InBlock ↔ conn.client.session.InBlock) := by
  have flagged := calls_flagged core (connect_flagged dsn stored) calls
  have ready : Flagged (((Conn.connect dsn stored).calls core calls).withVerdicts verdicts) :=
    ⟨flagged.inTxn,flagged.nested⟩
  have same := acquireScan_status core ready schema table
  exact ⟨flagged.nested,same.inTxn,same.blocks.inBlock⟩

end Calls

end TierDb
