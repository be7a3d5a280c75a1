import TierDb.Library.Leases
import TierDb.Calls
import TierDb.Reference

/-! Read pins as other sessions see them. A pin is safe when its row is durable; it is
so when it was inserted outside any write block of the shared connection, and it is
gone for good when its release ran outside one. -/
namespace TierDb

def Conn.durablePins (conn : Conn) : List Pin := conn.client.session.durable.database.pins

/-- The connection's flag tells whether a block is open, and an open block has changed
no pin. -/
def Conn.Calm (conn : Conn) : Prop :=
  (conn.inTxn = false ∧ conn.client.session.block = .idle) ∨
  (conn.inTxn = true ∧ (conn.client.session.block = .aborted ∨
    ∃ w, conn.client.session.block = .open w ∧ w.database.pins = conn.durablePins))

/-- A change of the connection that leaves every durable pin alone. -/
structure KeepsPins (c d : Conn) : Prop where
  pins : d.durablePins = c.durablePins
  calm : d.Calm
  sequence : c.client.sequence ≤ d.client.sequence

variable {core : Core}

theorem Sends.keepsPins {aborts : Prop} {c d : Conn} (sends : Sends core aborts c d)
    (calm : c.Calm) : KeepsPins c d := by
  obtain ⟨new,_,moved⟩ := sends.sent
  rcases calm with ⟨flag,idle⟩ | ⟨flag,aborted | ⟨w,inside,same⟩⟩
  · simp only [BlockMoves, idle] at moved
    exact ⟨moved.2.catalog.pins,.inl ⟨sends.inTxn.trans flag,moved.1⟩,sends.sequence.ge⟩
  · simp only [BlockMoves, aborted] at moved
    have pins : d.durablePins = c.durablePins := by rw [Conn.durablePins, moved.2.1]; rfl
    exact ⟨pins,.inr ⟨sends.inTxn.trans flag,.inl moved.1⟩,sends.sequence.ge⟩
  · simp only [BlockMoves, inside] at moved
    obtain ⟨durable,outcome⟩ := moved
    have pins : d.durablePins = c.durablePins := by rw [Conn.durablePins, durable]; rfl
    refine ⟨pins,.inr ⟨sends.inTxn.trans flag,?_⟩,sends.sequence.ge⟩
    rcases outcome with ⟨w',still,grew⟩ | ⟨_,aborted⟩
    · exact .inr ⟨w',still,by rw [grew.catalog.pins, same, pins]⟩
    · exact .inl aborted

theorem KeepsPins.trans {a b c : Conn} (first : KeepsPins a b) (second : KeepsPins b c) :
    KeepsPins a c :=
  ⟨second.pins.trans first.pins,second.calm,first.sequence.trans second.sequence⟩

/-- Beginning a write keeps the pins; it fails without a trace. -/
theorem ensureWriteTxn_keepsPins {a : Attached} (calm : a.conn.Calm) :
    KeepsPins a.conn (Effect.final (ensureWriteTxn a)).conn ∧
      (Effect.final (ensureWriteTxn a)).txn.pins = a.txn.pins := by
  cases active : a.txn.writeActive with
  | true =>
    rw [ensureWriteTxn_apply, if_pos active]
    exact ⟨⟨rfl,calm,Int.le_refl _⟩,rfl⟩
  | false =>
    rcases calm with ⟨flag,idle⟩ | ⟨flag,inside⟩
    · rcases ensureWriteTxn_idle active flag idle with ⟨e,refused⟩ | begun
      · rw [refused]
        exact ⟨⟨rfl,.inl ⟨flag,idle⟩,Int.le_refl _⟩,rfl⟩
      · rw [begun]
        exact ⟨⟨rfl,.inr ⟨rfl,.inr ⟨_,rfl,rfl⟩⟩,Int.le_refl _⟩,rfl⟩
    · rw [ensureWriteTxn_apply, if_neg (by simp [active]), txnBegin_apply, if_pos flag]
      exact ⟨⟨rfl,.inr ⟨flag,inside⟩,Int.le_refl _⟩,rfl⟩

theorem chunkFunction_keepsPins (core : Core) (kind : ChunkKind) (schema table : String)
    (rows : JsonText) {a : Attached} (calm : a.conn.Calm) :
    let d := Effect.final (client (chunkFunction core kind schema table rows) a)
    KeepsPins a.conn d.conn ∧ d.txn = a.txn := by
  have framed := (chunkFunction_sent core kind schema table rows).framed
  rw [client_apply]
  cases ran : chunkFunction core kind schema table rows a.conn with
  | ok outcome c => exact ⟨(framed.ok _ _ _ ran).keepsPins calm,rfl⟩
  | error e c => exact ⟨(framed.error _ _ _ ran).keepsPins calm,rfl⟩

/-- What the session reads has the durable pins. -/
theorem Conn.Calm.view {c : Conn} (calm : c.Calm) :
    c.client.session.view.database.pins = c.durablePins := by
  rcases calm with ⟨_,idle⟩ | ⟨_,aborted | ⟨w,inside,same⟩⟩
  · simp [Sql.Session.view, idle, Conn.durablePins]
  · simp [Sql.Session.view, aborted, Conn.durablePins]
  · simp [Sql.Session.view, inside, same]

theorem KeepsPins.ended {c : Conn} {durable : Snapshot}
    (pins : durable.database.pins = c.durablePins) :
    KeepsPins c { c.setSession { c.client.session.leave with durable } with inTxn := false } :=
  ⟨pins,.inl ⟨rfl,rfl⟩,Int.le_refl _⟩

/-- A `CommitWrite` that the server does not refuse makes no pin durable. -/
theorem commitWrite_keepsPins {a : Attached} (calm : a.conn.Calm)
    (quiet : a.conn.client.session.verdicts = []) :
    KeepsPins a.conn (Effect.final (commitWrite a)).conn := by
  have unchanged : KeepsPins a.conn a.conn := ⟨rfl,calm,Int.le_refl _⟩
  have verdict : a.conn.client.session.verdict = none := by simp [Sql.Session.verdict, quiet]
  cases active : a.txn.writeActive with
  | false => simpa [commitWrite_apply, active] using unchanged
  | true =>
    cases flag : a.conn.inTxn with
    | false => simpa [commitWrite_apply, txnCommit_apply, active, flag] using unchanged
    | true =>
      rw [commitWrite_active active flag, verdict]
      exact .ended calm.view

theorem rollbackWrite_keepsPins {a : Attached} (calm : a.conn.Calm)
    (quiet : a.conn.client.session.verdicts = []) :
    KeepsPins a.conn (Effect.final (rollbackWrite a)).conn := by
  have unchanged : KeepsPins a.conn a.conn := ⟨rfl,calm,Int.le_refl _⟩
  have verdict : a.conn.client.session.verdict = none := by simp [Sql.Session.verdict, quiet]
  cases active : a.txn.writeActive with
  | false => simpa [rollbackWrite_apply, active] using unchanged
  | true =>
    cases flag : a.conn.inTxn with
    | false => simpa [rollbackWrite_apply, txnRollback_apply, active, flag] using unchanged
    | true =>
      rw [rollbackWrite_active active flag, verdict]
      exact .ended (show a.conn.client.session.durable.database.pins = a.conn.durablePins from rfl)

/-- Released outside a block, the pin is durably gone. -/
theorem releasePin_idle (id : Int) {c : Conn} (idle : c.client.session.block = .idle)
    (quiet : c.client.session.verdicts = []) :
    ∃ d, releasePin id c = .ok () d ∧ d.inTxn = c.inTxn ∧ d.client.session.block = .idle ∧
      d.client.session.verdicts = [] ∧ d.client.sequence = c.client.sequence ∧
      d.durablePins = c.durablePins.filter (·.pinId ≠ id) := by
  have sent := Sql.statement_of_quiet (fun snapshot : Snapshot => .ok ((),{ snapshot with
    database := { snapshot.database with
      pins := snapshot.database.pins.filter (·.pinId ≠ id) } })) quiet (by simp [idle])
  simp only [Sql.Session.write, Sql.next_block, idle] at sent
  refine ⟨_,Effect.mapError_ok.mpr (onSession_ok.mpr ⟨_,sent,rfl⟩),rfl,?_,?_,rfl,?_⟩
  · simp [Conn.setSession]
  · simp [Conn.setSession, Sql.Session.next, quiet]
  · simp [Conn.setSession, Conn.durablePins, Sql.Session.view, idle]

/-- Inside a block: the durable state is untouched. -/
structure Hidden (c d : Conn) : Prop where
  durable : d.client.session.durable = c.client.session.durable
  inTxn : d.inTxn = c.inTxn
  sequence : c.client.sequence ≤ d.client.sequence

theorem Hidden.refl (c : Conn) : Hidden c c := ⟨rfl,rfl,Int.le_refl _⟩

theorem Hidden.trans {a b c : Conn} (first : Hidden a b) (second : Hidden b c) : Hidden a c :=
  ⟨second.durable.trans first.durable,second.inTxn.trans first.inTxn,
    first.sequence.trans second.sequence⟩

theorem Sends.hidden {aborts : Prop} {c d : Conn} {w : Snapshot} (sends : Sends core aborts c d)
    (inside : c.client.session.block = .open w) : Hidden c d := by
  obtain ⟨new,_,moved⟩ := sends.sent
  simp only [BlockMoves, inside] at moved
  exact ⟨moved.1,sends.inTxn,sends.sequence.ge⟩

theorem Sends.inside {c d : Conn} {w : Snapshot} (sends : Sends core False c d)
    (inside : c.client.session.block = .open w) :
    ∃ w', d.client.session.block = .open w' ∧ w'.database.pins = w.database.pins := by
  obtain ⟨new,_,moved⟩ := sends.sent
  simp only [BlockMoves, inside, false_and, or_false] at moved
  obtain ⟨_,w',still,grew⟩ := moved
  exact ⟨w',still,grew.catalog.pins⟩

/-- What the optional pin of a scan adds inside a block; its id is the sequence's. -/
def Adds (c d : Conn) (w w' : Snapshot) (pinId : Option Int) : Prop :=
  (pinId = none ∧ w'.database.pins = w.database.pins) ∨
  ∃ pin : Pin, pinId = some pin.pinId ∧ pin.pinId = c.client.sequence ∧
    d.client.sequence = c.client.sequence + 1 ∧ w'.database.pins = w.database.pins ++ [pin]

theorem pinCut_ok {tableId : Int} {cut : Option Cutline} {c d : Conn} {pinId : Option Int}
    {w : Snapshot} (inside : c.client.session.block = .open w)
    (run : pinCut tableId cut c = .ok pinId d) :
    Hidden c d ∧ ∃ w', d.client.session.block = .open w' ∧ Adds c d w w' pinId := by
  cases cut with
  | none =>
    cases run
    exact ⟨.refl c,w,inside,.inl ⟨rfl,rfl⟩⟩
  | some cut =>
    obtain ⟨id,m,acquired,done⟩ := Effect.bind_ok.mp run
    cases done
    obtain ⟨_,_,got,acquired⟩ := Effect.bind_ok.mp (Effect.mapError_ok.mp acquired)
    cases got
    obtain ⟨_,_,moved,sent⟩ := Effect.bind_ok.mp acquired
    cases moved
    obtain ⟨s,ran,rfl⟩ := onSession_ok.mp sent
    obtain ⟨value,wrote,_,_,rfl⟩ := Sql.statement_ok ran
    cases wrote
    simp only [Sql.Session.view, inside, Sql.Session.write, Sql.next_block]
    exact ⟨⟨rfl,rfl,Int.le_add_one (Int.le_refl _)⟩,_,rfl,.inr ⟨_,rfl,rfl,rfl,rfl⟩⟩

theorem pinCut_error {tableId : Int} {cut : Option Cutline} {c d : Conn} {e : String}
    (run : pinCut tableId cut c = .error e d) : Hidden c d := by
  cases cut with
  | none => cases run
  | some cut =>
    rcases Effect.bind_error.mp run with acquired | ⟨_,_,_,done⟩
    · obtain ⟨_,acquired,_⟩ := Effect.mapError_error.mp acquired
      rcases Effect.bind_error.mp acquired with got | ⟨_,_,got,acquired⟩
      · cases got
      cases got
      rcases Effect.bind_error.mp acquired with moved | ⟨_,_,moved,sent⟩
      · cases moved
      cases moved
      obtain ⟨s,ran,rfl⟩ := onSession_error.mp sent
      rw [Sql.statement_error ran]
      exact ⟨by simp [Conn.setSession],rfl,Int.le_add_one (Int.le_refl _)⟩
    · cases done

/-- `pinAndRender` inside a block. -/
theorem pinAndRender_ok {ts : TableSchema} {dsn : String} {lake : Option LakeCatalog}
    {c d : Conn} {pinned : PinnedScan} {w : Snapshot}
    (inside : c.client.session.block = .open w)
    (run : pinAndRender core ts dsn lake c = .ok pinned d) :
    Hidden c d ∧ ∃ w', d.client.session.block = .open w' ∧ Adds c d w w' pinned.pinId := by
  obtain ⟨cut,m,cutRead,run⟩ := Effect.bind_ok.mp run
  obtain ⟨pinId,m',pinned',run⟩ := Effect.bind_ok.mp run
  obtain ⟨scanSql,m'',rendered,done⟩ := Effect.bind_ok.mp run
  obtain ⟨_,rfl⟩ := Effect.ofExcept_ok.mp rendered
  cases done
  have sends := (cutline_sent core ts.tableId).framed.ok _ _ _ cutRead
  obtain ⟨w₁,inside₁,same⟩ := sends.inside inside
  obtain ⟨hidden,w₂,inside₂,adds⟩ := pinCut_ok inside₁ pinned'
  refine ⟨(sends.hidden inside).trans hidden,w₂,inside₂,?_⟩
  rw [Adds, sends.sequence, same] at adds
  exact adds

theorem pinAndRender_error {ts : TableSchema} {dsn : String} {lake : Option LakeCatalog}
    {c d : Conn} {e : String} {w : Snapshot} (inside : c.client.session.block = .open w)
    (run : pinAndRender core ts dsn lake c = .error e d) : Hidden c d := by
  rcases Effect.bind_error.mp run with failed | ⟨cut,m,cutRead,run⟩
  · exact ((cutline_sent core ts.tableId).framed.error _ _ _ failed).hidden inside
  have sends := (cutline_sent core ts.tableId).framed.ok _ _ _ cutRead
  have first := sends.hidden inside
  obtain ⟨w₁,inside₁,_⟩ := sends.inside inside
  rcases Effect.bind_error.mp run with failed | ⟨pinId,m',pinned,run⟩
  · exact first.trans (pinCut_error failed)
  have second := first.trans (pinCut_ok inside₁ pinned).1
  rcases Effect.bind_error.mp run with failed | ⟨scanSql,m'',rendered,done⟩
  · have still := Effect.final_ofExcept (renderPinned core ts dsn lake cut) m'
    rw [failed] at still
    obtain rfl : d = m' := still
    exact second
  · cases done

/-- What a scan outside a block does to the durable pins. -/
structure Scanned (c d : Conn) (pinId : Option Int) : Prop where
  calm : d.Calm
  sequence : c.client.sequence ≤ d.client.sequence
  pins : (pinId = none ∧ d.durablePins = c.durablePins) ∨
    ∃ pin : Pin, pinId = some pin.pinId ∧ pin.pinId = c.client.sequence ∧
      d.client.sequence = c.client.sequence + 1 ∧ d.durablePins = c.durablePins ++ [pin]

def ScanOutcome (c : Conn) : EStateM.Result String Conn PinnedScan → Prop
  | .ok pinned d => Scanned c d pinned.pinId
  | .error _ d => KeepsPins c d

theorem ScanOutcome.after {a b : Conn} {result : EStateM.Result String Conn PinnedScan}
    (first : KeepsPins a b) (sequence : b.client.sequence = a.client.sequence)
    (outcome : ScanOutcome b result) : ScanOutcome a result := by
  cases result with
  | error e d => exact first.trans outcome
  | ok pinned d =>
    refine ⟨outcome.calm,first.sequence.trans outcome.sequence,?_⟩
    have pins := outcome.pins
    rwa [first.pins, sequence] at pins

theorem KeepsPins.scanned {c d : Conn} (keeps : KeepsPins c d) : Scanned c d none :=
  ⟨keeps.calm,keeps.sequence,.inl ⟨rfl,keeps.pins⟩⟩

theorem Hidden.keepsPins {c d e : Conn} (hidden : Hidden c d) (flag : e.inTxn = false)
    (idle : e.client.session.block = .idle)
    (durable : e.client.session.durable = d.client.session.durable)
    (sequence : e.client.sequence = d.client.sequence) : KeepsPins c e :=
  ⟨by rw [Conn.durablePins, durable, hidden.durable]; rfl,.inl ⟨flag,idle⟩,
    sequence ▸ hidden.sequence⟩

/-- The end of a pin's own block: COMMIT makes the pin durable, anything else leaves no
trace of it. -/
theorem endOwnBlock_pins {result : Except String PinnedScan} {c m : Conn} (hidden : Hidden c m)
    (clear : c.inTxn = false)
    (adds : ∀ pinned, result = .ok pinned → ∃ w', m.client.session.block = .open w' ∧
      ((pinned.pinId = none ∧ w'.database.pins = c.durablePins) ∨
        ∃ pin : Pin, pinned.pinId = some pin.pinId ∧ pin.pinId = c.client.sequence ∧
          m.client.sequence = c.client.sequence + 1 ∧
          w'.database.pins = c.durablePins ++ [pin])) :
    ScanOutcome c (endOwnBlock result m) := by
  have flag : m.inTxn = false := hidden.inTxn.trans clear
  cases result with
  | error e =>
    rw [endOwnBlock_error]
    exact hidden.keepsPins flag rfl rfl rfl
  | ok pinned =>
    obtain ⟨w',inside,pins⟩ := adds pinned rfl
    have view : m.client.session.view = w' := by simp [Sql.Session.view, inside]
    rw [endOwnBlock_ok, view]
    cases verdict : m.client.session.verdict with
    | some e => exact hidden.keepsPins flag rfl rfl rfl
    | none => exact ⟨.inl ⟨flag,rfl⟩,hidden.sequence,pins⟩

theorem pinInOwnBlock_pins {ts : TableSchema} {dsn : String} {lake : Option LakeCatalog}
    {c : Conn} (clear : c.inTxn = false) (idle : c.client.session.block = .idle) :
    ScanOutcome c (pinInOwnBlock core ts dsn lake c) := by
  have begun := Sql.beginBlock_idle idle
  cases verdict : c.client.session.verdict with
  | some e =>
    have refused : pinInOwnBlock core ts dsn lake c =
        .error ("read pin BEGIN failed: " ++ e) (c.setSession c.client.session.next) :=
      Effect.bind_of_error (Effect.mapError_error.mpr
        ⟨e,onSession_error.mpr ⟨_,by rw [begun, verdict],rfl⟩,rfl⟩)
    rw [refused]
    exact ⟨rfl,.inl ⟨clear,idle⟩,Int.le_refl _⟩
  | none =>
    have opened : onSession Sql.beginBlock c = .ok () (c.setSession
        { c.client.session.next with block := .open c.client.session.durable }) :=
      onSession_ok.mpr ⟨_,by rw [begun, verdict],rfl⟩
    unfold pinInOwnBlock
    rw [Effect.bind_of_ok (Effect.mapError_ok.mpr opened)]
    obtain ⟨m,own⟩ : ∃ m, c.setSession { c.client.session.next with
      block := .open c.client.session.durable } = m := ⟨_,rfl⟩
    have hidden : Hidden c m := own ▸ ⟨rfl,rfl,Int.le_refl _⟩
    have inside : m.client.session.block = .open c.client.session.durable := own ▸ rfl
    have sequence : m.client.sequence = c.client.sequence := own ▸ rfl
    rw [own]
    cases ran : pinAndRender core ts dsn lake m with
    | error e d =>
      rw [Effect.bind_of_ok (a := .error e) (t := d) (by simp [Effect.attempt, ran])]
      exact endOwnBlock_pins (hidden.trans (pinAndRender_error inside ran)) clear
        (fun pinned same => by cases same)
    | ok pinned d =>
      rw [Effect.bind_of_ok (a := .ok pinned) (t := d) (by simp [Effect.attempt, ran])]
      obtain ⟨moved,w',still,adds⟩ := pinAndRender_ok inside ran
      refine endOwnBlock_pins (hidden.trans moved) clear fun other same => ?_
      cases same
      rw [Adds, sequence] at adds
      exact ⟨w',still,adds⟩

/-- The table has no cut-line yet, so that a scan of it pins nothing. -/
def Database.NoCut (db : Database) (schema table : String) : Prop :=
  ∀ row, db.findTable schema table = .ok (some row) → db.cutline row.tableId = none

/-- Joining an open block for a table without a cut-line sends only queries. -/
theorem pinAndRender_noCut {ts : TableSchema} {dsn : String} {lake : Option LakeCatalog}
    {c : Conn} (calm : c.Calm) (uncut : c.db.cutline ts.tableId = none) :
    ScanOutcome c (pinAndRender core ts dsn lake c) := by
  unfold pinAndRender
  cases cutRead : cutline core ts.tableId c with
  | error e m =>
    rw [Effect.bind_of_error cutRead]
    exact ((cutline_sent core ts.tableId).framed.error _ _ _ cutRead).keepsPins calm
  | ok cut m =>
    have keeps := ((cutline_sent core ts.tableId).framed.ok _ _ _ cutRead).keepsPins calm
    have noCut := cutlineOf_some core ((cutline_reads core ts.tableId).ok _ _ _ cutRead).1
    rw [uncut, Option.map_none, Option.map_eq_none_iff] at noCut
    subst noCut
    have skipped : pinCut ts.tableId none m = .ok none m := rfl
    rw [Effect.bind_of_ok cutRead, Effect.bind_of_ok skipped]
    cases renderPinned core ts dsn lake none with
    | error e => exact keeps
    | ok scanSql => exact keeps.scanned

/-- A scan pins durably outside a block, and may join one only if it pins nothing. -/
theorem acquireScan_pins (core : Core) (schema table : String) {c : Conn} (calm : c.Calm)
    (allowed : c.inTxn = true → c.db.NoCut schema table) :
    ScanOutcome c (acquireScan core schema table c) := by
  unfold acquireScan
  cases read : tableSchema core schema table c with
  | error e m =>
    rw [Effect.bind_of_error read]
    exact ((tableSchema_sent core schema table).framed.error _ _ _ read).keepsPins calm
  | ok ts m =>
    have sends := (tableSchema_sent core schema table).framed.ok _ _ _ read
    have first := sends.keepsPins calm
    rw [Effect.bind_of_ok read, Effect.bind_of_ok (Effect.get_apply m)]
    cases lakeRead : scanLake core ts m with
    | error e m' =>
      rw [Effect.bind_of_error lakeRead]
      exact first.trans (((scanLake_sent ts).framed.error _ _ _ lakeRead).keepsPins first.calm)
    | ok lake m' =>
      have sends' := (scanLake_sent ts).framed.ok _ _ _ lakeRead
      have second := first.trans (sends'.keepsPins first.calm)
      have flag : m'.inTxn = c.inTxn := sends'.inTxn.trans sends.inTxn
      rw [Effect.bind_of_ok lakeRead, Effect.bind_of_ok (Effect.get_apply m')]
      refine ScanOutcome.after second (sends'.sequence.trans sends.sequence) ?_
      split
      · rename_i inside
        obtain ⟨row,found,_,_,shape⟩ :=
          tableSchema_some core ((tableSchema_reads core schema table).ok _ _ _ read).1
        obtain ⟨_,took⟩ := sends.took
        obtain ⟨_,took'⟩ := sends'.took
        apply pinAndRender_noCut second.calm
        rw [took'.catalog.cutline, took.catalog.cutline, shape]
        exact allowed (flag ▸ inside) row found
      · rename_i outside
        rcases second.calm with ⟨clear,idle⟩ | ⟨busy,_⟩
        · exact pinInOwnBlock_pins clear idle
        · exact absurd busy outside

/-- What a scan call does to the transaction's pins and the durable ones. -/
def ScanEffect (a b : Attached) : Prop :=
  (b.txn.pins = a.txn.pins ∧ KeepsPins a.conn b.conn) ∨
  ∃ pin : Pin, pin.pinId = a.conn.client.sequence ∧ b.txn.pins = a.txn.pins ++ [pin.pinId] ∧
    b.conn.Calm ∧ b.conn.client.sequence = a.conn.client.sequence + 1 ∧
    b.conn.durablePins = a.conn.durablePins ++ [pin]

theorem getPinnedScan_effect {ref : TableRef} {a : Attached} (calm : a.conn.Calm)
    (allowed : (∃ hit ∈ a.txn.scanByTable, hit.1 = ref.tableId) ∨ a.conn.inTxn = false ∨
      a.conn.db.NoCut ref.schemaName ref.tableName) :
    ScanEffect a (Effect.final (getPinnedScan core ref a)) := by
  unfold getPinnedScan
  rw [Effect.bind_of_ok (Effect.get_apply a)]
  cases cached : a.txn.scanByTable.find? (·.1 = ref.tableId) with
  | some hit => exact .inl ⟨rfl,rfl,calm,Int.le_refl _⟩
  | none =>
    have joins : a.conn.inTxn = true → a.conn.db.NoCut ref.schemaName ref.tableName := by
      intro inside
      rcases allowed with ⟨hit,member,same⟩ | clear | uncut
      · simp only [List.find?_eq_none, decide_eq_true_eq] at cached
        exact absurd same (cached hit member)
      · simp [inside] at clear
      · exact uncut
    have outcome : ScanOutcome a.conn
        (acquireScan core ref.schemaName ref.tableName a.conn) :=
      acquireScan_pins core ref.schemaName ref.tableName calm joins
    cases ran : acquireScan core ref.schemaName ref.tableName a.conn with
    | error e c =>
      rw [ran] at outcome
      have kept : KeepsPins a.conn c := outcome
      refine .inl ?_
      simpa [acquireReadScan, Effect.bind_apply, Effect.map_apply, client_apply, ran] using kept
    | ok pinned c =>
      rw [ran] at outcome
      have scanned : Scanned a.conn c pinned.pinId := outcome
      rcases scanned.pins with ⟨nothing,pins⟩ | ⟨pin,new,fresh,sequence,pins⟩
      · have kept : KeepsPins a.conn c := ⟨pins,scanned.calm,scanned.sequence⟩
        refine .inl ?_
        simpa [acquireReadScan, Effect.bind_apply, Effect.map_apply, client_apply, ran, nothing,
          onTxn] using kept
      · refine .inr ⟨pin,fresh,?_⟩
        simpa [acquireReadScan, Effect.bind_apply, Effect.map_apply, client_apply, ran, new,
          onTxn] using And.intro scanned.calm (And.intro sequence pins)

/-- The pins a transaction holds; at its boundary, the ones still to be released. -/
def Calls.pins (c : Calls) (t : Nat) : List Int :=
  match c.pending t with
  | some (.release _ ids) => ids
  | _ => ((c.sys.transactions t).map TierDBTransaction.pins).getD []

/-- Every pin a transaction holds is durable, and every durable pin that the extension
made is held by a transaction. -/
structure PinsHeld (first : Int) (c : Calls) : Prop where
  held : ∀ t, ∀ id ∈ c.pins t, ∃ pin ∈ c.sys.durable.pins, pin.pinId = id
  gone : ∀ pin ∈ c.sys.durable.pins, first ≤ pin.pinId → ∃ t, pin.pinId ∈ c.pins t

/-- A scan acquires its pin outside any write block, and a boundary releases each of its
pins outside one. -/
def Calls.OutsideBlocks (c : Calls) : Call → Prop
  | .scan t ref _ => ∀ txn, c.sys.transactions t = some txn →
      (∃ hit ∈ txn.scanByTable, hit.1 = ref.tableId) ∨ c.sys.conn.inTxn = false ∨
        c.sys.conn.db.NoCut ref.schemaName ref.tableName
  | .resume t _ _ => ∀ ending id rest, c.pending t = some (.release ending (id :: rest)) →
      c.sys.conn.inTxn = false
  | _ => True

/-- The server refuses no statement of a boundary. -/
def Calls.QuietEnd (c : Calls) : Call → Prop
  | .commit _ verdicts | .rollback _ verdicts => verdicts = []
  | .resume t verdicts _ => ∀ ending pins, c.pending t = some (.release ending pins) →
      verdicts = []
  | _ => True

section Held

variable {core : Core} {first : Int} {c next : Calls} {t : Nat} {txn : TierDBTransaction}

/-- The pins as leases of their transactions, visible when durable. -/
def Calls.leases (first : Int) (c : Calls) : Leases.Table Nat Int where
  held t := {id | id ∈ c.pins t}
  visible := {id | first ≤ id ∧ ∃ pin ∈ c.sys.conn.durablePins, pin.pinId = id}

structure Guarded (first : Int) (c : Calls) : Prop where
  calm : c.sys.conn.Calm
  balanced : Leases.Balanced (c.leases first)
  below : ∀ t, ∀ id ∈ c.pins t, id < c.sys.conn.client.sequence
  first_le : first ≤ c.sys.conn.client.sequence
  nodup : ∀ t, (c.pins t).Nodup
  closed : ∀ t, c.sys.transactions t = none → c.pins t = []

theorem Guarded.pinsHeld (guarded : Guarded first c) : PinsHeld first c where
  held t _ member := (guarded.balanced.held_visible (o := t) member).2
  gone pin member low := guarded.balanced.visible_held ⟨low,pin,member,rfl⟩

/-- All that a call does to the pins: nothing, one new pin with the next id, or the release
of the first pin of a boundary. -/
inductive PinStep (c next : Calls) : Prop
  | same (pins : next.pins = c.pins)
      (durable : next.sys.conn.durablePins = c.sys.conn.durablePins)
  | acquired (t : Nat) (pin : Pin) (fresh : pin.pinId = c.sys.conn.client.sequence)
      (sequence : next.sys.conn.client.sequence = c.sys.conn.client.sequence + 1)
      (pins : next.pins = Function.update c.pins t (c.pins t ++ [pin.pinId]))
      (durable : next.sys.conn.durablePins = c.sys.conn.durablePins ++ [pin])
  | released (t : Nat) (id : Int) (rest : List Int) (held : c.pins t = id :: rest)
      (pins : next.pins = Function.update c.pins t rest)
      (durable : next.sys.conn.durablePins =
        c.sys.conn.durablePins.filter (·.pinId ≠ id))

structure LeaseStep (c next : Calls) : Prop where
  calm : next.sys.conn.Calm
  sequence : c.sys.conn.client.sequence ≤ next.sys.conn.client.sequence
  closed : ∀ t, next.sys.transactions t = none → next.pins t = []
  pins : PinStep c next

theorem leases_acquired {pin : Pin} (low : first ≤ pin.pinId)
    (pins : next.pins = Function.update c.pins t (c.pins t ++ [pin.pinId]))
    (durable : next.sys.conn.durablePins = c.sys.conn.durablePins ++ [pin]) :
    next.leases first = (c.leases first).acquire t pin.pinId := by
  ext u id
  · rw [Leases.mem_acquire]
    by_cases same : u = t
    · subst same; simp [Calls.leases, pins, or_comm]
    · simp [Calls.leases, pins, same]
  · simp only [Calls.leases, durable, Leases.Table.acquire, Set.mem_ofPred_eq,
      Set.mem_insert_iff, List.mem_append, List.mem_singleton]
    constructor
    · rintro ⟨floor,p,old | rfl,rfl⟩
      · exact .inr ⟨floor,p,old,rfl⟩
      · exact .inl rfl
    · rintro (rfl | ⟨floor,p,old,rfl⟩)
      · exact ⟨low,pin,.inr rfl,rfl⟩
      · exact ⟨floor,p,.inl old,rfl⟩

theorem leases_released {id : Int} {rest : List Int} (nodup : (c.pins t).Nodup)
    (held : c.pins t = id :: rest) (pins : next.pins = Function.update c.pins t rest)
    (durable : next.sys.conn.durablePins = c.sys.conn.durablePins.filter (·.pinId ≠ id)) :
    next.leases first = (c.leases first).release t id := by
  ext u other
  · rw [Leases.mem_release]
    by_cases same : u = t
    · subst same
      rw [held, List.nodup_cons] at nodup
      simp only [Calls.leases, pins, held, Function.update_self, Set.mem_ofPred_eq, List.mem_cons,
        true_and]
      constructor
      · intro member
        exact ⟨.inr member,fun is => nodup.1 (is ▸ member)⟩
      · rintro ⟨is | member,apart⟩
        · exact absurd is apart
        · exact member
    · simp [Calls.leases, pins, same]
  · simp only [Calls.leases, durable, Leases.Table.release, Set.mem_ofPred_eq, Set.mem_sdiff,
      Set.mem_singleton_iff, List.mem_filter, decide_eq_true_eq]
    constructor
    · rintro ⟨floor,p,⟨member,apart⟩,rfl⟩
      exact ⟨⟨floor,p,member,rfl⟩,apart⟩
    · rintro ⟨⟨floor,p,member,rfl⟩,apart⟩
      exact ⟨floor,p,⟨member,apart⟩,rfl⟩

theorem Guarded.after (guarded : Guarded first c) (moved : LeaseStep c next) :
    Guarded first next := by
  have low := guarded.first_le.trans moved.sequence
  have older (u : Nat) (id : Int) (member : id ∈ c.pins u) :
      id < next.sys.conn.client.sequence := (guarded.below u id member).trans_le moved.sequence
  rcases moved.pins with ⟨pins,durable⟩ | ⟨t,pin,fresh,sequence,pins,durable⟩ |
    ⟨t,id,rest,held,pins,durable⟩
  · have leases : next.leases first = c.leases first := by simp [Calls.leases, pins, durable]
    exact ⟨moved.calm,leases ▸ guarded.balanced,fun u id member => older u id (pins ▸ member),low,
      pins ▸ guarded.nodup,moved.closed⟩
  · have new : ∀ u, pin.pinId ∉ c.pins u := fun u member =>
      absurd (guarded.below u _ member) (by omega)
    refine ⟨moved.calm,?_,fun u id member => ?_,low,fun u => ?_,moved.closed⟩
    · rw [leases_acquired (fresh ▸ guarded.first_le) pins durable]
      exact guarded.balanced.acquire t new
    · rw [pins] at member
      by_cases same : u = t
      · subst same
        rw [Function.update_self, List.mem_append, List.mem_singleton] at member
        rcases member with old | rfl
        · exact older u id old
        · omega
      · exact older u id (by simpa [same] using member)
    · rw [pins]
      by_cases same : u = t
      · subst same
        rw [Function.update_self]
        exact List.nodup_append.mpr ⟨guarded.nodup u,by simp,fun a old b is => by
          rintro rfl
          exact new u (List.mem_singleton.mp is ▸ old)⟩
      · simpa [same] using guarded.nodup u
  · have fewer (u : Nat) : (next.pins u).Sublist (c.pins u) := by
      rw [pins]
      by_cases same : u = t
      · subst same
        rw [Function.update_self, held]
        exact List.sublist_cons_self id rest
      · rw [Function.update_of_ne same]
    refine ⟨moved.calm,?_,fun u other member => older u other ((fewer u).subset member),low,
      fun u => (guarded.nodup u).sublist (fewer u),moved.closed⟩
    rw [leases_released (guarded.nodup t) held pins durable]
    exact guarded.balanced.release (by simp [Calls.leases, held])

/-- Only `t` may hold the pin `id`, now and later. -/
structure Sole (first : Int) (t : Nat) (id : Int) (c : Calls) : Prop where
  guarded : Guarded first c
  taken : id < c.sys.conn.client.sequence
  only : ∀ u, id ∈ c.pins u → u = t

theorem Sole.after {id : Int} (sole : Sole first t id c) (moved : LeaseStep c next) :
    Sole first t id next := by
  refine ⟨sole.guarded.after moved,sole.taken.trans_le moved.sequence,fun u member => ?_⟩
  rcases moved.pins with ⟨pins,_⟩ | ⟨p,pin,fresh,_,pins,_⟩ | ⟨p,_,rest,held,pins,_⟩
  · exact sole.only u (pins ▸ member)
  · rw [pins] at member
    by_cases same : u = p
    · subst same
      rw [Function.update_self, List.mem_append, List.mem_singleton] at member
      rcases member with old | rfl
      · exact sole.only u old
      · exact absurd sole.taken (by omega)
    · exact sole.only u (by simpa [same] using member)
  · rw [pins] at member
    by_cases same : u = p
    · subst same
      rw [Function.update_self] at member
      exact sole.only u (held ▸ List.mem_cons_of_mem _ member)
    · exact sole.only u (by simpa [same] using member)

/-- A call that leaves every transaction its pins. -/
theorem LeaseStep.still (guarded : Guarded first c) (keeps : KeepsPins c.sys.conn next.sys.conn)
    (pins : next.pins = c.pins)
    (closed : ∀ u, next.sys.transactions u = none →
      c.sys.transactions u = none ∨ c.pins u = []) : LeaseStep c next where
  calm := keeps.calm
  sequence := keeps.sequence
  closed u gone := by
    rw [pins]
    exact (closed u gone).elim (guarded.closed u) id
  pins := .same pins keeps.pins

theorem settled_open {α : Type} {f : Nat → Option α} {t : Nat} {value : α} :
    ∀ u, assign f t (some value) u = none → f u = none := by
  intro u gone
  by_cases same : u = t
  · simp [same] at gone
  · simpa [assign_other _ same] using gone

/-- What a call leaves that waits with the pins it found, or throws with them. -/
theorem LeaseStep.wait (guarded : Guarded first c) {p : Option Pending} {a : Attached}
    (keeps : KeepsPins c.sys.conn a.conn) (held : (c.wait t p a).pins t = c.pins t) :
    LeaseStep c (c.wait t p a) := by
  refine .still guarded keeps (funext fun u => ?_) fun u gone => .inl (settled_open u gone)
  by_cases same : u = t
  · rw [same, held]
  · simp [Calls.pins, Calls.wait, assign_other _ same]

theorem LeaseStep.throws (guarded : Guarded first c) {a : Attached}
    (keeps : KeepsPins c.sys.conn a.conn) (held : a.txn.pins = c.pins t) :
    LeaseStep c (c.throws t a) := by
  refine .still guarded keeps (funext fun u => ?_) fun u gone => .inl (settled_open u gone)
  by_cases same : u = t
  · rw [same, ← held]; simp [Calls.pins, Calls.throws]
  · simp [Calls.pins, Calls.throws, assign_other _ same]

theorem KeepsPins.entered {sys : System} {verdicts answers : List (Option String)} {d : Conn}
    (keeps : KeepsPins (sys.enter t txn verdicts answers).conn d) : KeepsPins sys.conn d :=
  ⟨keeps.pins,keeps.calm,keeps.sequence⟩

theorem pins_ready (ready : c.pending t = none) (found : c.sys.transactions t = some txn) :
    c.pins t = txn.pins := by simp [Calls.pins, ready, found]

theorem scan_leases {ref : TableRef} {verdicts : List (Option String)}
    (guarded : Guarded first c) (allowed : c.OutsideBlocks (.scan t ref verdicts))
    (taken : Calls.step core c (.scan t ref verdicts) = some next) : LeaseStep c next := by
  obtain ⟨txn,_,ready,found,rfl⟩ := calls_scan taken
  have calm : (c.sys.enter t txn verdicts []).conn.Calm := guarded.calm
  have pins := pins_ready ready found
  have effect : ScanEffect (c.sys.enter t txn verdicts [])
      (Effect.final (getPinnedScan core ref (c.sys.enter t txn verdicts []))) :=
    getPinnedScan_effect calm (allowed txn found)
  generalize getPinnedScan core ref (c.sys.enter t txn verdicts []) = result at effect ⊢
  rcases effect with ⟨same,keeps⟩ | ⟨pin,fresh,more,calm',sequence,durable⟩
  · refine .still guarded (by simpa using keeps.entered) (funext fun u => ?_) fun u gone =>
      .inl (settled_open u (by simpa using gone))
    by_cases own : u = t
    · subst own; simp [Calls.pins, ready, found, same]
    · simp [Calls.pins, assign_other _ own]
  · have fresh : pin.pinId = c.sys.conn.client.sequence := fresh
    have sequence : (Effect.final result).conn.client.sequence =
        c.sys.conn.client.sequence + 1 := sequence
    have durable : (Effect.final result).conn.durablePins = c.sys.conn.durablePins ++ [pin] := durable
    refine ⟨by simpa using calm',?_,fun u gone => ?_,
      .acquired t pin fresh (by simpa using sequence) (funext fun u => ?_) (by simpa using durable)⟩
    · rw [settleResult_conn, sequence]
      exact Int.le_add_one (Int.le_refl _)
    · have known := settled_open (f := c.sys.transactions) u (by simpa using gone)
      by_cases own : u = t
      · subst own; simp [known] at found
      · rw [← guarded.closed u known]
        simp [Calls.pins, assign_other _ own]
    · by_cases own : u = t
      · subst own; simp [Calls.pins, ready, found, more]
      · simp [Calls.pins, own]

theorem resume_leases {verdicts answers : List (Option String)} (guarded : Guarded first c)
    (quiet : c.QuietEnd (.resume t verdicts answers))
    (allowed : c.OutsideBlocks (.resume t verdicts answers))
    (taken : Calls.step core c (.resume t verdicts answers) = some next) : LeaseStep c next := by
  obtain ⟨txn,pending,found,waits,rfl⟩ := calls_resume taken
  have calm : (c.sys.enter t txn verdicts answers).conn.Calm := guarded.calm
  cases pending with
  | chunk kind schema table rows =>
    have held : c.pins t = txn.pins := by simp [Calls.pins, waits, found]
    obtain ⟨keeps,same⟩ := chunkFunction_keepsPins core kind schema table rows calm
    rw [Calls.resume]
    cases ran : client (chunkFunction core kind schema table rows)
        (c.sys.enter t txn verdicts answers) with
    | ok outcome b =>
      rw [ran] at keeps same
      exact .wait guarded keeps.entered
        (by simpa [Calls.pins, Calls.wait, waits, found] using congrArg TierDBTransaction.pins same)
    | error e b =>
      rw [ran] at keeps same
      exact .throws guarded keeps.entered
        (by simpa [held] using congrArg TierDBTransaction.pins same)
  | lake attachSql lakeSql =>
    have held : c.pins t = txn.pins := by simp [Calls.pins, waits, found]
    have keeps : KeepsPins c.sys.conn (c.sys.enter t txn verdicts answers).conn :=
      ⟨rfl,calm,Int.le_refl _⟩
    rw [Calls.resume]
    cases executeLakeDml attachSql lakeSql (c.sys.enter t txn verdicts answers).lakeSide with
    | ok u side => exact .wait guarded keeps (by simp [Calls.pins, Calls.wait, waits, found])
    | error e side => exact .throws guarded keeps (by simp [held])
  | release ending ids =>
    have held : c.pins t = ids := by simp [Calls.pins, waits]
    cases ids with
    | nil =>
      refine .still guarded ⟨rfl,calm,Int.le_refl _⟩ (funext fun u => ?_) fun u gone => ?_
      · by_cases same : u = t
        · subst same; simp [Calls.pins, Calls.resume, waits]
        · simp [Calls.pins, Calls.resume, assign_other _ same]
      · by_cases same : u = t
        · exact .inr (same ▸ held)
        · exact .inl (by simpa [Calls.resume, assign_other _ same] using gone)
    | cons id rest =>
      have clear := allowed ending id rest waits
      have silent := quiet ending _ waits
      subst silent
      have idle : (c.sys.enter t txn [] answers).conn.client.session.block = .idle := by
        rcases guarded.calm with ⟨_,idle⟩ | ⟨flag,_⟩
        · exact idle
        · simp [clear] at flag
      obtain ⟨d,released,flag,idle',_,sequence,durable⟩ :=
        releasePin_idle id idle rfl
      have ran : client (releasePin id) (c.sys.enter t txn [] answers) =
          .ok () ((c.sys.enter t txn [] answers).withConn d) := by rw [client_apply, released]
      simp only [Calls.resume, ran]
      refine ⟨.inl ⟨flag.trans clear,idle'⟩,sequence.ge,fun u gone => ?_,
        .released t id rest held (funext fun u => ?_) durable⟩
      · have known := settled_open u gone
        by_cases own : u = t
        · subst own; simp [known] at found
        · rw [← guarded.closed u known]
          simp [Calls.pins, Calls.wait, assign_other _ own]
      · by_cases own : u = t
        · subst own; simp [Calls.pins, Calls.wait]
        · simp [Calls.pins, Calls.wait, own]

theorem calls_leases {call : Call} (guarded : Guarded first c) (quiet : c.QuietEnd call)
    (allowed : c.OutsideBlocks call) (taken : Calls.step core c call = some next) :
    LeaseStep c next := by
  cases call with
  | start t =>
    obtain ⟨free,_,rfl⟩ := calls_start taken
    refine .still guarded ⟨rfl,guarded.calm,Int.le_refl _⟩ (funext fun u => ?_)
      fun u gone => .inl (settled_open u gone)
    by_cases same : u = t
    · subst same
      simp [Calls.pins, free]
    · simp [Calls.pins, assign_other _ same]
  | scan t ref verdicts => exact scan_leases guarded allowed taken
  | sink t kind schema table rows verdicts =>
    obtain ⟨txn,_,ready,found,left⟩ := calls_sink taken
    have calm : (c.sys.enter t txn verdicts []).conn.Calm := guarded.calm
    obtain ⟨keeps,same⟩ := ensureWriteTxn_keepsPins calm
    rcases left with ⟨b,ran,rfl⟩ | ⟨e,b,ran,rfl⟩ <;> rw [ran] at keeps same
    · exact .wait guarded keeps.entered (by simpa [Calls.pins, Calls.wait, ready, found] using same)
    · exact .throws guarded keeps.entered (same.trans (pins_ready ready found).symm)
  | commit t verdicts =>
    obtain ⟨txn,ending,_,ready,found,rfl⟩ := calls_commit taken
    have calm : (c.sys.enter t txn verdicts []).conn.Calm := guarded.calm
    have pins : (Effect.final (commitWrite (c.sys.enter t txn verdicts []))).txn.pins = txn.pins :=
      commitWrite_pins _
    refine .wait guarded (commitWrite_keepsPins calm quiet).entered ?_
    simpa [Calls.pins, Calls.wait, ready, found] using pins
  | rollback t verdicts =>
    obtain ⟨txn,ready,found,rfl⟩ := calls_rollback taken
    have calm : (c.sys.enter t txn verdicts []).conn.Calm := guarded.calm
    have pins : (Effect.final (rollbackWrite (c.sys.enter t txn verdicts []))).txn.pins =
        txn.pins := rollbackWrite_pins _
    refine .wait guarded (rollbackWrite_keepsPins calm quiet).entered ?_
    simpa [Calls.pins, Calls.wait, ready, found] using pins
  | resume t verdicts answers => exact resume_leases guarded quiet allowed taken

end Held

/-- No transaction, no block, and every stored pin has an id the sequence is past. -/
structure PinFree (sys : System) : Prop where
  inTxn : sys.conn.inTxn = false
  block : sys.conn.client.session.block = .idle
  transactions : ∀ t, sys.transactions t = none
  pins : ∀ pin ∈ sys.durable.pins, pin.pinId < sys.conn.client.sequence

theorem PinFree.guarded {sys : System} (free : PinFree sys) :
    Guarded sys.conn.client.sequence { sys } := by
  have none (t : Nat) : (Calls.mk sys fun _ => none).pins t = [] := by
    simp [Calls.pins, free.transactions]
  refine ⟨.inl ⟨free.inTxn,free.block⟩,⟨?_,fun t u id member => ?_⟩,fun t id member => ?_,
    Int.le_refl _,fun t => by simp [none],fun t _ => none t⟩
  · ext id
    simp only [Calls.leases, none, Set.mem_iUnion, Set.mem_ofPred_eq, List.not_mem_nil,
      exists_false, iff_false, not_and, not_exists]
    rintro low pin member rfl
    exact absurd (free.pins pin member) (by omega)
  · simp [Calls.leases, none] at member
  · simp [none] at member

/-- If scans pin and boundaries release outside write blocks, every held pin is durable in
every state of the run, and from its boundary's return on it is durably gone. -/
theorem pins_visible_while_held (core : Core) {sys : System} {next : Calls} {calls : List Call}
    (free : PinFree sys) (quiet : Runs.Meets (Calls.step core) Calls.QuietEnd { sys } calls)
    (outside : Runs.Meets (Calls.step core) Calls.OutsideBlocks { sys } calls)
    (ran : Runs.run (Calls.step core) { sys } calls = some next) :
    PinsHeld sys.conn.client.sequence next ∧
      ∀ front back mid, calls = front ++ back →
        Runs.run (Calls.step core) { sys } front = some mid →
        ∀ t, next.sys.transactions t = none →
          ∀ id ∈ mid.pins t, ∀ pin ∈ next.sys.durable.pins, pin.pinId ≠ id := by
  have meets := outside.and quiet
  have guards {c : Calls} {some_ : List Call} {d : Calls}
      (start : Guarded sys.conn.client.sequence c)
      (meets : Runs.Meets (Calls.step core)
        (fun c call => c.OutsideBlocks call ∧ c.QuietEnd call) c some_)
      (ran : Runs.run (Calls.step core) c some_ = some d) : Guarded sys.conn.client.sequence d :=
    Runs.run_invariant (fun _ _ _ guarded allowed taken =>
      guarded.after (calls_leases guarded allowed.2 allowed.1 taken)) start meets ran
  refine ⟨(guards free.guarded meets ran).pinsHeld,?_⟩
  rintro front back mid rfl reached t ended id member pin stored rfl
  obtain ⟨mid',again,later⟩ := Runs.run_append_some.mp ran
  obtain rfl : mid = mid' := Option.some.inj (reached.symm.trans again)
  have guarded := guards free.guarded meets.front reached
  have sole : Sole sys.conn.client.sequence t pin.pinId mid :=
    ⟨guarded,guarded.below t _ member,fun u other => guarded.balanced.apart u t _ other member⟩
  have sole : Sole sys.conn.client.sequence t pin.pinId next :=
    Runs.run_invariant (fun _ _ _ sole allowed taken =>
      sole.after (calls_leases sole.guarded allowed.2 allowed.1 taken)) sole
      (meets.back reached) later
  have low := (guarded.balanced.held_visible (o := t) member).1
  obtain ⟨u,holds⟩ := sole.guarded.balanced.visible_held ⟨low,pin,stored,rfl⟩
  have holds : pin.pinId ∈ next.pins u := holds
  obtain rfl := sole.only u holds
  simp [sole.guarded.closed u ended] at holds

instance (db : Database) (schema table : String) : Decidable (db.NoCut schema table) :=
  match found : db.findTable schema table with
  | .ok (some row) => decidable_of_iff ((db.cutline row.tableId).isNone = true)
      (by simp [Database.NoCut, found])
  | .ok none => isTrue (by simp [Database.NoCut, found])
  | .error e => isTrue (by simp [Database.NoCut, found])

instance (c : Calls) (call : Call) : Decidable (c.OutsideBlocks call) :=
  match call with
  | .scan t ref _ => decidable_of_iff ((c.sys.transactions t).all (fun txn =>
      decide ((∃ hit ∈ txn.scanByTable, hit.1 = ref.tableId) ∨ c.sys.conn.inTxn = false ∨
        c.sys.conn.db.NoCut ref.schemaName ref.tableName)) = true)
      (by simp [Calls.OutsideBlocks, Option.all_eq_true])
  | .resume t _ _ => match waits : c.pending t with
    | some (.release _ (_ :: _)) => decidable_of_iff (c.sys.conn.inTxn = false)
        (by simp [Calls.OutsideBlocks, waits])
    | some (.release _ []) | some (.chunk ..) | some (.lake ..) | none =>
      isTrue (by simp [Calls.OutsideBlocks, waits])
  | .start _ | .sink .. | .commit .. | .rollback .. => isTrue trivial

/-- The server refuses no statement of the call. -/
def Call.Quiet : Call → Prop
  | .scan _ _ verdicts | .sink _ _ _ _ _ verdicts | .commit _ verdicts | .rollback _ verdicts
  | .resume _ verdicts _ => verdicts = []
  | .start _ => True

theorem Call.Quiet.ends {call : Call} (quiet : call.Quiet) (c : Calls) : c.QuietEnd call := by
  cases call with
  | commit t verdicts => exact quiet
  | rollback t verdicts => exact quiet
  | resume t verdicts answers => exact fun _ _ _ => quiet
  | start t => trivial
  | scan t ref verdicts => trivial
  | sink t kind schema table rows verdicts => trivial

def readItems : TableRef := ⟨1,"public","items"⟩

namespace Reference

/-- The three calls of a sink that is fed one row. -/
def insertItem (t : Nat) (id ts v : Int) : List Call :=
  [.sink t .insert "public" "items" (some (.array [.object (item id ts v)])) [],
    .resume t [] [],.resume t [] []]

/-- A transaction that reads and then writes, up to the release of its pin. -/
def readThenWrite : List Call :=
  [.start 1,.scan 1 readItems []] ++ insertItem 1 1 20 0 ++ [.commit 1 []]

/-- Another transaction begins to write when the release is done. -/
def releaseThenWrite : List Call :=
  [.start 2,.resume 1 [] [],.resume 1 [] []] ++ insertItem 2 2 30 0

/-- A transaction that writes and then reads. -/
def writeThenRead : List Call :=
  .start 1 :: insertItem 1 1 20 0 ++ [.scan 1 readItems []]

end Reference

open Reference in
theorem readThenWrite_visible : ∃ mid next,
    Runs.run (Calls.step Reference.core) { sys := system (database "tiered" 10 []) } readThenWrite =
      some mid ∧
    mid.pins 1 = [1] ∧ (∃ pin ∈ mid.sys.durable.pins, pin.pinId = 1) ∧
    Runs.run (Calls.step Reference.core) mid releaseThenWrite = some next ∧
    ∀ pin ∈ next.sys.durable.pins, pin.pinId ≠ 1 := by
  have ends : ((Runs.run (Calls.step Reference.core) { sys := system (database "tiered" 10 []) }
      (readThenWrite ++ releaseThenWrite)).map fun next => (next.sys.transactions 1).isNone) =
      some true := by decide +kernel
  have holds : ((Runs.run (Calls.step Reference.core) { sys := system (database "tiered" 10 []) }
      readThenWrite).map fun mid => mid.pins 1) = some [1] := by decide +kernel
  obtain ⟨next,ran,closed⟩ := Option.map_eq_some_iff.mp ends
  obtain ⟨mid,reached,held⟩ := Option.map_eq_some_iff.mp holds
  obtain ⟨mid',again,later⟩ := Runs.run_append_some.mp ran
  obtain rfl : mid = mid' := Option.some.inj (reached.symm.trans again)
  have free : PinFree (system (database "tiered" 10 [])) :=
    ⟨rfl,rfl,fun _ => rfl,by simp [System.durable, system, database]⟩
  have quiet : ∀ call ∈ readThenWrite ++ releaseThenWrite, call.Quiet := by
    simp [readThenWrite, releaseThenWrite, insertItem, Call.Quiet]
  have ended : Runs.Meets (Calls.step Reference.core) Calls.QuietEnd
      { sys := system (database "tiered" 10 []) } (readThenWrite ++ releaseThenWrite) :=
    .of_all fun call member c => (quiet call member).ends c
  have outside : Runs.Meets (Calls.step Reference.core) Calls.OutsideBlocks
      { sys := system (database "tiered" 10 []) } (readThenWrite ++ releaseThenWrite) := by
    decide +kernel
  have held' : 1 ∈ mid.pins 1 := by simp [held]
  refine ⟨mid,next,reached,held,?_,later,?_⟩
  · exact (pins_visible_while_held Reference.core free ended.front outside.front reached).1.held 1 1 held'
  · exact (pins_visible_while_held Reference.core free ended outside ran).2 _ _ mid rfl reached 1
      (Option.isNone_iff_eq_none.mp closed) 1 held'

/-- No statement fails, and the pin stays inside the open write block. -/
theorem writeThenRead_hides_pin :
    ¬∀ sys next calls, PinFree sys → (∀ call ∈ calls, call.Quiet) →
      Runs.run (Calls.step Reference.core) { sys } calls = some next →
      (∀ t, next.sys.failed t = false) → PinsHeld sys.conn.client.sequence next := by
  intro claim
  have reached : ((Runs.run (Calls.step Reference.core)
      { sys := Reference.system (Reference.database "tiered" 10 []) }
      Reference.writeThenRead).map fun next => (next.pins 1,next.sys.durable.pins)) =
      some ([1],[]) := by decide +kernel
  obtain ⟨next,ran,seen⟩ := Option.map_eq_some_iff.mp reached
  obtain ⟨pins,none⟩ := Prod.mk.inj seen
  have free : PinFree (Reference.system (Reference.database "tiered" 10 [])) :=
    ⟨rfl,rfl,fun _ => rfl,by simp [System.durable, Reference.system, Reference.database]⟩
  have quiet : ∀ call ∈ Reference.writeThenRead, call.Quiet := by
    simp [Reference.writeThenRead, Reference.insertItem, Call.Quiet]
  have unfailed : (Runs.run (Calls.step Reference.core)
      { sys := Reference.system (Reference.database "tiered" 10 []) }
      Reference.writeThenRead).map (fun next => next.sys.failed) = some fun _ => false := by rfl
  rw [ran, Option.map_some, Option.some.injEq] at unfailed
  obtain ⟨pin,stored,_⟩ := (claim _ next Reference.writeThenRead free quiet ran
    (fun t => by rw [unfailed])).held 1 1 (by simp [pins])
  simp [none] at stored

/-- Between the commit of one transaction and its release another one begins to write; the
pin outlives its transaction until that block ends. -/
example : ((Runs.run (Calls.step Reference.core)
    { sys := Reference.system (Reference.database "tiered" 10 []) }
    (Reference.readThenWrite ++ .start 2 :: Reference.insertItem 2 2 30 0 ++
      [.resume 1 [] [],.resume 1 [] []])).map fun next =>
        (next.sys.ended 1,next.sys.durable.pins.map (·.pinId))) =
    some (some .committed,[1]) := by decide +kernel

end TierDb
