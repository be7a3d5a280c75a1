import TierDb.Overlay
import TierDb.Scanned
import TierDb.Torn

/-! Which pin row belongs to which scan. Other sessions move cut-lines, and their scans draw
pin ids from the same sequence. -/
namespace TierDb

/-- What another session commits: any change that rewrites no pin row and inserts pins only
under ids it draws. -/
structure Elsewhere where
  draws : Nat
  change : Int → Database → Database
  pins : ∀ first db, ∀ pin ∈ (change first db).pins,
    pin ∈ db.pins ∨ (first ≤ pin.pinId ∧ pin.pinId < first + draws)

def Elsewhere.commit (other : Elsewhere) (conn : Conn) : Conn :=
  { conn with client := { conn.client with
    session := alter (other.change conn.client.sequence) conn.client.session
    sequence := conn.client.sequence + other.draws } }

/-- A call of a transaction, or a commit of another session. -/
inductive Happening where
  | call (call : Call)
  | elsewhere (other : Elsewhere)

def happen (core : Core) (c : Calls) : Happening → Option Calls
  | .call call => c.step core call
  | .elsewhere other => some { c with sys := { c.sys with conn := other.commit c.sys.conn } }

/-- A cached scan of an open transaction that has a pin. -/
def System.Caches (sys : System) (t : Nat) (entry : Int × TierDBPinnedScan) : Prop :=
  ∃ txn, sys.transactions t = some txn ∧ entry ∈ txn.scanByTable ∧ entry.2.hasPin = true

/-- What a scan with a pin was made of: its table as it is registered, the live catalog of a
direct one, and the table's one cut-line row, whose lake properties it parses. -/
structure ScanSource where
  schema : TableSchema
  lake : Option LakeCatalog
  row : CutlineRow
  props : List (String × String)

def ScanSource.cut (source : ScanSource) : Cutline :=
  ⟨source.row.tierKeyHi,source.row.lakeSnapshotId,source.props⟩

/-- The pin names the tier key and the lake snapshot of the row that `db` has for the table,
and the text is the merged read at that row's tier key and lake properties. -/
structure ReadsAt (core : Core) (dsn schema table : String) (db : Database) (scanSql : String)
    (pin : Pin) (source : ScanSource) : Prop where
  registered : db.tableSchema core schema table = some source.schema
  resolved : db.resolveCatalog core source.schema = some source.lake
  stored : db.cutline source.schema.tableId = some source.row
  parsed : optionalProps core source.row.lakeProps "tierdb.cutline.lake_props" = .ok source.props
  rendered : renderPinned core source.schema dsn source.lake (some source.cut) = .ok scanSql
  owner : pin.tableId = source.schema.tableId
  snapshot : pin.lakeSnapshotId = source.row.lakeSnapshotId
  tierKey : pin.tierKeyHi = source.row.tierKeyHi

/-- Every stored pin was drawn, and under the id of a recorded pin it is the recorded one. -/
structure Agrees (made : List Pin) (bound : Int) (snapshot : Snapshot) : Prop where
  drawn : ∀ pin ∈ snapshot.database.pins, pin.pinId < bound
  own : ∀ pin ∈ snapshot.database.pins, ∀ other ∈ made, other.pinId = pin.pinId → pin = other

/-- The stored pins agree with the recorded ones, which were all drawn. -/
structure Conn.Records (dsn : String) (made : List Pin) (c : Conn) : Prop where
  dsn : c.dsn = dsn
  drawn : ∀ pin ∈ made, pin.pinId < c.client.sequence
  stored : c.client.session.All (Agrees made c.client.sequence)

section Records

variable {core : Core} {dsn schema table : String} {made : List Pin} {bound : Int}
  {snapshot : Snapshot}

theorem Agrees.pins {other : Snapshot} (agrees : Agrees made bound snapshot)
    (fewer : ∀ pin ∈ other.database.pins, pin ∈ snapshot.database.pins) :
    Agrees made bound other :=
  ⟨fun pin member => agrees.drawn pin (fewer pin member),
    fun pin member => agrees.own pin (fewer pin member)⟩

/-- Pins drawn later, by whomever, are under none of the recorded ids. -/
theorem Agrees.later {other : Snapshot} {next : Int} (agrees : Agrees made bound snapshot)
    (recorded : ∀ pin ∈ made, pin.pinId < bound) (later : bound ≤ next)
    (drawn : ∀ pin ∈ other.database.pins, pin ∈ snapshot.database.pins ∨
      (bound ≤ pin.pinId ∧ pin.pinId < next)) : Agrees made next other := by
  constructor
  · intro pin member
    rcases drawn pin member with old | ⟨_,below⟩
    · exact lt_of_lt_of_le (agrees.drawn pin old) later
    · exact below
  · intro pin member other listed same
    rcases drawn pin member with old | ⟨above,_⟩
    · exact agrees.own pin old other listed same
    · have := recorded other listed
      omega

theorem Agrees.record {pin : Pin} (agrees : Agrees made (bound + 1) snapshot)
    (absent : ∀ other ∈ snapshot.database.pins, other.pinId = pin.pinId → other = pin) :
    Agrees (made ++ [pin]) (bound + 1) snapshot := by
  refine ⟨agrees.drawn,fun stored member other listed same => ?_⟩
  rcases List.mem_append.mp listed with old | new
  · exact agrees.own stored member other old same
  · obtain rfl := List.mem_singleton.mp new
    exact absent stored member same.symm

theorem Conn.Records.fewer {more : List Pin} {c : Conn} (records : c.Records dsn (made ++ more)) :
    c.Records dsn made where
  dsn := records.dsn
  drawn pin listed := records.drawn pin (List.mem_append_left _ listed)
  stored := by
    have less : ∀ snapshot, Agrees (made ++ more) c.client.sequence snapshot →
        Agrees made c.client.sequence snapshot := fun _ agrees =>
      ⟨agrees.drawn,fun pin member other listed =>
        agrees.own pin member other (List.mem_append_left _ listed)⟩
    exact ⟨less _ records.stored.1,fun w inside => less w (records.stored.2 w inside)⟩

theorem onSession_records {α : Type} {x : Sql.Exec Snapshot Int α}
    (keeps : ∀ bound, Effect.Keeps (Sql.Session.All (Agrees made bound)) x) :
    Effect.Keeps (Conn.Records dsn made) (onSession x) := by
  intro c records
  have kept := keeps c.client.sequence c.client.session records.stored
  unfold onSession Effect.zoom
  cases ran : x c.client.session <;> rw [ran] at kept <;>
    exact ⟨records.dsn,records.drawn,kept⟩

/-- Reads and writes leave the pins alone. -/
theorem SentFor.records {own : Write → Prop} {α : Type} {x : Pg α} (sent : SentFor core own x) :
    Effect.Keeps (Conn.Records dsn made) x := by
  intro c records
  have stored := (sent.stores (P := Agrees made c.client.sequence)
    fun w _ snapshot next ran agrees =>
      agrees.pins (by rw [(run_sameCatalog ran).pins]; exact fun _ => id)) c
        (⟨rfl,records.stored⟩ : c.client.author = c.client.author ∧ _)
  have same : (Effect.final (x c)).dsn = c.dsn ∧
      (Effect.final (x c)).client.sequence = c.client.sequence := by
    cases ran : x c with
    | ok a d =>
      have took := sent.sent.framed.ok c a d ran
      exact ⟨took.dsn,took.sequence⟩
    | error e d =>
      have sends := sent.sent.framed.error c e d ran
      exact ⟨sends.dsn,sends.sequence⟩
  exact ⟨same.1.trans records.dsn,by rw [same.2]; exact records.drawn,by rw [same.2]; exact stored.2⟩

/-- A pin that is inserted is recorded; a refused one has only drawn its id. -/
theorem pinAcquire_records (tableId : Int) (cut : Cutline) {c : Conn}
    (records : c.Records dsn made) :
    (∃ d, pinAcquire tableId cut c = .ok c.client.sequence d ∧
      d.Records dsn (made ++ [c.nextPin tableId cut])) ∨
    ∃ e d, pinAcquire tableId cut c = .error e d ∧ d.Records dsn made := by
  have drawn : ∀ pin ∈ made, pin.pinId < c.draw.client.sequence := fun pin listed =>
    (records.drawn pin listed).trans (Int.lt_succ _)
  have older : ∀ snapshot, Agrees made c.client.sequence snapshot →
      Agrees made c.draw.client.sequence snapshot := fun _ agrees =>
    agrees.later records.drawn (Int.le_add_one (Int.le_refl _)) fun _ => .inl
  have before : c.draw.client.session.next.All (Agrees made c.draw.client.sequence) :=
    ⟨older _ records.stored.1,fun w inside => older w (records.stored.2 w inside)⟩
  rw [pinAcquire_apply]
  cases ran : onSession (Sql.statement (insertPin (c.nextPin tableId cut))) c.draw with
  | error e d =>
    obtain ⟨s,thrown,rfl⟩ := onSession_error.mp ran
    rw [Sql.statement_error thrown]
    exact .inr ⟨e,_,rfl,records.dsn,drawn,before.fail⟩
  | ok id d =>
    obtain ⟨s,returned,rfl⟩ := onSession_ok.mp ran
    obtain ⟨value,wrote,_,_,rfl⟩ := Sql.statement_ok returned
    cases wrote
    -- the drawn id is new to what is stored
    have apart : ∀ snapshot, Agrees made c.client.sequence snapshot →
        ∀ other ∈ snapshot.database.pins, other.pinId ≠ c.client.sequence :=
      fun _ agrees other member => (agrees.drawn other member).ne
    have kept : ∀ snapshot, Agrees made c.client.sequence snapshot →
        Agrees (made ++ [c.nextPin tableId cut]) c.draw.client.sequence snapshot :=
      fun _ agrees => (older _ agrees).record fun other member same =>
        absurd same (apart _ agrees other member)
    have inserted : Agrees (made ++ [c.nextPin tableId cut]) c.draw.client.sequence
        { c.client.session.view with database := { c.client.session.view.database with
          pins := c.client.session.view.database.pins ++ [c.nextPin tableId cut] } } := by
      have agrees := records.stored.view
      refine (agrees.later records.drawn (Int.le_add_one (Int.le_refl _)) fun pin member => ?_).record
        fun other member same => ?_
      · refine (List.mem_append.mp member).imp_right fun new => ?_
        obtain rfl := List.mem_singleton.mp new
        exact ⟨Int.le_refl _,Int.lt_succ _⟩
      · rcases List.mem_append.mp member with old | new
        · exact absurd same (apart _ agrees other old)
        · exact List.mem_singleton.mp new
    have all : c.draw.client.session.next.All
        (Agrees (made ++ [c.nextPin tableId cut]) c.draw.client.sequence) :=
      ⟨kept _ records.stored.1,fun w inside => kept w (records.stored.2 w inside)⟩
    refine .inl ⟨_,rfl,records.dsn,fun pin listed => ?_,all.write inserted⟩
    rcases List.mem_append.mp listed with old | new
    · exact drawn pin old
    · obtain rfl := List.mem_singleton.mp new
      exact Int.lt_succ _

theorem releasePin_records (pinId : Int) :
    Effect.Keeps (Conn.Records dsn made) (releasePin pinId) := by
  refine .mapError (onSession_records fun bound => Sql.statement_keeps ?_) _
  rintro snapshot _ _ ran agrees
  cases ran
  exact agrees.pins fun pin member => List.mem_of_mem_filter member

theorem setInTxn_records (value : Bool) : Effect.Keeps (Conn.Records dsn made) (setInTxn value) :=
  .modify fun _ records => ⟨records.dsn,records.drawn,records.stored⟩

theorem txnBegin_records : Effect.Keeps (Conn.Records dsn made) txnBegin := by
  refine .bind .get fun c => ?_
  split
  · exact .pure _
  · exact .bind (.mapError (onSession_records fun _ => Sql.beginBlock_keeps) _)
      fun _ => setInTxn_records true

theorem txnCommit_records : Effect.Keeps (Conn.Records dsn made) txnCommit := by
  refine .bind .get fun c => ?_
  split
  · exact .pure _
  · exact .bind (.mapError (onSession_records fun _ => Sql.commit_keeps) _)
      fun _ => setInTxn_records false

theorem txnRollback_records : Effect.Keeps (Conn.Records dsn made) txnRollback := by
  refine .bind .get fun c => ?_
  split
  · exact .pure _
  · exact .bind (.mapError (onSession_records fun _ => Sql.rollback_keeps) _)
      fun _ => setInTxn_records false

/-- What a scan records: the pin of the merged read it returns, under a new id. -/
def ScanRecords (core : Core) (dsn schema table : String) (db : Database) (made : List Pin)
    (first : Int) : EStateM.Result String Conn PinnedScan → Prop
  | .error _ d => d.Records dsn made
  | .ok pinned d => (pinned.pinId = none ∧ d.Records dsn made) ∨
      ∃ pin source, pinned.pinId = some pin.pinId ∧ first ≤ pin.pinId ∧
        ReadsAt core dsn schema table db pinned.scanSql pin source ∧ d.Records dsn (made ++ [pin])

theorem cutlineOf_row {db : Database} {tableId : Int} {cut : Cutline}
    (found : db.cutlineOf core tableId = some (some cut)) :
    ∃ row props, db.cutline tableId = some row ∧
      optionalProps core row.lakeProps "tierdb.cutline.lake_props" = .ok props ∧
      cut = ⟨row.tierKeyHi,row.lakeSnapshotId,props⟩ := by
  unfold Database.cutlineOf at found
  split at found
  · simp at found
  · rename_i row stored
    simp only [Option.bind_eq_bind, Option.bind_eq_some_iff, Option.some.injEq] at found
    obtain ⟨props,parsed,rfl⟩ := found
    exact ⟨row,props,stored,toOption_some.mp parsed,rfl⟩

theorem pinAndRender_records {ts : TableSchema} {lake : Option LakeCatalog} {c : Conn}
    (records : c.Records dsn made) (registered : c.db.tableSchema core schema table = some ts)
    (resolved : c.db.resolveCatalog core ts = some lake) :
    ScanRecords core dsn schema table c.db made c.client.sequence
      (pinAndRender core ts dsn lake c) := by
  unfold pinAndRender
  have kept : (Effect.final (cutline core ts.tableId c)).Records dsn made :=
    (cutline_for ts.tableId : SentFor core (fun _ => False) _).records c records
  cases read : cutline core ts.tableId c with
  | error e m =>
    rw [read] at kept
    rw [Effect.bind_of_error read]
    exact kept
  | ok cut m =>
    have kept : m.Records dsn made := by rwa [read] at kept
    have sequence := ((cutline_sent core ts.tableId).framed.ok _ _ _ read).sequence
    rw [Effect.bind_of_ok read]
    cases cut with
    | none =>
      have skipped : pinCut ts.tableId none m = .ok none m := rfl
      rw [Effect.bind_of_ok skipped]
      cases renderPinned core ts dsn lake none with
      | error e => exact kept
      | ok scanSql => exact .inl ⟨rfl,kept⟩
    | some cut =>
      rcases pinAcquire_records ts.tableId cut kept with ⟨d,acquired,more⟩ | ⟨e,d,refused,same⟩
      · have pinned : pinCut ts.tableId (some cut) m = .ok (some m.client.sequence) d := by
          simp [pinCut, Effect.map_apply, Effect.mapError, acquired]
        rw [Effect.bind_of_ok pinned]
        cases rendered : renderPinned core ts dsn lake (some cut) with
        | error e => exact more.fewer
        | ok scanSql =>
          obtain ⟨row,props,stored,parsed,rfl⟩ :=
            cutlineOf_row ((cutline_reads core ts.tableId).ok _ _ _ read).1
          exact .inr ⟨m.nextPin ts.tableId _,⟨ts,lake,row,props⟩,rfl,sequence.ge,
            ⟨registered,resolved,stored,parsed,rendered,rfl,rfl,rfl⟩,more⟩
      · have failed : pinCut ts.tableId (some cut) m = .error ("read pin acquire failed: " ++ e) d := by
          simp [pinCut, Effect.map_apply, Effect.mapError, refused]
        rw [Effect.bind_of_error failed]
        exact same

/-- The block of its own ends with what was recorded in it, or without. -/
theorem pinInOwnBlock_records {ts : TableSchema} {lake : Option LakeCatalog} {c : Conn}
    (records : c.Records dsn made) (registered : c.db.tableSchema core schema table = some ts)
    (resolved : c.db.resolveCatalog core ts = some lake) :
    ScanRecords core dsn schema table c.db made c.client.sequence
      (pinInOwnBlock core ts dsn lake c) := by
  unfold pinInOwnBlock
  have begun : Effect.Keeps (Conn.Records dsn made) (onSession Sql.beginBlock) :=
    onSession_records fun _ => Sql.beginBlock_keeps
  have kept := begun.mapError ("read pin BEGIN failed: " ++ ·) c records
  cases opened : Effect.mapError ("read pin BEGIN failed: " ++ ·) (onSession Sql.beginBlock) c with
  | error e m =>
    rw [opened] at kept
    rw [Effect.bind_of_error opened]
    exact kept
  | ok u m =>
    have kept : m.Records dsn made := by rwa [opened] at kept
    have sequence : m.client.sequence = c.client.sequence := by
      obtain ⟨s,_,rfl⟩ := onSession_ok.mp (Effect.mapError_ok.mp opened)
      rfl
    have ended {more : List Pin} {d : Conn} (records : d.Records dsn more) (value : Snapshot)
        (agrees : Agrees more d.client.sequence value) :
        (d.setSession { d.client.session.leave with durable := value }).Records dsn more :=
      ⟨records.dsn,records.drawn,agrees,by simp [Conn.setSession]⟩
    have db : m.db = c.db := by
      obtain ⟨_,sent,rfl⟩ := onSession_ok.mp (Effect.mapError_ok.mp opened)
      exact congrArg Snapshot.database (Sql.beginBlock_view sent)
    rw [← db] at registered resolved
    have scan : ScanRecords core dsn schema table _ made _ _ :=
      pinAndRender_records kept registered resolved
    rw [Effect.bind_of_ok opened]
    cases ran : pinAndRender core ts dsn lake m with
    | error e d =>
      rw [ran] at scan
      have scan : d.Records dsn made := scan
      rw [Effect.bind_of_ok (a := .error e) (t := d) (by simp [Effect.attempt, ran]),
        endOwnBlock_error]
      exact ended scan d.client.session.durable scan.stored.1
    | ok pinned d =>
      rw [ran, sequence, db] at scan
      rw [Effect.bind_of_ok (a := .ok pinned) (t := d) (by simp [Effect.attempt, ran]),
        endOwnBlock_ok]
      cases d.client.session.verdict with
      | some e =>
        rcases scan with ⟨_,same⟩ | ⟨_,_,_,_,_,more⟩
        · exact ended same d.client.session.durable same.stored.1
        · exact ended more.fewer d.client.session.durable more.fewer.stored.1
      | none =>
        rcases scan with ⟨nothing,same⟩ | ⟨pin,source,id,new,reads,more⟩
        · exact .inl ⟨nothing,ended same _ same.stored.view⟩
        · exact .inr ⟨pin,source,id,new,reads,ended more _ more.stored.view⟩

theorem acquireScan_records (core : Core) (schema table : String) {c : Conn}
    (records : c.Records dsn made) :
    ScanRecords core dsn schema table c.db made c.client.sequence
      (acquireScan core schema table c) := by
  unfold acquireScan
  have first := (tableSchema_for schema table : Queried core _).records c records
  cases read : tableSchema core schema table c with
  | error e m =>
    rw [read] at first
    rw [Effect.bind_of_error read]
    exact first
  | ok ts m =>
    have first : m.Records dsn made := by rwa [read] at first
    have sequence := ((tableSchema_sent core schema table).framed.ok _ _ _ read).sequence
    have second := (scanLake_for ts : Queried core _).records m first
    rw [Effect.bind_of_ok read, Effect.bind_of_ok (Effect.get_apply m), first.dsn]
    cases found : scanLake core ts m with
    | error e d =>
      rw [found] at second
      rw [Effect.bind_of_error found]
      exact second
    | ok lake d =>
      have second : d.Records dsn made := by rwa [found] at second
      have described := (tableSchema_reads core schema table).ok _ _ _ read
      have answered := (scanLake_reads core ts).ok _ _ _ found
      have db : d.db = c.db := answered.2.same_db.trans described.2.same_db
      have registered : d.db.tableSchema core schema table = some ts := by
        rw [db]; exact described.1
      have resolved : d.db.resolveCatalog core ts = some lake := by
        rw [answered.2.same_db]; exact answered.1
      rw [Effect.bind_of_ok found, Effect.bind_of_ok (Effect.get_apply d),
        ← sequence, ← ((scanLake_sent ts).framed.ok _ _ _ found).sequence, ← db]
      cases d.inTxn with
      | true => exact pinAndRender_records second registered resolved
      | false => exact pinInOwnBlock_records second registered resolved

theorem records_callsKeep (core : Core) (dsn : String) (made : List Pin) :
    CallsKeep core (Conn.Records dsn made) where
  begins := txnBegin_records
  commits := txnCommit_records
  undoes := txnRollback_records
  scans schema table c records := by
    have scan := acquireScan_records core schema table records
    cases ran : acquireScan core schema table c with
    | error e d =>
      rw [ran] at scan
      exact scan
    | ok pinned d =>
      rw [ran] at scan
      rcases scan with ⟨_,same⟩ | ⟨_,_,_,_,_,more⟩
      · exact same
      · exact more.fewer
  releases := releasePin_records

theorem chunkFunction_records (kind : ChunkKind) (schema table : String) (rows : JsonText) :
    Effect.Keeps (Conn.Records dsn made) (chunkFunction core kind schema table rows) := by
  rw [chunkFunction_eq]
  have opening : Queried core (openChunk core schema table) := openChunk_for schema table
  exact opening.records.bind fun ctx => (chunkBody_for core kind rows ctx).records

theorem commit_records (other : Elsewhere) {c : Conn} (records : c.Records dsn made) :
    (other.commit c).Records dsn made where
  dsn := records.dsn
  drawn pin listed := (records.drawn pin listed).trans_le (Int.le_add_of_nonneg_right (by omega))
  stored := by
    have rises : c.client.sequence ≤ c.client.sequence + other.draws := by omega
    have later : ∀ snapshot, Agrees made c.client.sequence snapshot →
        Agrees made (c.client.sequence + other.draws) snapshot := fun _ agrees =>
      agrees.later records.drawn rises fun _ => .inl
    have changed : ∀ snapshot, Agrees made c.client.sequence snapshot →
        Agrees made (c.client.sequence + other.draws) { snapshot with
          database := other.change c.client.sequence snapshot.database } := fun _ agrees =>
      agrees.later records.drawn rises (other.pins _ _)
    refine ⟨changed _ records.stored.1,fun w inside => ?_⟩
    cases block : c.client.session.block with
    | «open» w' =>
      simp only [Elsewhere.commit, alter, block, Sql.Block.open.injEq] at inside
      exact inside ▸ changed _ (records.stored.2 w' block)
    | idle => simp [Elsewhere.commit, alter, block] at inside
    | aborted => simp [Elsewhere.commit, alter, block] at inside

/-- A scan call keeps its transaction's scans and adds at most the one it acquired. -/
theorem getPinnedScan_records (core : Core) (ref : TableRef) {a : Attached}
    (records : a.conn.Records dsn made) :
    let b := Effect.final (getPinnedScan core ref a)
    (b.conn.Records dsn made ∧ (b.txn.scanByTable = a.txn.scanByTable ∨ ∃ pinned,
        pinned.hasPin = false ∧ b.txn.scanByTable = a.txn.scanByTable ++ [(ref.tableId,pinned)])) ∨
    ∃ pinned pin source, pinned.hasPin = true ∧
      b.txn.scanByTable = a.txn.scanByTable ++ [(ref.tableId,pinned)] ∧
      pinned.pinId = pin.pinId ∧ a.conn.client.sequence ≤ pin.pinId ∧
      ReadsAt core dsn ref.schemaName ref.tableName a.conn.db pinned.scanSql pin source ∧
      b.conn.Records dsn (made ++ [pin]) := by
  unfold getPinnedScan
  rw [Effect.bind_of_ok (Effect.get_apply a)]
  cases cached : a.txn.scanByTable.find? (·.1 = ref.tableId) with
  | some hit => exact .inl ⟨records,.inl rfl⟩
  | none =>
    have scan := acquireScan_records core ref.schemaName ref.tableName records
    cases ran : acquireScan core ref.schemaName ref.tableName a.conn with
    | error e c =>
      rw [ran] at scan
      have kept : c.Records dsn made := scan
      refine .inl ⟨?_,.inl ?_⟩ <;>
        simp [acquireReadScan, Effect.bind_apply, Effect.map_apply, client_apply, ran, kept]
    | ok pinned c =>
      rw [ran] at scan
      rcases scan with ⟨nothing,same⟩ | ⟨pin,source,id,new,reads,more⟩
      · refine .inl ⟨?_,.inr ⟨⟨false,0,pinned.scanSql,pinned.attachSql.getD ""⟩,rfl,?_⟩⟩ <;>
          simp [acquireReadScan, Effect.bind_apply, Effect.map_apply, client_apply, ran, nothing,
            onTxn, same]
      · refine .inr ⟨⟨true,pin.pinId,pinned.scanSql,pinned.attachSql.getD ""⟩,pin,source,
          rfl,?_,rfl,new,reads,?_⟩ <;>
          simp [acquireReadScan, Effect.bind_apply, Effect.map_apply, client_apply, ran, id,
            onTxn, more]

end Records

section Scans

variable {core : Core} {dsn : String} {made : List Pin} {c next : Calls} {t : Nat}
  {seen : Nat → Int × TierDBPinnedScan → TableRef → Database → Prop} {txn : TierDBTransaction}

/-- Every cached scan with a pin is the merged read at its recorded pin, of the table and the
database that were seen for it, and no other's. -/
structure Matched (core : Core) (dsn : String)
    (seen : Nat → Int × TierDBPinnedScan → TableRef → Database → Prop) (made : List Pin)
    (c : Calls) : Prop where
  records : c.sys.conn.Records dsn made
  reads : ∀ t entry, c.sys.Caches t entry → ∃ pin ∈ made, pin.pinId = entry.2.pinId ∧
    ∃ ref db source, seen t entry ref db ∧
      ReadsAt core dsn ref.schemaName ref.tableName db entry.2.scanSql pin source
  sole : ∀ t u entry other, c.sys.Caches t entry → c.sys.Caches u other →
    entry.2.pinId = other.2.pinId → t = u ∧ entry = other

theorem Matched.mono {more : Nat → Int × TierDBPinnedScan → TableRef → Database → Prop}
    (matched : Matched core dsn seen made c)
    (wider : ∀ t entry ref db, seen t entry ref db → more t entry ref db) :
    Matched core dsn more made c where
  records := matched.records
  reads t entry caches := by
    obtain ⟨pin,listed,id,ref,db,source,known,reads⟩ := matched.reads t entry caches
    exact ⟨pin,listed,id,ref,db,source,wider t entry ref db known,reads⟩
  sole := matched.sole

/-- No scan is cached under an id that is still to be drawn. -/
theorem Matched.fresh (matched : Matched core dsn seen made c) {entry : Int × TierDBPinnedScan}
    (new : c.sys.conn.client.sequence ≤ entry.2.pinId) : ¬c.sys.Caches t entry := by
  intro caches
  obtain ⟨recorded,listed,own,_⟩ := matched.reads t entry caches
  have drawn := matched.records.drawn recorded listed
  omega

/-- A step that caches no scan with a new pin. -/
theorem Matched.same (matched : Matched core dsn seen made c)
    (records : next.sys.conn.Records dsn made)
    (older : ∀ t entry, next.sys.Caches t entry → c.sys.Caches t entry) :
    Matched core dsn seen made next where
  records := records
  reads t entry caches := matched.reads t entry (older t entry caches)
  sole t u entry other first second :=
    matched.sole t u entry other (older t entry first) (older u other second)

/-- A step that caches one scan, with a pin of a new id. -/
theorem Matched.more (t : Nat) (entry : Int × TierDBPinnedScan) {pin : Pin} {db : Database}
    {ref : TableRef} {source : ScanSource} (matched : Matched core dsn seen made c)
    (known : seen t entry ref db)
    (records : next.sys.conn.Records dsn (made ++ [pin])) (id : entry.2.pinId = pin.pinId)
    (new : c.sys.conn.client.sequence ≤ pin.pinId)
    (reads : ReadsAt core dsn ref.schemaName ref.tableName db entry.2.scanSql pin source)
    (older : ∀ u other, next.sys.Caches u other →
      c.sys.Caches u other ∨ (u = t ∧ other = entry)) :
    Matched core dsn seen (made ++ [pin]) next where
  records := records
  reads u other caches := by
    rcases older u other caches with old | ⟨rfl,rfl⟩
    · obtain ⟨recorded,listed,facts⟩ := matched.reads u other old
      exact ⟨recorded,List.mem_append_left _ listed,facts⟩
    · exact ⟨pin,by simp,id.symm,ref,db,source,known,reads⟩
  sole u v first second holds holds' same := by
    have apart : ∀ w other, c.sys.Caches w other → other.2.pinId ≠ entry.2.pinId := by
      intro w other caches clash
      exact matched.fresh (by rw [clash, id]; exact new) caches
    rcases older u first holds with old | ⟨rfl,rfl⟩ <;>
      rcases older v second holds' with old' | ⟨rfl,rfl⟩
    · exact matched.sole u v first second old old' same
    · exact absurd same (apart u first old)
    · exact absurd same.symm (apart v second old')
    · exact ⟨rfl,rfl⟩

/-- The scans of a system in which a call left `t` the transaction `after`. -/
theorem caches_settled {sys : System} {after : TierDBTransaction} {u : Nat}
    {entry : Int × TierDBPinnedScan}
    (settled : sys.transactions = assign c.sys.transactions t (some after))
    (caches : sys.Caches u entry) :
    (u = t ∧ entry ∈ after.scanByTable ∧ entry.2.hasPin = true) ∨
      (u ≠ t ∧ c.sys.Caches u entry) := by
  obtain ⟨txn,found,member,pinned⟩ := caches
  rw [settled] at found
  by_cases same : u = t
  · subst same
    rw [assign_same, Option.some.injEq] at found
    exact .inl ⟨rfl,found ▸ member,pinned⟩
  · rw [assign_other _ same] at found
    exact .inr ⟨same,txn,found,member,pinned⟩

theorem System.Caches.of_settled {sys sys' : System} {after : TierDBTransaction}
    {entry : Int × TierDBPinnedScan}
    (settled : sys'.transactions = assign sys.transactions t (some after))
    (member : entry ∈ after.scanByTable) (pinned : entry.2.hasPin = true) :
    sys'.Caches t entry :=
  ⟨after,by rw [settled, assign_same],member,pinned⟩

/-- A call that leaves its transaction no scan it had not. -/
theorem Matched.settled {after : TierDBTransaction} (matched : Matched core dsn seen made c)
    (found : c.sys.transactions t = some txn)
    (settled : next.sys.transactions = assign c.sys.transactions t (some after))
    (records : next.sys.conn.Records dsn made)
    (fewer : ∀ entry ∈ after.scanByTable, entry ∈ txn.scanByTable) :
    Matched core dsn seen made next := by
  refine matched.same records fun u entry caches => ?_
  rcases caches_settled settled caches with ⟨rfl,member,pinned⟩ | ⟨_,older⟩
  · exact ⟨txn,found,fewer entry member,pinned⟩
  · exact older

theorem scan_matched {ref : TableRef} {verdicts : List (Option String)}
    (matched : Matched core dsn seen made c)
    (known : ∀ entry, entry.1 = ref.tableId → ¬c.sys.Caches t entry → next.sys.Caches t entry →
      seen t entry ref c.sys.conn.db)
    (taken : c.step core (.scan t ref verdicts) = some next) :
    ∃ made, Matched core dsn seen made next := by
  obtain ⟨txn,_,_,found,rfl⟩ := calls_scan taken
  have records : (c.sys.enter t txn verdicts []).conn.Records dsn made :=
    ⟨matched.records.dsn,matched.records.drawn,matched.records.stored⟩
  have effect := getPinnedScan_records core ref records
  have old : ∀ entry ∈ txn.scanByTable, entry.2.hasPin = true → c.sys.Caches t entry :=
    fun entry member pinned => ⟨txn,found,member,pinned⟩
  rcases effect with ⟨kept,none⟩ | ⟨pinned,pin,source,has,added,id,new,reads,more⟩
  · refine ⟨made,matched.same (by simpa using kept) fun u entry caches => ?_⟩
    rcases caches_settled (settleResult_transactions ..) caches with ⟨rfl,member,has⟩ | ⟨_,older⟩
    · rcases none with same | ⟨pinned,without,added⟩
      · exact old entry (same ▸ member) has
      · rw [added, List.mem_append, List.mem_singleton] at member
        rcases member with listed | rfl
        · exact old entry listed has
        · simp [without] at has
    · exact older
  · have fresh : ¬c.sys.Caches t (ref.tableId,pinned) := matched.fresh (by rw [id]; exact new)
    have seen := known (ref.tableId,pinned) rfl fresh
      (.of_settled (settleResult_transactions ..) (by rw [added]; simp) has)
    refine ⟨_,matched.more t (ref.tableId,pinned) seen (by simpa using more) id new reads
      fun u entry caches => ?_⟩
    rcases caches_settled (settleResult_transactions ..) caches with ⟨rfl,member,has⟩ | ⟨_,older⟩
    · rw [added, List.mem_append, List.mem_singleton] at member
      exact member.imp (fun listed => old entry listed has) fun is => ⟨rfl,is⟩
    · exact .inl older

theorem resume_matched {verdicts answers : List (Option String)}
    (matched : Matched core dsn seen made c)
    (taken : c.step core (.resume t verdicts answers) = some next) :
    Matched core dsn seen made next := by
  have keep := records_callsKeep core dsn made
  obtain ⟨txn,pending,found,waits,rfl⟩ := calls_resume taken
  have records : (c.sys.enter t txn verdicts answers).conn.Records dsn made :=
    ⟨matched.records.dsn,matched.records.drawn,matched.records.stored⟩
  cases pending with
  | chunk kind schema table rows =>
    have chunk : Effect.Keeps (Conn.Records dsn made) (chunkFunction core kind schema table rows) :=
      chunkFunction_records kind schema table rows
    have kept := client_keeps chunk (c.sys.enter t txn verdicts answers) records
    have same := client_txn (chunkFunction core kind schema table rows)
      (c.sys.enter t txn verdicts answers)
    rw [Calls.resume]
    cases ran : client (chunkFunction core kind schema table rows)
        (c.sys.enter t txn verdicts answers) with
    | ok outcome b =>
      rw [ran] at kept same
      have same : b.txn = txn := same
      exact matched.settled found rfl kept fun entry member => by rwa [same] at member
    | error e b =>
      rw [ran] at kept same
      have same : b.txn = txn := same
      exact matched.settled found rfl kept fun entry member => by rwa [same] at member
  | lake attachSql lakeSql =>
    rw [Calls.resume]
    cases executeLakeDml attachSql lakeSql (c.sys.enter t txn verdicts answers).lakeSide <;>
      exact matched.settled found rfl records fun entry member => member
  | release ending ids =>
    cases ids with
    | nil =>
      refine matched.same records fun u entry caches => ?_
      obtain ⟨txn',known,member,pinned⟩ := caches
      by_cases same : u = t
      · simp [Calls.resume, same] at known
      · exact ⟨txn',by simpa [Calls.resume, assign_other _ same] using known,member,pinned⟩
    | cons id rest =>
      have kept := keep.boundary.releases id (c.sys.enter t txn verdicts answers) records
      have same := client_txn (releasePin id) (c.sys.enter t txn verdicts answers)
      rw [Calls.resume]
      cases ran : client (releasePin id) (c.sys.enter t txn verdicts answers) with
      | ok u b =>
        rw [ran] at kept same
        have same : b.txn = txn := same
        exact matched.settled found rfl kept fun entry member => by rwa [same] at member
      | error e b =>
        rw [ran] at kept same
        have same : b.txn = txn := same
        exact matched.settled found rfl kept fun entry member => by rwa [same] at member

theorem calls_matched {call : Call} (matched : Matched core dsn seen made c)
    (known : ∀ t ref verdicts, call = .scan t ref verdicts → ∀ entry, entry.1 = ref.tableId →
      ¬c.sys.Caches t entry → next.sys.Caches t entry → seen t entry ref c.sys.conn.db)
    (taken : c.step core call = some next) :
    ∃ made, Matched core dsn seen made next := by
  have keep := records_callsKeep core dsn made
  have entered (t : Nat) (txn : TierDBTransaction) (verdicts : List (Option String)) :
      (c.sys.enter t txn verdicts []).conn.Records dsn made :=
    ⟨matched.records.dsn,matched.records.drawn,matched.records.stored⟩
  cases call with
  | start t =>
    obtain ⟨free,_,rfl⟩ := calls_start taken
    refine ⟨made,matched.same matched.records fun u entry caches => ?_⟩
    rcases caches_settled rfl caches with ⟨_,member,_⟩ | ⟨_,older⟩
    · simp at member
    · exact older
  | scan t ref verdicts => exact scan_matched matched (known t ref verdicts rfl) taken
  | sink t kind schema table rows verdicts =>
    obtain ⟨txn,_,_,found,left⟩ := calls_sink taken
    have kept := ensureWriteTxn_keeps keep.boundary _ (entered t txn verdicts)
    have same := ensureWriteTxn_scans (c.sys.enter t txn verdicts [])
    rcases left with ⟨b,ran,rfl⟩ | ⟨e,b,ran,rfl⟩ <;> rw [ran] at kept same <;>
      exact ⟨made,matched.settled found rfl kept fun entry member => same ▸ member⟩
  | commit t verdicts =>
    obtain ⟨txn,ending,_,_,found,rfl⟩ := calls_commit taken
    have kept := commitWrite_keeps keep.boundary _ (entered t txn verdicts)
    exact ⟨made,matched.settled found rfl kept fun entry member => absurd member List.not_mem_nil⟩
  | rollback t verdicts =>
    obtain ⟨txn,_,found,rfl⟩ := calls_rollback taken
    have kept := rollbackWrite_keeps keep.boundary _ (entered t txn verdicts)
    exact ⟨made,matched.settled found rfl kept fun entry member => absurd member List.not_mem_nil⟩
  | resume t verdicts answers => exact ⟨made,resume_matched matched taken⟩

theorem happen_matched {happening : Happening} (matched : Matched core dsn seen made c)
    (known : ∀ t ref verdicts, happening = .call (.scan t ref verdicts) → ∀ entry,
      entry.1 = ref.tableId → ¬c.sys.Caches t entry → next.sys.Caches t entry →
      seen t entry ref c.sys.conn.db)
    (taken : happen core c happening = some next) :
    ∃ made, Matched core dsn seen made next := by
  cases happening with
  | call call =>
    exact calls_matched matched (fun t ref verdicts is =>
      known t ref verdicts (congrArg Happening.call is)) taken
  | elsewhere other =>
    cases taken
    exact ⟨made,matched.same (commit_records other matched.records) fun _ _ => id⟩

/-- The boundary of the transaction has begun. -/
def Calls.Leaving (c : Calls) (t : Nat) : Prop := ∃ ending ids, c.pending t = some (.release ending ids)

/-- The transaction still returns the scan for the table id, or is at its boundary, or has
ended. -/
def Calls.Repeats (c : Calls) (t : Nat) (id : Int) (hit : Int × TierDBPinnedScan) : Prop :=
  c.Leaving t ∨
  (∃ txn, c.sys.transactions t = some txn ∧ txn.scanByTable.find? (·.1 = id) = some hit) ∨
  (c.sys.transactions t = none ∧ c.sys.ended t ≠ none)

/-- A call of `u` leaves the scans of any other transaction alone. -/
theorem Calls.Repeats.settled {u : Nat} {id : Int} {hit : Int × TierDBPinnedScan}
    {after : TierDBTransaction} (repeats : c.Repeats t id hit)
    (found : c.sys.transactions u = some txn) (staying : ¬c.Leaving u)
    (pending : ∀ v, v ≠ u → next.pending v = c.pending v)
    (settled : next.sys.transactions = assign c.sys.transactions u (some after))
    (ended : next.sys.ended = c.sys.ended)
    (kept : after.scanByTable = txn.scanByTable ∨
      ∃ entry, after.scanByTable = txn.scanByTable ++ [entry]) : next.Repeats t id hit := by
  rw [Calls.Repeats, Calls.Leaving, settled, ended]
  by_cases same : t = u
  · subst same
    rcases repeats with leaving | ⟨txn',known,cached⟩ | ⟨closed,_⟩
    · exact absurd leaving staying
    · obtain rfl : txn' = txn := Option.some.inj (known.symm.trans found)
      refine .inr (.inl ⟨after,assign_same _ _ _,?_⟩)
      rcases kept with kept | ⟨entry,kept⟩
      · rw [kept, cached]
      · rw [kept, List.find?_append, cached, Option.some_or]
    · simp [closed] at found
  · rw [pending t same, assign_other _ same]
    exact repeats

/-- What a boundary of `u` leaves the other transactions. -/
theorem Calls.Repeats.left {u : Nat} {id : Int} {hit : Int × TierDBPinnedScan}
    (repeats : c.Repeats t id hit) (own : next.Repeats u id hit)
    (pending : ∀ v, v ≠ u → next.pending v = c.pending v)
    (transactions : ∀ v, v ≠ u → next.sys.transactions v = c.sys.transactions v)
    (ended : ∀ v, v ≠ u → next.sys.ended v = c.sys.ended v) : next.Repeats t id hit := by
  by_cases same : t = u
  · exact same ▸ own
  · rw [Calls.Repeats, Calls.Leaving, pending t same, transactions t same, ended t same]
    exact repeats

theorem not_leaving {u : Nat} (ready : c.pending u = none) : ¬c.Leaving u := by
  rintro ⟨_,_,waits⟩
  simp [ready] at waits

theorem leave_repeats {u : Nat} {id : Int} {hit : Int × TierDBPinnedScan} {ending : Ending}
    {a : Attached} (repeats : c.Repeats t id hit) : (c.leave u ending a).Repeats t id hit :=
  repeats.left (u := u) (.inl ⟨ending,a.txn.pins,by simp [Calls.leave, Calls.wait]⟩)
    (fun v other => by simp [Calls.leave, Calls.wait, assign_other _ other])
    (fun v other => by simp [Calls.leave, Calls.wait, assign_other _ other]) fun _ _ => rfl

theorem resume_repeats {u : Nat} {id : Int} {hit : Int × TierDBPinnedScan}
    {verdicts answers : List (Option String)} (repeats : c.Repeats t id hit)
    (taken : c.step core (.resume u verdicts answers) = some next) : next.Repeats t id hit := by
  obtain ⟨txn,pending,found,waits,rfl⟩ := calls_resume taken
  cases pending with
  | chunk kind schema table rows =>
    have staying : ¬c.Leaving u := by rintro ⟨_,_,leaving⟩; simp [waits] at leaving
    have same := client_txn (chunkFunction core kind schema table rows)
      (c.sys.enter u txn verdicts answers)
    rw [Calls.resume]
    cases ran : client (chunkFunction core kind schema table rows)
        (c.sys.enter u txn verdicts answers) <;> rw [ran] at same <;>
      exact repeats.settled found staying (fun v other => by
        simp [Calls.wait, Calls.throws, assign_other _ other]) rfl rfl
        (.inl (congrArg TierDBTransaction.scanByTable same))
  | lake attachSql lakeSql =>
    have staying : ¬c.Leaving u := by rintro ⟨_,_,leaving⟩; simp [waits] at leaving
    rw [Calls.resume]
    cases executeLakeDml attachSql lakeSql (c.sys.enter u txn verdicts answers).lakeSide <;>
      exact repeats.settled found staying (fun v other => by
        simp [Calls.wait, Calls.throws, assign_other _ other]) rfl rfl (.inl rfl)
  | release ending ids =>
    cases ids with
    | nil =>
      refine repeats.left (u := u) (.inr (.inr ?_)) (fun v other => ?_) (fun v other => ?_) fun v other => ?_
      · simp [Calls.resume]
      · simp [Calls.resume, assign_other _ other]
      · simp [Calls.resume, assign_other _ other]
      · simp [Calls.resume, assign_other _ other]
    | cons pin rest =>
      rw [Calls.resume]
      cases client (releasePin pin) (c.sys.enter u txn verdicts answers) <;>
        exact repeats.left (u := u) (.inl ⟨_,_,assign_same _ _ _⟩)
          (fun v other => by simp [Calls.wait, assign_other _ other])
          (fun v other => by simp [Calls.wait, assign_other _ other]) fun _ _ => rfl

/-- Whatever is called or changed, a cached scan is returned until its transaction ends. -/
theorem happen_repeats {happening : Happening} {id : Int} {hit : Int × TierDBPinnedScan}
    (repeats : c.Repeats t id hit) (taken : happen core c happening = some next) :
    next.Repeats t id hit := by
  cases happening with
  | elsewhere other => cases taken; exact repeats
  | call call =>
    change c.step core call = some next at taken
    cases call with
    | start u =>
      obtain ⟨free,fresh,rfl⟩ := calls_start taken
      by_cases same : t = u
      · subst same
        rcases repeats with leaving | ⟨_,known,_⟩ | ⟨_,ended⟩
        · exact .inl leaving
        · simp [free] at known
        · exact absurd fresh ended
      · rcases repeats with leaving | open_ | closed
        · exact .inl leaving
        · exact .inr (.inl (by simpa [assign_other _ same] using open_))
        · exact .inr (.inr (by simpa [assign_other _ same] using closed))
    | scan u ref verdicts =>
      obtain ⟨txn,_,ready,found,rfl⟩ := calls_scan taken
      refine repeats.settled found (not_leaving ready) (fun _ _ => rfl)
        (settleResult_transactions ..) (settleResult_ended ..) ?_
      rcases getPinnedScan_cases core ref (c.sys.enter u txn verdicts []) with
        ⟨_,_,_,_,same⟩ | ⟨_,same⟩ | ⟨pinned,_,_,added⟩
      · exact .inl same
      · exact .inl same
      · exact .inr ⟨_,added⟩
    | sink u kind schema table rows verdicts =>
      obtain ⟨txn,_,ready,found,left⟩ := calls_sink taken
      have same := ensureWriteTxn_scans (c.sys.enter u txn verdicts [])
      rcases left with ⟨b,ran,rfl⟩ | ⟨e,b,ran,rfl⟩ <;> rw [ran] at same <;>
        exact repeats.settled found (not_leaving ready) (fun v other => by
          simp [Calls.wait, Calls.throws, assign_other _ other]) rfl rfl (.inl same)
    | commit u verdicts =>
      obtain ⟨_,_,_,_,_,rfl⟩ := calls_commit taken
      exact leave_repeats repeats
    | rollback u verdicts =>
      obtain ⟨_,_,_,rfl⟩ := calls_rollback taken
      exact leave_repeats repeats
    | resume u verdicts answers => exact resume_repeats repeats taken

theorem PinFree.matched {sys : System} (free : PinFree sys) :
    Matched core sys.conn.dsn seen [] { sys } where
  records := ⟨rfl,nofun,⟨fun pin stored => free.pins pin stored,fun _ _ => nofun⟩,
    fun w inside => by simp [free.block] at inside⟩
  reads t entry := by
    rintro ⟨_,found,_⟩
    simp [free.transactions] at found
  sole t u entry other := by
    rintro ⟨_,found,_⟩
    simp [free.transactions] at found

/-- One of these is the scan of the table that first returned `entry` to `t`, and the
connection reads `db` when it is called. -/
def ReadBy (core : Core) (start : Calls) (happenings : List Happening) (t : Nat)
    (entry : Int × TierDBPinnedScan) (ref : TableRef) (db : Database) : Prop :=
  ∃ front verdicts back mid next,
    happenings = front ++ .call (.scan t ref verdicts) :: back ∧
    Runs.run (happen core) start front = some mid ∧
    happen core mid (.call (.scan t ref verdicts)) = some next ∧ entry.1 = ref.tableId ∧
    ¬mid.sys.Caches t entry ∧ next.sys.Caches t entry ∧ mid.sys.conn.db = db

theorem ReadBy.append {start : Calls} {happenings : List Happening} {happening : Happening}
    {entry : Int × TierDBPinnedScan} {ref : TableRef} {db : Database}
    (read : ReadBy core start happenings t entry ref db) :
    ReadBy core start (happenings ++ [happening]) t entry ref db := by
  obtain ⟨front,verdicts,back,mid,next,rfl,facts⟩ := read
  exact ⟨front,verdicts,back ++ [happening],mid,next,by simp,facts⟩

theorem run_matched {sys : System} {happenings : List Happening} (free : PinFree sys)
    (ran : Runs.run (happen core) { sys } happenings = some next) :
    ∃ made, Matched core sys.conn.dsn (ReadBy core { sys } happenings) made next := by
  induction happenings using List.reverseRecOn generalizing next with
  | nil =>
    cases ran
    exact ⟨[],free.matched⟩
  | append_singleton front happening ih =>
    obtain ⟨mid,reached,last⟩ := Runs.run_append_some.mp ran
    obtain ⟨made,matched⟩ := ih reached
    obtain ⟨_,taken,ended⟩ := Runs.run_cons.mp last
    cases ended
    refine happen_matched (matched.mono fun _ _ _ _ => ReadBy.append) ?_ taken
    rintro t ref verdicts rfl entry own fresh cached
    exact ⟨front,verdicts,[],mid,_,rfl,reached,taken,own,fresh,cached,rfl⟩

/-- A pin matches exactly what its scan reads. In every run of the calls of any number of
transactions and of commits of other sessions, each cached scan with a pin is the merged
read at one cut-line row, stored when the scan was called that first returned it, and every
pin row under its id names that row's table, tier key and lake snapshot; no two cached scans share an id, and a scan
stays as it was returned until its transaction's boundary. -/
theorem pins_match_scans (core : Core) {sys : System} {happenings : List Happening}
    (free : PinFree sys) (ran : Runs.run (happen core) { sys } happenings = some next) :
    (∀ t entry, next.sys.Caches t entry → ∃ pin ref db source, pin.pinId = entry.2.pinId ∧
      ReadBy core { sys } happenings t entry ref db ∧
      ReadsAt core sys.conn.dsn ref.schemaName ref.tableName db entry.2.scanSql pin source ∧
      ∀ stored, stored ∈ next.sys.durable.pins ∨ stored ∈ next.sys.conn.db.pins →
        stored.pinId = pin.pinId → stored = pin) ∧
    (∀ t u entry other, next.sys.Caches t entry → next.sys.Caches u other →
      entry.2.pinId = other.2.pinId → t = u ∧ entry = other) ∧
    ∀ front back mid, happenings = front ++ back →
      Runs.run (happen core) { sys } front = some mid →
      ∀ t id hit txn txn', mid.sys.transactions t = some txn →
        txn.scanByTable.find? (·.1 = id) = some hit → next.sys.transactions t = some txn' →
        ¬next.Leaving t → txn'.scanByTable.find? (·.1 = id) = some hit := by
  obtain ⟨made,matched⟩ := run_matched free ran
  refine ⟨fun t entry caches => ?_,matched.sole,?_⟩
  · obtain ⟨pin,recorded,id,ref,db,source,read,reads⟩ := matched.reads t entry caches
    refine ⟨pin,ref,db,source,id,read,reads,fun stored member same => ?_⟩
    have all := matched.records.stored
    rcases member with durable | seen
    · exact all.1.own stored durable pin recorded same.symm
    · exact all.view.own stored seen pin recorded same.symm
  · rintro front back mid rfl reached t id hit txn txn' known cached still staying
    obtain ⟨mid',again,later⟩ := Runs.run_append_some.mp ran
    obtain rfl : mid = mid' := Option.some.inj (reached.symm.trans again)
    have repeats : next.Repeats t id hit :=
      Runs.run_preserves (fun _ _ _ repeats taken => happen_repeats repeats taken)
        (.inr (.inl ⟨txn,known,cached⟩)) later
    rcases repeats with leaving | ⟨same,found,hits⟩ | ⟨closed,_⟩
    · exact absurd leaving staying
    · obtain rfl : same = txn' := Option.some.inj (found.symm.trans still)
      exact hits
    · simp [closed] at still

end Scans

namespace Reference

/-- Another session advances the cut-line of `items` and pins it for a scan of its own. -/
def advanceCut : Elsewhere where
  draws := 1
  change first db := { db.setCutline 1 (some ⟨50,7,none,none⟩) with
    pins := db.pins ++ [⟨first,1,7,50⟩] }
  pins first db pin member := by
    refine (List.mem_append.mp member).imp id fun new => ?_
    obtain rfl := List.mem_singleton.mp new
    exact ⟨Int.le_refl _,Int.lt_succ _⟩

/-- Two transactions read `items`, the first before and after the cut-line advances. -/
def acrossAdvance : List Happening :=
  [.call (.start 1),.call (.scan 1 readItems []),.elsewhere advanceCut,
    .call (.scan 1 readItems []),.call (.start 2),.call (.scan 2 readItems [])]

end Reference

open Reference in
theorem acrossAdvance_matched : ∃ next, Runs.run (happen Reference.core)
      { sys := system (database "tiered" 10 []) } acrossAdvance = some next ∧
    next.sys.durable.pins = [⟨1,1,1,10⟩,⟨2,1,7,50⟩,⟨3,1,7,50⟩] ∧
    ∃ entry, ∃ source : ScanSource, next.sys.Caches 1 entry ∧ source.row.tierKeyHi = 10 ∧
      source.row.lakeSnapshotId = 1 ∧
      renderPinned Reference.core source.schema "" source.lake (some source.cut) =
        .ok entry.2.scanSql := by
  have reached : ((Runs.run (happen Reference.core)
      { sys := system (database "tiered" 10 []) } acrossAdvance).map fun next =>
        (next.sys.durable.pins,(next.sys.transactions 1).map fun txn =>
          txn.scanByTable.map fun entry => (entry.2.hasPin,entry.2.pinId))) =
      some ([⟨1,1,1,10⟩,⟨2,1,7,50⟩,⟨3,1,7,50⟩],some [(true,1)]) := by decide +kernel
  obtain ⟨next,ran,seen⟩ := Option.map_eq_some_iff.mp reached
  simp only [Prod.mk.injEq, Option.map_eq_some_iff] at seen
  obtain ⟨pins,txn,found,cached⟩ := seen
  obtain ⟨entry,only,has⟩ := List.map_eq_singleton_iff.mp cached
  obtain ⟨pinned,id⟩ := Prod.mk.inj has
  have free : PinFree (system (database "tiered" 10 [])) :=
    ⟨rfl,rfl,fun _ => rfl,by simp [System.durable, system, database]⟩
  have caches : next.sys.Caches 1 entry := ⟨txn,found,by simp [only],pinned⟩
  obtain ⟨pin,_,db,source,same,_,reads,own⟩ :=
    (pins_match_scans Reference.core free ran).1 1 entry caches
  have stored : (⟨1,1,1,10⟩ : Pin) ∈ next.sys.durable.pins := by simp [pins]
  have is := own _ (.inl stored) (id.symm.trans same.symm)
  exact ⟨next,ran,pins,entry,source,caches,reads.tierKey.symm.trans (is ▸ rfl),
    reads.snapshot.symm.trans (is ▸ rfl),reads.rendered⟩

end TierDb
