import TierDb.Blocks
import TierDb.Pins

/-! What a scan that fails leaves of its pin. The statements an acquire sends are counted
on the database it reads, so that every refusal has its place among them. -/
namespace TierDb

def Conn.Accepts (c : Conn) (n : Nat) : Prop := c.client.session.Accepts n

def Conn.skip (n : Nat) (c : Conn) : Conn := c.setSession (c.client.session.skip n)

/-- The connection after one of the next statements was refused. -/
def Conn.refuse (n : Nat) (c : Conn) : Conn := c.setSession (c.client.session.skip n).fail

@[simp] theorem skip_db (c : Conn) (n : Nat) : (c.skip n).db = c.db := rfl

@[simp] theorem skip_skip (c : Conn) (n m : Nat) : (c.skip n).skip m = c.skip (n + m) := by
  simp [Conn.skip, Conn.setSession, Sql.Session.skip]

@[simp] theorem skip_refuse (c : Conn) (n m : Nat) : (c.skip n).refuse m = c.refuse (n + m) := by
  simp [Conn.refuse, Conn.skip, Conn.setSession, Sql.Session.skip]

@[simp] theorem accepts_zero (c : Conn) : c.Accepts 0 := ⟨by simp,by simp⟩

theorem accepts_idle {c : Conn} (idle : c.client.session.block = .idle) (n : Nat) :
    c.Accepts n ↔ ∀ v ∈ c.client.session.verdicts.take n, v = none := by
  simp [Conn.Accepts, Sql.Session.Accepts, idle]

theorem accepts_add (c : Conn) (n m : Nat) :
    c.Accepts (n + m) ↔ c.Accepts n ∧ (c.skip n).Accepts m := c.client.session.accepts_add n m

theorem refuse_idle {c : Conn} (idle : c.client.session.block = .idle) (n : Nat) :
    (c.refuse n).client.session.block = .idle ∧
      (c.refuse n).client.session.durable = c.client.session.durable := by
  simp [Conn.refuse, Conn.setSession, Sql.Session.skip, Sql.Session.fail, idle]

/-- `x` sends `cost` queries and then returns what `read` makes of the database, or fails by
itself. If one of the queries is refused it fails with it. -/
structure Asks {α : Type} (x : Pg α) (cost : Database → Nat) (read : Database → Option α) :
    Prop where
  found : ∀ c a, c.Accepts (cost c.db) → read c.db = some a → x c = .ok a (c.skip (cost c.db))
  missing : ∀ c, c.Accepts (cost c.db) → read c.db = none → ∃ e, x c = .error e (c.skip (cost c.db))
  refused : ∀ c, ¬c.Accepts (cost c.db) → ∃ e n, x c = .error e (c.refuse n)

section Asks

variable {core : Core} {α β : Type}

theorem Asks.pure (a : α) : Asks (Pure.pure a : Pg α) (fun _ => 0) (fun _ => some a) where
  found c b _ known := by
    cases known
    rfl
  missing c _ known := by cases known
  refused c refusal := absurd (accepts_zero c) refusal

theorem Asks.throw (e : String) :
    Asks (MonadExcept.throw e : Pg α) (fun _ => 0) (fun _ => none) where
  found c b _ known := by cases known
  missing c _ _ := ⟨e,rfl⟩
  refused c refusal := absurd (accepts_zero c) refusal

theorem Asks.ofExcept (x : Except String α) :
    Asks (Effect.ofExcept x : Pg α) (fun _ => 0) (fun _ => x.toOption) := by
  cases x with
  | ok a => exact .pure a
  | error e => exact .throw e

theorem Asks.query (read : Database → α) :
    Asks (TierDb.query fun db => .ok (read db)) (fun _ => 1) (fun db => some (read db)) where
  found c a accepted known := by
    cases known
    have sent := Sql.query_of_accepted
      (fun snapshot : Snapshot => .ok (read snapshot.database)) accepted
    rw [Sql.next_eq_skip] at sent
    exact onSession_ok.mpr ⟨_,sent,rfl⟩
  missing c _ known := by cases known
  refused c refusal := by
    obtain ⟨e,sent⟩ := Sql.statement_of_refused
      (fun snapshot : Snapshot => .ok (read snapshot.database,snapshot)) refusal
    rw [Sql.next_eq_skip] at sent
    exact ⟨e,1,onSession_error.mpr ⟨_,sent,rfl⟩⟩

theorem Asks.mapError {x : Pg α} {cost : Database → Nat} {read : Database → Option α}
    (asks : Asks x cost read) (f : String → String) : Asks (Effect.mapError f x) cost read where
  found c a accepted known := Effect.mapError_ok.mpr (asks.found c a accepted known)
  missing c accepted known := by
    obtain ⟨e,failed⟩ := asks.missing c accepted known
    exact ⟨f e,Effect.mapError_error.mpr ⟨e,failed,rfl⟩⟩
  refused c refusal := by
    obtain ⟨e,n,failed⟩ := asks.refused c refusal
    exact ⟨f e,n,Effect.mapError_error.mpr ⟨e,failed,rfl⟩⟩

/-- What a sequence sends: its first part, and its second if the first finds something. -/
def costThen (cost : Database → Nat) (read : Database → Option α) (next : α → Database → Nat)
    (db : Database) : Nat :=
  cost db + (read db).elim 0 (next · db)

theorem Asks.bind {x : Pg α} {f : α → Pg β} {cost : Database → Nat} {read : Database → Option α}
    (first : Asks x cost read) (costs : α → Database → Nat) (reads : α → Database → Option β)
    (next : ∀ a, Asks (f a) (costs a) (reads a)) :
    Asks (x >>= f) (costThen cost read costs) (fun db => (read db).bind fun a => reads a db) where
  found c b accepted known := by
    obtain ⟨a,known,later⟩ := Option.bind_eq_some_iff.mp known
    simp only [costThen, known, Option.elim_some, accepts_add] at accepted ⊢
    rw [Effect.bind_of_ok (first.found c a accepted.1 known),
      (next a).found (c.skip (cost c.db)) b accepted.2 later, skip_skip, skip_db]
  missing c accepted known := by
    cases here : read c.db with
    | none =>
      simp only [costThen, here, Option.elim_none, Nat.add_zero] at accepted ⊢
      obtain ⟨e,failed⟩ := first.missing c accepted here
      exact ⟨e,Effect.bind_of_error failed⟩
    | some a =>
      simp only [costThen, here, Option.elim_some, accepts_add, Option.bind_some] at accepted known ⊢
      obtain ⟨e,failed⟩ := (next a).missing (c.skip (cost c.db)) accepted.2 known
      rw [Effect.bind_of_ok (first.found c a accepted.1 here)]
      exact ⟨e,by rw [failed, skip_skip, skip_db]⟩
  refused c refusal := by
    by_cases accepted : c.Accepts (cost c.db)
    · cases here : read c.db with
      | none => simp [costThen, here, accepted] at refusal
      | some a =>
        have later : ¬(c.skip (cost c.db)).Accepts (costs a (c.skip (cost c.db)).db) := by
          intro passes
          apply refusal
          rw [costThen, here, Option.elim_some, accepts_add]
          exact ⟨accepted,passes⟩
        obtain ⟨e,n,failed⟩ := (next a).refused (c.skip (cost c.db)) later
        rw [Effect.bind_of_ok (first.found c a accepted here)]
        exact ⟨e,_,by rw [failed, skip_refuse]⟩
    · obtain ⟨e,n,failed⟩ := first.refused c accepted
      exact ⟨e,n,Effect.bind_of_error failed⟩

theorem Asks.congr {x : Pg α} {cost cost' : Database → Nat} {read read' : Database → Option α}
    (asks : Asks x cost read) (costs : ∀ db, cost' db = cost db) (reads : ∀ db, read' db = read db) :
    Asks x cost' read' := by
  rwa [show cost' = cost from funext costs, show read' = read from funext reads]

end Asks

section Queries

variable (core : Core)

/-- The queries of `tableSchema`. -/
def Database.schemaQueries (db : Database) (schema table : String) : Nat :=
  match db.findTable schema table with
  | .ok (some row) => if (core.tierKeyTypeFromName row.tierKeyType).toOption.isSome then 2 else 1
  | _ => 1

/-- The query of `scanLake`; only a direct table's storage profile is read. -/
def TableSchema.lakeQueries (ts : TableSchema) : Nat :=
  if (ts.modeOf core).toOption.any Mode.isDirect then 1 else 0

theorem heapColumns_asks (schema table : String) : Asks (heapColumns schema table) (fun _ => 1)
    fun db => if (db.attributes schema table).isEmpty then none
      else some (db.attributes schema table) := by
  refine (((Asks.query _).mapError _).bind (fun _ _ => 0)
    (fun rows _ => if rows.isEmpty then none else some rows) fun rows => ?_).congr
      (fun db => rfl) fun db => rfl
  split
  · exact .throw _
  · exact .pure _

theorem tableSchema_asks (schema table : String) : Asks (tableSchema core schema table)
    (Database.schemaQueries core · schema table) (Database.tableSchema core · schema table) := by
  refine ((((Asks.query _).bind _ _ fun answer => .ofExcept answer).mapError _).bind
    (fun found _ => found.elim 0 fun row =>
      if (core.tierKeyTypeFromName row.tierKeyType).toOption.isSome then 1 else 0)
    (fun found db => found.bind fun row =>
      (core.tierKeyTypeFromName row.tierKeyType).toOption.bind fun keyType =>
        (if (db.attributes schema table).isEmpty then none
          else some (db.attributes schema table)).bind fun columns =>
            some (row.withColumns keyType columns)) fun found => ?_).congr (fun db => ?_) fun db => ?_
  · cases found with
    | none => exact .throw _
    | some row =>
      refine (((Asks.ofExcept _).mapError _).bind _ _ fun keyType =>
        (heapColumns_asks schema table).bind _ _ fun columns => .pure _).congr (fun db => ?_)
        fun db => rfl
      cases typed : core.tierKeyTypeFromName row.tierKeyType with
      | error e => simp [costThen, Except.toOption, typed]
      | ok keyType =>
        cases columns : (db.attributes schema table).isEmpty <;>
          simp [costThen, Except.toOption, typed, columns]
  · unfold Database.schemaQueries
    cases found : db.findTable schema table with
    | error e => simp [costThen, found, Except.toOption]
    | ok answer =>
      cases answer with
      | none => simp [costThen, found, Except.toOption]
      | some row =>
        cases typed : core.tierKeyTypeFromName row.tierKeyType <;>
          simp [costThen, found, Except.toOption, typed]
  · unfold Database.tableSchema
    simp only [Option.bind_eq_bind]
    congr 1
    funext found
    congr 1
    funext row
    congr 1
    funext keyType
    split <;> rfl

theorem lakeCatalog_asks (ts : TableSchema) :
    Asks (lakeCatalog core ts) (fun _ => 1) (Database.lakeCatalog core · ts) := by
  refine (((Asks.query _).mapError _).bind (fun _ _ => 0) (fun found _ => found.bind fun profile =>
    (optionalProps core profile.lakeConfig "tierdb.storage_profiles.lake_config").toOption.bind
      fun config => (core.lakeCatalogFromProfile ts.lakeFormat ts.storageProfile
        profile.warehouse config).toOption) fun found => ?_).congr (fun db => rfl) fun db => rfl
  cases found with
  | none => exact .throw _
  | some profile =>
    refine ((Asks.ofExcept _).bind _ _ fun config => .ofExcept _).congr (fun db => ?_) fun db => rfl
    cases optionalProps core profile.lakeConfig "tierdb.storage_profiles.lake_config" <;> rfl

theorem scanLake_asks (ts : TableSchema) :
    Asks (scanLake core ts) (fun _ => ts.lakeQueries core) (Database.resolveCatalog core · ts) := by
  refine ((Asks.ofExcept _).bind (fun mode _ => if mode.isDirect then 1 else 0)
    (fun mode db => if mode.isDirect then
      (db.lakeCatalog core ts).bind fun found => found.bind fun catalog => some (some catalog)
      else some none) fun mode => ?_).congr (fun db => ?_) fun db => rfl
  · cases mode.isDirect with
    | false => exact .pure _
    | true =>
      refine ((lakeCatalog_asks core ts).bind (fun _ _ => 0) (fun found _ => found.bind fun catalog =>
        some (some catalog)) fun found => ?_).congr (fun db => ?_) fun db => rfl
      · cases found with
        | none => exact .throw _
        | some catalog => exact .pure _
      · cases known : db.lakeCatalog core ts <;> simp [costThen, known]
  · cases mode : ts.modeOf core <;> simp [TableSchema.lakeQueries, costThen, Except.toOption, mode]

theorem scanLake_reads (ts : TableSchema) :
    Reads core (scanLake core ts) (Database.resolveCatalog core · ts) := by
  rw [scanLake_resolves]
  exact resolveCatalog_reads core ts

theorem cutline_asks (tableId : Int) :
    Asks (cutline core tableId) (fun _ => 1) (Database.cutlineOf core · tableId) := by
  refine (((Asks.query _).mapError _).bind (fun _ _ => 0) (fun found _ => found.elim (some none)
    fun row => (optionalProps core row.lakeProps "tierdb.cutline.lake_props").toOption.bind
      fun props => some (some ⟨row.tierKeyHi,row.lakeSnapshotId,props⟩)) fun found => ?_).congr
    (fun db => rfl) fun db => ?_
  · cases found with
    | none => exact .pure _
    | some row =>
      refine ((Asks.ofExcept _).bind _ _ fun props => .pure _).congr (fun db => ?_) fun db => rfl
      cases optionalProps core row.lakeProps "tierdb.cutline.lake_props" <;> rfl
  · cases found : db.cutline tableId <;> simp [Database.cutlineOf, found]

/-- What an acquire reads before its pin. -/
def joinReads (schema table : String) : Pg (TableSchema × Option LakeCatalog × Option Cutline) := do
  let ts ← tableSchema core schema table
  let lake ← scanLake core ts
  let cut ← cutline core ts.tableId
  return (ts,lake,cut)

def Database.joinReads (db : Database) (schema table : String) :
    Option (TableSchema × Option LakeCatalog × Option Cutline) := do
  let ts ← db.tableSchema core schema table
  let lake ← db.resolveCatalog core ts
  let cut ← db.cutlineOf core ts.tableId
  some (ts,lake,cut)

def Database.joinQueries (db : Database) (schema table : String) : Nat :=
  costThen (Database.schemaQueries core · schema table) (Database.tableSchema core · schema table)
    (fun ts => costThen (fun _ => ts.lakeQueries core) (Database.resolveCatalog core · ts)
      fun _ _ => 1) db

theorem joinReads_asks (schema table : String) : Asks (joinReads core schema table)
    (Database.joinQueries core · schema table) (Database.joinReads core · schema table) := by
  refine ((tableSchema_asks core schema table).bind _ _ fun ts =>
    (scanLake_asks core ts).bind (fun _ _ => 1) (fun lake db => (db.cutlineOf core ts.tableId).bind
      fun cut => some (ts,lake,cut)) fun lake => ?_).congr (fun db => rfl) fun db => rfl
  refine ((cutline_asks core ts.tableId).bind _ _ fun cut => .pure _).congr (fun db => ?_)
    fun db => rfl
  cases known : db.cutlineOf core ts.tableId <;> simp [costThen, known]

/-- The pin of a joined scan and its text. -/
def pinRead (dsn : String) (read : TableSchema × Option LakeCatalog × Option Cutline) :
    Pg PinnedScan := do
  let pinId ← pinCut read.1.tableId read.2.2
  let scanSql ← Effect.ofExcept (renderPinned core read.1 dsn read.2.1 read.2.2)
  return ⟨pinId,scanSql,read.2.1.map LakeCatalog.attachSql⟩

/-- A scan that finds the flag set joins what is open. -/
theorem acquireScan_joined {c : Conn} (flag : c.inTxn = true) (schema table : String) :
    acquireScan core schema table c = (joinReads core schema table >>= pinRead core c.dsn) c := by
  unfold acquireScan joinReads
  cases read : tableSchema core schema table c with
  | error e d => simp [Effect.bind_apply, read]
  | ok ts m =>
    have sends := (tableSchema_sent core schema table).framed.ok _ _ _ read
    cases found : scanLake core ts m with
    | error e d => simp [Effect.bind_apply, read, found]
    | ok lake m' =>
      have sends' := (scanLake_sent ts).framed.ok _ _ _ found
      have flag' : m'.inTxn = true := (sends'.inTxn.trans sends.inTxn).trans flag
      cases cut : cutline core ts.tableId m' <;>
        simp [Effect.bind_apply, Effect.map_apply, read, found, flag', pinAndRender, pinRead, cut,
          sends.dsn]

/-- The statements of a joined scan: its queries, and the insert of its pin. -/
def Database.joinStatements (db : Database) (schema table : String) : Nat :=
  costThen (Database.joinQueries core · schema table) (Database.joinReads core · schema table)
    (fun read _ => if read.2.2.isSome then 1 else 0) db

end Queries

theorem refuse_db (c : Conn) (n : Nat) :
    (c.refuse n).db = c.client.session.durable.database := by
  simp [Conn.refuse, Conn.db, Conn.setSession, Sql.Session.skip]

/-- The pin rows the session reads, and those a COMMIT of its block would store. -/
structure SamePins (c d : Conn) : Prop where
  seen : d.db.pins = c.db.pins
  stored : (Effect.final (Sql.commit (d.withVerdicts []).client.session)).durable.database.pins =
    (Effect.final (Sql.commit (c.withVerdicts []).client.session)).durable.database.pins

/-- A COMMIT stores what the session reads. -/
theorem samePins_iff {c d : Conn} : SamePins c d ↔ d.db.pins = c.db.pins := by
  have stores (e : Conn) :
      (Effect.final (Sql.commit (e.withVerdicts []).client.session)).durable.database = e.db := by
    rw [Sql.commit_apply]
    rfl
  constructor
  · exact SamePins.seen
  · intro same
    exact ⟨same,by rw [stores, stores, same]⟩

section Joined

variable {core : Core}

def insertPin (pin : Pin) (snapshot : Snapshot) : Except String (Int × Snapshot) :=
  .ok (pin.pinId,{ snapshot with
    database := { snapshot.database with pins := snapshot.database.pins ++ [pin] } })

def Conn.nextPin (c : Conn) (tableId : Int) (cut : Cutline) : Pin :=
  ⟨c.client.sequence,tableId,cut.lakeSnapshotId,cut.tierKeyHi⟩

def Conn.draw (c : Conn) : Conn :=
  { c with client := { c.client with sequence := c.client.sequence + 1 } }

theorem pinAcquire_apply (tableId : Int) (cut : Cutline) (c : Conn) :
    pinAcquire tableId cut c =
      onSession (Sql.statement (insertPin (c.nextPin tableId cut))) c.draw := rfl

theorem pinCut_accepted (tableId : Int) (cut : Cutline) {c : Conn} (accepted : c.Accepts 1) :
    ∃ d, pinCut tableId (some cut) c = .ok (some c.client.sequence) d ∧
      d.db.pins = c.db.pins ++ [c.nextPin tableId cut] := by
  have sent := Sql.statement_of_accepted (insertPin (c.nextPin tableId cut)) accepted
  have live : c.client.session.next.block ≠ .aborted := accepted.1 (by omega)
  have acquired : pinAcquire tableId cut c = .ok c.client.sequence _ :=
    onSession_ok.mpr ⟨_,sent,rfl⟩
  refine ⟨_,Effect.bind_of_ok (Effect.mapError_ok.mpr acquired),?_⟩
  simp only [Conn.db, Conn.setSession, Sql.write_view _ _ live]

theorem pinCut_refused (tableId : Int) (cut : Cutline) {c : Conn} (refused : ¬c.Accepts 1) :
    ∃ e d, pinCut tableId (some cut) c = .error e d ∧
      d.db = c.client.session.durable.database := by
  obtain ⟨e,sent⟩ := Sql.statement_of_refused (insertPin (c.nextPin tableId cut)) refused
  have failed : pinAcquire tableId cut c = .error e _ := onSession_error.mpr ⟨_,sent,rfl⟩
  exact ⟨_,_,Effect.bind_of_error (Effect.mapError_error.mpr ⟨e,failed,rfl⟩),
    by simp [Conn.db, Conn.setSession]⟩

/-- The scan joins what is open, its pin is accepted, and its text cannot be rendered. -/
def PinsThenFails (core : Core) (schema table : String) (c : Conn) : Prop :=
  c.inTxn = true ∧ c.Accepts (c.db.joinStatements core schema table) ∧
    ∃ ts lake cut, c.db.joinReads core schema table = some (ts,lake,some cut) ∧
      ∃ e, renderPinned core ts c.dsn lake (some cut) = .error e

/-- The scan joins a block with pin changes of its own, and one of its statements is
refused, which ends them. -/
def LosesBlock (core : Core) (schema table : String) (c : Conn) : Prop :=
  ∃ w, c.client.session.block = .open w ∧ w.database.pins ≠ c.durablePins ∧
    ¬c.Accepts (c.db.joinStatements core schema table)

theorem pinRead_none {ts : TableSchema} {lake : Option LakeCatalog} {dsn : String} {c d : Conn}
    {e : String} (run : pinRead core dsn (ts,lake,none) c = .error e d) : d.db = c.db := by
  rcases Effect.bind_error.mp run with pinned | ⟨_,_,pinned,rest⟩
  · cases pinned
  · cases pinned
    rcases Effect.bind_error.mp rest with rendered | ⟨_,_,_,done⟩
    · have still := Effect.final_ofExcept (renderPinned core ts dsn lake none) c
      rw [rendered, Effect.final_error] at still
      rw [still]
    · cases done

/-- An accepted pin stays behind exactly when the text cannot be rendered. -/
theorem pinRead_accepted {c : Conn} (accepted : c.Accepts 1) (ts : TableSchema)
    (lake : Option LakeCatalog) (cut : Cutline) (dsn : String) :
    (∃ e, renderPinned core ts dsn lake (some cut) = .error e ∧
      ∃ d, pinRead core dsn (ts,lake,some cut) c = .error e d ∧
        d.db.pins = c.db.pins ++ [c.nextPin ts.tableId cut]) ∨
    ∃ scanSql, renderPinned core ts dsn lake (some cut) = .ok scanSql ∧
      ∃ scan d, pinRead core dsn (ts,lake,some cut) c = .ok scan d := by
  obtain ⟨d,pinned,pins⟩ := pinCut_accepted ts.tableId cut accepted
  have bind := Effect.bind_of_ok (f := fun pinId => (do
    let scanSql ← Effect.ofExcept (renderPinned core ts dsn lake (some cut))
    return (⟨pinId,scanSql,lake.map LakeCatalog.attachSql⟩ : PinnedScan))) pinned
  cases rendered : renderPinned core ts dsn lake (some cut) with
  | error e =>
    refine .inl ⟨e,rfl,d,?_,pins⟩
    rw [pinRead, bind, rendered]
    rfl
  | ok scanSql =>
    refine .inr ⟨scanSql,rfl,⟨some c.client.sequence,scanSql,lake.map LakeCatalog.attachSql⟩,d,?_⟩
    rw [pinRead, bind, rendered]
    rfl

/-- Everything a joined scan can come to. -/
theorem acquireScan_cases (core : Core) {c : Conn} (flag : c.inTxn = true) (schema table : String) :
    (¬c.Accepts (c.db.joinStatements core schema table) ∧ ∃ e d,
      acquireScan core schema table c = .error e d ∧
        d.db = c.client.session.durable.database) ∨
    (PinsThenFails core schema table c ∧ ∃ e d pin,
      acquireScan core schema table c = .error e d ∧ d.db.pins = c.db.pins ++ [pin]) ∨
    (c.Accepts (c.db.joinStatements core schema table) ∧ ¬PinsThenFails core schema table c ∧
      ∀ e d, acquireScan core schema table c = .error e d → d.db = c.db) := by
  rw [acquireScan_joined core flag]
  by_cases asked : c.Accepts (c.db.joinQueries core schema table)
  · cases known : c.db.joinReads core schema table with
    | none =>
      obtain ⟨e,failed⟩ := (joinReads_asks core schema table).missing c asked known
      refine .inr (.inr ⟨?_,?_,fun e d run => ?_⟩)
      · simpa only [Database.joinStatements, costThen, known, Option.elim_none, Nat.add_zero]
          using asked
      · rintro ⟨_,_,_,_,_,read,_⟩
        simp [known] at read
      · rw [Effect.bind_of_error failed] at run
        cases run
        rfl
    | some read =>
      obtain ⟨ts,lake,cut⟩ := read
      have found := (joinReads_asks core schema table).found c _ asked known
      rw [Effect.bind_of_ok found]
      have sends : c.Accepts (c.db.joinStatements core schema table) ↔
          (c.skip (c.db.joinQueries core schema table)).Accepts (if cut.isSome then 1 else 0) := by
        simp only [Database.joinStatements, costThen, known, Option.elim_some, accepts_add, asked,
          true_and]
      rw [sends]
      cases cut with
      | none =>
        refine .inr (.inr ⟨accepts_zero _,?_,fun e d run => ?_⟩)
        · rintro ⟨_,_,_,_,_,read,_⟩
          simp [known] at read
        · rw [pinRead_none run, skip_db]
      | some cut =>
        by_cases accepted : (c.skip (c.db.joinQueries core schema table)).Accepts 1
        · rcases pinRead_accepted accepted ts lake cut c.dsn with
            ⟨e,rendered,d,failed,pins⟩ | ⟨scanSql,rendered,scan,d,returned⟩
          · exact .inr (.inl ⟨⟨flag,sends.mpr accepted,ts,lake,cut,known,e,rendered⟩,e,d,_,failed,
              pins⟩)
          · refine .inr (.inr ⟨accepted,?_,fun e d run => ?_⟩)
            · rintro ⟨_,_,_,_,_,read,e,failed⟩
              simp only [known, Option.some.injEq, Prod.mk.injEq] at read
              obtain ⟨rfl,rfl,rfl⟩ := read
              simp [rendered] at failed
            · cases returned.symm.trans run
        · obtain ⟨e,d,refused,durable⟩ := pinCut_refused ts.tableId cut accepted
          exact .inl ⟨accepted,e,d,Effect.bind_of_error refused,durable⟩
  · obtain ⟨e,n,failed⟩ := (joinReads_asks core schema table).refused c asked
    refine .inl ⟨fun accepted => asked ((accepts_add c _ _).mp accepted).1,e,_,
      Effect.bind_of_error failed,refuse_db c n⟩

/-- Outside the write flag a failed scan rolls its pin back. -/
theorem acquireScan_alone {c : Conn} (flagged : Flagged c) (clear : c.inTxn = false)
    {schema table : String} {e : String} {d : Conn}
    (failed : acquireScan core schema table c = .error e d) : SamePins c d := by
  have idle := flagged.idle clear
  have calm : c.Calm := .inl ⟨clear,idle⟩
  have outcome := acquireScan_pins core schema table calm fun inside => by simp [clear] at inside
  rw [failed] at outcome
  have kept : KeepsPins c d := outcome
  have status := acquireScan_status core flagged schema table
  rw [failed, Effect.final_error] at status
  have idle' : d.client.session.block = .idle := (flagged.same status).idle (status.inTxn.trans clear)
  have before : c.db.pins = c.durablePins := by
    simp [Conn.db, Sql.Session.view, idle, Conn.durablePins]
  have after : d.db.pins = d.durablePins := by
    simp [Conn.db, Sql.Session.view, idle', Conn.durablePins]
  rw [samePins_iff, after, before, kept.pins]

/-- On every reachable connection a failed scan leaves the pins as they were, unless it
joins what is open and fails with its pin inserted, or is refused inside a block with pin
changes. -/
theorem failed_acquire_iff (core : Core) (dsn : String) (stored : Snapshot)
    (calls : List (ConnCall × List (Option String))) (schema table : String)
    (verdicts : List (Option String)) :
    let c := ((Conn.connect dsn stored).calls core calls).withVerdicts verdicts
    (∀ e d, acquireScan core schema table c = .error e d → SamePins c d) ↔
      ¬PinsThenFails core schema table c ∧ ¬LosesBlock core schema table c := by
  intro c
  have reached := calls_flagged core (connect_flagged dsn stored) calls
  have flagged : Flagged c := ⟨reached.inTxn,reached.nested⟩
  cases flag : c.inTxn with
  | false =>
    have idle := flagged.idle flag
    refine ⟨fun _ => ⟨?_,?_⟩,fun _ e d failed => acquireScan_alone flagged flag failed⟩
    · rintro ⟨set,_⟩
      simp [flag] at set
    · rintro ⟨w,inside,_⟩
      simp [idle] at inside
  | true =>
    rcases acquireScan_cases core flag schema table with
      ⟨refused,e,d,failed,durable⟩ | ⟨pinned,e,d,pin,failed,pins⟩ | ⟨accepted,renders,fails⟩
    · have unpinned : ¬PinsThenFails core schema table c := fun pinned => refused pinned.2.1
      refine ⟨fun claim => ⟨unpinned,?_⟩,fun allowed e' d' failed' => ?_⟩
      · rintro ⟨w,inside,changed,_⟩
        have same := (claim e d failed).seen
        rw [durable] at same
        simp only [Conn.db, Sql.Session.view, inside] at same
        exact changed same.symm
      · cases failed.symm.trans failed'
        rw [samePins_iff, durable]
        cases block : c.client.session.block with
        | «open» w =>
          by_contra changed
          refine allowed.2 ⟨w,block,fun same => changed ?_,refused⟩
          simpa [Conn.db, Sql.Session.view, block, Conn.durablePins] using same.symm
        | idle => simp [Conn.db, Sql.Session.view, block]
        | aborted => simp [Conn.db, Sql.Session.view, block]
    · refine ⟨fun claim => ?_,fun allowed => absurd pinned allowed.1⟩
      have same := (claim e d failed).seen
      rw [pins] at same
      simp at same
    · refine ⟨fun _ => ⟨renders,?_⟩,fun _ e d failed => ?_⟩
      · rintro ⟨_,_,_,refused⟩
        exact refused accepted
      · rw [samePins_iff, fails e d failed]

end Joined

/-- `items` in a lake format that no scan of a cut table renders. -/
def Reference.unreadable : Database :=
  { Reference.database "tiered" 10 [] with
    tables := [{ Reference.registration "tiered" with lakeFormat := "hudi" }] }

def Reference.writing : Conn :=
  ((Conn.connect "" ⟨unreadable,[]⟩).calls core [(.begin,[])]).withVerdicts []

/-- No statement fails, and the pin of the failed scan stays in the open block. -/
theorem failed_acquire_leaves_pin : ¬∀ core dsn stored calls schema table verdicts e d,
    acquireScan core schema table (((Conn.connect dsn stored).calls core calls).withVerdicts
      verdicts) = .error e d →
    SamePins (((Conn.connect dsn stored).calls core calls).withVerdicts verdicts) d := by
  intro claim
  have thrown : Effect.returns (acquireScan Reference.core "public" "items"
      Reference.writing) = false := by decide +kernel
  have left : (Effect.final (acquireScan Reference.core "public" "items"
      Reference.writing)).db.pins.map Pin.pinId = [1] := by decide +kernel
  obtain ⟨e,d,failed⟩ := Effect.returns_not_iff.mp thrown
  have same := (claim Reference.core "" ⟨Reference.unreadable,[]⟩ [(.begin,[])] "public" "items"
    [] e d failed).seen
  have none : Reference.writing.db.pins = [] := rfl
  change d.db.pins = Reference.writing.db.pins at same
  rw [failed, Effect.final_error, same, none] at left
  cases left

end TierDb
