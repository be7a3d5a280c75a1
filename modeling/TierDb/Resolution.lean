import Mathlib.Data.List.Sort
import TierDb.Acquire

/-! How a name becomes a catalog entry: the schema map of an attached catalog, filled from
`tierdb.tables` on first use, over the entry cache of each schema. -/
namespace TierDb

/-- Schema and table names, in the order of the database's collation `le`. -/
def Database.listing (le : String → String → Bool) (db : Database) : List (String × String) :=
  (db.tables.map fun row => (row.schemaName,row.tableName)).insertionSort fun a b =>
    if a.1 = b.1 then le a.2 b.2 else le a.1 b.1

def listTables (le : String → String → Bool) : Pg (List (String × String)) :=
  Effect.mapError ("tierdb.tables scan failed: " ++ ·) (query fun db => .ok (db.listing le))

/-- `schemas` holds the names of the schema entries, of which each case-insensitive name has
one. -/
structure TierDBCatalog extends Catalog where
  schemas : List String := []
  schemasLoaded : Bool := false

abbrev Resolve (α : Type) := EStateM String TierDBCatalog α

def onCatalog {α : Type} (x : EStateM String Catalog α) : Resolve α :=
  Effect.zoom TierDBCatalog.toCatalog (fun catalog c => { c with toCatalog := catalog }) x

def onClient {α : Type} (x : Pg α) : Resolve α :=
  onCatalog (Effect.zoom (fun catalog => catalog.sys.conn) Catalog.setConn
    (Effect.mapError ("tierdb: " ++ ·) x))

/-- A schema is entered under the name that is listed first. -/
def addSchema (schemas : List String) (ref : String × String) : List String :=
  if schemas.any (lower · = lower ref.1) then schemas else schemas ++ [ref.1]

def loadSchemas (le : String → String → Bool) : Resolve Unit := do
  if (← get).schemasLoaded then
    return
  let refs ← onClient (listTables le)
  modify fun c => { c with schemas := refs.foldl addSchema c.schemas, schemasLoaded := true }

def scanSchemas (le : String → String → Bool) : Resolve (List String) := do
  loadSchemas le
  return (← get).schemas

def lookupSchema (le : String → String → Bool) (schema : String) : Resolve (Option String) := do
  loadSchemas le
  return (← get).schemas.find? (lower · = lower schema)

/-- The loop of `TierDBSchemaEntry::Scan`; a name without an entry is looked up as
`LookupEntry` looks it up. -/
def scanRefs (core : Core) (schema : String) :
    List (String × String) → Resolve (List TierDBTableSchema)
  | [] => return []
  | ref :: rest => do
    if lower ref.1 ≠ lower schema then
      scanRefs core schema rest
    else
      match ← onCatalog (lookupEntry core schema ref.2) with
      | none => scanRefs core schema rest
      | some entry => return entry :: (← scanRefs core schema rest)

def scanEntries (core : Core) (le : String → String → Bool) (schema : String) :
    Resolve (List TierDBTableSchema) := do
  scanRefs core schema (← onClient (listTables le))

/-- `LookupSchema` followed by `LookupEntry`. -/
def resolve (core : Core) (le : String → String → Bool) (schema table : String) :
    Resolve (Option TierDBTableSchema) := do
  match ← lookupSchema le schema with
  | none => return none
  | some name => onCatalog (lookupEntry core name table)

/-- A catalog as ATTACH makes it. -/
def TierDBCatalog.attach (dsn : String) (stored : Snapshot) : TierDBCatalog where
  sys := { conn := Conn.connect dsn stored, lake := fun _ => [] }

def TierDBCatalog.withVerdicts (verdicts : List (Option String)) (c : TierDBCatalog) :
    TierDBCatalog :=
  { c with toCatalog := c.toCatalog.withVerdicts verdicts }

def Database.Registered (db : Database) (schema table : String) : Prop :=
  ∃ row ∈ db.tables, row.schemaName = schema ∧ row.tableName = table

instance (db : Database) (schema table : String) : Decidable (db.Registered schema table) :=
  inferInstanceAs (Decidable (∃ row ∈ db.tables, _))

def Database.register (row : Registration) (db : Database) : Database :=
  { db with tables := db.tables ++ [row] }

/-- A registration made elsewhere, or a call on the catalog or on one of its schema
entries. -/
inductive CatalogCall where
  | register (row : Registration)
  | lookupSchema (schema : String) (verdicts : List (Option String))
  | scanSchemas (verdicts : List (Option String))
  | lookupEntry (schema table : String) (verdicts : List (Option String))
  | scan (schema : String) (verdicts : List (Option String))

def CatalogCall.isRegister : CatalogCall → Bool
  | .register _ => true
  | _ => false

def callStep (core : Core) (le : String → String → Bool) (c : TierDBCatalog) :
    CatalogCall → Option TierDBCatalog
  | .register row =>
    if c.session.durable.database.Registered row.schemaName row.tableName then none
    else some { c with toCatalog :=
      c.toCatalog.withSession (alter (Database.register row) c.session) }
  | .lookupSchema schema verdicts =>
    some (Effect.final (TierDb.lookupSchema le schema (c.withVerdicts verdicts)))
  | .scanSchemas verdicts => some (Effect.final (TierDb.scanSchemas le (c.withVerdicts verdicts)))
  | .lookupEntry schema table verdicts =>
    if schema ∈ c.schemas then
      some (Effect.final (onCatalog (TierDb.lookupEntry core schema table)
        (c.withVerdicts verdicts)))
    else none
  | .scan schema verdicts =>
    if schema ∈ c.schemas then
      some (Effect.final (scanEntries core le schema (c.withVerdicts verdicts)))
    else none

/-- The entry built from the registration of these names. -/
def Database.entryOf (core : Core) (db : Database) (schema table : String) :
    Option TierDBTableSchema :=
  (db.tableSchema core schema table).map (TableSchema.entry core)

/-- What a lookup finds; an error finds nothing. -/
def foundBy {σ α : Type} : EStateM.Result String σ (Option α) → Option α
  | .ok found _ => found
  | .error _ _ => none

def TierDBCatalog.resolved (core : Core) (le : String → String → Bool) (c : TierDBCatalog)
    (schema table : String) : Option TierDBTableSchema :=
  foundBy (resolve core le schema table (c.withVerdicts []))

/-- The schema entry that a name leads to. -/
def TierDBCatalog.schemaOf (le : String → String → Bool) (c : TierDBCatalog) (schema : String) :
    Option String :=
  (if c.schemasLoaded then c.schemas else (c.db.listing le).foldl addSchema []).find?
    (lower · = lower schema)

section Sourced

variable {core : Core} {le : String → String → Bool}

/-- Outside a block, with `stored` behind it. -/
structure Conn.Rests (stored : Snapshot) (c : Conn) : Prop where
  idle : c.client.session.block = .idle
  durable : c.client.session.durable = stored

theorem Conn.Rests.db {stored : Snapshot} {c : Conn} (rests : c.Rests stored) :
    c.db = stored.database := by
  simp [Conn.db, Sql.Session.view, rests.idle, rests.durable]

/-- Queries leave a session at rest. -/
theorem Asks.rests {α : Type} {x : Pg α} {cost : Database → Nat} {read : Database → Option α}
    (asks : Asks x cost read) (stored : Snapshot) : Effect.Keeps (Conn.Rests stored) x := by
  intro c rests
  by_cases accepted : c.Accepts (cost c.db)
  · cases known : read c.db with
    | some a =>
      rw [asks.found c a accepted known]
      exact ⟨rests.idle,rests.durable⟩
    | none =>
      obtain ⟨e,failed⟩ := asks.missing c accepted known
      rw [failed]
      exact ⟨rests.idle,rests.durable⟩
  · obtain ⟨e,n,failed⟩ := asks.refused c accepted
    obtain ⟨idle,durable⟩ := refuse_idle rests.idle n
    rw [failed]
    exact ⟨idle,durable.trans rests.durable⟩

theorem listTables_asks (le : String → String → Bool) :
    Asks (listTables le) (fun _ => 1) fun db => some (db.listing le) :=
  (Asks.query _).mapError _

theorem tryGetTableSchema_rests (core : Core) (schema table : String) (stored : Snapshot) :
    Effect.Keeps (Conn.Rests stored) (tryGetTableSchema core schema table) := by
  refine .bind (.attempt ((tableSchema_asks core schema table).rests stored)) fun result => ?_
  cases result with
  | ok ts => exact .pure _
  | error message =>
    simp only
    split
    · exact .pure _
    · exact .throw _

/-- Every cached entry is the one its own names lead to in the stored database. -/
structure Sourced (core : Core) (stored : Snapshot) (catalog : Catalog) : Prop where
  rests : catalog.sys.conn.Rests stored
  entries : ∀ e ∈ catalog.tables, e.1.2 = lower e.2.tableName ∧
    stored.database.entryOf core e.1.1 e.2.tableName = some e.2

theorem entryOf_names {db : Database} {schema table : String} {entry : TierDBTableSchema}
    (made : db.entryOf core schema table = some entry) :
    entry.schemaName = schema ∧ entry.tableName = table := by
  obtain ⟨ts,read,rfl⟩ := Option.map_eq_some_iff.mp made
  obtain ⟨row,found,_,_,shape⟩ := tableSchema_some core read
  rw [shape]
  exact (findTable_some found).2

theorem lookupEntry_sourced (schema table : String) (stored : Snapshot) :
    Effect.Keeps (Sourced core stored) (lookupEntry core schema table) := by
  intro catalog sourced
  unfold lookupEntry
  rw [Effect.bind_of_ok (Effect.get_apply catalog)]
  cases cached : catalog.cached schema table with
  | some hit => exact sourced
  | none =>
    have kept := tryGetTableSchema_rests core schema table stored catalog.sys.conn
      sourced.rests
    cases asked : tryGetTableSchema core schema table catalog.sys.conn with
    | error e d =>
      rw [asked] at kept
      simp only [Effect.bind_apply, Effect.zoom, asked]
      exact ⟨kept,sourced.entries⟩
    | ok found d =>
      rw [asked] at kept
      cases found with
      | none =>
        simp only [Effect.bind_apply, Effect.zoom, asked]
        exact ⟨kept,sourced.entries⟩
      | some entry =>
        obtain ⟨ts,read,rfl⟩ := tryGetTableSchema_some asked
        have made : stored.database.entryOf core schema table = some (ts.entry core) := by
          rw [Database.entryOf, ← sourced.rests.db, read]
          rfl
        simp only [Effect.bind_apply, Effect.zoom, asked]
        refine ⟨kept,fun e member => ?_⟩
        rcases List.mem_append.mp member with old | new
        · exact sourced.entries e old
        · obtain rfl := List.mem_singleton.mp new
          obtain ⟨_,name⟩ := entryOf_names made
          exact ⟨by rw [name],by rw [name]; exact made⟩

/-- The same for the whole catalog. -/
structure TierDBCatalog.Sourced (core : Core) (stored : Snapshot) (c : TierDBCatalog) : Prop where
  entries : TierDb.Sourced core stored c.toCatalog
  unloaded : c.schemasLoaded = false → c.schemas = []

theorem onCatalog_sourced {α : Type} {x : EStateM String Catalog α} {stored : Snapshot}
    (keeps : Effect.Keeps (Sourced core stored) x) :
    Effect.Keeps (TierDBCatalog.Sourced core stored) (onCatalog x) :=
  keeps.zoom (fun _ sourced => sourced.entries) fun _ _ sourced entries =>
    ⟨entries,sourced.unloaded⟩

/-- `P` is kept by a lookup in a schema entry and by the listing of the tables, and does not
depend on the schema map once that is loaded. -/
structure Kept (core : Core) (le : String → String → Bool) (P : TierDBCatalog → Prop) : Prop where
  entry : ∀ schema table, Effect.Keeps P (onCatalog (lookupEntry core schema table))
  listing : Effect.Keeps P (onClient (listTables le))
  load : ∀ c schemas, P c → P { c with schemas := schemas, schemasLoaded := true }
  verdicts : ∀ c verdicts, P c → P (c.withVerdicts verdicts)

section Kept

variable {P : TierDBCatalog → Prop} (kept : Kept core le P)

include kept

theorem Kept.loadSchemas : Effect.Keeps P (loadSchemas le) := by
  refine .bind .get fun c => ?_
  split
  · exact .pure _
  · exact kept.listing.bind fun refs => .modify fun d holds => kept.load d _ holds

theorem Kept.scanSchemas : Effect.Keeps P (scanSchemas le) :=
  kept.loadSchemas.bind fun _ => .bind .get fun _ => .pure _

theorem Kept.lookupSchema (schema : String) : Effect.Keeps P (lookupSchema le schema) :=
  kept.loadSchemas.bind fun _ => .bind .get fun _ => .pure _

theorem Kept.scanRefs (schema : String) (refs : List (String × String)) :
    Effect.Keeps P (scanRefs core schema refs) := by
  induction refs with
  | nil => exact .pure _
  | cons ref rest ih =>
    unfold TierDb.scanRefs
    split
    · exact ih
    · refine (kept.entry schema ref.2).bind fun found => ?_
      cases found with
      | none => exact ih
      | some entry => exact ih.bind fun _ => .pure _

theorem Kept.scanEntries (schema : String) : Effect.Keeps P (scanEntries core le schema) :=
  kept.listing.bind fun refs => kept.scanRefs schema refs

/-- Every call that registers nothing keeps it. -/
theorem Kept.call {c next : TierDBCatalog} {call : CatalogCall} (holds : P c)
    (taken : callStep core le c call = some next) (looks : call.isRegister = false) : P next := by
  cases call with
  | register row => cases looks
  | lookupSchema schema verdicts =>
    cases taken
    exact kept.lookupSchema schema _ (kept.verdicts c verdicts holds)
  | scanSchemas verdicts =>
    cases taken
    exact kept.scanSchemas _ (kept.verdicts c verdicts holds)
  | lookupEntry schema table verdicts =>
    simp only [callStep] at taken
    split at taken
    · cases taken
      exact kept.entry schema table _ (kept.verdicts c verdicts holds)
    · cases taken
  | scan schema verdicts =>
    simp only [callStep] at taken
    split at taken
    · cases taken
      exact kept.scanEntries schema _ (kept.verdicts c verdicts holds)
    · cases taken

end Kept

theorem sourced_kept (core : Core) (le : String → String → Bool) (stored : Snapshot) :
    Kept core le (TierDBCatalog.Sourced core stored) where
  entry schema table := onCatalog_sourced (lookupEntry_sourced schema table stored)
  listing := onCatalog_sourced ((((listTables_asks le).rests stored).mapError _).zoom
    (fun _ sourced => sourced.rests) fun _ _ sourced rests => ⟨rests,sourced.entries⟩)
  load _ _ sourced := ⟨sourced.entries,nofun⟩
  verdicts _ _ sourced :=
    ⟨⟨⟨sourced.entries.rests.idle,sourced.entries.rests.durable⟩,sourced.entries.entries⟩,
      sourced.unloaded⟩

/-- A registration under new names changes no entry of others. -/
theorem entryOf_register {db : Database} {row : Registration} {schema table : String}
    {entry : TierDBTableSchema} (fresh : ¬db.Registered row.schemaName row.tableName)
    (made : db.entryOf core schema table = some entry) :
    (db.register row).entryOf core schema table = some entry := by
  obtain ⟨ts,read,rfl⟩ := Option.map_eq_some_iff.mp made
  obtain ⟨known,found,_⟩ := tableSchema_some core read
  have same : (db.register row).findTable schema table = db.findTable schema table := by
    have apart : ¬(row.schemaName = schema ∧ row.tableName = table) := by
      rintro ⟨rfl,rfl⟩
      exact fresh ⟨known,findTable_some found⟩
    simp [Database.findTable, Database.register, List.filter_append, apart]
  rw [← made]
  simp only [Database.entryOf, Database.tableSchema, same]
  rfl

/-- Each call keeps what it finds sourced in the database it leaves. -/
theorem callStep_sourced {c next : TierDBCatalog} {call : CatalogCall}
    (sourced : c.Sourced core c.session.durable) (taken : callStep core le c call = some next) :
    next.Sourced core next.session.durable := by
  cases looks : call.isRegister with
  | false =>
    have after := (sourced_kept core le c.session.durable).call sourced taken looks
    have same : next.session.durable = c.session.durable := after.entries.rests.durable
    rw [same]
    exact after
  | true =>
    obtain ⟨row,rfl⟩ : ∃ row, call = .register row := by
      cases call with
      | register row => exact ⟨row,rfl⟩
      | _ => cases looks
    simp only [callStep] at taken
    split at taken
    · cases taken
    · rename_i fresh
      cases taken
      have idle : c.session.block = .idle := sourced.entries.rests.idle
      refine ⟨⟨⟨?_,rfl⟩,fun e member => ?_⟩,sourced.unloaded⟩
      · simp [Catalog.withSession, Catalog.setConn, Conn.setSession, alter, idle]
      · obtain ⟨key,made⟩ := sourced.entries.entries e member
        exact ⟨key,entryOf_register fresh made⟩

theorem attach_sourced (dsn : String) (stored : Snapshot) :
    (TierDBCatalog.attach dsn stored).Sourced core stored :=
  ⟨⟨⟨rfl,rfl⟩,fun _ member => absurd member List.not_mem_nil⟩,fun _ => rfl⟩

theorem calls_sourced {dsn : String} {stored : Snapshot} {calls : List CatalogCall}
    {c : TierDBCatalog}
    (ran : Runs.run (callStep core le) (.attach dsn stored) calls = some c) :
    c.Sourced core c.session.durable :=
  Runs.run_preserves (fun _ _ _ sourced taken => callStep_sourced sourced taken)
    (attach_sourced dsn stored) ran

/-- At rest and with no refusal ahead. -/
structure Conn.Clear (stored : Snapshot) (c : Conn) : Prop extends c.Rests stored where
  verdicts : c.client.session.verdicts = []

theorem Conn.Clear.accepts {stored : Snapshot} {c : Conn} (clear : c.Clear stored) (n : Nat) :
    c.Accepts n := by
  rw [accepts_idle clear.idle, clear.verdicts]
  simp

theorem Conn.Clear.skip {stored : Snapshot} {c : Conn} (clear : c.Clear stored) (n : Nat) :
    (c.skip n).Clear stored :=
  ⟨⟨clear.idle,clear.durable⟩,by simp [Conn.skip, Conn.setSession, Sql.Session.skip, clear.verdicts]⟩

theorem tryGetTableSchema_found (core : Core) {stored : Snapshot} {c : Conn} (clear : c.Clear stored)
    (schema table : String) : foundBy (tryGetTableSchema core schema table c) =
      stored.database.entryOf core schema table := by
  have asks := tableSchema_asks core schema table
  have accepted := clear.accepts (c.db.schemaQueries core schema table)
  have db := clear.toRests.db
  unfold tryGetTableSchema
  cases known : stored.database.tableSchema core schema table with
  | some ts =>
    have read := asks.found c ts accepted (db ▸ known)
    simp [Effect.bind_apply, Effect.attempt, read, foundBy, Database.entryOf, known]
  | none =>
    obtain ⟨e,failed⟩ := asks.missing c accepted (db ▸ known)
    simp only [Effect.bind_apply, Effect.attempt, failed, Database.entryOf, known, Option.map_none]
    split <;> rfl

theorem lookupEntry_found {stored : Snapshot} {catalog : Catalog}
    (clear : catalog.sys.conn.Clear stored) (schema table : String) :
    foundBy (lookupEntry core schema table catalog) =
      (catalog.cached schema table).or (stored.database.entryOf core schema table) := by
  have found := tryGetTableSchema_found core clear schema table
  unfold lookupEntry
  rw [Effect.bind_of_ok (Effect.get_apply catalog)]
  cases cached : catalog.cached schema table with
  | some hit => rfl
  | none =>
    rw [Option.none_or, ← found]
    cases asked : tryGetTableSchema core schema table catalog.sys.conn with
    | error e d => simp [Effect.bind_apply, Effect.zoom, asked, foundBy]
    | ok answer d =>
      cases answer <;> simp [Effect.bind_apply, Effect.map_apply, Effect.zoom, asked, foundBy]

theorem foundBy_onCatalog {α : Type} (x : EStateM String Catalog (Option α)) (c : TierDBCatalog) :
    foundBy (onCatalog x c) = foundBy (x c.toCatalog) := by
  unfold onCatalog Effect.zoom
  cases x c.toCatalog <;> rfl

theorem lookupSchema_found (le : String → String → Bool) {stored : Snapshot} {c : TierDBCatalog}
    (sourced : c.Sourced core stored) (clear : c.sys.conn.Clear stored) (schema : String) :
    ∃ d, lookupSchema le schema c = .ok (c.schemaOf le schema) d ∧ d.tables = c.tables ∧
      d.sys.conn.Clear stored := by
  unfold lookupSchema loadSchemas
  cases loaded : c.schemasLoaded with
  | true =>
    refine ⟨c,?_,rfl,clear⟩
    simp [Effect.bind_apply, Effect.map_apply, loaded, TierDBCatalog.schemaOf]
  | false =>
    have listed := (listTables_asks le).found c.sys.conn _ (clear.accepts 1) rfl
    refine ⟨{ c with
      sys := { c.sys with conn := c.sys.conn.skip 1 }
      schemas := (c.sys.conn.db.listing le).foldl addSchema c.schemas
      schemasLoaded := true },?_,rfl,clear.skip 1⟩
    simp [Effect.bind_apply, Effect.map_apply, loaded, onClient, onCatalog, Effect.zoom,
      Effect.mapError, listed, TierDBCatalog.schemaOf, sourced.unloaded loaded, Catalog.setConn,
      Catalog.db]

/-- What a name resolves to: the cache of its schema entry first, the database behind it. -/
theorem resolved_eq {stored : Snapshot} {c : TierDBCatalog} (sourced : c.Sourced core stored)
    (schema table : String) : c.resolved core le schema table =
      (c.schemaOf le schema).bind fun name =>
        (c.cached name table).or (stored.database.entryOf core name table) := by
  have sourced' := (sourced_kept core le stored).verdicts c [] sourced
  have rests := sourced'.entries.rests
  obtain ⟨d,looked,tables,clear⟩ := lookupSchema_found le sourced'
    ⟨rests,rfl⟩ schema
  have same : (c.withVerdicts []).schemaOf le schema = c.schemaOf le schema := rfl
  rw [same] at looked
  unfold TierDBCatalog.resolved resolve
  rw [Effect.bind_of_ok looked]
  cases c.schemaOf le schema with
  | none => rfl
  | some name =>
    have cached : d.cached name table = c.cached name table := by
      simp only [Catalog.cached, tables]
      rfl
    rw [Option.bind_some, foundBy_onCatalog, lookupEntry_found clear, cached]

/-- A catalog attached anew to what is stored now. -/
def TierDBCatalog.fresh (c : TierDBCatalog) : TierDBCatalog :=
  .attach c.sys.conn.dsn c.session.durable

/-- A registered table resolves to its own entry, and every name to what it would without
the calls made before. -/
structure Resolves (core : Core) (le : String → String → Bool) (c : TierDBCatalog)
    (schema table : String) : Prop where
  exact : c.session.durable.database.Registered schema table →
    c.resolved core le schema table = c.session.durable.database.entryOf core schema table
  independent : c.resolved core le schema table = c.fresh.resolved core le schema table

/-- Two schema names are one, unless neither has a readable table of the name. -/
def SameSchema (core : Core) (db : Database) (table : String) (a b : Option String) : Prop :=
  ∀ name, a = some name ∨ b = some name → (db.entryOf core name table).isSome → a = b

/-- No cached entry is in the way whose name differs in case, the schema is the one that is
listed first now, and that of a registered table is its own. -/
structure Current (core : Core) (le : String → String → Bool) (c : TierDBCatalog)
    (schema table : String) : Prop where
  variant : ∀ name entry, c.schemaOf le schema = some name → c.cached name table = some entry →
    entry.tableName = table
  schemas : SameSchema core c.session.durable.database table (c.schemaOf le schema)
    (c.fresh.schemaOf le schema)
  own : c.session.durable.database.Registered schema table →
    SameSchema core c.session.durable.database table (some schema) (c.fresh.schemaOf le schema)

theorem sameSchema_iff {db : Database} {table : String} {a b : Option String} :
    a.bind (db.entryOf core · table) = b.bind (db.entryOf core · table) ↔
      SameSchema core db table a b := by
  constructor
  · intro same name given readable
    obtain ⟨entry,made⟩ := Option.isSome_iff_exists.mp readable
    have leads {x : Option String} (found : x.bind (db.entryOf core · table) = some entry) :
        x = some name := by
      obtain ⟨other,rfl,made'⟩ := Option.bind_eq_some_iff.mp found
      rw [← (entryOf_names made').1, (entryOf_names made).1]
    rcases given with rfl | rfl
    · exact (leads (same ▸ made)).symm
    · exact leads (same.trans made)
  · intro agree
    cases found : a.bind (db.entryOf core · table) with
    | some entry =>
      obtain ⟨name,given,made⟩ := Option.bind_eq_some_iff.mp found
      rw [← agree name (.inl given) (by simp [made]), found]
    | none =>
      cases found' : b.bind (db.entryOf core · table) with
      | none => rfl
      | some entry =>
        obtain ⟨name,given,made⟩ := Option.bind_eq_some_iff.mp found'
        rw [← agree name (.inr given) (by simp [made]), found] at found'
        cases found'

theorem cached_made {stored : Snapshot} {catalog : Catalog} (sourced : Sourced core stored catalog)
    {schema table : String} {entry : TierDBTableSchema}
    (cached : catalog.cached schema table = some entry) :
    stored.database.entryOf core schema entry.tableName = some entry := by
  obtain ⟨e,hit,rfl⟩ := Option.map_eq_some_iff.mp cached
  have key : e.1 = (schema,lower table) := by simpa using List.find?_some hit
  have made := (sourced.entries e (List.mem_of_find?_eq_some hit)).2
  rwa [key] at made

/-- Without a case variant in the way the cache makes no difference. -/
theorem resolved_variant {stored : Snapshot} {c : TierDBCatalog} (sourced : c.Sourced core stored)
    {schema table : String} (variant : ∀ name entry, c.schemaOf le schema = some name →
      c.cached name table = some entry → entry.tableName = table) :
    c.resolved core le schema table =
      (c.schemaOf le schema).bind (stored.database.entryOf core · table) := by
  rw [resolved_eq sourced]
  cases given : c.schemaOf le schema with
  | none => rfl
  | some name =>
    rw [Option.bind_some, Option.bind_some]
    cases cached : c.cached name table with
    | none => rfl
    | some entry =>
      have made := cached_made sourced.entries cached
      rw [variant name entry given cached] at made
      exact made.symm

/-- After any run of registrations and calls a name resolves exactly, and independently of
them, if and only if its resolution is current. -/
theorem resolution_exact_iff (core : Core) (le : String → String → Bool) {dsn : String}
    {stored : Snapshot} {calls : List CatalogCall} {c : TierDBCatalog}
    (ran : Runs.run (callStep core le) (.attach dsn stored) calls = some c)
    (schema table : String) : Resolves core le c schema table ↔ Current core le c schema table := by
  have sourced := calls_sourced ran
  have anew : c.fresh.resolved core le schema table = (c.fresh.schemaOf le schema).bind
      (c.session.durable.database.entryOf core · table) :=
    resolved_variant (attach_sourced c.sys.conn.dsn c.session.durable) nofun
  constructor
  · rintro ⟨exact,independent⟩
    have variant : ∀ name entry, c.schemaOf le schema = some name →
        c.cached name table = some entry → entry.tableName = table := by
      intro name entry given cached
      have found := independent.symm
      rw [anew, resolved_eq sourced, given, Option.bind_some, cached, Option.some_or] at found
      obtain ⟨_,_,made⟩ := Option.bind_eq_some_iff.mp found
      exact (entryOf_names made).2
    refine ⟨variant,sameSchema_iff.mp ?_,fun registered => sameSchema_iff.mp ?_⟩
    · rw [← resolved_variant sourced variant, ← anew, independent]
    · rw [Option.bind_some, ← exact registered, independent, anew]
  · rintro ⟨variant,schemas,own⟩
    have same := resolved_variant sourced variant
    refine ⟨fun registered => ?_,?_⟩
    · rw [same, sameSchema_iff.mpr schemas, ← sameSchema_iff.mpr (own registered), Option.bind_some]
    · rw [same, anew, sameSchema_iff.mpr schemas]

end Sourced

def Reference.ordered (a b : String) : Bool := decide (a ≤ b)

def Reference.sales : Registration :=
  { registration "tiered" with tableId := 2, schemaName := "sales", tableName := "orders" }

/-- `public.items` registered, and a relation for `sales.orders`. -/
def Reference.beforeSales : Snapshot :=
  ⟨{ database "tiered" 10 [] with heap := fun _ _ => some ⟨columns,["id"],[]⟩ },[]⟩

theorem items_resolve : ∃ c,
    Runs.run (callStep Reference.core Reference.ordered) (.attach "" Reference.beforeSales)
      [.lookupSchema "public" []] = some c ∧
    Resolves Reference.core Reference.ordered c "public" "items" := by
  have ran : Runs.run (callStep Reference.core Reference.ordered) (.attach "" Reference.beforeSales)
      [.lookupSchema "public" []] = some (Effect.final (lookupSchema Reference.ordered "public"
        ((TierDBCatalog.attach "" Reference.beforeSales).withVerdicts []))) := rfl
  refine ⟨_,ran,(resolution_exact_iff Reference.core Reference.ordered ran "public" "items").mpr ?_⟩
  refine ⟨nofun,fun name _ _ => ?_,fun _ name _ _ => ?_⟩
  · decide +kernel
  · decide +kernel

/-- A schema that is registered after the first lookup is never found. -/
theorem later_schema_missing : ¬∀ core le dsn stored calls c schema table,
    Runs.run (callStep core le) (.attach dsn stored) calls = some c →
    Resolves core le c schema table := by
  intro claim
  have ran : (Runs.run (callStep Reference.core Reference.ordered)
      (.attach "" Reference.beforeSales)
      [.lookupSchema "public" [],.register Reference.sales]).map (fun c =>
        (decide (c.session.durable.database.Registered "sales" "orders"),
          c.resolved Reference.core Reference.ordered "sales" "orders",
          (c.session.durable.database.entryOf Reference.core "sales" "orders").isSome)) =
      some (true,none,true) := by decide +kernel
  obtain ⟨c,reached,facts⟩ := Option.map_eq_some_iff.mp ran
  simp only [Prod.mk.injEq, decide_eq_true_eq] at facts
  obtain ⟨registered,missing,readable⟩ := facts
  have exact := (claim _ _ _ _ _ c "sales" "orders" reached).exact registered
  rw [← exact, missing] at readable
  cases readable

end TierDb
