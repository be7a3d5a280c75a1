import TierDb.LakeDml
import TierDb.Stable

/-! The entry cache of an attached catalog. A table's columns are read when its name is
first looked up; the entry made then serves every later statement, while columns may be
added to the relation in Postgres. -/
namespace TierDb

structure TierDBColumn where
  name : String
  pgType : String
  duckdbType : String
  deriving DecidableEq, Repr

structure TierDBTableSchema where
  tableId : Int
  schemaName : String
  tableName : String
  lakeFormat : String
  lakeTableRef : String
  tierKeyCol : String
  tierKeyType : String
  primaryKeyCols : List String
  columns : List TierDBColumn
  deriving DecidableEq, Repr

/-- `table_schema_json`, read back by the client. -/
def TableSchema.entry (core : Core) (ts : TableSchema) : TierDBTableSchema where
  tableId := ts.tableId
  schemaName := ts.schemaName
  tableName := ts.tableName
  lakeFormat := ts.lakeFormat
  lakeTableRef := ts.lakeTableRef
  tierKeyCol := ts.tierKeyCol
  tierKeyType := ts.tierKeyType.name
  primaryKeyCols := ts.primaryKeyCols
  columns := ts.columns.map fun (name,pgType) => ⟨name,pgType,core.duckdbType pgType⟩

/-- `none` when the table is not registered. -/
def tryGetTableSchema (core : Core) (schema table : String) : Pg (Option TierDBTableSchema) := do
  match ← Effect.attempt (tableSchema core schema table) with
  | .ok ts => return some (ts.entry core)
  | .error message =>
    if contains message "not registered" then
      return none
    throw ("tierdb: " ++ message)

/-- One attached catalog; `tables` holds the entries of each schema by their name, whose
case does not matter. -/
structure Catalog where
  sys : System
  tables : List ((String × String) × TierDBTableSchema) := []

def lower (name : String) : String := String.ofList (name.toList.map Char.toLower)

def Catalog.cached (catalog : Catalog) (schema table : String) : Option TierDBTableSchema :=
  (catalog.tables.find? (·.1 = (schema,lower table))).map Prod.snd

def Catalog.session (catalog : Catalog) : Sql.Session Snapshot Int :=
  catalog.sys.conn.client.session

def Catalog.db (catalog : Catalog) : Database := catalog.sys.conn.db

def Catalog.setConn (conn : Conn) (catalog : Catalog) : Catalog :=
  { catalog with sys := { catalog.sys with conn := conn } }

def Catalog.withSession (session : Sql.Session Snapshot Int) (catalog : Catalog) : Catalog :=
  catalog.setConn (catalog.sys.conn.setSession session)

def Catalog.withVerdicts (verdicts : List (Option String)) (catalog : Catalog) : Catalog :=
  catalog.withSession { catalog.session with verdicts := verdicts }

def lookupEntry (core : Core) (schema table : String) :
    EStateM String Catalog (Option TierDBTableSchema) := do
  match (← get).cached schema table with
  | some entry => return some entry
  | none =>
    match ← Effect.zoom (fun catalog => catalog.sys.conn) Catalog.setConn
        (tryGetTableSchema core schema table) with
    | none => return none
    | some entry =>
      modify fun catalog =>
        { catalog with tables := catalog.tables ++ [((schema,lower table),entry)] }
      return some entry

/-- ADD COLUMN: every stored row takes the default. -/
def Relation.addColumn (rel : Relation) (name sqlType : String) (value : Json) : Relation :=
  { rel with columns := rel.columns ++ [(name,sqlType)],
             rows := rel.rows.map fun row => insertMember row name value }

def Database.addColumn (schema table name sqlType : String) (value : Json) (db : Database) :
    Database :=
  { db with heap := fun s t =>
      if s = schema ∧ t = table then
        (db.heap s t).map fun rel => rel.addColumn name sqlType value
      else db.heap s t }

/-- A change made by another session, which an open block sees as well. -/
def alter (change : Database → Database) (session : Sql.Session Snapshot Int) :
    Sql.Session Snapshot Int :=
  { session with
    durable := { session.durable with database := change session.durable.database }
    block := match session.block with
      | .open w => .open { w with database := change w.database }
      | other => other }

inductive CatalogEvent where
  | call (event : Event)
  | lookup (schema table : String) (verdicts : List (Option String))
  | addColumn (schema table name sqlType : String) (value : Json)

def catalogStep (core : Core) (catalog : Catalog) : CatalogEvent → Option Catalog
  | .call event => (step core catalog.sys event).map fun sys => { catalog with sys := sys }
  | .lookup schema table verdicts =>
    some (Effect.final (lookupEntry core schema table (catalog.withVerdicts verdicts)))
  | .addColumn schema table name sqlType value =>
    match catalog.session.durable.database.heap schema table with
    | none => none
    | some rel =>
      if name ∈ rel.columns.map Prod.fst then none
      else some (catalog.withSession
        (alter (Database.addColumn schema table name sqlType value) catalog.session))

/-- Two databases with the same registrations and relations, whatever their rows. -/
structure SameTables (a b : Database) : Prop where
  tables : b.tables = a.tables
  shape : ∀ s t, (b.heap s t).map (fun rel => (rel.columns,rel.primaryKey)) =
    (a.heap s t).map fun rel => (rel.columns,rel.primaryKey)

/-- The entry was read from the database or from an earlier version of it. -/
structure Covers (entry : TierDBTableSchema) (db : Database) : Prop where
  row : ∃ row, db.findTable entry.schemaName entry.tableName = .ok (some row) ∧
    entry.tableId = row.tableId ∧ entry.primaryKeyCols = row.primaryKeyCols ∧
    entry.tierKeyCol = row.tierKeyCol
  columns : entry.columns.map (fun c => (c.name,c.pgType)) <+:
    db.attributes entry.schemaName entry.tableName

section Drift

variable {core : Core}

theorem SameTables.refl (db : Database) : SameTables db db := ⟨rfl,fun _ _ => rfl⟩

theorem SameTables.symm {a b : Database} (same : SameTables a b) : SameTables b a :=
  ⟨same.tables.symm,fun s t => (same.shape s t).symm⟩

theorem SameTables.trans {a b c : Database} (first : SameTables a b) (second : SameTables b c) :
    SameTables a c :=
  ⟨second.tables.trans first.tables,fun s t => (second.shape s t).trans (first.shape s t)⟩

theorem sameTables_stable (base : Database) : Stable core (SameTables base) where
  write _ _ _ ran same :=
    let catalog := run_sameCatalog ran
    same.trans ⟨catalog.tables,catalog.shape⟩
  pins _ _ same := ⟨same.tables,same.shape⟩

theorem attributes_of_shape (db : Database) (schema table : String) :
    db.attributes schema table = (((db.heap schema table).map fun rel =>
      (rel.columns,rel.primaryKey)).map Prod.fst).getD [] := by
  unfold Database.attributes
  cases db.heap schema table <;> rfl

theorem SameTables.attributes {a b : Database} (same : SameTables a b) (schema table : String) :
    b.attributes schema table = a.attributes schema table := by
  rw [attributes_of_shape, attributes_of_shape, same.shape]

theorem Covers.same {entry : TierDBTableSchema} {a b : Database} (same : SameTables a b)
    (covers : Covers entry a) : Covers entry b := by
  obtain ⟨row,found,facts⟩ := covers.row
  exact ⟨⟨row,(findTable_congr same.tables _ _).trans found,facts⟩,
    same.attributes _ _ ▸ covers.columns⟩

/-- What was just read covers the database it was read from. -/
theorem entry_covers {db : Database} {schema table : String} {ts : TableSchema}
    (found : db.tableSchema core schema table = some ts) : Covers (ts.entry core) db := by
  obtain ⟨row,registered,_,_,shape⟩ := tableSchema_some core found
  obtain ⟨_,rfl,rfl⟩ := findTable_some registered
  rw [shape]
  refine ⟨⟨row,registered,rfl,rfl,rfl⟩,?_⟩
  simp [TableSchema.entry, Registration.withColumns, Function.comp_def]

theorem tryGetTableSchema_some {schema table : String} {c d : Conn} {entry : TierDBTableSchema}
    (returned : tryGetTableSchema core schema table c = .ok (some entry) d) :
    ∃ ts, c.db.tableSchema core schema table = some ts ∧ entry = ts.entry core := by
  obtain ⟨result,_,asked,rest⟩ := Effect.bind_ok.mp returned
  cases read : tableSchema core schema table c with
  | ok ts m =>
    simp only [Effect.attempt, read, EStateM.Result.ok.injEq] at asked
    obtain ⟨rfl,rfl⟩ := asked
    cases rest
    exact ⟨ts,((tableSchema_reads core schema table).ok c ts d read).1,rfl⟩
  | error e m =>
    simp only [Effect.attempt, read, EStateM.Result.ok.injEq] at asked
    obtain ⟨rfl,rfl⟩ := asked
    simp only at rest
    split at rest <;> cases rest

theorem tryGetTableSchema_keeps {P : Database → Prop} (schema table : String) :
    Effect.Keeps (Conn.Holds P) (tryGetTableSchema core schema table) := by
  refine .bind (.attempt (queried_holds (tableSchema_for schema table))) fun result => ?_
  cases result with
  | ok ts => exact .pure _
  | error message =>
    simp only
    split
    · exact .pure _
    · exact .throw _

/-- Every entry covers the stored database, and an open block has the same tables. -/
structure Tracks (catalog : Catalog) : Prop where
  working : Holds (SameTables catalog.session.durable.database) catalog.session
  entries : ∀ e ∈ catalog.tables, Covers e.2 catalog.session.durable.database

/-- It is enough that the session keeps the tables it started with. -/
theorem Tracks.next {base : Database} {catalog : Catalog}
    (kept : Holds (SameTables base) catalog.session)
    (entries : ∀ e ∈ catalog.tables, Covers e.2 base) : Tracks catalog where
  working := ⟨.refl _,fun w inside => kept.1.symm.trans (kept.2 w inside)⟩
  entries e member := (entries e member).same kept.1

theorem Tracks.view {catalog : Catalog} (tracks : Tracks catalog) :
    SameTables catalog.session.durable.database catalog.db := tracks.working.view

theorem Tracks.withVerdicts {catalog : Catalog} (tracks : Tracks catalog)
    (verdicts : List (Option String)) : Tracks (catalog.withVerdicts verdicts) :=
  ⟨tracks.working,tracks.entries⟩

theorem cached_mem {catalog : Catalog} {schema table : String} {entry : TierDBTableSchema}
    (found : catalog.cached schema table = some entry) : ∃ e ∈ catalog.tables, e.2 = entry := by
  obtain ⟨e,hit,rfl⟩ := Option.map_eq_some_iff.mp found
  exact ⟨e,List.mem_of_find?_eq_some hit,rfl⟩

/-- A lookup keeps the entries covered, and so is the one it returns. -/
theorem lookupEntry_tracks {schema table : String} {catalog : Catalog} (tracks : Tracks catalog) :
    Tracks (Effect.final (lookupEntry core schema table catalog)) ∧
      ∀ entry after, lookupEntry core schema table catalog = .ok (some entry) after →
        Covers entry after.db := by
  unfold lookupEntry
  rw [Effect.bind_of_ok (Effect.get_apply catalog)]
  cases cached : catalog.cached schema table with
  | some hit =>
    refine ⟨tracks,fun entry after returned => ?_⟩
    cases returned
    obtain ⟨e,member,rfl⟩ := cached_mem cached
    exact (tracks.entries e member).same tracks.view
  | none =>
    have keeps : Effect.Keeps (Conn.Holds (SameTables catalog.session.durable.database))
        (tryGetTableSchema core schema table) := tryGetTableSchema_keeps schema table
    have kept := keeps catalog.sys.conn tracks.working
    cases asked : tryGetTableSchema core schema table catalog.sys.conn with
    | error e c =>
      rw [asked] at kept
      simp only [Effect.bind_apply, Effect.zoom, asked]
      refine ⟨.next kept tracks.entries,fun entry after returned => ?_⟩
      cases returned
    | ok found c =>
      rw [asked] at kept
      cases found with
      | none =>
        simp only [Effect.bind_apply, Effect.zoom, asked]
        refine ⟨.next kept tracks.entries,fun entry after returned => ?_⟩
        cases returned
      | some entry =>
        obtain ⟨ts,read,rfl⟩ := tryGetTableSchema_some asked
        have covers := (entry_covers read).same tracks.view.symm
        simp only [Effect.bind_apply, Effect.zoom, asked]
        refine ⟨.next kept fun e member => ?_,fun other after returned => ?_⟩
        · rcases List.mem_append.mp member with old | new
          · exact tracks.entries e old
          · obtain rfl := List.mem_singleton.mp new
            exact covers
        · cases returned
          exact covers.same kept.view

theorem addColumn_shape {a b : Database} (same : SameTables a b)
    (schema table name sqlType : String) (value : Json) :
    SameTables (a.addColumn schema table name sqlType value)
      (b.addColumn schema table name sqlType value) := by
  refine ⟨same.tables,fun s t => ?_⟩
  simp only [Database.addColumn]
  have shape := same.shape s t
  split
  · cases before : a.heap s t <;> cases after : b.heap s t <;>
      simp_all [Relation.addColumn]
  · exact shape

theorem Covers.addColumn {entry : TierDBTableSchema} {db : Database} (covers : Covers entry db)
    (schema table name sqlType : String) (value : Json) :
    Covers entry (db.addColumn schema table name sqlType value) := by
  refine ⟨covers.row,covers.columns.trans ?_⟩
  simp only [Database.attributes, Database.addColumn]
  cases db.heap entry.schemaName entry.tableName with
  | none => exact List.nil_prefix
  | some rel =>
    by_cases here : entry.schemaName = schema ∧ entry.tableName = table
    · simp [here, Relation.addColumn]
    · simp [here]

theorem alter_holds {P Q : Database → Prop} {session : Sql.Session Snapshot Int}
    {change : Database → Database} (moved : ∀ db, P db → Q (change db)) (holds : Holds P session) :
    Holds Q (alter change session) := by
  refine ⟨moved _ holds.1,fun w inside => ?_⟩
  cases block : session.block with
  | «open» w' =>
    simp only [alter, block, Sql.Block.open.injEq] at inside
    exact inside ▸ moved _ (holds.2 w' block)
  | idle => simp [alter, block] at inside
  | aborted => simp [alter, block] at inside

/-- Calls, lookups and added columns keep every entry covered. -/
theorem step_tracks {catalog next : Catalog} {event : CatalogEvent} (tracks : Tracks catalog)
    (taken : catalogStep core catalog event = some next) : Tracks next := by
  cases event with
  | call event =>
    obtain ⟨sys,stepped,rfl⟩ := Option.map_eq_some_iff.mp taken
    have stable : Stable core (SameTables catalog.session.durable.database) :=
      sameTables_stable _
    have kept : sys.conn.Holds (SameTables catalog.session.durable.database) :=
      step_holds stable tracks.working stepped
    exact .next kept tracks.entries
  | lookup schema table verdicts =>
    cases taken
    exact (lookupEntry_tracks (tracks.withVerdicts verdicts)).1
  | addColumn schema table name sqlType value =>
    simp only [catalogStep] at taken
    split at taken
    · cases taken
    · split at taken
      · cases taken
      · cases taken
        have altered : Holds (SameTables (catalog.session.durable.database.addColumn schema table
            name sqlType value)) (alter (Database.addColumn schema table name sqlType value)
              catalog.session) :=
          alter_holds (fun db same => addColumn_shape same ..) tracks.working
        exact .next altered fun e member => (tracks.entries e member).addColumn ..

theorem run_tracks {catalog next : Catalog} {events : List CatalogEvent} (tracks : Tracks catalog)
    (ran : Runs.run (catalogStep core) catalog events = some next) : Tracks next :=
  Runs.run_preserves (fun _ _ _ holds taken => step_tracks holds taken) tracks ran

end Drift

end TierDb
