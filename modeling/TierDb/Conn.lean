import Mathlib.Algebra.Group.Int.Defs
import TierDb.Library.Session
import TierDb.Database

/-! The shared Postgres connection: its write-transaction flag and the catalog reads
every call begins with. -/
namespace TierDb

/-- The Postgres client. `sequence` is the next pin id, which no rollback takes back.
`author` and `issued` are auxiliary: the DuckDB transaction the present call is made
for, and every write the server acknowledged. -/
structure Client where
  session : Sql.Session Snapshot Int
  sequence : Int := 1
  author : Nat := 0
  issued : List (Nat × Write) := []

structure Conn where
  client : Client
  dsn : String
  inTxn : Bool := false

abbrev Pg (α : Type) := EStateM String Conn α

/-- The database as the connection's own statements read it. -/
def Conn.db (conn : Conn) : Database := conn.client.session.view.database

def Conn.setSession (session : Sql.Session Snapshot Int) (conn : Conn) : Conn :=
  { conn with client := { conn.client with session := session } }

def onSession {α : Type} (x : Sql.Exec Snapshot Int α) : Pg α :=
  Effect.zoom (fun conn => conn.client.session) Conn.setSession x

def query {α : Type} (read : Database → Except String α) : Pg α :=
  onSession (Sql.query fun snapshot => read snapshot.database)

def Write.onSnapshot (core : Core) (author : Nat) (w : Write) (snapshot : Snapshot) :
    Except String (Unit × Snapshot) :=
  (w.run core snapshot.database).map fun db => ((),⟨db,snapshot.journal ++ [(author,w)]⟩)

/-- Sends one heap or delta statement. -/
def execute (core : Core) (w : Write) : Pg Unit := do
  let author := (← get).client.author
  onSession (Sql.statement (w.onSnapshot core author))
  modify fun conn =>
    { conn with client := { conn.client with issued := conn.client.issued ++ [(author,w)] } }

def setInTxn (value : Bool) : Pg Unit := modify fun conn => { conn with inTxn := value }

def txnBegin : Pg Unit := do
  if (← get).inTxn then
    return
  Effect.mapError ("BEGIN failed: " ++ ·) (onSession Sql.beginBlock)
  setInTxn true

def txnCommit : Pg Unit := do
  if !(← get).inTxn then
    return
  Effect.mapError ("COMMIT failed: " ++ ·) (onSession Sql.commit)
  setInTxn false

def txnRollback : Pg Unit := do
  if !(← get).inTxn then
    return
  Effect.mapError ("ROLLBACK failed: " ++ ·) (onSession Sql.rollback)
  setInTxn false

structure Cutline where
  tierKeyHi : Int
  lakeSnapshotId : Int
  lakeProps : List (String × String)

def parseProps (core : Core) (text : JsonText) (what : String) :
    Except String (List (String × String)) :=
  match text with
  | none =>
    let reason := core.parseError
    .error s!"{what} is not valid JSON: {reason}"
  | some (.object members) => .ok (members.map fun (key,value) =>
      (key,match value with
        | .string s => s
        | other => core.display other))
  | some _ => .ok []

def optionalProps (core : Core) (text : Option JsonText) (what : String) :
    Except String (List (String × String)) :=
  match text with
  | some text => parseProps core text what
  | none => .ok []

structure TableSchema where
  tableId : Int
  schemaName : String
  tableName : String
  lakeFormat : String
  lakeTableRef : String
  tierKeyCol : String
  tierKeyType : TierKeyType
  primaryKeyCols : List String
  columns : List (String × String)
  mode : String
  keepHeap : Bool
  heapRetentionLag : Option Int
  lakeRetentionLag : Option Int
  storageProfile : String

def TableSchema.modeOf (ts : TableSchema) (core : Core) : Except String Mode :=
  core.modeFromCatalog ts.mode ts.keepHeap ts.heapRetentionLag

/-- `self.table_id as u32` keeps the low 32 bits. -/
def TableSchema.table (ts : TableSchema) (core : Core) (catalog : Option LakeCatalog) :
    Except String Table := do
  let mode ← ts.modeOf core
  return {
    id := (ts.tableId % 2^32).toNat
    schema := ts.schemaName
    name := ts.tableName
    columns := ts.columns.map fun (name,sqlType) => ⟨name,sqlType⟩
    pkCols := ts.primaryKeyCols
    tierKeyCol := ts.tierKeyCol
    tierKeyType := ts.tierKeyType
    mode := mode
    lakeFormat := ts.lakeFormat
    lakeTableRef := some ts.lakeTableRef
    catalog := catalog }

/-- `query_opt`: the client takes more than one row for an error. -/
def Database.findTable (db : Database) (schema table : String) :
    Except String (Option Registration) :=
  match db.tables.filter fun row => row.schemaName = schema ∧ row.tableName = table with
  | [] => .ok none
  | [row] => .ok (some row)
  | _ => .error "query returned an unexpected number of rows"

theorem findTable_congr {a b : Database} (same : a.tables = b.tables) (schema table : String) :
    a.findTable schema table = b.findTable schema table := by
  simp [Database.findTable, same]

theorem registered_unique {db : Database} {schema table : String} {row other : Registration}
    (found : db.findTable schema table = .ok (some row))
    (again : db.findTable schema table = .ok (some other)) : row = other :=
  Option.some.inj (Except.ok.inj (found.symm.trans again))

theorem findTable_some {db : Database} {schema table : String} {row : Registration}
    (found : db.findTable schema table = .ok (some row)) :
    row ∈ db.tables ∧ row.schemaName = schema ∧ row.tableName = table := by
  unfold Database.findTable at found
  split at found
  · cases found
  · rename_i only
    cases found
    have member : row ∈ db.tables.filter fun row => row.schemaName = schema ∧ row.tableName = table :=
      only ▸ List.mem_singleton_self _
    simpa using List.mem_filter.mp member
  · cases found

def Database.attributes (db : Database) (schema table : String) : List (String × String) :=
  match db.heap schema table with
  | some rel => rel.columns
  | none => []

/-- Every double quote of the name is doubled. -/
def quoteIdent (name : String) : String :=
  "\"" ++ String.ofList (name.toList.flatMap fun c => if c = '"' then ['"','"'] else [c]) ++ "\""

def heapColumns (schema table : String) : Pg (List (String × String)) := do
  let qualified := quoteIdent schema ++ "." ++ quoteIdent table
  let rows ← Effect.mapError (s!"column lookup for {qualified} failed: " ++ ·)
    (query fun db => .ok (db.attributes schema table))
  if rows.isEmpty then
    throw s!"heap relation {qualified} has no columns or does not exist"
  return rows

def Registration.withColumns (row : Registration) (keyType : TierKeyType)
    (columns : List (String × String)) : TableSchema where
  tableId := row.tableId
  schemaName := row.schemaName
  tableName := row.tableName
  lakeFormat := row.lakeFormat
  lakeTableRef := row.lakeTableRef
  tierKeyCol := row.tierKeyCol
  tierKeyType := keyType
  primaryKeyCols := row.primaryKeyCols
  columns := columns
  mode := row.mode
  keepHeap := row.keepHeap
  heapRetentionLag := row.heapRetentionLag
  lakeRetentionLag := row.lakeRetentionLag
  storageProfile := row.storageProfile

def tableSchema (core : Core) (schema table : String) : Pg TableSchema := do
  let found ← Effect.mapError ("tierdb.tables lookup failed: " ++ ·) do
    Effect.ofExcept (← query fun db => .ok (db.findTable schema table))
  match found with
  | none => throw s!"table \"{schema}\".\"{table}\" is not registered with tierdb"
  | some row =>
    let keyType ← Effect.mapError (s!"table \"{schema}\".\"{table}\": " ++ ·)
      (Effect.ofExcept (core.tierKeyTypeFromName row.tierKeyType))
    let columns ← heapColumns schema table
    return row.withColumns keyType columns

/-- `none` when the profile configures no live catalog. -/
def lakeCatalog (core : Core) (ts : TableSchema) : Pg (Option LakeCatalog) := do
  let found ← Effect.mapError ("tierdb.storage_profiles lookup failed: " ++ ·)
    (query fun db => .ok (db.profiles ts.storageProfile))
  match found with
  | none => throw s!"storage profile '{ts.storageProfile}' is not registered"
  | some profile =>
    let config ← Effect.ofExcept
      (optionalProps core profile.lakeConfig "tierdb.storage_profiles.lake_config")
    Effect.ofExcept
      (core.lakeCatalogFromProfile ts.lakeFormat ts.storageProfile profile.warehouse config)

def cutline (core : Core) (tableId : Int) : Pg (Option Cutline) := do
  let found ← Effect.mapError ("tierdb.cutline lookup failed: " ++ ·)
    (query fun db => .ok (db.cutline tableId))
  match found with
  | none => return none
  | some row =>
    let props ← Effect.ofExcept (optionalProps core row.lakeProps "tierdb.cutline.lake_props")
    return some ⟨row.tierKeyHi,row.lakeSnapshotId,props⟩

def retentionLine (tableId : Int) : Pg (Option Int) :=
  Effect.mapError ("tierdb.cutline retention lookup failed: " ++ ·)
    (query fun db => .ok ((db.cutline tableId).bind CutlineRow.retentionLine))

end TierDb
