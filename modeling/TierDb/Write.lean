import TierDb.Conn

/-! The three chunk functions. Each row is routed by the cut-line; heap and delta
statements are sent row by row, lake statements are rendered once at the end and
returned for the caller to run. -/
namespace TierDb

/-- White space as `str::trim` sees it. -/
def isWhitespace (c : Char) : Bool :=
  let n := c.toNat
  n = 32 || (9 ≤ n && n ≤ 13) || n = 133 || n = 160 || n = 5760 || (8192 ≤ n && n ≤ 8202) ||
    n = 8232 || n = 8233 || n = 8239 || n = 8287 || n = 12288

def trim (text : List Char) : List Char :=
  ((text.dropWhile isWhitespace).reverse.dropWhile isWhitespace).reverse

def isJsonType (pgType : String) : Bool :=
  let head := (trim pgType.toList).map Char.toLower
  let head := trim (head.takeWhile (· ≠ '('))
  head = "json".toList || head = "jsonb".toList

/-- A json column arrives as a string; text that does not parse stays one. -/
def normalizeColumn (json : SerdeJson) (members : Fields) (column : String × String) : Fields :=
  if isJsonType column.2 then
    match lookup column.1 members with
    | some (.string s) =>
      match json.parse s with
      | some parsed => insertMember members column.1 parsed
      | none => members
    | _ => members
  else members

def normalizeJsonColumns (json : SerdeJson) (row : Json) (columns : List (String × String)) : Json :=
  match row with
  | .object members => .object (columns.foldl (normalizeColumn json) members)
  | other => other

def retentionError (ts : TableSchema) (tierKey : Int) (line : Option Int) : String :=
  s!"tier_key {ts.tierKeyType.pgLiteral tierKey} is below the retention line " ++
    s!"{ts.tierKeyType.pgLiteral (line.getD 0)}; " ++
    "rows this old have been expired from the lake"

def resolveCatalog (core : Core) (ts : TableSchema) : Pg (Option LakeCatalog) := do
  let mode ← Effect.ofExcept (ts.modeOf core)
  if !mode.isDirect then
    return none
  match ← lakeCatalog core ts with
  | some catalog => return some catalog
  | none => throw (s!"direct table \"{ts.schemaName}\".\"{ts.tableName}\" needs a live catalog " ++
      s!"endpoint, but storage profile '{ts.storageProfile}' does not configure one")

/-- Serializes lake commits per table. -/
def takeLakeLock (tableId : Int) : Pg Unit :=
  Effect.mapError ("lake commit lock failed: " ++ ·) (onSession (Sql.lock tableId))

structure ChunkOutcome where
  count : Int
  attachSql : Option String
  lakeSql : List LakeStatement

def tombstonePayload (row : Json) (pkCols : List String) : Json :=
  .object (project pkCols row)

def liveCold (target : Table) : Except String Cold :=
  match target.catalog with
  | none => .error "cold rows routed to the lake without a catalog attachment"
  | some catalog =>
    match target.lakeTableRef with
    | none => .error s!"direct table {target.schema}.{target.name} has no lake_table_ref"
    | some tableRef => .ok ⟨catalog.aliasName,tableRef⟩

def routeRow (core : Core) (cutline : Option Int) (tierKey : Int) : RouteTarget :=
  match cutline with
  | some t => core.route tierKey t
  | none => .hot

/-- What one chunk call reads before its rows. -/
structure ChunkContext where
  ts : TableSchema
  mode : Mode
  cutline : Option Int
  retention : Option Int
  attachSql : Option String
  target : Table

/-- The common opening of the chunk functions; the cut-line and the retention line
are two separate reads. -/
def openChunk (core : Core) (schema table : String) : Pg ChunkContext := do
  let ts ← tableSchema core schema table
  let mode ← Effect.ofExcept (ts.modeOf core)
  let cut ← cutline core ts.tableId
  let retention ← retentionLine ts.tableId
  let catalog ← resolveCatalog core ts
  let target ← Effect.ofExcept (ts.table core catalog)
  return ⟨ts,mode,cut.map Cutline.tierKeyHi,retention,catalog.map LakeCatalog.attachSql,target⟩

def readRows (json : SerdeJson) (what : String) (text : JsonText) : Except String (List Json) :=
  match text with
  | some (.array rows) => .ok rows
  | _ =>
    let reason := json.rowsError text
    .error s!"{what} payload is not a JSON array of rows: {reason}"

def checkRetention (core : Core) (ctx : ChunkContext) (cold : Option ColdSink) (check : Bool)
    (tierKey : Int) : Except String Unit :=
  if cold.isSome && check && core.retentionRejects tierKey ctx.retention then
    .error (retentionError ctx.ts tierKey ctx.retention)
  else .ok ()

/-- The cold sink of a written row; a lake row only yields its tuple here. -/
def writeCold (core : Core) (ctx : ChunkContext) (cold : Option ColdSink) (tierKey : Int)
    (row : Json) : Pg (Option (List Json)) :=
  match cold with
  | some .delta => do
    let pkVals ← Effect.ofExcept (core.fieldTexts row ctx.ts.primaryKeyCols)
    Effect.mapError ("delta write failed: " ++ ·)
      (execute core (.delta ⟨ctx.ts.tableId,core.encodePk pkVals,.upsert,tierKey,row⟩))
    return none
  | some .lake => return some (core.lakeRowTuple row ctx.target.columns)
  | none => return none

def writeHeap (core : Core) (ctx : ChunkContext) (toHeap : Bool) (row : Json) : Pg Unit :=
  if toHeap then
    Effect.mapError ("heap insert failed: " ++ ·)
      (execute core (.heapInsert ctx.ts.schemaName ctx.ts.tableName row))
  else return

/-- The body of the row loop of `write_rows`. -/
def writeRow (core : Core) (ctx : ChunkContext) (image : Json) : Pg (Option (List Json)) := do
  let row := normalizeJsonColumns core.toSerdeJson image ctx.ts.columns
  let tierKey ← Effect.ofExcept (core.tierKey ctx.ts.tierKeyCol ctx.ts.tierKeyType row)
  let plan := ctx.mode.planInsert (routeRow core ctx.cutline tierKey)
  Effect.ofExcept (checkRetention core ctx plan.cold plan.checkRetention tierKey)
  let tuple ← writeCold core ctx plan.cold tierKey row
  writeHeap core ctx plan.toHeap row
  return tuple

def writeLoop (core : Core) (ctx : ChunkContext) : List Json → Pg (List (List Json))
  | [] => return []
  | image :: rest => do
    let tuple ← writeRow core ctx image
    let tuples ← writeLoop core ctx rest
    return tuple.toList ++ tuples

def writeRows (core : Core) (ctx : ChunkContext) (rows : List Json) : Pg (List LakeStatement) := do
  let lakeRows ← writeLoop core ctx rows
  if lakeRows.isEmpty then
    return []
  let cold ← Effect.ofExcept (liveCold ctx.target)
  takeLakeLock ctx.ts.tableId
  Effect.ofExcept (core.lakeUpsert ctx.target cold lakeRows)

/-- The cold sink of a deleted row; a lake row only yields its key tuple here. -/
def deleteCold (core : Core) (ctx : ChunkContext) (pkColumns : List Column)
    (cold : Option ColdSink) (tierKey : Int) (pkVals : List String) (row : Json) :
    Pg (Option (List Json)) :=
  match cold with
  | some .delta => do
    Effect.mapError ("delta tombstone failed: " ++ ·)
      (execute core (.delta ⟨ctx.ts.tableId,core.encodePk pkVals,.tombstone,tierKey,
        tombstonePayload row ctx.ts.primaryKeyCols⟩))
    return none
  | some .lake => return some (core.lakeRowTuple row pkColumns)
  | none => return none

def deleteHeap (core : Core) (ctx : ChunkContext) (fromHeap heapFloor : Bool)
    (pkVals : List String) : Pg Unit :=
  if fromHeap then
    let floor := if heapFloor then
        ctx.cutline.map fun t => ⟨ctx.ts.tierKeyCol,ctx.ts.tierKeyType,t⟩
      else none
    Effect.mapError ("heap delete failed: " ++ ·)
      (execute core (.heapDelete ctx.ts.schemaName ctx.ts.tableName ctx.ts.primaryKeyCols floor
        pkVals))
  else return

/-- The body of the row loop of `delete_rows`. -/
def deleteRow (core : Core) (ctx : ChunkContext) (pkColumns : List Column) (row : Json) :
    Pg (Option (List Json)) := do
  let tierKey ← Effect.ofExcept (core.tierKey ctx.ts.tierKeyCol ctx.ts.tierKeyType row)
  let plan := ctx.mode.planDelete (routeRow core ctx.cutline tierKey)
  let pkVals ← Effect.ofExcept (core.fieldTexts row ctx.ts.primaryKeyCols)
  Effect.ofExcept (checkRetention core ctx plan.cold plan.checkRetention tierKey)
  let tuple ← deleteCold core ctx pkColumns plan.cold tierKey pkVals row
  deleteHeap core ctx plan.fromHeap plan.heapFloor pkVals
  return tuple

def deleteLoop (core : Core) (ctx : ChunkContext) (pkColumns : List Column) :
    List Json → Pg (List (List Json))
  | [] => return []
  | row :: rest => do
    let tuple ← deleteRow core ctx pkColumns row
    let tuples ← deleteLoop core ctx pkColumns rest
    return tuple.toList ++ tuples

def pkColumn (target : Table) (pk : String) : Except String Column :=
  match target.columns.find? (·.name = pk) with
  | some column => .ok column
  | none => .error s!"primary key column '{pk}' is not a heap column"

/-- Key tuples follow the order of `pk_cols`. -/
def pkColumnsOf (target : Table) : Except String (List Column) :=
  target.pkCols.mapM (pkColumn target)

def deleteRows (core : Core) (ctx : ChunkContext) (rows : List Json) : Pg (List LakeStatement) := do
  let pkColumns ← Effect.ofExcept (pkColumnsOf ctx.target)
  let keyRows ← deleteLoop core ctx pkColumns rows
  if keyRows.isEmpty then
    return []
  let cold ← Effect.ofExcept (liveCold ctx.target)
  takeLakeLock ctx.ts.tableId
  let statement ← Effect.ofExcept (core.lakeDelete ctx.target cold keyRows ctx.cutline)
  return [statement]

def insertChunk (core : Core) (schema table : String) (rowsJson : JsonText) : Pg ChunkOutcome := do
  let ctx ← openChunk core schema table
  let rows ← Effect.ofExcept (readRows core.toSerdeJson "insert" rowsJson)
  let lakeSql ← writeRows core ctx rows
  return ⟨rows.length,ctx.attachSql,lakeSql⟩

def deleteChunk (core : Core) (schema table : String) (rowsJson : JsonText) : Pg ChunkOutcome := do
  let ctx ← openChunk core schema table
  let rows ← Effect.ofExcept (readRows core.toSerdeJson "delete" rowsJson)
  let lakeSql ← deleteRows core ctx rows
  return ⟨rows.length,ctx.attachSql,lakeSql⟩

/-- An entry pairs the row's old routing key with its full new image. -/
def splitPair (pair : Json) : Except String (Json × Json) :=
  match pair.get "old" with
  | none => .error "update row is missing its 'old' key"
  | some old =>
    match pair.get "new" with
    | none => .error "update row is missing its 'new' image"
    | some new => .ok (old,new)

/-- All the removals come before the first write, so that a same-key move does not
delete the row it just wrote. -/
def updateChunk (core : Core) (schema table : String) (rowsJson : JsonText) : Pg ChunkOutcome := do
  let ctx ← openChunk core schema table
  let pairs ← Effect.ofExcept (readRows core.toSerdeJson "update" rowsJson)
  let split ← Effect.ofExcept (pairs.mapM splitPair)
  let deletes ← deleteRows core ctx (split.map Prod.fst)
  let upserts ← writeRows core ctx (split.map Prod.snd)
  return ⟨split.length,ctx.attachSql,deletes ++ upserts⟩

end TierDb
