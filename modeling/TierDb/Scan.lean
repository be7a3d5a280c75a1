import TierDb.Conn

/-! Read pins: freezing a table's cut-line, pinning it and rendering the merged read. -/
namespace TierDb

structure PinnedScan where
  pinId : Option Int
  scanSql : String
  attachSql : Option String

/-- Inserts a pin row and returns its id, drawn from a sequence. -/
def pinAcquire (tableId : Int) (cut : Cutline) : Pg Int := do
  let pinId := (← get).client.sequence
  modify fun conn => { conn with client := { conn.client with sequence := pinId + 1 } }
  onSession (Sql.statement fun snapshot =>
    let pin : Pin := ⟨pinId,tableId,cut.lakeSnapshotId,cut.tierKeyHi⟩
    .ok (pinId,{ snapshot with
      database := { snapshot.database with pins := snapshot.database.pins ++ [pin] } }))

def releasePin (pinId : Int) : Pg Unit :=
  Effect.mapError ("read pin release failed: " ++ ·) (onSession (Sql.statement fun snapshot =>
    .ok ((),{ snapshot with
      database := { snapshot.database with
        pins := snapshot.database.pins.filter (·.pinId ≠ pinId) } })))

def pinCut (tableId : Int) : Option Cutline → Pg (Option Int)
  | some cut => do
    let pinId ← Effect.mapError ("read pin acquire failed: " ++ ·) (pinAcquire tableId cut)
    return some pinId
  | none => return none

def scanPlan (core : Core) (target : Table) : Option Cutline → Except String (Option ReadPlan)
  | some cut => (core.scan target cut.tierKeyHi cut.lakeProps).map some
  | none => .ok none

/-- What follows the pin sends no statement. -/
def renderPinned (core : Core) (ts : TableSchema) (dsn : String) (lake : Option LakeCatalog)
    (cut : Option Cutline) : Except String String := do
  let target ← ts.table core lake
  let read ← scanPlan core target cut
  core.renderScan target read dsn

def pinAndRender (core : Core) (ts : TableSchema) (dsn : String) (lake : Option LakeCatalog) :
    Pg PinnedScan := do
  let cut ← cutline core ts.tableId
  let pinId ← pinCut ts.tableId cut
  let scanSql ← Effect.ofExcept (renderPinned core ts dsn lake cut)
  return ⟨pinId,scanSql,lake.map LakeCatalog.attachSql⟩

def scanLake (core : Core) (ts : TableSchema) : Pg (Option LakeCatalog) := do
  let mode ← Effect.ofExcept (ts.modeOf core)
  if !mode.isDirect then
    return none
  match ← lakeCatalog core ts with
  | some catalog => return some catalog
  | none => throw (s!"direct table \"{ts.schemaName}\".\"{ts.tableName}\" needs a live " ++
      s!"catalog endpoint, but storage profile '{ts.storageProfile}' does not configure one")

def endOwnBlock : Except String PinnedScan → Pg PinnedScan
  | .ok pinned => do
    Effect.mapError ("read pin COMMIT failed: " ++ ·) (onSession Sql.commit)
    return pinned
  | .error e => do
    let _ ← Effect.attempt (onSession Sql.rollback)
    throw e

/-- A pin under a block of its own, which is what makes it durable at once. -/
def pinInOwnBlock (core : Core) (ts : TableSchema) (dsn : String) (lake : Option LakeCatalog) :
    Pg PinnedScan := do
  Effect.mapError ("read pin BEGIN failed: " ++ ·) (onSession Sql.beginBlock)
  endOwnBlock (← Effect.attempt (pinAndRender core ts dsn lake))

/-- Joins an open write transaction, or pins under a short block of its own. -/
def acquireScan (core : Core) (schema table : String) : Pg PinnedScan := do
  let ts ← tableSchema core schema table
  let dsn := (← get).dsn
  let lake ← scanLake core ts
  if (← get).inTxn then
    pinAndRender core ts dsn lake
  else
    pinInOwnBlock core ts dsn lake

end TierDb
