import TierDb.Scan
import TierDb.LakeDml

/-! The DuckDB side of one attached catalog: the pins and the write flag of each
DuckDB transaction, and the boundaries that end one. Every transaction of the
catalog shares the one connection. -/
namespace TierDb

structure TierDBPinnedScan where
  hasPin : Bool
  pinId : Int
  scanSql : String
  attachSql : String
  deriving DecidableEq, Repr

structure TierDBTransaction where
  scanByTable : List (Int × TierDBPinnedScan) := []
  pins : List Int := []
  writeActive : Bool := false
  deriving DecidableEq, Repr

/-- A transaction together with the connection and the lake its calls go to. -/
structure Attached where
  txn : TierDBTransaction
  conn : Conn
  lakeSide : LakeSide

abbrev Cpp (α : Type) := EStateM String Attached α

/-- A call through the client; an error becomes an `IOException`. -/
def client {α : Type} (x : Pg α) : Cpp α :=
  Effect.zoom Attached.conn (fun conn s => { s with conn := conn })
    (Effect.mapError ("tierdb: " ++ ·) x)

def onTxn (f : TierDBTransaction → TierDBTransaction) : Cpp Unit :=
  modify fun s => { s with txn := f s.txn }

/-- `TierDBClient::AcquireReadScan`. -/
def acquireReadScan (core : Core) (schema table : String) : Cpp TierDBPinnedScan := do
  let pinned ← client (acquireScan core schema table)
  return ⟨pinned.pinId.isSome,pinned.pinId.getD 0,pinned.scanSql,pinned.attachSql.getD ""⟩

/-- The name and id an entry of the catalog cache asks with. -/
structure TableRef where
  tableId : Int
  schemaName : String
  tableName : String
  deriving DecidableEq, Repr

def getPinnedScan (core : Core) (ref : TableRef) : Cpp TierDBPinnedScan := do
  match (← get).txn.scanByTable.find? (·.1 = ref.tableId) with
  | some hit => return hit.2
  | none =>
    let pinned ← acquireReadScan core ref.schemaName ref.tableName
    if pinned.hasPin then
      onTxn fun txn => { txn with pins := txn.pins ++ [pinned.pinId] }
    onTxn fun txn => { txn with scanByTable := txn.scanByTable ++ [(ref.tableId,pinned)] }
    return pinned

def releaseEach : List Int → Cpp Unit
  | [] => return
  | pinId :: rest => do
    client (releasePin pinId)
    releaseEach rest

/-- The pin list is moved out before the first release. -/
def releasePins : Cpp Unit := do
  let toRelease := (← get).txn.pins
  onTxn fun txn => { txn with pins := [], scanByTable := [] }
  releaseEach toRelease

def setWriteActive (value : Bool) : Cpp Unit := onTxn fun txn => { txn with writeActive := value }

def ensureWriteTxn : Cpp Unit := do
  if (← get).txn.writeActive then
    return
  client txnBegin
  setWriteActive true

def commitWrite : Cpp Unit := do
  if !(← get).txn.writeActive then
    return
  setWriteActive false
  client txnCommit

def rollbackWrite : Cpp Unit := do
  if !(← get).txn.writeActive then
    return
  setWriteActive false
  client txnRollback

/-- The result is the error DuckDB is told, if any. -/
def commitTransaction : Cpp (Option String) := do
  let error ← match ← Effect.attempt commitWrite with
    | .ok () => pure none
    | .error e => do
      let _ ← Effect.attempt rollbackWrite
      pure (some e)
  match ← Effect.attempt releasePins with
  | .ok () => return error
  | .error e => return error.or (some e)

def rollbackTransaction : Cpp Unit := do
  let _ ← Effect.attempt rollbackWrite
  let _ ← Effect.attempt releasePins
  return

inductive ChunkKind where
  | insert
  | delete
  | update
  deriving DecidableEq, Repr

def chunkFunction (core : Core) : ChunkKind → String → String → JsonText → Pg ChunkOutcome
  | .insert => insertChunk core
  | .delete => deleteChunk core
  | .update => updateChunk core

/-- The part of the three sinks after the rows are encoded; returns the row count. -/
def sinkChunk (core : Core) (kind : ChunkKind) (schema table : String) (rowsJson : JsonText) :
    Cpp Int := do
  ensureWriteTxn
  let result ← client (chunkFunction core kind schema table rowsJson)
  Effect.zoom Attached.lakeSide (fun side s => { s with lakeSide := side })
    (executeLakeDml (result.attachSql.getD "") result.lakeSql)
  return result.count

end TierDb
