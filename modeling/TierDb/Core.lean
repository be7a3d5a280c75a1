import TierDb.Json

/-! The interface of tierdb-core, whose source is not part of the repository. Its
functions are the fields of `Core`, with what the extension relies on as laws; a
mode, a tier key type and a lake attachment are what the extension observes of them. -/
namespace TierDb

inductive RouteTarget where
  | hot
  | cold
  deriving DecidableEq, Repr

inductive ColdSink where
  | delta
  | lake
  deriving DecidableEq, Repr

structure InsertPlan where
  toHeap : Bool
  cold : Option ColdSink
  checkRetention : Bool
  deriving DecidableEq, Repr

structure DeletePlan where
  fromHeap : Bool
  cold : Option ColdSink
  checkRetention : Bool
  heapFloor : Bool
  deriving DecidableEq, Repr

structure Mode where
  isDirect : Bool
  planInsert : RouteTarget → InsertPlan
  planDelete : RouteTarget → DeletePlan

/-- A hot row is placed in and removed from the heap only, the removal bounded by the
cut-line; a cold row goes to `sink` only and is checked against the retention line. -/
structure Mode.Splits (mode : Mode) (sink : ColdSink) : Prop where
  insertHot : (mode.planInsert .hot).toHeap = true ∧ (mode.planInsert .hot).cold = none
  insertCold : mode.planInsert .cold = ⟨false,some sink,true⟩
  deleteHot : (mode.planDelete .hot).fromHeap = true ∧ (mode.planDelete .hot).cold = none ∧
    (mode.planDelete .hot).heapFloor = true
  deleteCold : (mode.planDelete .cold).fromHeap = false ∧
    (mode.planDelete .cold).cold = some sink ∧ (mode.planDelete .cold).checkRetention = true

/-- Every row is placed in and removed from at least one of heap and delta. -/
structure Mode.Places (mode : Mode) : Prop where
  insert : ∀ side, (mode.planInsert side).toHeap = true ∨
    (mode.planInsert side).cold = some .delta
  delete : ∀ side, (mode.planDelete side).fromHeap = true ∨
    (mode.planDelete side).cold = some .delta

structure TierKeyType where
  name : String
  encodeText : String → Except String Int
  pgLiteral : Int → String

structure LakeCatalog where
  attachSql : String
  aliasName : String
  deriving DecidableEq, Repr

structure Column where
  name : String
  sqlType : String
  deriving DecidableEq, Repr

structure Table where
  id : Nat
  schema : String
  name : String
  columns : List Column
  pkCols : List String
  tierKeyCol : String
  tierKeyType : TierKeyType
  mode : Mode
  lakeFormat : String
  lakeTableRef : Option String
  catalog : Option LakeCatalog

/-- `Cold::Live`, the lake relation a direct chunk writes. -/
structure Cold where
  catalog : String
  tableRef : String
  deriving DecidableEq, Repr

/-- A Postgres heap relation: columns with their types, primary key, rows. -/
structure Relation where
  columns : List (String × String)
  primaryKey : List String
  rows : List Fields

inductive DeltaOp where
  | upsert
  | tombstone
  deriving DecidableEq, Repr

structure DeltaEntry where
  tableId : Int
  pk : String
  op : DeltaOp
  tierKey : Int
  payload : Json

/-- The bound of a hot delete; in the source it is the text
`"column" >= literal` of the same column, type and bound. -/
structure Floor where
  column : String
  keyType : TierKeyType
  bound : Int

/-- The rows of every lake relation, by table reference. -/
abbrev Lake := String → List Fields

/-- A rendered lake statement, by what it does when it succeeds. -/
structure LakeStatement where
  effect : Lake → Lake

structure ReadPlan where
  text : String

namespace SerdeJson

variable (json : SerdeJson)

/-- The primary-key texts of a row that has them all. -/
def keyOf (pkCols : List String) (row : Json) : Option (List String) :=
  (json.fieldTexts row pkCols).toOption

def tierKey (column : String) (keyType : TierKeyType) (row : Json) : Except String Int := do
  keyType.encodeText (← json.fieldText row column)

def tierKeyOf (column : String) (keyType : TierKeyType) (row : Json) : Option Int :=
  (json.tierKey column keyType row).toOption

def hasKey (pkCols : List String) (key : List String) (row : Fields) : Bool :=
  json.keyOf pkCols (.object row) == some key

/-- Whether a floored delete may touch the row. -/
def aboveFloor (floor : Option Floor) (row : Fields) : Bool :=
  match floor with
  | none => true
  | some f => (json.tierKeyOf f.column f.keyType (.object row)).any (f.bound ≤ ·)

/-- Whether a lake delete bounded by `below` may touch the row. -/
def underBound (table : Table) (below : Option Int) (row : Fields) : Bool :=
  match below with
  | none => true
  | some t => (json.tierKeyOf table.tierKeyCol table.tierKeyType (.object row)).any (· < t)

end SerdeJson

def lakeRow (columns : List String) (tuple : List Json) : Fields := columns.zip tuple

/-- The functions of tierdb-core and the SQL it renders, as Postgres and DuckDB run it. -/
structure Core extends SerdeJson where
  modeFromCatalog : String → Bool → Option Int → Except String Mode
  tierKeyTypeFromName : String → Except String TierKeyType
  route : Int → Int → RouteTarget
  retentionRejects : Int → Option Int → Bool
  encodePk : List String → String
  /-- Why Postgres refuses an image whatever the other rows are: a value its column's
  type does not take, or a missing primary-key value. -/
  imageError : List (String × String) → List String → Json → Option String
  /-- Whether the rendered heap insert replaces a row of the same key or fails on it. -/
  replacesDuplicate : Bool
  heapInsert : Relation → Json → Except String (List Fields)
  heapDelete : Relation → List String → Option Floor → List String → List Fields
  deltaWrite : DeltaEntry → List DeltaEntry → List DeltaEntry
  lakeRowTuple : Json → List Column → List Json
  lakeUpsert : Table → Cold → List (List Json) → Except String (List LakeStatement)
  lakeDelete : Table → Cold → List (List Json) → Option Int → Except String LakeStatement
  lakeCatalogFromProfile : String → String → String → List (String × String) →
    Except String (Option LakeCatalog)
  scan : Table → Int → List (String × String) → Except String ReadPlan
  renderScan : Table → Option ReadPlan → String → Except String String
  duckdbType : String → String
  tiered_splits : ∀ lag mode, modeFromCatalog "tiered" false lag = .ok mode →
    mode.isDirect = false ∧ mode.Splits .delta
  tiered_places : ∀ keepHeap lag mode, modeFromCatalog "tiered" keepHeap lag = .ok mode →
    mode.Places
  direct_splits : ∀ lag mode, modeFromCatalog "direct" false lag = .ok mode →
    mode.isDirect = true ∧ mode.Splits .lake
  route_cold : ∀ key t, route key t = .cold ↔ key < t
  retention_rejects : ∀ key line, retentionRejects key line = line.any (key < ·)
  encodePk_injective : ∀ a b : List String, a.length = b.length → encodePk a = encodePk b → a = b
  imageError_null : ∀ columns pkCols image,
    (∃ column ∈ pkCols, ((image.get column).getD .null).isNull = true) →
    imageError columns pkCols image ≠ none
  heapInsert_refused : ∀ rel image e, imageError rel.columns rel.primaryKey image = some e →
    heapInsert rel image = .error e
  heapInsert_fresh : ∀ rel image key,
    imageError rel.columns rel.primaryKey image = none →
    toSerdeJson.keyOf rel.primaryKey image = some key →
    (∀ row ∈ rel.rows, toSerdeJson.hasKey rel.primaryKey key row = false) →
    heapInsert rel image = .ok (rel.rows ++ [project (rel.columns.map Prod.fst) image])
  heapInsert_duplicate : ∀ rel image key,
    imageError rel.columns rel.primaryKey image = none →
    toSerdeJson.keyOf rel.primaryKey image = some key →
    (∃ row ∈ rel.rows, toSerdeJson.hasKey rel.primaryKey key row = true) →
    if replacesDuplicate then
      heapInsert rel image =
        .ok (rel.rows.filter (fun row => !toSerdeJson.hasKey rel.primaryKey key row) ++
          [project (rel.columns.map Prod.fst) image])
    else ∃ e, heapInsert rel image = .error e
  heapDelete_rows : ∀ rel pkCols floor key, heapDelete rel pkCols floor key =
    rel.rows.filter fun row =>
      !(toSerdeJson.hasKey pkCols key row && toSerdeJson.aboveFloor floor row)
  deltaWrite_entries : ∀ entry entries, deltaWrite entry entries =
    entries.filter (fun e => !(e.tableId == entry.tableId && e.pk == entry.pk)) ++ [entry]
  lakeRowTuple_values : ∀ row columns, lakeRowTuple row columns =
    columns.map fun column => (row.get column.name).getD .null
  lakeUpsert_effect : ∀ table cold rows statements, lakeUpsert table cold rows = .ok statements →
    ∀ lake, statements.foldl (fun l s => s.effect l) lake = fun ref =>
      if ref = cold.tableRef then
        (lake ref).filter (fun row => !rows.any fun tuple =>
          (toSerdeJson.keyOf table.pkCols
            (.object (lakeRow (table.columns.map Column.name) tuple))).any
              (toSerdeJson.hasKey table.pkCols · row)) ++
        rows.map (lakeRow (table.columns.map Column.name))
      else lake ref
  lakeDelete_effect : ∀ table cold keys below statement,
    lakeDelete table cold keys below = .ok statement →
    ∀ lake, statement.effect lake = fun ref =>
      if ref = cold.tableRef then
        (lake ref).filter fun row =>
          !(keys.any (fun tuple => (toSerdeJson.keyOf table.pkCols
              (.object (lakeRow table.pkCols tuple))).any (toSerdeJson.hasKey table.pkCols · row)) &&
            toSerdeJson.underBound table below row)
      else lake ref

end TierDb
