import TierDb.System
import TierDb.Merged

/-! A concrete `Core`: a bigint tier key, failing duplicate inserts, and statements
that do exactly what the laws say, over one registered table. It shows the laws
satisfiable and runs the model. -/
namespace TierDb.Reference

def digit (c : Char) : Option Nat :=
  if '0'.toNat ≤ c.toNat ∧ c.toNat ≤ '9'.toNat then some (c.toNat - '0'.toNat) else none

def natOfDigits : List Char → Nat → Option Nat
  | [], acc => some acc
  | c :: rest, acc =>
    match digit c with
    | some d => natOfDigits rest (10 * acc + d)
    | none => none

def intOfText (text : String) : Option Int :=
  match text.toList with
  | [] => none
  | '-' :: rest => if rest.isEmpty then none else (natOfDigits rest 0).map fun n => -(n : Int)
  | chars => (natOfDigits chars 0).map Int.ofNat

def bigint : TierKeyType where
  name := "bigint"
  encodeText text :=
    match intOfText text with
    | some n => .ok n
    | none => .error s!"invalid bigint tier key: {text}"
  pgLiteral := toString

def splitMode (direct : Bool) (sink : ColdSink) : Mode where
  isDirect := direct
  planInsert
    | .hot => ⟨true,none,true⟩
    | .cold => ⟨false,some sink,true⟩
  planDelete
    | .hot => ⟨true,none,true,true⟩
    | .cold => ⟨false,some sink,true,true⟩

theorem splitMode_splits (direct : Bool) (sink : ColdSink) :
    (splitMode direct sink).Splits sink := by
  constructor <;> simp [splitMode]

/-- Every write of a mirrored table goes to the heap. -/
def mirroredMode : Mode where
  isDirect := false
  planInsert _ := ⟨true,none,false⟩
  planDelete _ := ⟨true,none,false,false⟩

def modeFromCatalog (name : String) (_keepHeap : Bool) (_lag : Option Int) : Except String Mode :=
  if name = "tiered" then .ok (splitMode false .delta)
  else if name = "direct" then .ok (splitMode true .lake)
  else if name = "mirrored" then .ok mirroredMode
  else .error s!"unknown mode {name}"

/-- One column encodes as its own text, several with an escape before every character. -/
def encodeMany (values : List String) : List Char :=
  values.flatMap fun value => value.toList.flatMap (fun c => ['\\',c]) ++ [',']

def encodePk : List String → String
  | [value] => value
  | values => String.ofList (encodeMany values)

theorem escaped_injective (a b : List Char) (x y : List Char)
    (same : a.flatMap (fun c => ['\\',c]) ++ ',' :: x =
      b.flatMap (fun c => ['\\',c]) ++ ',' :: y) : a = b ∧ x = y := by
  induction a generalizing b with
  | nil =>
    cases b with
    | nil => simpa using same
    | cons c rest => simp at same
  | cons c rest ih =>
    cases b with
    | nil => simp at same
    | cons d tail =>
      simp only [List.flatMap_cons, List.cons_append, List.nil_append, List.cons.injEq,
        true_and] at same
      obtain ⟨restEq,xy⟩ := ih tail same.2
      exact ⟨by rw [same.1,restEq],xy⟩

theorem encodeMany_injective (a b : List String) (same : encodeMany a = encodeMany b) : a = b := by
  induction a generalizing b with
  | nil =>
    cases b with
    | nil => rfl
    | cons value rest => simp [encodeMany] at same
  | cons value rest ih =>
    cases b with
    | nil => simp [encodeMany] at same
    | cons other tail =>
      simp only [encodeMany, List.flatMap_cons, List.append_assoc, List.cons_append,
        List.nil_append] at same ih
      obtain ⟨chars,restEq⟩ := escaped_injective _ _ _ _ same
      rw [String.toList_injective chars,ih tail restEq]

theorem encodePk_injective (a b : List String) (length : a.length = b.length)
    (same : encodePk a = encodePk b) : a = b := by
  match a, b with
  | [], [] => rfl
  | [x], [y] => simpa [encodePk] using same
  | x :: x' :: xs, y :: y' :: ys =>
    apply encodeMany_injective
    simpa [encodePk] using congrArg String.toList same
  | [], y :: ys | [x], [] | x :: x' :: xs, [] | [x], y :: y' :: ys | x :: x' :: xs, [y] =>
    simp at length

def serde : SerdeJson where
  realText
    | .finite mantissa exponent => s!"{mantissa}e{exponent}"
    | .infinite negative => if negative then "-inf" else "inf"
    | .nan => "NaN"
  display _ := "[nested value]"
  parse text := (intOfText text).map fun n => .number (.int n)
  parseError := "expected value"
  rowsError _ := "expected a sequence"

def imageError (pkCols : List String) (image : Json) : Option String :=
  if pkCols.any fun column => ((image.get column).getD .null).isNull then
    some "null value violates not-null constraint"
  else none

def heapInsert (rel : Relation) (image : Json) : Except String (List Fields) :=
  match imageError rel.primaryKey image with
  | some e => .error e
  | none =>
    let stored := rel.rows ++ [project (rel.columns.map Prod.fst) image]
    match serde.keyOf rel.primaryKey image with
    | none => .ok stored
    | some key =>
      if rel.rows.any (serde.hasKey rel.primaryKey key) then
        .error "duplicate key value violates unique constraint"
      else .ok stored

def upsertEffect (table : Table) (cold : Cold) (rows : List (List Json)) : LakeStatement where
  effect lake := fun ref =>
    if ref = cold.tableRef then
      (lake ref).filter (fun row => !rows.any fun tuple =>
        (serde.keyOf table.pkCols
          (.object (lakeRow (table.columns.map Column.name) tuple))).any
            (serde.hasKey table.pkCols · row)) ++
      rows.map (lakeRow (table.columns.map Column.name))
    else lake ref

def deleteEffect (table : Table) (cold : Cold) (keys : List (List Json)) (below : Option Int) :
    LakeStatement where
  effect lake := fun ref =>
    if ref = cold.tableRef then
      (lake ref).filter fun row =>
        !(keys.any (fun tuple => (serde.keyOf table.pkCols
            (.object (lakeRow table.pkCols tuple))).any (serde.hasKey table.pkCols · row)) &&
          serde.underBound table below row)
    else lake ref

def core : Core where
  toSerdeJson := serde
  modeFromCatalog := modeFromCatalog
  tierKeyTypeFromName name :=
    if name = "bigint" then .ok bigint else .error s!"unknown tier key type {name}"
  route key t := if key < t then .cold else .hot
  retentionRejects key line := line.any (key < ·)
  encodePk := encodePk
  imageError _ pkCols image := imageError pkCols image
  replacesDuplicate := false
  heapInsert := heapInsert
  heapDelete rel pkCols floor key :=
    rel.rows.filter fun row => !(serde.hasKey pkCols key row && serde.aboveFloor floor row)
  deltaWrite entry entries :=
    entries.filter (fun e => !(e.tableId == entry.tableId && e.pk == entry.pk)) ++ [entry]
  lakeRowTuple row columns := columns.map fun column => (row.get column.name).getD .null
  lakeUpsert table cold rows := .ok [upsertEffect table cold rows]
  lakeDelete table cold keys below := .ok (deleteEffect table cold keys below)
  lakeCatalogFromProfile _ profile warehouse config :=
    .ok (if config.any (·.1 = "catalog.uri") then some ⟨s!"ATTACH {warehouse}",profile⟩ else none)
  scan table _ _ :=
    if table.lakeFormat = "iceberg" then .ok ⟨table.name⟩
    else .error s!"unsupported lake_format {table.lakeFormat}"
  renderScan table _ _ := .ok s!"merged read of {table.name}"
  duckdbType pgType := pgType
  tiered_splits lag mode found := by
    obtain rfl : splitMode false .delta = mode := by simpa [modeFromCatalog] using found
    exact ⟨rfl,splitMode_splits _ _⟩
  tiered_places keepHeap lag mode found := by
    obtain rfl : splitMode false .delta = mode := by simpa [modeFromCatalog] using found
    exact ⟨fun side => by cases side <;> simp [splitMode],
      fun side => by cases side <;> simp [splitMode]⟩
  direct_splits lag mode found := by
    obtain rfl : splitMode true .lake = mode := by simpa [modeFromCatalog] using found
    exact ⟨rfl,splitMode_splits _ _⟩
  route_cold key t := by by_cases h : key < t <;> simp [h]
  retention_rejects key line := rfl
  encodePk_injective := encodePk_injective
  imageError_null columns pkCols image missing := by
    obtain ⟨column,member,null⟩ := missing
    have refused : pkCols.any (fun c => ((image.get c).getD .null).isNull) = true :=
      List.any_eq_true.mpr ⟨column,member,null⟩
    simp [imageError, refused]
  heapInsert_refused rel image e refused := by simp [heapInsert, refused]
  heapInsert_fresh rel image key accepted found fresh := by
    have none : rel.rows.any (serde.hasKey rel.primaryKey key) = false := by
      simpa using fresh
    simp [heapInsert, accepted, found, none]
  heapInsert_duplicate rel image key accepted found duplicate := by
    have some : rel.rows.any (serde.hasKey rel.primaryKey key) = true :=
      List.any_eq_true.mpr duplicate
    simp [heapInsert, accepted, found, some]
  heapDelete_rows rel pkCols floor key := rfl
  deltaWrite_entries entry entries := rfl
  lakeRowTuple_values row columns := rfl
  lakeUpsert_effect table cold rows statements rendered lake := by
    cases rendered; rfl
  lakeDelete_effect table cold keys below statement rendered lake := by
    cases rendered; rfl

def columns : List (String × String) := [("id","bigint"),("ts","bigint"),("v","bigint")]

def item (id ts v : Int) : Fields :=
  [("id",.number (.int id)),("ts",.number (.int ts)),("v",.number (.int v))]

/-- The table `public.items`, keyed by `id` and tiered by `ts`. -/
def registration (mode : String) : Registration where
  tableId := 1
  schemaName := "public"
  tableName := "items"
  lakeFormat := "iceberg"
  lakeTableRef := "lake.items"
  tierKeyCol := "ts"
  tierKeyType := "bigint"
  primaryKeyCols := ["id"]
  mode := mode
  keepHeap := false
  heapRetentionLag := none
  lakeRetentionLag := none
  storageProfile := "default"

/-- One table under the given mode and cut-line. -/
def database (mode : String) (cut : Int) (rows : List Fields) : Database where
  tables := [registration mode]
  heap schema table :=
    if schema = "public" ∧ table = "items" then some ⟨columns,["id"],rows⟩ else none
  cutline table := if table = 1 then some ⟨cut,1,none,none⟩ else none
  profiles _ := some ⟨"warehouse",some (some (.object [("catalog.uri",.string "uri")]))⟩
  delta := []
  pins := []

def system (db : Database) : System where
  conn := { client := { session := { durable := ⟨db,[]⟩ } }, dsn := "" }
  lake _ := []

def items (cut : Int) : Layout where
  schema := "public"
  name := "items"
  tableId := 1
  lakeRef := "lake.items"
  columns := columns
  pkCols := ["id"]
  tierKeyCol := "ts"
  tierKeyType := bigint
  cut := cut
  pk_columns := by decide
  tier_column := by decide

theorem database_describes (mode : String) (cut : Int) (rows : List Fields) :
    (items cut).Describes core (database mode cut rows) mode :=
  ⟨⟨registration mode,rfl,rfl,rfl,rfl,rfl,rfl,rfl,rfl⟩,rfl,rfl⟩

theorem database_sound (mode : String) (cut : Int) (rows : List Fields) :
    (items cut).Sound core (database mode cut rows) := by
  intro e member
  cases member

def chunk (t : Nat) (kind : ChunkKind) (rows : List Json) : Event :=
  .chunk t kind "public" "items" (some (.array rows)) [] []

end TierDb.Reference
