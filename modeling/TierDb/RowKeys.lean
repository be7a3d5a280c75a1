import TierDb.Payload
import TierDb.Projection

/-! The key of a deleted row on its way to the router: requested as virtual columns, read by
name in the scan, found by position in the plan and by name again in the payload. -/
namespace TierDb

/-- `ColumnDefinition` of a column. -/
def columnDefinition (column : TierDBColumn) : Except String (String × LogicalType) := do
  return (column.name,← tierDBLogicalTypeFromString column.duckdbType)

/-- An entry exists only once the type of every column was read. -/
structure TierDBTableEntry where
  schema : TierDBTableSchema
  columns : List (String × LogicalType)
  made : schema.columns.mapM columnDefinition = .ok columns

def makeTableEntry (schema : TierDBTableSchema) : Except String TierDBTableEntry :=
  match made : schema.columns.mapM columnDefinition with
  | .ok columns => .ok ⟨schema,columns,made⟩
  | .error message => .error message

/-- DuckDB's lowest virtual column id. -/
structure VirtualColumns where
  start : Nat

/-- The type a routing column takes from the table's columns. -/
def TierDBTableSchema.typeOf (schema : TierDBTableSchema) (name : String) :
    Except String LogicalType :=
  match schema.columns.find? (·.name = name) with
  | some column => tierDBLogicalTypeFromString column.duckdbType
  | none => .ok .varchar

namespace TierDBTableEntry

variable (virtual : VirtualColumns) (entry : TierDBTableEntry)

/-- `add` of `RoutingColumns`; ids are of 64 bits. -/
def addRoutingColumn (out : List TierDBRoutingColumn) (name : String) :
    Except String (List TierDBRoutingColumn) := do
  let type ← entry.schema.typeOf name
  return out ++ [⟨(virtual.start + 1 + out.length) % 2^64,name,type⟩]

def keyNames : List String := entry.schema.primaryKeyCols ++ [entry.schema.tierKeyCol]

def routingColumns : Except String (List TierDBRoutingColumn) :=
  entry.keyNames.foldlM (entry.addRoutingColumn virtual) []

def getRowIdColumns : Except String (List Nat) := do
  return (← entry.routingColumns virtual).map TierDBRoutingColumn.virtualId

/-- The SQL is that of the pinned scan. -/
def getScanFunction (sql attachSql : String) : Except String TierDBScanBindData := do
  return scanBindData sql attachSql (entry.columns.map Prod.fst) (← entry.routingColumns virtual)

end TierDBTableEntry

/-- An expression is the position of its column in the chunks of the child. -/
def planDelete {width : Nat} (virtual : VirtualColumns) (entry : TierDBTableEntry)
    (returnChunk : Bool) (expressions : List (Fin width)) : Except String (TierDBSink width) := do
  if returnChunk then
    throw "tierdb: DELETE ... RETURNING is not supported yet"
  let routing ← entry.routingColumns virtual
  if expressions.length ≠ routing.length then
    throw "tierdb: delete row-id columns do not match the routing key"
  return .delete expressions (routing.map TierDBRoutingColumn.name)

/-- DuckDB's plan of a DELETE: what its scan asks for, the scan's columns that reach the
delete, and where among them each row-id column is, in the order it was given. -/
structure RowIdPlan (rowIds : List Nat) where
  columnIds : List Nat
  carried : List (Fin columnIds.length)
  expressions : List (Fin carried.length)
  ordered : (expressions.map fun i => columnIds.get (carried.get i)) = rowIds

/-- A row of the merged read, by the names of its columns. -/
abbrev MergedRow := String → Value

def evalItem (row : MergedRow) : SelectList.Item → Option Value
  | [.delimited name] => some (row (String.ofList name))
  | item => if item = constantItem then some (.signed 1) else none

/-- The row as the scan's query returns it. -/
def TierDBScanBindData.scanRow (data : TierDBScanBindData) (columnIds : List Nat) (row : MergedRow) :
    Option (List Value) := do
  let (items,_) ← SelectList.readSelect (data.projectedScanSql columnIds).toList
  items.mapM (evalItem row)

/-- The row as it reaches the delete. -/
def RowIdPlan.child {rowIds : List Nat} (plan : RowIdPlan rowIds) (scanned : List Value) :
    ChunkRow plan.carried.length :=
  Vector.ofFn fun i => scanned.getD (plan.carried.get i) .null

/-- What `delete_rows` takes from a row: the text of the tier key and those of the primary
key. -/
def keyTexts (json : SerdeJson) (ts : TableSchema) (row : Json) :
    Except String (String × List String) := do
  return (← json.fieldText row ts.tierKeyCol,← json.fieldTexts row ts.primaryKeyCols)

def extractKeys (json : SerdeJson) (ts : TableSchema) (rowsJson : JsonText) :
    Except String (List (String × List String)) := do
  (← readRows json "delete" rowsJson).mapM (keyTexts json ts)

/-- Neither NULL nor nested. -/
def Value.isScalar : Value → Bool
  | .null | .list _ | .struct _ => false
  | _ => true

/-- The text of a scalar. -/
def Value.text (json : SerdeJson) : Value → String
  | .boolean b => toString b
  | .signed n => toString n
  | .unsigned n => toString n
  | .double d => json.realText d
  | .other text => text
  | _ => ""

namespace TierDBTableEntry

variable (virtual : VirtualColumns) (entry : TierDBTableEntry)

/-- The type of a routing column, VARCHAR where the table lacks the column. -/
def typeOf (name : String) : LogicalType :=
  ((entry.columns.find? (·.1 = name)).map Prod.snd).getD .varchar

def routingColumn (name : String) (index : Nat) : TierDBRoutingColumn :=
  ⟨(virtual.start + 1 + index) % 2^64,name,entry.typeOf name⟩

def routing : List TierDBRoutingColumn := entry.keyNames.mapIdx fun i name =>
  entry.routingColumn virtual name i

theorem made_columns : List.Forall₂ (fun column made => columnDefinition column = .ok made)
    entry.schema.columns entry.columns := Effect.mapM_ok.mp entry.made

theorem columnDefinition_ok {column : TierDBColumn} {made : String × LogicalType} :
    columnDefinition column = .ok made ↔
      column.name = made.1 ∧ tierDBLogicalTypeFromString column.duckdbType = .ok made.2 := by
  unfold columnDefinition
  cases tierDBLogicalTypeFromString column.duckdbType <;>
    simp [bind, Except.bind, pure, Except.pure, Prod.ext_iff]

theorem typeOf_reads (name : String) : entry.schema.typeOf name = .ok (entry.typeOf name) := by
  unfold TierDBTableSchema.typeOf typeOf
  have all := entry.made_columns
  generalize entry.columns = made at *
  generalize entry.schema.columns = columns at *
  induction all with
  | nil => rfl
  | cons first _ ih =>
    obtain ⟨named,read⟩ := columnDefinition_ok.mp first
    rw [List.find?_cons, List.find?_cons, named]
    cases decide (_ = name) with
    | true => exact read
    | false => exact ih

theorem addRoutingColumn_made (out : List TierDBRoutingColumn) (name : String) :
    entry.addRoutingColumn virtual out name = .ok (out ++ [entry.routingColumn virtual name out.length]) := by
  rw [addRoutingColumn, typeOf_reads]
  rfl

/-- The routing columns of an entry are made without an error. -/
theorem routingColumns_made : entry.routingColumns virtual = .ok (entry.routing virtual) := by
  have added : ∀ (names : List String) (out : List TierDBRoutingColumn),
      names.foldlM (entry.addRoutingColumn virtual) out = .ok (out ++ names.mapIdx fun i name =>
        entry.routingColumn virtual name (out.length + i)) := by
    intro names
    induction names with
    | nil =>
      intro out
      rw [List.mapIdx_nil, List.append_nil]
      rfl
    | cons name rest ih =>
      intro out
      rw [List.foldlM_cons, addRoutingColumn_made]
      refine (ih _).trans ?_
      simp [List.mapIdx_cons, Nat.add_assoc, Nat.add_comm 1]
  rw [routingColumns, added, routing]
  simp

theorem routing_names : (entry.routing virtual).map TierDBRoutingColumn.name = entry.keyNames := by
  apply List.ext_getElem?
  intro i
  rw [List.getElem?_map, routing, List.getElem?_mapIdx, Option.map_map]
  exact Option.map_id'

/-- DuckDB's ids have room for the table: those of its columns are below the virtual ones,
and these fit 64 bits. -/
structure HasRoom : Prop where
  columns : entry.columns.length ≤ virtual.start
  keys : virtual.start + 1 + entry.keyNames.length ≤ 2^64

variable {virtual entry}

theorem routing_origin {rc : TierDBRoutingColumn} (room : entry.HasRoom virtual)
    (member : rc ∈ entry.routing virtual) : ∃ i, entry.keyNames[i]? = some rc.name ∧
      rc.virtualId = virtual.start + 1 + i := by
  obtain ⟨i,inside,rfl⟩ := List.mem_mapIdx.mp member
  refine ⟨i,by simp [routingColumn, inside],Nat.mod_eq_of_lt ?_⟩
  have := room.keys
  omega

theorem scan_reads_column {rc : TierDBRoutingColumn}
    (room : entry.HasRoom virtual) (member : rc ∈ entry.routing virtual) :
    (entry.columns.map Prod.fst)[rc.virtualId]? = none ∧
      virtualToName (entry.routing virtual) rc.virtualId = some rc.name := by
  obtain ⟨i,named,numbered⟩ := routing_origin room member
  constructor
  · have := room.columns
    rw [List.getElem?_eq_none_iff, List.length_map]
    omega
  · cases found : virtualToName (entry.routing virtual) rc.virtualId with
    | none => exact absurd rfl (virtualToName_none.mp found rc member)
    | some name =>
      obtain ⟨other,member',same,rfl⟩ := virtualToName_some found
      obtain ⟨j,named',numbered'⟩ := routing_origin room member'
      obtain rfl : j = i := by omega
      exact named'.symm.trans named

end TierDBTableEntry

section Scanned

variable {data : TierDBScanBindData} {row : MergedRow}

/-- The cell that a requested id reads. -/
def TierDBScanBindData.cell (data : TierDBScanBindData) (row : MergedRow) (colId : Nat) : Value :=
  match data.columnNames[colId]? with
  | some name => row name
  | none =>
    match data.virtualToName colId with
    | some name => row name
    | none => .signed 1

theorem evalItem_cell (colId : Nat) :
    evalItem row (data.item colId) = some (data.cell row colId) := by
  unfold TierDBScanBindData.item TierDBScanBindData.cell
  cases data.columnNames[colId]? with
  | some name => simp [evalItem]
  | none =>
    cases data.virtualToName colId with
    | some name => simp [evalItem]
    | none => rfl

theorem scanRow_cells {columnIds : List Nat} (asked : columnIds ≠ []) :
    data.scanRow columnIds row = some (columnIds.map (data.cell row)) := by
  have listed : data.items columnIds = columnIds.map data.item := by
    cases columnIds with
    | nil => exact absurd rfl asked
    | cons => rfl
  rw [TierDBScanBindData.scanRow, data.projectedScanSql_reads, listed]
  simp only [Option.bind_eq_bind, Option.bind_some, List.mapM_map, Function.comp_def, evalItem_cell]
  exact List.mapM_pure

end Scanned

namespace RowIdPlan

variable {rowIds : List Nat} (plan : RowIdPlan rowIds)

theorem asked (some_id : rowIds ≠ []) : plan.columnIds ≠ [] := by
  intro none_asked
  cases found : plan.expressions with
  | nil =>
    have ordered := plan.ordered
    rw [found, List.map_nil] at ordered
    exact some_id ordered.symm
  | cons i _ =>
    have inside := (plan.carried.get i).isLt
    simp [none_asked] at inside

theorem child_get (f : Nat → Value) (i : Fin plan.carried.length) :
    (plan.child (plan.columnIds.map f)).get i = f (plan.columnIds.get (plan.carried.get i)) := by
  have element : (plan.child (plan.columnIds.map f)).get i =
      (plan.child (plan.columnIds.map f))[(i : Nat)] := rfl
  rw [element]
  simp [child]

end RowIdPlan

section Handed

variable {virtual : VirtualColumns} {entry : TierDBTableEntry}

theorem routing_cells {sql attachSql : String} (room : entry.HasRoom virtual) (row : MergedRow) :
    ((entry.routing virtual).map TierDBRoutingColumn.virtualId).map
      ((scanBindData sql attachSql (entry.columns.map Prod.fst) (entry.routing virtual)).cell row) =
    entry.keyNames.map row := by
  rw [← TierDBTableEntry.routing_names virtual entry, List.map_map, List.map_map, List.map_inj_left]
  intro rc member
  obtain ⟨undeclared,routed⟩ := TierDBTableEntry.scan_reads_column room member
  simp only [Function.comp_apply, TierDBScanBindData.cell, scanBindData, undeclared, routed]

/-- The ids of a plan name the columns of the key, wherever they are in its chunks. -/
theorem child_keys {sql attachSql : String} (room : entry.HasRoom virtual)
    (plan : RowIdPlan ((entry.routing virtual).map TierDBRoutingColumn.virtualId)) (row : MergedRow) :
    let data := scanBindData sql attachSql (entry.columns.map Prod.fst) (entry.routing virtual)
    data.scanRow plan.columnIds row = some (plan.columnIds.map (data.cell row)) ∧
      keyCells (plan.child (plan.columnIds.map (data.cell row))) plan.expressions entry.keyNames =
        entry.keyNames.map fun name => (name,row name) := by
  intro data
  constructor
  · apply scanRow_cells (plan.asked _)
    intro none_routed
    have names := TierDBTableEntry.routing_names virtual entry
    rw [List.map_eq_nil_iff.mp none_routed] at names
    simp [TierDBTableEntry.keyNames] at names
  · have cells : plan.expressions.map (plan.child (plan.columnIds.map (data.cell row))).get =
        entry.keyNames.map row := by
      have each : (plan.child (plan.columnIds.map (data.cell row))).get =
          data.cell row ∘ fun i => plan.columnIds.get (plan.carried.get i) := by
        funext i
        exact plan.child_get (data.cell row) i
      rw [each, ← List.map_map, plan.ordered, routing_cells room]
    have named : (entry.keyNames.map id).zip (entry.keyNames.map row) =
        entry.keyNames.map fun name => (name,row name) := List.zip_map'
    rwa [List.map_id, ← cells] at named

end Handed

section Texts

variable {json : SerdeJson} {row : MergedRow} {keys : List String}

theorem lookup_keyed (f : String → Json) (key : String) :
    lookup key (keys.map fun name => (name,f name)) = if key ∈ keys then some (f key) else none := by
  induction keys with
  | nil => rfl
  | cons name rest ih =>
    simp only [List.map_cons, lookup]
    rw [ih]
    by_cases later : key ∈ rest
    · simp [later]
    · by_cases same : name = key
      · simp [later, same]
      · simp [later, same, Ne.symm same]

theorem cString_noNul (text : String) : noNul (cString text) = true := by
  rw [← cString_eq, cString, cString, String.toList_ofList, List.takeWhile_idem]

/-- The payload of a deleted row. -/
def keyElement (keys : List String) (row : MergedRow) : Json :=
  addCells (keys.map fun name => (name,row name))

theorem keyElement_missing {key : String} (nul : noNul key = false) :
    (keyElement keys row).get key = none := by
  apply lookup_of_not_mem
  rw [List.map_map, List.map_map, List.mem_map]
  rintro ⟨name,_,rfl⟩
  simp [cString_noNul] at nul

theorem keyElement_get {key : String} (plain : ∀ name ∈ keys, noNul name = true) (member : key ∈ keys) :
    (keyElement keys row).get key = some (tierDBValueToJson (row key)) := by
  have members : (keys.map fun name => (name,row name)).map
      (fun (cell : String × Value) => (cString cell.1,tierDBValueToJson cell.2)) =
      keys.map fun name => (name,tierDBValueToJson (row name)) := by
    rw [List.map_map, List.map_inj_left]
    intro name inside
    simp [(cString_eq name).mpr (plain name inside)]
  refine (congrArg (lookup key) members).trans ?_
  rw [lookup_keyed, if_pos member]

theorem fieldText_value {element : Json} {key : String} {value : Value} (scalar : value.isScalar = true)
    (found : element.get key = some (tierDBValueToJson value)) :
    json.fieldText element key = .ok (value.text json) ↔ value.cText = true := by
  unfold SerdeJson.fieldText
  rw [found]
  cases value with
  | null => cases scalar
  | list => cases scalar
  | struct => cases scalar
  | other text => simp [tierDBValueToJson, Value.text, Value.cText, cString_eq]
  | unsigned n => exact ⟨fun _ => rfl,fun _ => rfl⟩
  | _ => simp [tierDBValueToJson, Value.text, Value.cText, SerdeJson.numberText]

/-- The payload answers every key with the row's own text exactly when no key name and no
key text holds a NUL. -/
theorem keyElement_texts (scalar : ∀ key ∈ keys, (row key).isScalar = true) :
    (∀ key ∈ keys, json.fieldText (keyElement keys row) key = .ok ((row key).text json)) ↔
      ∀ key ∈ keys, noNul key = true ∧ (row key).cText = true := by
  constructor
  · intro texts
    have plain : ∀ name ∈ keys, noNul name = true := by
      intro name member
      by_contra nul
      have text := texts name member
      rw [SerdeJson.fieldText, keyElement_missing (by simpa using nul)] at text
      cases text
    intro key member
    exact ⟨plain key member,(fieldText_value (scalar key member)
      (keyElement_get plain member)).mp (texts key member)⟩
  · intro kept key member
    have plain : ∀ name ∈ keys, noNul name = true := fun name inside => (kept name inside).1
    exact (fieldText_value (scalar key member) (keyElement_get plain member)).mpr (kept key member).2

end Texts

section Extracted

variable {json : SerdeJson} {ts : TableSchema}

/-- The texts of a row's own tier key and primary key. -/
def ownTexts (json : SerdeJson) (ts : TableSchema) (row : MergedRow) : String × List String :=
  ((row ts.tierKeyCol).text json,ts.primaryKeyCols.map fun pk => (row pk).text json)

/-- A C string carries the names and texts of the row's key, and JSON its numbers. -/
def KeyEncodable (keys : List String) (row : MergedRow) : Prop :=
  ∀ key ∈ keys, noNul key = true ∧ (row key).cText = true ∧ (row key).finite = true

instance (keys : List String) (row : MergedRow) : Decidable (KeyEncodable keys row) :=
  List.decidableBAll _ _

theorem keyTexts_own (row : MergedRow) (element : Json) :
    keyTexts json ts element = .ok (ownTexts json ts row) ↔ ∀ key ∈ ts.primaryKeyCols ++ [ts.tierKeyCol],
      json.fieldText element key = .ok ((row key).text json) := by
  rw [List.forall_mem_append, List.forall_mem_singleton]
  simp only [keyTexts, Effect.except_bind_ok, pure, Except.pure, Except.ok.injEq, ownTexts, Prod.mk.injEq]
  have texts : json.fieldTexts element ts.primaryKeyCols =
      .ok (ts.primaryKeyCols.map fun pk => (row pk).text json) ↔
        ∀ pk ∈ ts.primaryKeyCols, json.fieldText element pk = .ok ((row pk).text json) := by
    rw [SerdeJson.fieldTexts, Effect.mapM_ok, List.forall₂_map_right_iff, List.forall₂_same]
  rw [← texts]
  constructor
  · rintro ⟨_,tier,_,pks,rfl,rfl⟩
    exact ⟨pks,tier⟩
  · rintro ⟨pks,tier⟩
    exact ⟨_,tier,_,pks,rfl,rfl⟩

/-- Whatever chunk the rows reach the delete in, the router gets their own texts exactly
when JSON and C strings carry their keys. -/
theorem extractKeys_iff {width : Nat} {expressions : List (Fin width)} {keys : List String}
    {child : MergedRow → ChunkRow width} {rows : List MergedRow}
    (named : keys = ts.primaryKeyCols ++ [ts.tierKeyCol])
    (cells : ∀ row, keyCells (child row) expressions keys = keys.map fun name => (name,row name))
    (scalar : ∀ row ∈ rows, ∀ key ∈ keys, (row key).isScalar = true) :
    extractKeys json ts ((TierDBSink.delete expressions keys).rowsJson (rows.map child)) =
      .ok (rows.map (ownTexts json ts)) ↔ ∀ row ∈ rows, KeyEncodable keys row := by
  let sink : TierDBSink width := .delete expressions keys
  have finite : ∀ row, sink.Finite (child row) ↔ ∀ key ∈ keys, (row key).finite = true := by
    intro row
    simp [sink, TierDBSink.Finite, TierDBSink.cells, cells]
  have element : ∀ row, sink.element (child row) = keyElement keys row := by
    intro row
    simp [sink, TierDBSink.element, cells, keyElement]
  by_cases written : ∀ reached ∈ rows.map child, sink.Finite reached
  · have each : ∀ row ∈ rows, ((∀ key ∈ keys,
        json.fieldText (keyElement keys row) key = .ok ((row key).text json)) ↔
          KeyEncodable keys row) := by
      intro row member
      have numbers := (finite row).mp (written _ (List.mem_map_of_mem member))
      rw [keyElement_texts (scalar row member), KeyEncodable]
      exact forall₂_congr fun key inside => and_congr_right fun _ =>
        (and_iff_left (numbers key inside)).symm
    have payload : (rows.map child).map sink.element = rows.map (keyElement keys) := by
      rw [List.map_map, List.map_inj_left]
      intro row _
      exact element row
    rw [rowsJson_finite sink written, payload, extractKeys, readRows]
    refine Effect.mapM_ok.trans ?_
    rw [List.forall₂_map_left_iff, List.forall₂_map_right_iff, List.forall₂_same]
    refine forall₂_congr fun row member => ?_
    rw [keyTexts_own, ← named, each row member]
  · have lost : ¬∀ row ∈ rows, KeyEncodable keys row := by
      intro kept
      apply written
      rw [List.forall_mem_map]
      intro row member
      exact (finite row).mpr fun key inside => (kept row member key inside).2.2
    rw [rowsJson_lost sink written, iff_false_right lost]
    intro extracted
    have none_left : rows.map (ownTexts json ts) = [] := (Except.ok.inj extracted).symm
    rw [List.map_eq_nil_iff.mp none_left] at lost
    exact lost (List.forall_mem_nil _)

/-- The core reads the payload of the keys from its text, where it reads each number of a key
as the number that was written. -/
theorem keys_cross {width : Nat} {expressions : List (Fin width)} {keys : List String}
    {child : MergedRow → ChunkRow width} {rows : List MergedRow} (lib : Wire.RowsText)
    (cells : ∀ row, keyCells (child row) expressions keys = keys.map fun name => (name,row name))
    (scalar : ∀ row ∈ rows, ∀ key ∈ keys, (row key).isScalar = true)
    (kept : ∀ row ∈ rows, ∀ key ∈ keys, ∀ n ∈ Wire.numbers (row key), Wire.KeptNumber lib n) :
    lib.serdeFromStr (cString (Wire.rowsText lib (.delete expressions keys) (rows.map child))) =
      (TierDBSink.delete expressions keys).rowsJson (rows.map child) := by
  have all {p : Value → Prop} (each : ∀ row ∈ rows, ∀ key ∈ keys, p (row key)) :
      Wire.AllCells (.delete expressions keys) (rows.map child) p := by
    simpa [Wire.AllCells, TierDBSink.cells, cells] using each
  have flat {value : Value} (scalar : value.isScalar = true) : Wire.nesting value = 0 := by
    cases value with
    | list children | struct children => cases scalar
    | _ => rfl
  rw [Wire.rowsText_whole, Wire.rowsText_kept]
  refine fun _ => ⟨all kept,all fun row member key listed => ?_⟩
  rw [flat (scalar row member key listed)]
  exact (by decide : 0 + 2 < 128)

/-- A deleted row is routed by the tier text and removed under the texts of its key. -/
theorem deleteRow_keyTexts {core : Core} {ctx : ChunkContext} {pkColumns : List Column} {row : Json}
    {tierText : String} {pkVals : List String} {tierKey : Int}
    (texts : keyTexts core.toSerdeJson ctx.ts row = .ok (tierText,pkVals))
    (encoded : ctx.ts.tierKeyType.encodeText tierText = .ok tierKey) :
    deleteRow core ctx pkColumns row = (do
      let plan := ctx.mode.planDelete (routeRow core ctx.cutline tierKey)
      Effect.ofExcept (checkRetention core ctx plan.cold plan.checkRetention tierKey)
      let tuple ← deleteCold core ctx pkColumns plan.cold tierKey pkVals row
      deleteHeap core ctx plan.fromHeap plan.heapFloor pkVals
      return tuple) := by
  obtain ⟨_,tier,later⟩ := Effect.except_bind_ok.mp texts
  obtain ⟨_,pks,made⟩ := Effect.except_bind_ok.mp later
  cases made
  have routed : core.tierKey ctx.ts.tierKeyCol ctx.ts.tierKeyType row = .ok tierKey :=
    Effect.except_bind_ok.mpr ⟨tierText,tier,encoded⟩
  rw [deleteRow, routed, pks]
  rfl

end Extracted

section Delete

variable {core : Core} {ts : TableSchema} {virtual : VirtualColumns} {entry : TierDBTableEntry}
  {rowIds : List Nat}

/-- The values a plan's scan returns for a row. -/
def RowIdPlan.scanned (plan : RowIdPlan rowIds) (data : TierDBScanBindData) (row : MergedRow) :
    List Value :=
  plan.columnIds.map (data.cell row)

/-- The scan of a DELETE is bound and planned without an error, and each row reaches the
delete with its own key in the columns of the key. -/
theorem delete_planned (sql attachSql : String) (room : entry.HasRoom virtual)
    (ids : entry.getRowIdColumns virtual = .ok rowIds) (plan : RowIdPlan rowIds) :
    ∃ data, entry.getScanFunction virtual sql attachSql = .ok data ∧
      planDelete virtual entry false plan.expressions =
        .ok (.delete plan.expressions entry.keyNames) ∧
      (data.scanRow plan.columnIds = fun row => some (plan.scanned data row)) ∧
      ∀ row, keyCells (plan.child (plan.scanned data row)) plan.expressions entry.keyNames =
        entry.keyNames.map fun name => (name,row name) := by
  have routing := entry.routingColumns_made virtual
  rw [TierDBTableEntry.getRowIdColumns, routing] at ids
  obtain rfl := Except.ok.inj ids
  have length : plan.expressions.length = (entry.routing virtual).length := by
    have ordered := congrArg List.length plan.ordered
    simpa using ordered
  refine ⟨scanBindData sql attachSql (entry.columns.map Prod.fst) (entry.routing virtual),
    ?_,?_,?_,fun row => (child_keys room plan row).2⟩
  · rw [TierDBTableEntry.getScanFunction, routing]
    rfl
  · rw [← entry.routing_names virtual, planDelete, routing]
    simp [bind, Except.bind, pure, Except.pure, length]
  · funext row
    exact (child_keys room plan row).1

/-- The scan and the plan of a DELETE hand the router the keys of the rows it deletes,
exactly when JSON and C strings carry these keys. The router has the payload as the core reads
its text, where each number of a key is read as it was written. -/
theorem delete_hands_keys (sql attachSql : String) (same : entry.schema = ts.entry core)
    (room : entry.HasRoom virtual) (ids : entry.getRowIdColumns virtual = .ok rowIds)
    (plan : RowIdPlan rowIds) (rows : List MergedRow)
    (scalar : ∀ row ∈ rows, ∀ key ∈ ts.primaryKeyCols ++ [ts.tierKeyCol], (row key).isScalar = true) :
    ∃ data sink scanned, entry.getScanFunction virtual sql attachSql = .ok data ∧
      planDelete virtual entry false plan.expressions = .ok sink ∧
      rows.mapM (data.scanRow plan.columnIds) = some scanned ∧
      (extractKeys core.toSerdeJson ts (sink.rowsJson (scanned.map plan.child)) =
          .ok (rows.map (ownTexts core.toSerdeJson ts)) ↔
        ∀ row ∈ rows, KeyEncodable (ts.primaryKeyCols ++ [ts.tierKeyCol]) row) ∧
      ∀ lib : Wire.RowsText, (∀ row ∈ rows, ∀ key ∈ ts.primaryKeyCols ++ [ts.tierKeyCol],
          ∀ n ∈ Wire.numbers (row key), Wire.KeptNumber lib n) →
        lib.serdeFromStr (cString (Wire.rowsText lib sink (scanned.map plan.child))) =
          sink.rowsJson (scanned.map plan.child) := by
  have keys : entry.keyNames = ts.primaryKeyCols ++ [ts.tierKeyCol] := by
    rw [TierDBTableEntry.keyNames, same]
    rfl
  obtain ⟨data,bound,planned,reads,cells⟩ := delete_planned sql attachSql room ids plan
  refine ⟨data,_,rows.map (plan.scanned data),bound,planned,?_,?_,fun lib kept => ?_⟩
  · rw [reads]
    exact List.mapM_pure
  · rw [List.map_map, ← keys]
    exact extractKeys_iff keys cells (keys ▸ scalar)
  · rw [List.map_map]
    exact keys_cross lib cells (keys ▸ scalar) (keys ▸ kept)

end Delete

namespace Reference

/-- Readings keyed by a double and the tier key. -/
def readings : TableSchema where
  tableId := 3
  schemaName := "public"
  tableName := "readings"
  lakeFormat := "iceberg"
  lakeTableRef := "lake.readings"
  tierKeyCol := "ts"
  tierKeyType := bigint
  primaryKeyCols := ["id","ts"]
  columns := [("v","boolean"),("ts","bigint"),("id","double")]
  mode := "tiered"
  keepHeap := false
  heapRetentionLag := none
  lakeRetentionLag := none
  storageProfile := "main"

theorem plain_column {column : TierDBColumn} (name : String)
    (named : upper column.duckdbType.toList = name.toList) (single : ¬"[]".toList <:+ name.toList)
    (simple : ¬"DECIMAL(".toList <+: name.toList) :
    columnDefinition column = .ok (column.name,plainType name) :=
  TierDBTableEntry.columnDefinition_ok.mpr ⟨rfl,typeFromChars_plain named single simple⟩

def readingsEntry : TierDBTableEntry where
  schema := readings.entry core
  columns := [("v",.boolean),("ts",.bigint),("id",.double)]
  made := by
    exact Effect.mapM_ok.mpr (.cons (plain_column "BOOLEAN" (by decide) (by decide) (by decide))
      (.cons (plain_column "BIGINT" (by decide) (by decide) (by decide))
        (.cons (plain_column "DOUBLE" (by decide) (by decide) (by decide)) .nil)))

def virtualColumns : VirtualColumns := ⟨2^63⟩

/-- DELETE ... WHERE v: the column is requested as well and filtered out. -/
def readingsPlan : RowIdPlan [2^63 + 1,2^63 + 2,2^63 + 3] where
  columnIds := [0,2^63 + 2,2^63 + 1,2^63 + 3]
  carried := [1,2,3]
  expressions := [1,0,2]
  ordered := by decide

def reading (id : Double) : MergedRow
  | "id" => .double id
  | "ts" => .signed 20
  | _ => .boolean true

theorem readings_room : readingsEntry.HasRoom virtualColumns := ⟨by decide,by decide⟩

theorem readings_ids : readingsEntry.getRowIdColumns virtualColumns =
    .ok [2^63 + 1,2^63 + 2,2^63 + 3] := by
  rw [TierDBTableEntry.getRowIdColumns, readingsEntry.routingColumns_made virtualColumns]
  rfl

theorem reading_scalar (ids : List Double) : ∀ row ∈ ids.map reading,
    ∀ key ∈ readings.primaryKeyCols ++ [readings.tierKeyCol], (row key).isScalar = true := by
  rw [List.forall_mem_map]
  intro id _ key member
  have listed : key = "id" ∨ key = "ts" := by simpa [readings, or_assoc] using member
  rcases listed with rfl | rfl <;> rfl

end Reference

open Reference in
theorem reading_keys_handed : ∃ data sink scanned,
    readingsEntry.getScanFunction virtualColumns "" "" = .ok data ∧
      planDelete virtualColumns readingsEntry false readingsPlan.expressions = .ok sink ∧
      ([.finite 5 (-1)].map reading).mapM (data.scanRow readingsPlan.columnIds) = some scanned ∧
      extractKeys core.toSerdeJson readings (sink.rowsJson (scanned.map readingsPlan.child)) =
        .ok [("20",["5e-1","20"])] ∧
      Wire.halfText.serdeFromStr
          (cString (Wire.rowsText Wire.halfText sink (scanned.map readingsPlan.child))) =
        sink.rowsJson (scanned.map readingsPlan.child) := by
  have same : readingsEntry.schema = readings.entry core := rfl
  obtain ⟨data,sink,scanned,bound,planned,read,handed,crosses⟩ := delete_hands_keys "" "" same
    readings_room readings_ids readingsPlan _ (reading_scalar [.finite 5 (-1)])
  have encodable : KeyEncodable (readings.primaryKeyCols ++ [readings.tierKeyCol])
      (reading (.finite 5 (-1))) := by decide +kernel
  have kept : ∀ key ∈ readings.primaryKeyCols ++ [readings.tierKeyCol],
      ∀ n ∈ Wire.numbers (reading (.finite 5 (-1)) key), Wire.KeptNumber Wire.halfText n := by
    intro key member
    have listed : key = "id" ∨ key = "ts" := by simpa [readings, or_assoc] using member
    rcases listed with rfl | rfl
    · exact List.forall_mem_singleton.mpr Wire.half_kept
    · exact List.forall_mem_singleton.mpr rfl
  exact ⟨data,sink,scanned,bound,planned,read,(handed.mpr (by simpa using encodable)).trans rfl,
    crosses Wire.halfText (by simpa using kept)⟩

open Reference in
/-- DELETE of a reading whose id is NaN: the router is handed no key. -/
theorem nan_key_dropped : ¬∀ core ts virtual entry rowIds sql attachSql data,
    entry.schema = TableSchema.entry core ts → entry.HasRoom virtual →
    entry.getRowIdColumns virtual = .ok rowIds → ∀ (plan : RowIdPlan rowIds) sink
    (rows : List MergedRow) (scanned : List (List Value)),
    (∀ row ∈ rows, ∀ key ∈ ts.primaryKeyCols ++ [ts.tierKeyCol], (row key).isScalar = true) →
    entry.getScanFunction virtual sql attachSql = .ok data →
    planDelete virtual entry false plan.expressions = .ok sink →
    rows.mapM (data.scanRow plan.columnIds) = some scanned →
    extractKeys core.toSerdeJson ts (sink.rowsJson (scanned.map plan.child)) =
      .ok (rows.map (ownTexts core.toSerdeJson ts)) := by
  intro claim
  obtain ⟨data,bound,planned,reads,cells⟩ := delete_planned "" "" readings_room readings_ids readingsPlan
  have read : ([.nan].map reading).mapM (data.scanRow readingsPlan.columnIds) =
      some (([.nan].map reading).map (readingsPlan.scanned data)) := by
    rw [reads]
    exact List.mapM_pure
  have handed := claim core readings virtualColumns readingsEntry _ "" "" data rfl readings_room
    readings_ids readingsPlan _ _ _ (reading_scalar [.nan]) bound planned read
  rw [List.map_map] at handed
  have kept := (extractKeys_iff rfl cells (reading_scalar [.nan])).mp handed
  have lost : ¬KeyEncodable (readings.primaryKeyCols ++ [readings.tierKeyCol]) (reading .nan) := by
    decide +kernel
  exact lost (kept _ (by simp))

end TierDb
