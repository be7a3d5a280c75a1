import Mathlib.Algebra.GroupWithZero.Nat
import Mathlib.Data.List.TakeWhile
import TierDb.Boundary
import TierDb.Reference

/-! The encoders of the three sinks: a chunk's cells as one JSON document, written to the
text the chunk functions are called with. -/
namespace TierDb

/-- A DuckDB value as the encoders tell values apart; `list` is a LIST or an ARRAY, and a
value of any other type comes with its `ToString` text. -/
inductive Value where
  | null
  | boolean (value : Bool)
  | signed (value : Int)
  | unsigned (value : Nat)
  | double (value : Double)
  | list (children : List Value)
  | struct (children : List (String × Value))
  | other (text : String)
  deriving Repr, Inhabited

/-- A `std::string` through `c_str`, as `yyjson_mut_strcpy` copies it. -/
def cString (text : String) : String := String.ofList (text.toList.takeWhile (· ≠ '\x00'))

mutual

def tierDBValueToJson : Value → Json
  | .null => .null
  | .boolean b => .bool b
  | .signed n => .number (.int n)
  | .unsigned n => .number (.int n)
  | .double d => .number (.real d)
  | .list children => .array (childrenToJson children)
  | .struct children => .object (fieldsToJson children)
  | .other text => .string (cString text)

def childrenToJson : List Value → List Json
  | [] => []
  | child :: rest => tierDBValueToJson child :: childrenToJson rest

def fieldsToJson : List (String × Value) → Fields
  | [] => []
  | (name,child) :: rest => (cString name,tierDBValueToJson child) :: fieldsToJson rest

end

/-- The object `TierDBAddCell` builds cell by cell. -/
def addCells (cells : List (String × Value)) : Json :=
  .object (cells.map fun (key,value) => (cString key,tierDBValueToJson value))

/-- A row of a flattened chunk with so many columns. -/
abbrev ChunkRow (width : Nat) := Vector Value width

/-- The three sinks, with what the planner gave each; an index is a column of the chunk. -/
inductive TierDBSink (width : Nat) where
  | insert (columnNames : List String)
  | delete (keyIndexes : List (Fin width)) (keyNames : List String)
  | update (newValueIndexes : List (Fin width)) (newColNames oldKeyNames : List String)

def TierDBSink.kind {width : Nat} : TierDBSink width → ChunkKind
  | .insert _ => .insert
  | .delete _ _ => .delete
  | .update _ _ _ => .update

section Cells

variable {width : Nat} (row : ChunkRow width)

def insertCells (columnNames : List String) : List (String × Value) := columnNames.zip row.toList

def keyCells (keyIndexes : List (Fin width)) (keyNames : List String) : List (String × Value) :=
  keyNames.zip (keyIndexes.map row.get)

/-- The old key is in the trailing columns. -/
def oldCells (oldKeyNames : List String) : List (String × Value) :=
  oldKeyNames.zip (row.toList.drop (width - oldKeyNames.length))

def newCells (newValueIndexes : List (Fin width)) (newColNames : List String) :
    List (String × Value) :=
  newColNames.zip (newValueIndexes.map row.get)

end Cells

/-- One element of the array. -/
def TierDBSink.element {width : Nat} (sink : TierDBSink width) (row : ChunkRow width) : Json :=
  match sink with
  | .insert columnNames => addCells (insertCells row columnNames)
  | .delete keyIndexes keyNames => addCells (keyCells row keyIndexes keyNames)
  | .update newValueIndexes newColNames oldKeyNames => .object [
      ("old",addCells (oldCells row oldKeyNames)),
      ("new",addCells (newCells row newValueIndexes newColNames))]

mutual

/-- No number of the document is NaN or infinite. -/
def Json.finite : Json → Bool
  | .number (.real d) => d.isFinite
  | .array elements => Json.finiteAll elements
  | .object members => Json.finiteMembers members
  | _ => true

def Json.finiteAll : List Json → Bool
  | [] => true
  | element :: rest => element.finite && Json.finiteAll rest

def Json.finiteMembers : Fields → Bool
  | [] => true
  | (_,value) :: rest => value.finite && Json.finiteMembers rest

end

/-- `yyjson_mut_write` with flags 0; null when the document holds a number JSON cannot
write. -/
def yyjsonMutWrite (doc : Json) : Option JsonText := if doc.finite then some (some doc) else none

/-- A null result is replaced by the text of an empty array. -/
def TierDBSink.rowsJson {width : Nat} (sink : TierDBSink width) (chunk : List (ChunkRow width)) :
    JsonText :=
  (yyjsonMutWrite (.array (chunk.map sink.element))).getD (some (.array []))

/-- `NumericCast<idx_t>`. -/
def numericCast (count : Int) : Cpp Nat :=
  if count < 0 then throw "Information loss on integer cast" else return count.toNat

/-- One call of `Sink`, with the count before and after it. -/
def TierDBSink.sink {width : Nat} (core : Core) (schema table : String) (sink : TierDBSink width)
    (chunk : List (ChunkRow width)) (count : Nat) : Cpp Nat := do
  if chunk.isEmpty then
    return count
  let result ← sinkChunk core sink.kind schema table (sink.rowsJson chunk)
  return count + (← numericCast result)

/-- A statement feeds its chunks one after the other; the last count is what it reports. -/
def TierDBSink.sinkAll {width : Nat} (core : Core) (schema table : String)
    (sink : TierDBSink width) : List (List (ChunkRow width)) → Nat → Cpp Nat
  | [], count => return count
  | chunk :: rest, count => do
    let count ← sink.sink core schema table chunk count
    sink.sinkAll core schema table rest count

mutual

/-- The JSON that describes a value: every number and every text as it is. -/
def Value.json : Value → Json
  | .null => .null
  | .boolean b => .bool b
  | .signed n => .number (.int n)
  | .unsigned n => .number (.int n)
  | .double d => .number (.real d)
  | .list children => .array (Value.jsonAll children)
  | .struct children => .object (Value.jsonFields children)
  | .other text => .string text

def Value.jsonAll : List Value → List Json
  | [] => []
  | child :: rest => child.json :: Value.jsonAll rest

def Value.jsonFields : List (String × Value) → Fields
  | [] => []
  | (name,child) :: rest => (name,child.json) :: Value.jsonFields rest

end

mutual

def Value.finite : Value → Bool
  | .double d => d.isFinite
  | .list children => Value.finiteAll children
  | .struct children => Value.finiteFields children
  | _ => true

def Value.finiteAll : List Value → Bool
  | [] => true
  | child :: rest => child.finite && Value.finiteAll rest

def Value.finiteFields : List (String × Value) → Bool
  | [] => true
  | (_,child) :: rest => child.finite && Value.finiteFields rest

end

def noNul (text : String) : Bool := text.toList.all (· ≠ '\x00')

mutual

/-- A C string carries every text of the value. -/
def Value.cText : Value → Bool
  | .list children => Value.cTextAll children
  | .struct children => Value.cTextFields children
  | .other text => noNul text
  | _ => true

def Value.cTextAll : List Value → Bool
  | [] => true
  | child :: rest => child.cText && Value.cTextAll rest

def Value.cTextFields : List (String × Value) → Bool
  | [] => true
  | (name,child) :: rest => noNul name && child.cText && Value.cTextFields rest

end

theorem cString_eq (text : String) : cString text = text ↔ noNul text = true := by
  have whole : text = String.ofList text.toList := by simp
  rw [cString, noNul, List.all_eq_true]
  conv_lhs => rhs; rw [whole]
  rw [String.ofList_inj, List.takeWhile_eq_self_iff]

mutual

theorem toJson_finite : ∀ value : Value, (tierDBValueToJson value).finite = value.finite
  | .null | .boolean _ | .signed _ | .unsigned _ | .double _ | .other _ => rfl
  | .list children => by
    simpa [tierDBValueToJson, Json.finite, Value.finite] using childrenToJson_finite children
  | .struct children => by
    simpa [tierDBValueToJson, Json.finite, Value.finite] using fieldsToJson_finite children

theorem childrenToJson_finite : ∀ children : List Value,
    Json.finiteAll (childrenToJson children) = Value.finiteAll children
  | [] => rfl
  | child :: rest => by
    simp [childrenToJson, Json.finiteAll, Value.finiteAll, toJson_finite child,
      childrenToJson_finite rest]

theorem fieldsToJson_finite : ∀ children : List (String × Value),
    Json.finiteMembers (fieldsToJson children) = Value.finiteFields children
  | [] => rfl
  | (name,child) :: rest => by
    simp [fieldsToJson, Json.finiteMembers, Value.finiteFields, toJson_finite child,
      fieldsToJson_finite rest]

end

mutual

theorem toJson_describes : ∀ value : Value,
    tierDBValueToJson value = value.json ↔ value.cText = true
  | .null | .boolean _ | .signed _ | .unsigned _ | .double _ => by
    simp [tierDBValueToJson, Value.json, Value.cText]
  | .other text => by simp [tierDBValueToJson, Value.json, Value.cText, cString_eq]
  | .list children => by
    simpa [tierDBValueToJson, Value.json, Value.cText] using childrenToJson_describes children
  | .struct children => by
    simpa [tierDBValueToJson, Value.json, Value.cText] using fieldsToJson_describes children

theorem childrenToJson_describes : ∀ children : List Value,
    childrenToJson children = Value.jsonAll children ↔ Value.cTextAll children = true
  | [] => by simp [childrenToJson, Value.jsonAll, Value.cTextAll]
  | child :: rest => by
    simp [childrenToJson, Value.jsonAll, Value.cTextAll, toJson_describes child,
      childrenToJson_describes rest]

theorem fieldsToJson_describes : ∀ children : List (String × Value),
    fieldsToJson children = Value.jsonFields children ↔ Value.cTextFields children = true
  | [] => by simp [fieldsToJson, Value.jsonFields, Value.cTextFields]
  | (name,child) :: rest => by
    simp [fieldsToJson, Value.jsonFields, Value.cTextFields, toJson_describes child,
      fieldsToJson_describes rest, cString_eq]

end

def describedCells (cells : List (String × Value)) : Json :=
  .object (cells.map fun (key,value) => (key,value.json))

theorem finiteMembers_all (members : Fields) :
    Json.finiteMembers members = members.all fun member => member.2.finite := by
  induction members with
  | nil => rfl
  | cons member rest ih => simp [Json.finiteMembers, ih]

theorem finiteAll_all (elements : List Json) :
    Json.finiteAll elements = elements.all Json.finite := by
  induction elements with
  | nil => rfl
  | cons element rest ih => simp [Json.finiteAll, ih]

theorem addCells_finite (cells : List (String × Value)) :
    (addCells cells).finite = true ↔ ∀ cell ∈ cells, cell.2.finite = true := by
  simp [addCells, Json.finite, finiteMembers_all, toJson_finite]

theorem addCells_describes (cells : List (String × Value)) :
    addCells cells = describedCells cells ↔
      ∀ cell ∈ cells, noNul cell.1 = true ∧ cell.2.cText = true := by
  simp [addCells, describedCells, List.map_inj_left, cString_eq, toJson_describes]

section Sinks

variable {width : Nat} (sink : TierDBSink width)

/-- The cells of a row that the sink encodes. -/
def TierDBSink.cells (row : ChunkRow width) : List (String × Value) :=
  match sink with
  | .insert columnNames => insertCells row columnNames
  | .delete keyIndexes keyNames => keyCells row keyIndexes keyNames
  | .update newValueIndexes newColNames oldKeyNames =>
    oldCells row oldKeyNames ++ newCells row newValueIndexes newColNames

/-- The element that describes the row. -/
def TierDBSink.described (row : ChunkRow width) : Json :=
  match sink with
  | .insert columnNames => describedCells (insertCells row columnNames)
  | .delete keyIndexes keyNames => describedCells (keyCells row keyIndexes keyNames)
  | .update newValueIndexes newColNames oldKeyNames => .object [
      ("old",describedCells (oldCells row oldKeyNames)),
      ("new",describedCells (newCells row newValueIndexes newColNames))]

def TierDBSink.Finite (row : ChunkRow width) : Prop :=
  ∀ cell ∈ sink.cells row, cell.2.finite = true

instance (row : ChunkRow width) : Decidable (sink.Finite row) := List.decidableBAll _ _

/-- No encoded cell holds NaN or an infinity, and no text of one holds a NUL. -/
def TierDBSink.Encodable (row : ChunkRow width) : Prop :=
  sink.Finite row ∧ ∀ cell ∈ sink.cells row, noNul cell.1 = true ∧ cell.2.cText = true

instance (row : ChunkRow width) : Decidable (sink.Encodable row) :=
  inferInstanceAs (Decidable (sink.Finite row ∧ _))

theorem element_finite (row : ChunkRow width) :
    (sink.element row).finite = true ↔ sink.Finite row := by
  cases sink with
  | insert columnNames => exact addCells_finite _
  | delete keyIndexes keyNames => exact addCells_finite _
  | update newValueIndexes newColNames oldKeyNames =>
    simp only [TierDBSink.element, Json.finite, finiteMembers_all, List.all_cons, List.all_nil,
      Bool.and_true, Bool.and_eq_true, addCells_finite, TierDBSink.Finite, TierDBSink.cells,
      List.forall_mem_append]

theorem element_describes (row : ChunkRow width) :
    sink.element row = sink.described row ↔
      ∀ cell ∈ sink.cells row, noNul cell.1 = true ∧ cell.2.cText = true := by
  cases sink with
  | insert columnNames => exact addCells_describes _
  | delete keyIndexes keyNames => exact addCells_describes _
  | update newValueIndexes newColNames oldKeyNames =>
    simp only [TierDBSink.element, TierDBSink.described, TierDBSink.cells, Json.object.injEq,
      List.cons.injEq, Prod.mk.injEq, true_and, and_true, addCells_describes,
      List.forall_mem_append]

theorem rowsJson_finite {chunk : List (ChunkRow width)} (finite : ∀ row ∈ chunk, sink.Finite row) :
    sink.rowsJson chunk = some (.array (chunk.map sink.element)) := by
  have written : (Json.array (chunk.map sink.element)).finite = true := by
    simpa [Json.finite, finiteAll_all, element_finite] using finite
  simp [TierDBSink.rowsJson, yyjsonMutWrite, written]

theorem rowsJson_lost {chunk : List (ChunkRow width)} (lost : ¬∀ row ∈ chunk, sink.Finite row) :
    sink.rowsJson chunk = some (.array []) := by
  have refused : (Json.array (chunk.map sink.element)).finite = false := by
    rw [← Bool.not_eq_true]
    simpa [Json.finite, finiteAll_all, element_finite] using lost
  simp [TierDBSink.rowsJson, yyjsonMutWrite, refused]

/-- The text describes the chunk row by row exactly when every row is encodable. -/
theorem rowsJson_describes (chunk : List (ChunkRow width)) :
    sink.rowsJson chunk = some (.array (chunk.map sink.described)) ↔
      ∀ row ∈ chunk, sink.Encodable row := by
  by_cases finite : ∀ row ∈ chunk, sink.Finite row
  · rw [rowsJson_finite sink finite, Option.some.injEq, Json.array.injEq, List.map_inj_left]
    apply forall₂_congr
    intro row member
    rw [element_describes, TierDBSink.Encodable]
    exact (and_iff_right (finite row member)).symm
  · rw [rowsJson_lost sink finite, Option.some.injEq, Json.array.injEq, eq_comm,
      List.map_eq_nil_iff]
    constructor
    · rintro rfl
      simp
    · intro encodable
      exact absurd (fun row member => (encodable row member).1) finite

variable {sink} {core : Core} {schema table : String}

/-- A returned call adds the rows of its text to the count. -/
theorem sink_count {chunk : List (ChunkRow width)} {count after : Nat} {a d : Attached}
    (returned : sink.sink core schema table chunk count a = .ok after d) :
    after = count + rowCount (sink.rowsJson chunk) := by
  unfold TierDBSink.sink at returned
  cases chunk with
  | nil =>
    cases returned
    simp [TierDBSink.rowsJson, yyjsonMutWrite, Json.finite, Json.finiteAll, rowCount]
  | cons row rest =>
    obtain ⟨result,b,sent,counted⟩ := Effect.bind_ok.mp returned
    obtain ⟨_,_,_,outcome,_,_,made,_,_,rfl⟩ := sinkChunk_ok sent
    obtain ⟨rows,_,cast,done⟩ := Effect.bind_ok.mp counted
    rw [(planChunk_outcome made).1] at cast
    simp only [numericCast, Int.toNat_natCast] at cast
    cases cast
    cases done
    rfl

theorem sinkAll_count {chunks : List (List (ChunkRow width))} {count reported : Nat}
    {a d : Attached} (returned : sink.sinkAll core schema table chunks count a = .ok reported d) :
    reported = count + (chunks.map fun chunk => rowCount (sink.rowsJson chunk)).sum := by
  induction chunks generalizing count a with
  | nil => cases returned; simp
  | cons chunk rest ih =>
    obtain ⟨after,b,first,later⟩ := Effect.bind_ok.mp returned
    rw [ih later, sink_count first, List.map_cons, List.sum_cons, Nat.add_assoc]

/-- The chunks of a statement, all of them returned: each text describes its chunk row by
row and the count is that of the rows, exactly when every row fed is encodable. -/
theorem sinkAll_describes_iff {chunks : List (List (ChunkRow width))} {count reported : Nat}
    {a d : Attached} (returned : sink.sinkAll core schema table chunks count a = .ok reported d) :
    ((∀ chunk ∈ chunks, sink.rowsJson chunk = some (.array (chunk.map sink.described))) ∧
      reported = count + (chunks.map List.length).sum) ↔
      ∀ chunk ∈ chunks, ∀ row ∈ chunk, sink.Encodable row := by
  simp only [rowsJson_describes]
  apply and_iff_left_of_imp
  intro encodable
  rw [sinkAll_count returned]
  congr 2
  apply List.map_congr_left
  intro chunk member
  rw [(rowsJson_describes sink chunk).mpr (encodable chunk member), rowCount, List.length_map]

end Sinks

namespace Reference

/-- A call of the only transaction, over the reference table with no rows. -/
def attached : Attached where
  txn := {}
  conn := (system (database "tiered" 10 [])).conn
  lakeSide := ⟨fun _ => [],[]⟩

def itemSink : TierDBSink 3 := .insert ["id","ts","v"]

def itemRow (id : Int) (v : Double) : ChunkRow 3 := #v[.signed id,.signed 20,.double v]

end Reference

open Reference in
theorem finite_rows_described : ∃ d,
    itemSink.sinkAll core "public" "items" [[itemRow 1 (.finite 1 0),itemRow 2 (.finite 5 (-1))],
      [itemRow 3 (.finite 0 0)]] 0 attached = .ok 3 d ∧
    itemSink.rowsJson [itemRow 3 (.finite 0 0)] =
      some (.array [.object [("id",.number (.int 3)),("ts",.number (.int 20)),
        ("v",.number (.real (.finite 0 0)))]]) := by
  have ran : Effect.returns (itemSink.sinkAll core "public" "items" [[itemRow 1 (.finite 1 0),
      itemRow 2 (.finite 5 (-1))],[itemRow 3 (.finite 0 0)]] 0 attached) = true := by
    decide +kernel
  obtain ⟨reported,d,returned⟩ := Effect.returns_iff.mp ran
  obtain ⟨described,counted⟩ := (sinkAll_describes_iff returned).mpr (by decide +kernel)
  obtain rfl : reported = 3 := counted
  exact ⟨d,returned,(described _ (by simp)).trans (by decide +kernel)⟩

open Reference in
/-- An insert of two rows, one value of which is NaN, returns and reports no row. -/
theorem nan_drops_rows : ¬∀ core schema table width (sink : TierDBSink width) chunks a
    reported d, sink.sinkAll core schema table chunks 0 a = .ok reported d →
    (∀ chunk ∈ chunks, sink.rowsJson chunk = some (.array (chunk.map sink.described))) ∧
      reported = (chunks.map List.length).sum := by
  intro claim
  have checked : (match itemSink.sinkAll core "public" "items"
      [[itemRow 1 (.finite 1 0),itemRow 2 .nan]] 0 attached with
      | .ok reported _ => some reported
      | .error _ _ => none) = some 0 := by decide +kernel
  cases returned : itemSink.sinkAll core "public" "items"
      [[itemRow 1 (.finite 1 0),itemRow 2 .nan]] 0 attached with
  | error e d => simp [returned] at checked
  | ok reported d =>
    rw [returned] at checked
    obtain rfl : reported = 0 := Option.some.inj checked
    exact absurd (claim _ _ _ _ _ _ _ _ _ returned).2 (by decide)

end TierDb
