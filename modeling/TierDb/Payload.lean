import TierDb.JsonColumns
import TierDb.Wire

/-! The rows of a chunk on their way to the core: the text yyjson writes, the C string it
crosses as and what serde_json reads from it. -/
namespace TierDb.Wire

section Writing

-- The value of the number that yyjson writes for a finite double.
variable (spelled : Double → ℚ)

mutual

/-- The document that the text of a value is. -/
def written : Json → Document
  | .null => .null
  | .bool value => .bool value
  | .number (.int value) => .integer value
  | .number (.real value) => .decimal (spelled value)
  | .string text => .string text
  | .array elements => .array (writtenAll elements)
  | .object members => .object (writtenMembers members)

def writtenAll : List Json → List Document
  | [] => []
  | element :: rest => written element :: writtenAll rest

def writtenMembers : Fields → List (String × Document)
  | [] => []
  | (name,value) :: rest => (name,written value) :: writtenMembers rest

end

end Writing

/-- The two libraries that rows go through. yyjson writes a document with flags 0 unless it
holds a number that JSON has not; serde_json reads back what was written, its numbers as
doubles where they are no integers of 64 bits. -/
structure RowsText where
  yyjsonMutWrite : Json → Option String
  serdeFromStr : String → JsonText
  spelled : Double → ℚ
  double : ℚ → Option Double
  write_isSome : ∀ doc, (yyjsonMutWrite doc).isSome = doc.finite
  noNul_write : ∀ {doc text}, yyjsonMutWrite doc = some text → noNul text = true
  read_write : ∀ {doc text}, yyjsonMutWrite doc = some text →
    serdeFromStr text = (written spelled doc).fromStr double
  read_empty : serdeFromStr "[]" = some (.array [])

section Sending

variable {width : Nat} (lib : RowsText) (core : Core) (schema table : String)
  (sink : TierDBSink width)

/-- The text a sink calls its chunk function with. -/
def rowsText (chunk : List (ChunkRow width)) : String :=
  (lib.yyjsonMutWrite (.array (chunk.map sink.element))).getD "[]"

/-- `Sink` with the rows as a text, which the entry point borrows as a C string. -/
def sinkText (chunk : List (ChunkRow width)) (count : Nat) : Cpp Nat := do
  if chunk.isEmpty then
    return count
  let rowsJson := lib.serdeFromStr (cString (rowsText lib sink chunk))
  let result ← sinkChunk core sink.kind schema table rowsJson
  return count + (← numericCast result)

def sinkTexts : List (List (ChunkRow width)) → Nat → Cpp Nat
  | [], count => return count
  | chunk :: rest, count => do
    let count ← sinkText lib core schema table sink chunk count
    sinkTexts rest count

end Sending

section Values

mutual

def jsonNumbers : Json → List Number
  | .number n => [n]
  | .array elements => jsonNumbersAll elements
  | .object members => jsonNumbersMembers members
  | _ => []

def jsonNumbersAll : List Json → List Number
  | [] => []
  | element :: rest => jsonNumbers element ++ jsonNumbersAll rest

def jsonNumbersMembers : Fields → List Number
  | [] => []
  | (_,value) :: rest => jsonNumbers value ++ jsonNumbersMembers rest

end

mutual

def jsonDepth : Json → Nat
  | .array elements => jsonDepthAll elements + 1
  | .object members => jsonDepthMembers members + 1
  | _ => 0

def jsonDepthAll : List Json → Nat
  | [] => 0
  | element :: rest => max (jsonDepth element) (jsonDepthAll rest)

def jsonDepthMembers : Fields → Nat
  | [] => 0
  | (_,value) :: rest => max (jsonDepth value) (jsonDepthMembers rest)

end

mutual

/-- The numbers in a value. -/
def numbers : Value → List Number
  | .signed n => [.int n]
  | .unsigned n => [.int n]
  | .double d => [.real d]
  | .list children => numbersAll children
  | .struct children => numbersFields children
  | _ => []

def numbersAll : List Value → List Number
  | [] => []
  | child :: rest => numbers child ++ numbersAll rest

def numbersFields : List (String × Value) → List Number
  | [] => []
  | (_,child) :: rest => numbers child ++ numbersFields rest

end

mutual

/-- How many lists and structs of a value are within each other. -/
def nesting : Value → Nat
  | .list children => nestingAll children + 1
  | .struct children => nestingFields children + 1
  | _ => 0

def nestingAll : List Value → Nat
  | [] => 0
  | child :: rest => max (nesting child) (nestingAll rest)

def nestingFields : List (String × Value) → Nat
  | [] => 0
  | (_,child) :: rest => max (nesting child) (nestingFields rest)

end

/-- The array, the object of a row and in an update the object of its key or image. -/
def levels {width : Nat} : TierDBSink width → Nat
  | .insert _ | .delete _ _ => 2
  | .update _ _ _ => 3

end Values

section Carrying

variable (lib : RowsText)

/-- A number that is not out of range for serde_json. -/
def Readable : Number → Prop
  | .int value => fits64 value = true ∨ (lib.double value).isSome = true
  | .real value => (lib.double (lib.spelled value)).isSome = true

/-- A number that is read as what was written. -/
def KeptNumber : Number → Prop
  | .int value => fits64 value = true
  | .real value => lib.double (lib.spelled value) = some value

/-- Every cell a sink encodes. -/
def AllCells {width : Nat} (sink : TierDBSink width) (chunk : List (ChunkRow width))
    (p : Value → Prop) : Prop :=
  ∀ row ∈ chunk, ∀ cell ∈ sink.cells row, p cell.2

/-- No cell is nested too deeply for serde_json. -/
def Shallow {width : Nat} (sink : TierDBSink width) (chunk : List (ChunkRow width)) : Prop :=
  AllCells sink chunk fun value => nesting value + levels sink < 128

end Carrying

section Documents

variable {lib : RowsText} {spelled : Double → ℚ}

mutual

/-- Writing a document keeps its nesting. -/
theorem written_depth : ∀ j : Json, (written spelled j).depth = jsonDepth j
  | .null | .bool _ | .string _ | .number (.int _) | .number (.real _) => rfl
  | .array elements => congrArg (· + 1) (writtenAll_depth elements)
  | .object members => congrArg (· + 1) (writtenMembers_depth members)

theorem writtenAll_depth : ∀ js : List Json,
    Document.depthAll (writtenAll spelled js) = jsonDepthAll js
  | [] => rfl
  | j :: rest => congrArg₂ max (written_depth j) (writtenAll_depth rest)

theorem writtenMembers_depth : ∀ members : Fields,
    Document.depthMembers (writtenMembers spelled members) = jsonDepthMembers members
  | [] => rfl
  | (_,value) :: rest => congrArg₂ max (written_depth value) (writtenMembers_depth rest)

end

mutual

theorem written_inRange : ∀ j : Json, (written lib.spelled j).InRange lib.double ↔
    ∀ n ∈ jsonNumbers j, Readable lib n
  | .null | .bool _ | .string _ => by simp [written, Document.InRange, jsonNumbers]
  | .number (.int value) | .number (.real value) => by
    simp [written, Document.InRange, jsonNumbers, Readable]
  | .array elements => writtenAll_inRange elements
  | .object members => writtenMembers_inRange members

theorem writtenAll_inRange : ∀ js : List Json,
    Document.InRangeAll lib.double (writtenAll lib.spelled js) ↔
      ∀ n ∈ jsonNumbersAll js, Readable lib n
  | [] => by simp [writtenAll, Document.InRangeAll, jsonNumbersAll]
  | j :: rest => by
    rw [jsonNumbersAll, List.forall_mem_append]
    exact and_congr (written_inRange j) (writtenAll_inRange rest)

theorem writtenMembers_inRange : ∀ members : Fields,
    Document.InRangeMembers lib.double (writtenMembers lib.spelled members) ↔
      ∀ n ∈ jsonNumbersMembers members, Readable lib n
  | [] => by simp [writtenMembers, Document.InRangeMembers, jsonNumbersMembers]
  | (_,value) :: rest => by
    rw [jsonNumbersMembers, List.forall_mem_append]
    exact and_congr (written_inRange value) (writtenMembers_inRange rest)

end

mutual

/-- A document is read as it was written, within the limit on its nesting, exactly when each of
its numbers is. -/
theorem written_read : ∀ (j : Json) {left : Nat}, 0 < left →
    ((written lib.spelled j).read lib.double left = some j ↔
      (∀ n ∈ jsonNumbers j, KeptNumber lib n) ∧ jsonDepth j < left)
  | .null, left, some_left | .bool _, left, some_left | .string _, left, some_left => by
    simpa [written, Document.read, jsonNumbers, jsonDepth] using some_left
  | .number (.int value), left, some_left => by
    cases fits : fits64 value <;>
      simp [written, Document.read, TierDb.readNumber, fits, jsonNumbers, jsonDepth, KeptNumber,
        some_left]
  | .number (.real value), left, some_left => by
    simp [written, Document.read, TierDb.readNumber, jsonNumbers, jsonDepth, KeptNumber, some_left]
  | .array elements, left, _ => by
    rw [written, Document.read, jsonNumbers, jsonDepth]
    by_cases deepest : left ≤ 1
    · rw [if_pos deepest]
      exact iff_of_false nofun (by omega)
    · have inside := writtenAll_read elements (by omega : 0 < left - 1)
      rw [if_neg deepest, ← Nat.lt_sub_iff_add_lt, ← inside]
      simp
  | .object members, left, _ => by
    rw [written, Document.read, jsonNumbers, jsonDepth]
    by_cases deepest : left ≤ 1
    · rw [if_pos deepest]
      exact iff_of_false nofun (by omega)
    · have inside := writtenMembers_read members (by omega : 0 < left - 1)
      rw [if_neg deepest, ← Nat.lt_sub_iff_add_lt, ← inside]
      simp

theorem writtenAll_read : ∀ (js : List Json) {left : Nat}, 0 < left →
    (Document.readAll lib.double (writtenAll lib.spelled js) left = some js ↔
      (∀ n ∈ jsonNumbersAll js, KeptNumber lib n) ∧ jsonDepthAll js < left)
  | [], left, some_left => by
    simpa [writtenAll, Document.readAll, jsonNumbersAll, jsonDepthAll] using some_left
  | j :: rest, left, some_left => by
    rw [jsonNumbersAll, List.forall_mem_append, jsonDepthAll, Nat.max_lt, and_and_and_comm,
      ← written_read j some_left, ← writtenAll_read rest some_left]
    rw [writtenAll, Document.readAll]
    cases (written lib.spelled j).read lib.double left <;>
      cases Document.readAll lib.double (writtenAll lib.spelled rest) left <;> simp

theorem writtenMembers_read : ∀ (members : Fields) {left : Nat}, 0 < left →
    (Document.readMembers lib.double (writtenMembers lib.spelled members) left = some members ↔
      (∀ n ∈ jsonNumbersMembers members, KeptNumber lib n) ∧ jsonDepthMembers members < left)
  | [], left, some_left => by
    simpa [writtenMembers, Document.readMembers, jsonNumbersMembers, jsonDepthMembers] using some_left
  | (name,value) :: rest, left, some_left => by
    rw [jsonNumbersMembers, List.forall_mem_append, jsonDepthMembers, Nat.max_lt, and_and_and_comm,
      ← written_read value some_left, ← writtenMembers_read rest some_left]
    rw [writtenMembers, Document.readMembers]
    cases (written lib.spelled value).read lib.double left <;>
      cases Document.readMembers lib.double (writtenMembers lib.spelled rest) left <;> simp

end

end Documents

section Cells

mutual

theorem toJson_numbers : ∀ value : Value, jsonNumbers (tierDBValueToJson value) = numbers value
  | .null | .boolean _ | .signed _ | .unsigned _ | .double _ | .other _ => rfl
  | .list children => childrenToJson_numbers children
  | .struct children => fieldsToJson_numbers children

theorem childrenToJson_numbers : ∀ children : List Value,
    jsonNumbersAll (childrenToJson children) = numbersAll children
  | [] => rfl
  | child :: rest => congrArg₂ (· ++ ·) (toJson_numbers child) (childrenToJson_numbers rest)

theorem fieldsToJson_numbers : ∀ children : List (String × Value),
    jsonNumbersMembers (fieldsToJson children) = numbersFields children
  | [] => rfl
  | (_,child) :: rest => congrArg₂ (· ++ ·) (toJson_numbers child) (fieldsToJson_numbers rest)

end

mutual

theorem toJson_depth : ∀ value : Value, jsonDepth (tierDBValueToJson value) = nesting value
  | .null | .boolean _ | .signed _ | .unsigned _ | .double _ | .other _ => rfl
  | .list children => congrArg (· + 1) (childrenToJson_depth children)
  | .struct children => congrArg (· + 1) (fieldsToJson_depth children)

theorem childrenToJson_depth : ∀ children : List Value,
    jsonDepthAll (childrenToJson children) = nestingAll children
  | [] => rfl
  | child :: rest => congrArg₂ max (toJson_depth child) (childrenToJson_depth rest)

theorem fieldsToJson_depth : ∀ children : List (String × Value),
    jsonDepthMembers (fieldsToJson children) = nestingFields children
  | [] => rfl
  | (_,child) :: rest => congrArg₂ max (toJson_depth child) (fieldsToJson_depth rest)

end

theorem numbersMembers_mem {p : Number → Prop} (members : Fields) :
    (∀ n ∈ jsonNumbersMembers members, p n) ↔
      ∀ member ∈ members, ∀ n ∈ jsonNumbers member.2, p n := by
  induction members with
  | nil => simp [jsonNumbersMembers]
  | cons member rest ih =>
    rw [jsonNumbersMembers, List.forall_mem_append, ih, List.forall_mem_cons]

theorem numbersAll_mem {p : Number → Prop} (elements : List Json) :
    (∀ n ∈ jsonNumbersAll elements, p n) ↔ ∀ element ∈ elements, ∀ n ∈ jsonNumbers element, p n := by
  induction elements with
  | nil => simp [jsonNumbersAll]
  | cons element rest ih =>
    rw [jsonNumbersAll, List.forall_mem_append, ih, List.forall_mem_cons]

theorem depthMembers_lt {members : Fields} {limit : Nat} (positive : 0 < limit) :
    jsonDepthMembers members < limit ↔ ∀ member ∈ members, jsonDepth member.2 < limit := by
  induction members with
  | nil => simpa [jsonDepthMembers] using positive
  | cons member rest ih => rw [jsonDepthMembers, Nat.max_lt, ih, List.forall_mem_cons]

theorem depthAll_lt {elements : List Json} {limit : Nat} (positive : 0 < limit) :
    jsonDepthAll elements < limit ↔ ∀ element ∈ elements, jsonDepth element < limit := by
  induction elements with
  | nil => simpa [jsonDepthAll] using positive
  | cons element rest ih => rw [jsonDepthAll, Nat.max_lt, ih, List.forall_mem_cons]

theorem addCells_numbers {p : Number → Prop} (cells : List (String × Value)) :
    (∀ n ∈ jsonNumbers (addCells cells), p n) ↔ ∀ cell ∈ cells, ∀ n ∈ numbers cell.2, p n := by
  rw [addCells, jsonNumbers, numbersMembers_mem, List.forall_mem_map]
  simp only [toJson_numbers]

theorem addCells_depth {cells : List (String × Value)} {limit : Nat} (positive : 0 < limit) :
    jsonDepth (addCells cells) < limit + 1 ↔ ∀ cell ∈ cells, nesting cell.2 < limit := by
  rw [addCells, jsonDepth, Nat.add_lt_add_iff_right, depthMembers_lt positive, List.forall_mem_map]
  simp only [toJson_depth]

variable {width : Nat} (sink : TierDBSink width)

theorem element_numbers {p : Number → Prop} (row : ChunkRow width) :
    (∀ n ∈ jsonNumbers (sink.element row), p n) ↔
      ∀ cell ∈ sink.cells row, ∀ n ∈ numbers cell.2, p n := by
  cases sink with
  | insert columnNames => exact addCells_numbers _
  | delete keyIndexes keyNames => exact addCells_numbers _
  | update newValueIndexes newColNames oldKeyNames =>
    rw [TierDBSink.element, jsonNumbers, numbersMembers_mem]
    simp only [List.forall_mem_cons, List.not_mem_nil, false_implies, implies_true, and_true,
      addCells_numbers, TierDBSink.cells, List.forall_mem_append]

theorem element_depth (row : ChunkRow width) :
    jsonDepth (sink.element row) < 127 ↔
      ∀ cell ∈ sink.cells row, nesting cell.2 + levels sink < 128 := by
  cases sink with
  | insert columnNames | delete keyIndexes keyNames =>
    simp only [TierDBSink.element, TierDBSink.cells, levels, Nat.lt_sub_iff_add_lt.symm]
    exact addCells_depth (by decide)
  | update newValueIndexes newColNames oldKeyNames =>
    simp only [TierDBSink.element, TierDBSink.cells, levels, Nat.lt_sub_iff_add_lt.symm,
      List.forall_mem_append]
    have inside : jsonDepthMembers [("old",addCells (oldCells row oldKeyNames)),
        ("new",addCells (newCells row newValueIndexes newColNames))] < 126 ↔
        (∀ cell ∈ oldCells row oldKeyNames, nesting cell.2 < 125) ∧
          ∀ cell ∈ newCells row newValueIndexes newColNames, nesting cell.2 < 125 := by
      simp only [depthMembers_lt (by decide : 0 < 126), List.forall_mem_cons,
        List.not_mem_nil, false_implies, implies_true, and_true,
        addCells_depth (by decide : 0 < 125)]
    rw [← inside, jsonDepth]
    exact Nat.succ_lt_succ_iff

theorem rows_numbers {p : Number → Prop} (chunk : List (ChunkRow width)) :
    (∀ n ∈ jsonNumbers (.array (chunk.map sink.element)), p n) ↔
      AllCells sink chunk fun value => ∀ n ∈ numbers value, p n := by
  rw [jsonNumbers, numbersAll_mem, List.forall_mem_map]
  exact forall₂_congr fun row _ => element_numbers sink row

theorem rows_depth (chunk : List (ChunkRow width)) :
    jsonDepth (.array (chunk.map sink.element)) < 128 ↔ Shallow sink chunk := by
  have inside : jsonDepthAll (chunk.map sink.element) < 127 ↔ Shallow sink chunk := by
    rw [depthAll_lt (by decide), List.forall_mem_map]
    exact forall₂_congr fun row _ => element_depth sink row
  exact Nat.succ_lt_succ_iff.trans inside

end Cells

section Statements

variable (lib : RowsText) {width : Nat} (sink : TierDBSink width)

/-- A chunk whose text serde_json can read; where a number cannot be written it is empty. -/
def ReadableRows (chunk : List (ChunkRow width)) : Prop :=
  (∀ row ∈ chunk, sink.Finite row) →
    (AllCells sink chunk fun value => ∀ n ∈ numbers value, Readable lib n) ∧ Shallow sink chunk

/-- A chunk whose text carries what the sink encoded. -/
def KeptRows (chunk : List (ChunkRow width)) : Prop :=
  (∀ row ∈ chunk, sink.Finite row) →
    (AllCells sink chunk fun value => ∀ n ∈ numbers value, KeptNumber lib n) ∧ Shallow sink chunk

theorem rows_finite (chunk : List (ChunkRow width)) :
    (Json.array (chunk.map sink.element)).finite = true ↔ ∀ row ∈ chunk, sink.Finite row := by
  simp [Json.finite, finiteAll_all, element_finite]

theorem rowsText_lost {chunk : List (ChunkRow width)} (lost : ¬∀ row ∈ chunk, sink.Finite row) :
    rowsText lib sink chunk = "[]" := by
  have refused : ¬(lib.yyjsonMutWrite (.array (chunk.map sink.element))).isSome := by
    rwa [lib.write_isSome, rows_finite]
  rw [rowsText, Option.not_isSome_iff_eq_none.mp refused, Option.getD_none]

theorem rowsText_written {chunk : List (ChunkRow width)} (finite : ∀ row ∈ chunk, sink.Finite row) :
    lib.yyjsonMutWrite (.array (chunk.map sink.element)) = some (rowsText lib sink chunk) := by
  have some_text : (lib.yyjsonMutWrite (.array (chunk.map sink.element))).isSome = true := by
    rwa [lib.write_isSome, rows_finite]
  obtain ⟨text,made⟩ := Option.isSome_iff_exists.mp some_text
  rw [rowsText, made, Option.getD_some]

variable {lib} {sink}

/-- The text of a chunk crosses as a C string as it is. -/
theorem rowsText_whole (chunk : List (ChunkRow width)) :
    cString (rowsText lib sink chunk) = rowsText lib sink chunk := by
  by_cases finite : ∀ row ∈ chunk, sink.Finite row
  · exact (cString_eq _).mpr (lib.noNul_write (rowsText_written lib sink finite))
  · rw [rowsText_lost lib sink finite]
    decide

theorem rowsText_read {chunk : List (ChunkRow width)} (finite : ∀ row ∈ chunk, sink.Finite row) :
    lib.serdeFromStr (rowsText lib sink chunk) =
      (written lib.spelled (.array (chunk.map sink.element))).fromStr lib.double :=
  lib.read_write (rowsText_written lib sink finite)

theorem rowsText_readable (chunk : List (ChunkRow width)) :
    (lib.serdeFromStr (rowsText lib sink chunk)).isSome = true ↔ ReadableRows lib sink chunk := by
  by_cases finite : ∀ row ∈ chunk, sink.Finite row
  · rw [rowsText_read finite, Document.fromStr, read_isSome _ (by decide), written_depth,
      written_inRange, rows_numbers, rows_depth]
    exact ⟨fun all _ => all,fun all => all finite⟩
  · rw [rowsText_lost lib sink finite, lib.read_empty]
    exact iff_of_true rfl fun all => absurd all finite

theorem rowsText_kept (chunk : List (ChunkRow width)) :
    lib.serdeFromStr (rowsText lib sink chunk) = sink.rowsJson chunk ↔ KeptRows lib sink chunk := by
  by_cases finite : ∀ row ∈ chunk, sink.Finite row
  · rw [rowsText_read finite, rowsJson_finite sink finite, Document.fromStr,
      written_read _ (by decide), rows_numbers, rows_depth]
    exact ⟨fun all _ => all,fun all => all finite⟩
  · rw [rowsText_lost lib sink finite, lib.read_empty, rowsJson_lost sink finite]
    exact iff_of_true rfl fun all => absurd all finite

variable {core : Core} {schema table : String}

/-- A chunk call whose text is not read does not return. -/
theorem planChunk_read {ctx : ChunkContext} {kind : ChunkKind} {rowsJson : JsonText}
    {outcome : ChunkOutcome} {writes : List Write}
    (made : (planChunk core ctx kind rowsJson).Makes outcome writes) : rowsJson.isSome = true := by
  obtain ⟨removed,written,_,_,_,_,rows,_⟩ := planChunk_parts made
  cases rowsJson with
  | some doc => rfl
  | none => cases kind <;> cases rows

theorem sinkText_readable {chunk : List (ChunkRow width)} {count after : Nat} {a d : Attached}
    (returned : sinkText lib core schema table sink chunk count a =
      .ok after d) : ReadableRows lib sink chunk := by
  unfold sinkText at returned
  cases chunk with
  | nil => exact fun _ => ⟨nofun,nofun⟩
  | cons row rest =>
    obtain ⟨result,b,sent,_⟩ := Effect.bind_ok.mp returned
    obtain ⟨_,_,_,_,_,_,made,_⟩ := sinkChunk_ok sent
    rw [← rowsText_readable, ← rowsText_whole]
    exact planChunk_read made

theorem sinkTexts_readable {chunks : List (List (ChunkRow width))} {count reported : Nat}
    {a d : Attached} (returned : sinkTexts lib core schema table sink chunks
      count a = .ok reported d) : ∀ chunk ∈ chunks, ReadableRows lib sink chunk := by
  induction chunks generalizing count a with
  | nil => exact nofun
  | cons chunk rest ih =>
    obtain ⟨after,b,first,later⟩ := Effect.bind_ok.mp returned
    exact List.forall_mem_cons.mpr ⟨sinkText_readable first,ih later⟩

theorem sinkText_kept {chunk : List (ChunkRow width)} (kept : KeptRows lib sink chunk) :
    sinkText lib core schema table sink chunk =
      sink.sink core schema table chunk := by
  funext count
  rw [sinkText, rowsText_whole, (rowsText_kept chunk).mpr kept]
  rfl

theorem sinkTexts_kept {chunks : List (List (ChunkRow width))}
    (kept : ∀ chunk ∈ chunks, KeptRows lib sink chunk) :
    sinkTexts lib core schema table sink chunks =
      sink.sinkAll core schema table chunks := by
  induction chunks with
  | nil => rfl
  | cons chunk rest ih =>
    obtain ⟨first,later⟩ := List.forall_mem_cons.mp kept
    funext count
    rw [sinkTexts, TierDBSink.sinkAll, sinkText_kept first, ih later]

end Statements

/-- The rows of a statement on the wire. Each chunk's text crosses as a C string as it is, is
read exactly when none of its numbers is out of range and nothing in it is nested too deeply,
and carries what the sink encoded exactly when each number is moreover read as it was written.
A statement all of whose chunks are carried does what it does without the wire, and one that
returns had every chunk read. -/
theorem rows_cross_the_wire (lib : RowsText) {width : Nat} (sink : TierDBSink width)
    (chunks : List (List (ChunkRow width))) :
    (∀ chunk ∈ chunks,
      let text := rowsText lib sink chunk
      cString text = text ∧
      ((lib.serdeFromStr text).isSome = true ↔ ReadableRows lib sink chunk) ∧
      (lib.serdeFromStr text = sink.rowsJson chunk ↔ KeptRows lib sink chunk)) ∧
    ∀ (core : Core) (schema table : String) (count : Nat) (a : Attached),
      ((∀ chunk ∈ chunks, KeptRows lib sink chunk) →
        sinkTexts lib core schema table sink chunks count a =
          sink.sinkAll core schema table chunks count a) ∧
      ∀ reported d, sinkTexts lib core schema table sink chunks count a =
        .ok reported d → ∀ chunk ∈ chunks, ReadableRows lib sink chunk := by
  refine ⟨fun chunk _ => ⟨rowsText_whole chunk,rowsText_readable chunk,rowsText_kept chunk⟩,?_⟩
  intro core schema table count a
  refine ⟨fun kept => ?_,fun reported d returned => sinkTexts_readable returned⟩
  rw [sinkTexts_kept kept]

section Spelling

open JsonText (Doc)

/-- How a writer spells a double that is finite: as a number with a fraction or an exponent. -/
structure Spelling where
  spell : Double → List Char
  number : ∀ d, d.isFinite = true → JsonText.isNumber (spell d) = true
  real : ∀ d, d.isFinite = true → JsonText.readInteger (spell d) = none

variable (spelling : Spelling)

mutual

/-- A document as it is spelled. -/
def toDoc : Json → Doc
  | .null => .null
  | .bool value => .bool value
  | .number (.int value) => int value
  | .number (.real value) => .number (spelling.spell value)
  | .string text => str text
  | .array elements => .array (toDocs elements)
  | .object members => .object (toMembers members)

def toDocs : List Json → List Doc
  | [] => []
  | element :: rest => toDoc element :: toDocs rest

def toMembers : Fields → List (List Char × Doc)
  | [] => []
  | (name,value) :: rest => (name.toList,toDoc value) :: toMembers rest

end

def unsigned (digits : List Char) : Int := Nat.ofDigitChars 10 digits 0

def exponent : List Char → Int
  | _ :: '-' :: digits => -unsigned digits
  | _ :: '+' :: digits => unsigned digits
  | _ :: digits => unsigned digits
  | [] => 0

/-- The value of a number without its sign. -/
def magnitude (text : List Char) : ℚ :=
  let whole := text.takeWhile Char.isDigit
  match text.dropWhile Char.isDigit with
  | '.' :: rest =>
    let fraction := rest.takeWhile Char.isDigit
    unsigned (whole ++ fraction) * 10^(exponent (rest.dropWhile Char.isDigit) - fraction.length)
  | rest => unsigned whole * 10^exponent rest

def decimal : List Char → ℚ
  | '-' :: text => -magnitude text
  | text => magnitude text

/-- serde_json takes a minus zero for a float. -/
def documentNumber (spelling : List Char) : Document :=
  match JsonText.readInteger spelling with
  | some value => if spelling = ['-','0'] then .decimal 0 else .integer value
  | none => .decimal (decimal spelling)

mutual

def toDocument : Doc → Document
  | .null => .null
  | .bool value => .bool value
  | .number spelling => documentNumber spelling
  | .string text => .string (String.ofList text)
  | .array elements => .array (toDocuments elements)
  | .object members => .object (toDocumentMembers members)

def toDocuments : List Doc → List Document
  | [] => []
  | element :: rest => toDocument element :: toDocuments rest

def toDocumentMembers : List (List Char × Doc) → List (String × Document)
  | [] => []
  | (name,value) :: rest => (String.ofList name,toDocument value) :: toDocumentMembers rest

end

variable {spelling}

mutual

theorem toDoc_valid : ∀ j : Json, j.finite = true → (toDoc spelling j).Valid
  | .null, _ | .bool _, _ | .string _, _ => trivial
  | .number (.int value), _ => int_valid value
  | .number (.real value), finite => spelling.number value finite
  | .array elements, finite => toDocs_valid elements finite
  | .object members, finite => toMembers_valid members finite

theorem toDocs_valid : ∀ js : List Json, Json.finiteAll js = true →
    Doc.ValidAll (toDocs spelling js)
  | [], _ => trivial
  | j :: rest, finite => by
    rw [Json.finiteAll, Bool.and_eq_true] at finite
    exact ⟨toDoc_valid j finite.1,toDocs_valid rest finite.2⟩

theorem toMembers_valid : ∀ members : Fields, Json.finiteMembers members = true →
    Doc.ValidMembers (toMembers spelling members)
  | [], _ => trivial
  | (_,value) :: rest, finite => by
    rw [Json.finiteMembers, Bool.and_eq_true] at finite
    exact ⟨toDoc_valid value finite.1,toMembers_valid rest finite.2⟩

end

theorem documentNumber_int (value : Int) :
    documentNumber (JsonText.integer value) = .integer value := by
  have plain : JsonText.integer value ≠ ['-','0'] := by
    intro same
    have zero : JsonText.readInteger ['-','0'] = some 0 := by decide
    rw [← same, JsonText.readInteger_integer, Option.some.injEq] at zero
    subst zero
    exact absurd same (by decide)
  simp [documentNumber, plain]

theorem documentNumber_real {value : Double} (finite : value.isFinite = true) :
    documentNumber (spelling.spell value) = .decimal (decimal (spelling.spell value)) := by
  rw [documentNumber, spelling.real value finite]

variable (spelling) in
def spelledValue (value : Double) : ℚ := decimal (spelling.spell value)

mutual

/-- The grammar reads the document that was spelled. -/
theorem toDocument_toDoc : ∀ j : Json, j.finite = true →
    toDocument (toDoc spelling j) = written (spelledValue spelling) j
  | .null, _ | .bool _, _ => rfl
  | .string text, _ => by rw [toDoc, str, toDocument, String.ofList_toList, written]
  | .number (.int value), _ => documentNumber_int value
  | .number (.real value), finite => documentNumber_real finite
  | .array elements, finite => congrArg Document.array (toDocuments_toDocs elements finite)
  | .object members, finite => congrArg Document.object (toDocuments_toMembers members finite)

theorem toDocuments_toDocs : ∀ js : List Json, Json.finiteAll js = true →
    toDocuments (toDocs spelling js) = writtenAll (spelledValue spelling) js
  | [], _ => rfl
  | j :: rest, finite => by
    rw [Json.finiteAll, Bool.and_eq_true] at finite
    rw [toDocs, toDocuments, toDocument_toDoc j finite.1, toDocuments_toDocs rest finite.2, writtenAll]

theorem toDocuments_toMembers : ∀ members : Fields, Json.finiteMembers members = true →
    toDocumentMembers (toMembers spelling members) = writtenMembers (spelledValue spelling) members
  | [], _ => rfl
  | (name,value) :: rest, finite => by
    rw [Json.finiteMembers, Bool.and_eq_true] at finite
    rw [toMembers, toDocumentMembers, String.ofList_toList, toDocument_toDoc value finite.1,
      toDocuments_toMembers rest finite.2, writtenMembers]

end

variable (spelling) in
/-- Both libraries as the grammar of JSON has them. -/
def spelledRows (double : ℚ → Option Double) : RowsText where
  yyjsonMutWrite doc :=
    if doc.finite then some (String.ofList ((toDoc spelling doc).write true)) else none
  serdeFromStr text :=
    (JsonText.read text.toList).bind fun doc => (toDocument doc).fromStr double
  spelled := spelledValue spelling
  double := double
  write_isSome doc := by cases finite : doc.finite <;> rfl
  noNul_write {doc text} written := by
    obtain ⟨finite,made⟩ := Option.ite_none_right_eq_some.mp written
    cases made
    exact noNul_write (toDoc_valid doc finite)
  read_write {doc text} written := by
    obtain ⟨finite,made⟩ := Option.ite_none_right_eq_some.mp written
    cases made
    rw [String.toList_ofList, JsonText.read_write (toDoc_valid doc finite), Option.bind_some,
      toDocument_toDoc doc finite]
  read_empty := rfl

end Spelling

/-- yyjson and serde_json on the number used here. -/
def halves : Spelling where
  spell d := if d = .finite 5 (-1) then "2.5".toList else "0.0".toList
  number d _ := by split <;> decide
  real d _ := by split <;> decide

def halfDouble (q : ℚ) : Option Double := if q = 5 / 2 then some (.finite 5 (-1)) else none

def halfText : RowsText := spelledRows halves halfDouble

theorem half_kept : KeptNumber halfText (.real (.finite 5 (-1))) := by
  unfold KeptNumber
  decide +kernel

open Reference in
/-- An insert of one row whose text is read as it was written. -/
theorem half_crosses : ∃ d,
    sinkTexts halfText core "public" "items" itemSink
      [[itemRow 1 (.finite 5 (-1))]] 0 attached = .ok 1 d := by
  obtain ⟨carried,sent⟩ := rows_cross_the_wire halfText itemSink
    [[itemRow 1 (.finite 5 (-1))]]
  have read : halfText.serdeFromStr (rowsText halfText itemSink
      [itemRow 1 (.finite 5 (-1))]) = itemSink.rowsJson [itemRow 1 (.finite 5 (-1))] := by
    decide +kernel
  have kept := (carried _ (List.mem_singleton_self _)).2.2.mp read
  have ran : Effect.returns (itemSink.sinkAll core "public" "items"
      [[itemRow 1 (.finite 5 (-1))]] 0 attached) = true := by decide +kernel
  obtain ⟨reported,d,returned⟩ := Effect.returns_iff.mp ran
  obtain rfl : reported = 1 := sinkAll_count returned
  exact ⟨d,((sent core "public" "items" 0 attached).1 (by simpa using kept)).trans returned⟩

end TierDb.Wire
