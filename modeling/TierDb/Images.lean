import TierDb.Catalog
import TierDb.Relational

/-! The row images of an UPDATE. They have the columns of the cached entry; the chunk
function writes an image under the columns of the relation as it is now, NULL where the image
lacks one. -/
namespace TierDb

/-- A stored value, NULL where the row lacks the column. -/
def valueOf (row : Fields) (column : String) : Json := (lookup column row).getD .null

/-- A column of a row as DuckDB reads it and the sink encodes it: json comes as its text. -/
def readCell (json : SerdeJson) (column pgType : String) (row : Fields) : Json :=
  let stored := valueOf row column
  if isJsonType pgType && !stored.isNull then .string (json.display stored) else stored

namespace TierDBTableSchema

variable (json : SerdeJson) (entry : TierDBTableSchema)

def routingColumns : List String := entry.primaryKeyCols ++ [entry.tierKeyCol]

/-- A routing column the entry has no column for is read as VARCHAR. -/
def columnType (name : String) : String :=
  ((entry.columns.find? (·.name = name)).map TierDBColumn.pgType).getD ""

def oldKey (row : Fields) : Json :=
  .object (entry.routingColumns.map fun name =>
    (name,readCell json name (entry.columnType name) row))

/-- `BindUpdateConstraints` adds every column of the entry that the statement does not
assign, with the value just read. -/
def newImage (assigned : String → Option Json) (row : Fields) : Json :=
  .object (entry.columns.map fun column =>
    (column.name,(assigned column.name).getD (readCell json column.name column.pgType row)))

end TierDBTableSchema

theorem lookup_of_mem {members : Fields} {name : String} {value : Json}
    (unique : (members.map Prod.fst).Nodup) (member : (name,value) ∈ members) :
    lookup name members = some value := by
  induction members with
  | nil => cases member
  | cons head rest ih =>
    obtain ⟨key,other⟩ := head
    rw [List.map_cons, List.nodup_cons] at unique
    rcases List.mem_cons.mp member with same | later
    · obtain ⟨rfl,rfl⟩ := Prod.mk.inj same
      simp [lookup, lookup_of_not_mem unique.1]
    · simp [lookup, ih unique.2 later]

section Normalizing

variable (json : SerdeJson)

/-- What a column's type makes of an image's value. -/
def reparsed (sqlType : String) (value : Json) : Json :=
  match value with
  | .string s => if isJsonType sqlType then (json.parse s).getD value else value
  | _ => value

theorem normalizeColumn_other (members : Fields) {column : String × String} {name : String}
    (apart : column.1 ≠ name) :
    lookup name (normalizeColumn json members column) = lookup name members := by
  unfold normalizeColumn
  split
  · split
    · split
      · rw [lookup_insertMember, if_neg apart]
      · rfl
    · rfl
  · rfl

theorem normalizeColumn_same (members : Fields) (column : String × String) :
    valueOf (normalizeColumn json members column) column.1 =
      reparsed json column.2 (valueOf members column.1) := by
  unfold normalizeColumn valueOf
  cases found : lookup column.1 members with
  | none => simp [found, reparsed]
  | some value =>
    cases isJson : isJsonType column.2 with
    | false => cases value <;> simp [found, reparsed, isJson]
    | true =>
      cases value with
      | string s =>
        cases parsed : json.parse s <;> simp [found, reparsed, isJson, parsed, lookup_insertMember]
      | _ => simp [found, reparsed]

theorem normalizeAll_other (columns : List (String × String)) (members : Fields) {name : String}
    (absent : name ∉ columns.map Prod.fst) :
    lookup name (columns.foldl (normalizeColumn json) members) = lookup name members := by
  induction columns generalizing members with
  | nil => rfl
  | cons column rest ih =>
    rw [List.map_cons, List.mem_cons, not_or] at absent
    rw [List.foldl_cons, ih _ absent.2, normalizeColumn_other json members (Ne.symm absent.1)]

theorem normalizeAll_value {columns : List (String × String)} (members : Fields)
    (distinct : (columns.map Prod.fst).Nodup) {column : String × String}
    (member : column ∈ columns) :
    valueOf (columns.foldl (normalizeColumn json) members) column.1 =
      reparsed json column.2 (valueOf members column.1) := by
  induction columns generalizing members with
  | nil => cases member
  | cons head rest ih =>
    rw [List.map_cons, List.nodup_cons] at distinct
    rw [List.foldl_cons]
    rcases List.mem_cons.mp member with rfl | later
    · rw [valueOf, normalizeAll_other json rest _ distinct.1]
      exact normalizeColumn_same json members column
    · have apart : head.1 ≠ column.1 := fun same =>
        distinct.1 (same ▸ List.mem_map_of_mem later)
      rw [ih _ distinct.2 later, valueOf, normalizeColumn_other json members apart, valueOf]

end Normalizing

namespace Layout

variable {core : Core} {layout : Layout}

theorem landed_value (distinct : layout.names.Nodup) (members : Fields)
    {column : String × String} (member : column ∈ layout.columns) :
    valueOf (landed core layout (.object members)) column.1 =
      reparsed core.toSerdeJson column.2 (valueOf members column.1) := by
  have named : column.1 ∈ layout.names := List.mem_map_of_mem member
  have normal := normalizeAll_value core.toSerdeJson members distinct member
  rw [valueOf, landed, lookup_project, if_pos named, Option.getD_some]
  exact normal

/-- The row an UPDATE through the entry writes in place of `row`. -/
def updatedRow (core : Core) (layout : Layout) (entry : TierDBTableSchema)
    (assigned : String → Option Json) (row : Fields) : Fields :=
  landed core layout (entry.newImage core.toSerdeJson assigned row)

def PlainKeys (layout : Layout) : Prop :=
  ∀ column ∈ layout.columns, column.1 ∈ layout.pkCols ++ [layout.tierKeyCol] →
    isJsonType column.2 = false

/-- The entry has the table's key and the first of its columns. -/
structure EntryOf (layout : Layout) (entry : TierDBTableSchema) : Prop where
  pkCols : entry.primaryKeyCols = layout.pkCols
  tierKeyCol : entry.tierKeyCol = layout.tierKeyCol
  columns : entry.columns.map (fun c => (c.name,c.pgType)) <+: layout.columns

section Entry

variable {entry : TierDBTableSchema}

theorem EntryOf.mem (is : layout.EntryOf entry) {column : TierDBColumn}
    (member : column ∈ entry.columns) : (column.name,column.pgType) ∈ layout.columns :=
  is.columns.subset (List.mem_map_of_mem (f := fun c => (c.name,c.pgType)) member)

theorem EntryOf.distinct (is : layout.EntryOf entry) (distinct : layout.names.Nodup) :
    (entry.columns.map TierDBColumn.name).Nodup := by
  have sub := (is.columns.map Prod.fst).sublist
  rw [List.map_map] at sub
  exact sub.nodup distinct

theorem EntryOf.columnType (is : layout.EntryOf entry) (plain : layout.PlainKeys) {name : String}
    (key : name ∈ layout.pkCols ++ [layout.tierKeyCol]) :
    isJsonType (entry.columnType name) = false := by
  unfold TierDBTableSchema.columnType
  cases found : entry.columns.find? (·.name = name) with
  | none => decide +kernel
  | some column =>
    have named : column.name = name := by simpa using List.find?_some found
    have listed := is.mem (List.mem_of_find?_eq_some found)
    rw [Option.map_some, Option.getD_some]
    exact plain (column.name,column.pgType) listed (named ▸ key)

/-- The old key names the row that was read. -/
theorem oldKey_names (is : layout.EntryOf entry) (plain : layout.PlainKeys) (row : Fields) :
    Names core layout (entry.oldKey core.toSerdeJson row) row := by
  have cells : ∀ name ∈ layout.pkCols ++ [layout.tierKeyCol],
      (name,readCell core.toSerdeJson name (entry.columnType name) row) =
        (name,((Json.object row).get name).getD .null) := by
    intro name member
    rw [readCell, is.columnType plain member]
    rfl
  have old : entry.oldKey core.toSerdeJson row =
      .object (project (layout.pkCols ++ [layout.tierKeyCol]) (.object row)) := by
    rw [TierDBTableSchema.oldKey, TierDBTableSchema.routingColumns, is.pkCols, is.tierKeyCol,
      List.map_congr_left cells, project]
  rw [old]
  constructor
  · rw [key, keyOf, keyOf, SerdeJson.keyOf, SerdeJson.keyOf, core.fieldTexts_project _ _ _
      fun field member => List.mem_append_left _ member]
  · rw [tierOf, tierOf, SerdeJson.tierKeyOf, SerdeJson.tierKeyOf, SerdeJson.tierKey,
      SerdeJson.tierKey, core.fieldText_project _ _ _ (by simp)]

end Entry

end Layout

end TierDb
