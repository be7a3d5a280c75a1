import Mathlib.Algebra.Field.Rat
import TierDb.Encoders
import TierDb.Images

/-! The contents of a json column on their way through an UPDATE that does not assign it: read
as text, sent as a string and parsed again into the row image. -/
namespace TierDb

/-- JSON values; an object is a map. The number of a NaN or an infinity has no value. -/
inductive JsonValue where
  | null
  | bool (value : Bool)
  | number (value : Option ℚ)
  | string (value : String)
  | array (elements : List JsonValue)
  | object (members : String → Option JsonValue)

/-- A JSON document as its text has it: a number is a plain integer or is written with a
fraction or an exponent, and names may be repeated in an object. -/
inductive Document where
  | null
  | bool (value : Bool)
  | integer (value : Int)
  | decimal (value : ℚ)
  | string (value : String)
  | array (elements : List Document)
  | object (members : List (String × Document))

def Double.value : Double → Option ℚ
  | .finite mantissa exponent => some (mantissa * 2^exponent)
  | _ => none

def Number.value : Number → Option ℚ
  | .int value => some value
  | .real value => value.value

/-- The map that a list of members stands for; the last member of a name counts. -/
def withMember (name : String) (value : JsonValue) (later : String → Option JsonValue) :
    String → Option JsonValue :=
  fun key => (later key).or (if name = key then some value else none)

mutual

def Document.value : Document → JsonValue
  | .null => .null
  | .bool b => .bool b
  | .integer n => .number (some n)
  | .decimal q => .number (some q)
  | .string s => .string s
  | .array elements => .array (Document.values elements)
  | .object members => .object (Document.mapping members)

def Document.values : List Document → List JsonValue
  | [] => []
  | element :: rest => element.value :: Document.values rest

def Document.mapping : List (String × Document) → String → Option JsonValue
  | [] => fun _ => none
  | (name,member) :: rest => withMember name member.value (Document.mapping rest)

end

mutual

def Json.value : Json → JsonValue
  | .null => .null
  | .bool b => .bool b
  | .number n => .number n.value
  | .string s => .string s
  | .array elements => .array (Json.values elements)
  | .object members => .object (Json.mapping members)

def Json.values : List Json → List JsonValue
  | [] => []
  | element :: rest => element.value :: Json.values rest

def Json.mapping : Fields → String → Option JsonValue
  | [] => fun _ => none
  | (name,member) :: rest => withMember name member.value (Json.mapping rest)

end

/-- An i64 or a u64. -/
def fits64 (n : Int) : Bool := -2^63 ≤ n && n < 2^64

section Reading

-- The double serde_json reads a number as; none where it is out of range.
variable (double : ℚ → Option Double)

def readNumber (q : ℚ) : Option Json := (double q).map fun d => .number (.real d)

mutual

/-- A document as serde_json reads its text, with so many levels of nesting left. Integers
that fit 64 bits are kept, other numbers become doubles. -/
def Document.read : Document → Nat → Option Json
  | .null, _ => some .null
  | .bool b, _ => some (.bool b)
  | .integer n, _ =>
    if fits64 n then some (.number (.int n)) else readNumber double n
  | .decimal q, _ => readNumber double q
  | .string s, _ => some (.string s)
  | .array elements, depth =>
    if depth ≤ 1 then none else (Document.readAll elements (depth - 1)).map .array
  | .object members, depth =>
    if depth ≤ 1 then none else (Document.readMembers members (depth - 1)).map .object

def Document.readAll : List Document → Nat → Option (List Json)
  | [], _ => some []
  | element :: rest, depth => do
    return (← element.read depth) :: (← Document.readAll rest depth)

def Document.readMembers : List (String × Document) → Nat → Option Fields
  | [], _ => some []
  | (name,member) :: rest, depth => do
    return (name,← member.read depth) :: (← Document.readMembers rest depth)

end

/-- `serde_json::from_str`, with its recursion limit. -/
def Document.fromStr (d : Document) : Option Json := d.read double 128

mutual

def Document.depth : Document → Nat
  | .array elements => Document.depthAll elements + 1
  | .object members => Document.depthMembers members + 1
  | _ => 0

def Document.depthAll : List Document → Nat
  | [] => 0
  | element :: rest => max element.depth (Document.depthAll rest)

def Document.depthMembers : List (String × Document) → Nat
  | [] => 0
  | (_,member) :: rest => max member.depth (Document.depthMembers rest)

end

mutual

/-- Every number of the document is an integer of 64 bits or in the range of doubles. -/
def Document.InRange : Document → Prop
  | .integer n => fits64 n ∨ (double n).isSome
  | .decimal q => (double q).isSome
  | .array elements => Document.InRangeAll elements
  | .object members => Document.InRangeMembers members
  | _ => True

def Document.InRangeAll : List Document → Prop
  | [] => True
  | element :: rest => element.InRange ∧ Document.InRangeAll rest

def Document.InRangeMembers : List (String × Document) → Prop
  | [] => True
  | (_,member) :: rest => member.InRange ∧ Document.InRangeMembers rest

end

mutual

/-- Every number that counts is an integer of 64 bits or the very value of its double. -/
def Document.Exact : Document → Prop
  | .integer n => fits64 n ∨ (double n).bind Double.value = some (n : ℚ)
  | .decimal q => (double q).bind Double.value = some q
  | .array elements => Document.ExactAll elements
  | .object members => Document.ExactMembers members
  | _ => True

def Document.ExactAll : List Document → Prop
  | [] => True
  | element :: rest => element.Exact ∧ Document.ExactAll rest

def Document.ExactMembers : List (String × Document) → Prop
  | [] => True
  | (name,member) :: rest =>
    (name ∈ rest.map Prod.fst ∨ member.Exact) ∧ Document.ExactMembers rest

end

variable {double}

mutual

/-- A document is read unless it is nested too deeply or a number of it is out of range. -/
theorem read_isSome : ∀ (d : Document) {depth : Nat}, 0 < depth →
    ((d.read double depth).isSome ↔ d.InRange double ∧ d.depth < depth)
  | .null, depth, some_left | .bool _, depth, some_left | .string _, depth, some_left => by
    simpa [Document.read, Document.InRange, Document.depth] using some_left
  | .integer n, depth, some_left => by
    cases fits : fits64 n <;>
      simp [Document.read, Document.InRange, Document.depth, fits, readNumber, some_left]
  | .decimal q, depth, some_left => by
    simp [Document.read, Document.InRange, Document.depth, readNumber, some_left]
  | .array elements, depth, _ => by
    rw [Document.read, Document.InRange, Document.depth]
    by_cases deepest : depth ≤ 1
    · rw [if_pos deepest]
      simp
      omega
    · rw [if_neg deepest, Option.isSome_map, readAll_isSome elements (by omega)]
      exact and_congr_right fun _ => by omega
  | .object members, depth, _ => by
    rw [Document.read, Document.InRange, Document.depth]
    by_cases deepest : depth ≤ 1
    · rw [if_pos deepest]
      simp
      omega
    · rw [if_neg deepest, Option.isSome_map, readMembers_isSome members (by omega)]
      exact and_congr_right fun _ => by omega

theorem readAll_isSome : ∀ (ds : List Document) {depth : Nat}, 0 < depth →
    ((Document.readAll double ds depth).isSome ↔
      Document.InRangeAll double ds ∧ Document.depthAll ds < depth)
  | [], depth, some_left => by
    simpa [Document.readAll, Document.InRangeAll, Document.depthAll] using some_left
  | d :: rest, depth, some_left => by
    have first := read_isSome d some_left
    have later := readAll_isSome rest some_left
    rw [Document.readAll, Document.InRangeAll, Document.depthAll, Nat.max_lt, and_and_and_comm,
      ← first, ← later]
    cases d.read double depth <;> cases Document.readAll double rest depth <;> simp

theorem readMembers_isSome : ∀ (ds : List (String × Document)) {depth : Nat}, 0 < depth →
    ((Document.readMembers double ds depth).isSome ↔
      Document.InRangeMembers double ds ∧ Document.depthMembers ds < depth)
  | [], depth, some_left => by
    simpa [Document.readMembers, Document.InRangeMembers, Document.depthMembers] using some_left
  | (name,d) :: rest, depth, some_left => by
    have first := read_isSome d some_left
    have later := readMembers_isSome rest some_left
    rw [Document.readMembers, Document.InRangeMembers, Document.depthMembers, Nat.max_lt,
      and_and_and_comm, ← first, ← later]
    cases d.read double depth <;> cases Document.readMembers double rest depth <;> simp

end

theorem readAll_cons {d : Document} {rest : List Document} {depth : Nat} {js : List Json}
    (read : Document.readAll double (d :: rest) depth = some js) : ∃ j later,
      d.read double depth = some j ∧ Document.readAll double rest depth = some later ∧
        js = j :: later := by
  obtain ⟨j,first,made⟩ := Option.bind_eq_some_iff.mp read
  obtain ⟨later,found,same⟩ := Option.bind_eq_some_iff.mp made
  exact ⟨j,later,first,found,(Option.some.inj same).symm⟩

theorem readMembers_cons {name : String} {d : Document} {rest : List (String × Document)}
    {depth : Nat} {members : Fields}
    (read : Document.readMembers double ((name,d) :: rest) depth = some members) : ∃ j later,
      d.read double depth = some j ∧ Document.readMembers double rest depth = some later ∧
        members = (name,j) :: later := by
  obtain ⟨j,first,made⟩ := Option.bind_eq_some_iff.mp read
  obtain ⟨later,found,same⟩ := Option.bind_eq_some_iff.mp made
  exact ⟨j,later,first,found,(Option.some.inj same).symm⟩

theorem readMembers_names {ds : List (String × Document)} {depth : Nat} {members : Fields}
    (read : Document.readMembers double ds depth = some members) :
    members.map Prod.fst = ds.map Prod.fst := by
  induction ds generalizing members with
  | nil =>
    cases read
    rfl
  | cons head rest ih =>
    obtain ⟨_,later,_,found,rfl⟩ := readMembers_cons read
    rw [List.map_cons, List.map_cons, ih found]

theorem withMember_none {name key : String} {value : JsonValue} {later : String → Option JsonValue} :
    withMember name value later key = none ↔ later key = none ∧ name ≠ key := by
  simp [withMember]

theorem mapping_none {members : Fields} {key : String} :
    Json.mapping members key = none ↔ key ∉ members.map Prod.fst := by
  induction members with
  | nil => simp [Json.mapping]
  | cons head rest ih =>
    rw [Json.mapping, withMember_none, ih, List.map_cons, List.mem_cons, not_or, and_comm, ne_comm]

theorem documentMapping_none {members : List (String × Document)} {key : String} :
    Document.mapping members key = none ↔ key ∉ members.map Prod.fst := by
  induction members with
  | nil => simp [Document.mapping]
  | cons head rest ih =>
    rw [Document.mapping, withMember_none, ih, List.map_cons, List.mem_cons, not_or, and_comm, ne_comm]

/-- A later member of the name shadows an earlier one. -/
theorem withMember_shadowed {name : String} {value : JsonValue} {later : String → Option JsonValue}
    (shadowed : later name ≠ none) : withMember name value later = later := by
  funext key
  by_cases same : name = key
  · subst same
    obtain ⟨found,present⟩ := Option.ne_none_iff_exists'.mp shadowed
    simp [withMember, present]
  · simp [withMember, same]

theorem withMember_inj {name : String} {v w : JsonValue} {f g : String → Option JsonValue}
    (fresh : f name = none) (fresh' : g name = none) :
    withMember name v f = withMember name w g ↔ v = w ∧ f = g := by
  constructor
  · intro same
    have heads := congrFun same name
    simp only [withMember, fresh, fresh', if_true, Option.none_or, Option.some.injEq] at heads
    refine ⟨heads,funext fun key => ?_⟩
    by_cases named : name = key
    · rw [← named, fresh, fresh']
    · simpa [withMember, named] using congrFun same key
  · rintro ⟨rfl,rfl⟩
    rfl

mutual

/-- A document read stands for the same value exactly when its numbers are read exactly. -/
theorem read_value : ∀ (d : Document) {depth : Nat} {j : Json}, d.read double depth = some j →
    (j.value = d.value ↔ d.Exact double)
  | .null, _, j, read | .bool _, _, j, read | .string _, _, j, read => by
    cases read
    simp [Json.value, Document.value, Document.Exact]
  | .integer n, _, j, read => by
    rw [Document.read] at read
    cases fits : fits64 n with
    | true =>
      rw [fits, if_pos rfl] at read
      cases read
      simp [Json.value, Document.value, Document.Exact, Number.value, fits]
    | false =>
      rw [fits, if_neg (by decide)] at read
      obtain ⟨d,found,rfl⟩ := Option.map_eq_some_iff.mp read
      simp [Json.value, Document.value, Document.Exact, Number.value, fits, found]
  | .decimal q, _, j, read => by
    obtain ⟨d,found,rfl⟩ := Option.map_eq_some_iff.mp read
    simp [Json.value, Document.value, Document.Exact, Number.value, found]
  | .array elements, depth, j, read => by
    rw [Document.read] at read
    split at read
    · cases read
    · obtain ⟨js,found,rfl⟩ := Option.map_eq_some_iff.mp read
      simpa [Json.value, Document.value, Document.Exact] using readAll_value elements found
  | .object members, depth, j, read => by
    rw [Document.read] at read
    split at read
    · cases read
    · obtain ⟨fields,found,rfl⟩ := Option.map_eq_some_iff.mp read
      simpa [Json.value, Document.value, Document.Exact] using readMembers_value members found

theorem readAll_value : ∀ (ds : List Document) {depth : Nat} {js : List Json},
    Document.readAll double ds depth = some js →
    (Json.values js = Document.values ds ↔ Document.ExactAll double ds)
  | [], _, js, read => by
    cases read
    simp [Json.values, Document.values, Document.ExactAll]
  | d :: rest, depth, js, read => by
    obtain ⟨j,later,first,found,rfl⟩ := readAll_cons read
    simp [Json.values, Document.values, Document.ExactAll, read_value d first,
      readAll_value rest found]

theorem readMembers_value : ∀ (ds : List (String × Document)) {depth : Nat} {members : Fields},
    Document.readMembers double ds depth = some members →
    (Json.mapping members = Document.mapping ds ↔ Document.ExactMembers double ds)
  | [], _, members, read => by
    cases read
    simp [Json.mapping, Document.mapping, Document.ExactMembers]
  | (name,d) :: rest, depth, members, read => by
    obtain ⟨j,later,first,found,rfl⟩ := readMembers_cons read
    have names := readMembers_names found
    rw [Json.mapping, Document.mapping, Document.ExactMembers, ← readMembers_value rest found]
    by_cases repeated : name ∈ rest.map Prod.fst
    · have shadowed : Json.mapping later name ≠ none := by
        rw [Ne, mapping_none, names]
        exact not_not_intro repeated
      have shadowed' : Document.mapping rest name ≠ none := by
        rw [Ne, documentMapping_none]
        exact not_not_intro repeated
      rw [withMember_shadowed shadowed, withMember_shadowed shadowed']
      exact (and_iff_right (.inl repeated)).symm
    · have fresh : Json.mapping later name = none := mapping_none.mpr (names ▸ repeated)
      have fresh' : Document.mapping rest name = none := documentMapping_none.mpr repeated
      rw [withMember_inj fresh fresh', read_value d first]
      simp [repeated]

end

theorem read_null {d : Document} {depth : Nat} :
    d.read double depth = some .null ↔ d = .null := by
  cases d with
  | null => simp [Document.read]
  | bool b => simp [Document.read]
  | string s => simp [Document.read]
  | integer n => cases fits : fits64 n <;> simp [Document.read, fits, readNumber]
  | decimal q => simp [Document.read, readNumber]
  | array elements => simp [Document.read]
  | object members => simp [Document.read]

/-- Only the string itself stands for it. -/
theorem fromStr_string {d : Document} {text : String} (unread : d.fromStr double = none) :
    JsonValue.string text ≠ d.value := by
  intro same
  cases d with
  | string s => cases unread
  | _ => cases same

end Reading

/-- What a value of a row image stores in a json column: SQL NULL or a JSON value. -/
def Json.content : Json → Option JsonValue
  | .null => none
  | j => some j.value

/-- The cell that a content of a json column is read as: NULL for SQL NULL, else a text that
serde_json reads as the document. -/
inductive ReadAs (json : SerdeJson) (double : ℚ → Option Double) : Option Document → Value → Prop
  | null : ReadAs json double none .null
  | text {d : Document} {text : String} (plain : noNul text = true)
      (parsed : json.parse text = d.fromStr double) : ReadAs json double (some d) (.other text)

/-- A content that an UPDATE keeps: no document null, nothing nested 128 deep, and no number
that is lost. -/
def KeptContent (double : ℚ → Option Double) : Option Document → Prop
  | none => True
  | some d => d ≠ .null ∧ d.depth < 128 ∧ d.InRange double ∧ d.Exact double

theorem content_some {j : Json} (value : j ≠ .null) : j.content = some j.value := by
  cases j with
  | null => exact absurd rfl value
  | _ => rfl

section Images

variable {json : SerdeJson} {double : ℚ → Option Double}

/-- The cell of a content, encoded and parsed again. -/
theorem reparsed_content {content : Option Document} {cell : Value} {sqlType : String}
    (read : ReadAs json double content cell) (isJson : isJsonType sqlType = true) :
    (reparsed json sqlType (tierDBValueToJson cell)).content = content.map Document.value ↔
      KeptContent double content := by
  cases read with
  | null => simp [tierDBValueToJson, reparsed, Json.content, KeptContent]
  | text plain parsed =>
    rename_i d text
    have readable : (d.fromStr double).isSome ↔ d.InRange double ∧ d.depth < 128 :=
      read_isSome d (by decide)
    have made : reparsed json sqlType (tierDBValueToJson (.other text)) =
        (d.fromStr double).getD (.string text) := by
      simp [tierDBValueToJson, reparsed, isJson, (cString_eq text).mpr plain, parsed]
    rw [made, Option.map_some, KeptContent]
    cases found : d.fromStr double with
    | none =>
      have stuck : ¬(d.InRange double ∧ d.depth < 128) := by rw [← readable, found]; simp
      have text_value : (Json.string text).content = some (.string text) := rfl
      rw [Option.getD_none, text_value, Option.some.injEq]
      exact iff_of_false (fromStr_string found) fun kept => stuck ⟨kept.2.2.1,kept.2.1⟩
    | some j =>
      have fine : d.InRange double ∧ d.depth < 128 := readable.mp (by rw [found]; rfl)
      rw [Option.getD_some, ← read_value d found]
      by_cases null : j = .null
      · subst null
        simp [Json.content, read_null.mp found]
      · have document : d ≠ .null := fun same => null (by
          subst same
          exact (Option.some.inj found).symm)
        rw [content_some null, Option.some.injEq]
        exact ⟨fun same => ⟨document,fine.2,fine.1,same⟩,fun kept => kept.2.2.2⟩

/-- An UPDATE that does not assign a json column leaves the column's content in the row image
exactly when it is one that parsing keeps. -/
theorem json_column_kept_iff {columns : List (String × String)} {column : String × String}
    (distinct : (columns.map Prod.fst).Nodup) (member : column ∈ columns)
    (isJson : isJsonType column.2 = true) {content : Option Document} {cell : Value}
    (read : ReadAs json double content cell) {width : Nat} {row : ChunkRow width}
    {newValueIndexes : List (Fin width)} {newColNames : List String}
    (paired : newColNames.length = newValueIndexes.length) (unique : newColNames.Nodup)
    (plain : ∀ name ∈ newColNames, noNul name = true)
    (sent : (column.1,cell) ∈ newCells row newValueIndexes newColNames) :
    (((normalizeJsonColumns json (addCells (newCells row newValueIndexes newColNames)) columns).get
      column.1).getD .null).content = content.map Document.value ↔ KeptContent double content := by
  let cells := newCells row newValueIndexes newColNames
  let members := cells.map fun cell => (cString cell.1,tierDBValueToJson cell.2)
  have names : cells.map Prod.fst = newColNames := List.map_fst_zip (by simp [paired])
  have unchanged : ∀ cell ∈ cells, cString cell.1 = cell.1 := by
    intro cell inside
    exact (cString_eq _).mpr (plain _ (names ▸ List.mem_map_of_mem inside))
  have keys : members.map Prod.fst = newColNames := by
    rw [List.map_map, ← names, List.map_inj_left]
    exact unchanged
  have found : valueOf members column.1 = tierDBValueToJson cell := by
    have inside : (column.1,tierDBValueToJson cell) ∈ members :=
      List.mem_map.mpr ⟨_,sent,Prod.ext (unchanged _ sent) rfl⟩
    rw [valueOf, lookup_of_mem (keys ▸ unique) inside]
    rfl
  have normal := normalizeAll_value json members distinct member
  rw [found] at normal
  rw [← reparsed_content read isJson, ← normal]
  rfl

end Images

namespace Reference

/-- serde_json on the texts used here. -/
def documents : SerdeJson :=
  { serde with parse := fun text =>
      if text = "null" then some .null
      else if text = "[1,null]" then some (.array [.number (.int 1),.null])
      else none }

def docColumns : List (String × String) := [("id","bigint"),("doc","jsonb")]

def docRow (doc : Value) : ChunkRow 2 := #v[.signed 7,doc]

theorem list_read : ReadAs documents (fun _ => none) (some (.array [.integer 1,.null]))
    (.other "[1,null]") := .text (by decide) (by decide +kernel)

theorem null_read : ReadAs documents (fun _ => none) (some .null) (.other "null") :=
  .text (by decide) (by decide +kernel)

theorem doc_sent (doc : Value) :
    ("doc",doc) ∈ newCells (docRow doc) [0,1] (docColumns.map Prod.fst) := by
  have cells : newCells (docRow doc) [0,1] (docColumns.map Prod.fst) =
      [("id",.signed 7),("doc",doc)] := rfl
  simp [cells]

end Reference

open Reference in
theorem list_column_kept : (((normalizeJsonColumns documents (addCells
    (newCells (docRow (.other "[1,null]")) [0,1] (docColumns.map Prod.fst))) docColumns).get
      "doc").getD .null).content = some (Document.array [.integer 1,.null]).value := by
  have kept : KeptContent (fun _ => none) (some (.array [.integer 1,.null])) := by
    simp [KeptContent, Document.depth, Document.depthAll, Document.InRange, Document.InRangeAll,
      Document.Exact, Document.ExactAll, fits64]
  have column : ("doc","jsonb") ∈ docColumns := by decide
  exact (json_column_kept_iff (by decide) column (by decide +kernel) list_read rfl (by decide)
    (by decide) (doc_sent _)).mpr kept

open Reference in
/-- A jsonb column that holds the document null: the row image has SQL NULL. -/
theorem json_null_lost : ¬∀ json double columns column content cell width
    (row : ChunkRow width) (newValueIndexes : List (Fin width)) (newColNames : List String),
    (columns.map Prod.fst).Nodup → column ∈ columns → isJsonType column.2 = true →
    ReadAs json double content cell → newColNames.length = newValueIndexes.length →
    newColNames.Nodup → (∀ name ∈ newColNames, noNul name = true) →
    (column.1,cell) ∈ newCells row newValueIndexes newColNames →
    (((normalizeJsonColumns json (addCells (newCells row newValueIndexes newColNames)) columns).get
      column.1).getD .null).content = content.map Document.value := by
  intro claim
  have column : ("doc","jsonb") ∈ docColumns := by decide
  have same := claim documents _ docColumns _ _ _ 2 _ [0,1] _ (by decide) column (by decide +kernel)
    null_read rfl (by decide) (by decide) (doc_sent _)
  have null : ((normalizeJsonColumns documents (addCells
      (newCells (docRow (.other "null")) [0,1] (docColumns.map Prod.fst))) docColumns).get
        "doc").getD .null = .null := by decide +kernel
  rw [null] at same
  cases same

end TierDb
