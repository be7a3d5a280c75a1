import Mathlib.Data.List.Basic

/-! JSON documents as the two JSON libraries exchange them. A document stands for
its text; an object keeps its members in the order they were added, repeated keys
included, and a lookup takes the last one. -/
namespace TierDb

inductive Double where
  | finite (mantissa exponent : Int)
  | infinite (negative : Bool)
  | nan
  deriving DecidableEq, Repr

def Double.isFinite : Double → Bool
  | .finite _ _ => true
  | _ => false

inductive Number where
  | int (value : Int)
  | real (value : Double)
  deriving DecidableEq, Repr

inductive Json where
  | null
  | bool (value : Bool)
  | number (value : Number)
  | string (value : String)
  | array (elements : List Json)
  | object (members : List (String × Json))
  deriving Repr, Inhabited

mutual

def Json.beq : Json → Json → Bool
  | .null, .null => true
  | .bool a, .bool b => a == b
  | .number a, .number b => a == b
  | .string a, .string b => a == b
  | .array as, .array bs => Json.beqAll as bs
  | .object as, .object bs => Json.beqMembers as bs
  | _, _ => false

def Json.beqAll : List Json → List Json → Bool
  | [], [] => true
  | a :: as, b :: bs => a.beq b && Json.beqAll as bs
  | _, _ => false

def Json.beqMembers : List (String × Json) → List (String × Json) → Bool
  | [], [] => true
  | (k,a) :: as, (j,b) :: bs => k == j && a.beq b && Json.beqMembers as bs
  | _, _ => false

end

mutual

theorem Json.beq_iff : ∀ a b : Json, a.beq b = true ↔ a = b
  | .null, b | .bool _, b | .number _, b | .string _, b => by cases b <;> simp [Json.beq]
  | .array as, b => by
    cases b with
    | array bs => simpa [Json.beq] using Json.beqAll_iff as bs
    | _ => simp [Json.beq]
  | .object as, b => by
    cases b with
    | object bs => simpa [Json.beq] using Json.beqMembers_iff as bs
    | _ => simp [Json.beq]

theorem Json.beqAll_iff : ∀ as bs : List Json, Json.beqAll as bs = true ↔ as = bs
  | [], bs => by cases bs <;> simp [Json.beqAll]
  | a :: as, bs => by
    cases bs with
    | nil => simp [Json.beqAll]
    | cons b bs => simp [Json.beqAll, Json.beq_iff a b, Json.beqAll_iff as bs]

theorem Json.beqMembers_iff : ∀ as bs : List (String × Json),
    Json.beqMembers as bs = true ↔ as = bs
  | [], bs => by cases bs <;> simp [Json.beqMembers]
  | (k,a) :: as, bs => by
    cases bs with
    | nil => simp [Json.beqMembers]
    | cons b bs =>
      simp [Json.beqMembers, Json.beq_iff a b.2, Json.beqMembers_iff as bs, Prod.ext_iff]

end

instance : DecidableEq Json := fun a b => decidable_of_iff _ (Json.beq_iff a b)

/-- The members of a JSON object; a stored row is one of these. -/
abbrev Fields := List (String × Json)

/-- JSON text by the document it denotes; `none` is text that does not parse. -/
abbrev JsonText := Option Json

def lookup (key : String) : Fields → Option Json
  | [] => none
  | (name, value) :: rest =>
    match lookup key rest with
    | some later => some later
    | none => if name = key then some value else none

def Json.get (value : Json) (key : String) : Option Json :=
  match value with
  | .object members => lookup key members
  | _ => none

def Json.isNull : Json → Bool
  | .null => true
  | _ => false

def Json.isNested : Json → Bool
  | .array _ | .object _ => true
  | _ => false

/-- `Map::insert`: under last-wins lookup the new member shadows an old one. -/
def insertMember (members : Fields) (key : String) (value : Json) : Fields :=
  members ++ [(key, value)]

@[simp] theorem lookup_nil (key : String) : lookup key [] = none := rfl

theorem lookup_append (key : String) (front back : Fields) :
    lookup key (front ++ back) = (lookup key back).or (lookup key front) := by
  induction front with
  | nil => cases h : lookup key back <;> simp [h]
  | cons member rest ih =>
    obtain ⟨name,value⟩ := member
    simp only [List.cons_append, lookup, ih]
    cases lookup key back <;> simp

theorem lookup_insertMember (members : Fields) (key name : String) (value : Json) :
    lookup key (insertMember members name value) =
      if name = key then some value else lookup key members := by
  by_cases same : name = key <;> simp [insertMember, lookup_append, lookup, same]

theorem lookup_of_not_mem {key : String} {members : Fields}
    (absent : key ∉ members.map Prod.fst) : lookup key members = none := by
  induction members with
  | nil => rfl
  | cons member rest ih =>
    obtain ⟨name,value⟩ := member
    simp only [List.map_cons, List.mem_cons, not_or] at absent
    simp [lookup, ih absent.2, Ne.symm absent.1]

/-- The value of every column, NULL where the image lacks it. -/
def project (columns : List String) (image : Json) : Fields :=
  columns.map fun column => (column, (image.get column).getD .null)

theorem lookup_project (columns : List String) (image : Json) (key : String) :
    lookup key (project columns image) =
      if key ∈ columns then some ((image.get key).getD .null) else none := by
  induction columns with
  | nil => rfl
  | cons column rest ih =>
    simp only [project, List.map_cons, lookup] at ih ⊢
    rw [ih]
    by_cases later : key ∈ rest
    · simp [later]
    · by_cases same : column = key
      · simp [later, same]
      · simp [later, same, Ne.symm same]

/-- What the code uses of serde_json beyond documents: the text of a double, the
display of a value, the parse of a column's text, and the reasons it gives for a text that
is not JSON and for a payload that is no array. -/
structure SerdeJson where
  realText : Double → String
  display : Json → String
  parse : String → Option Json
  parseError : String
  rowsError : JsonText → String

namespace SerdeJson

variable (json : SerdeJson)

def numberText : Number → String
  | .int value => toString value
  | .real value => json.realText value

def fieldText (row : Json) (field : String) : Except String String :=
  match row.get field with
  | some (.string s) => .ok s
  | some (.number n) => .ok (json.numberText n)
  | some (.bool b) => .ok (toString b)
  | some .null | none => .error s!"row is missing required field '{field}'"
  | some other => .error s!"field '{field}' has unsupported type: {json.display other}"

/-- The texts of several fields, in order; the first failure wins. -/
def fieldTexts (row : Json) (fields : List String) : Except String (List String) :=
  fields.mapM (json.fieldText row)

/-- A projected row answers for its columns as the image does. -/
theorem fieldText_project (columns : List String) (image : Json) (field : String)
    (member : field ∈ columns) :
    json.fieldText (.object (project columns image)) field = json.fieldText image field := by
  have found : (Json.object (project columns image)).get field =
      some ((image.get field).getD .null) := by
    simp [Json.get, lookup_project, member]
  simp only [fieldText, found]
  cases image.get field <;> rfl

theorem fieldTexts_congr {a b : Json} {fields : List String}
    (same : ∀ field ∈ fields, json.fieldText a field = json.fieldText b field) :
    json.fieldTexts a fields = json.fieldTexts b fields := by
  induction fields with
  | nil => rfl
  | cons field rest ih =>
    simp only [fieldTexts, List.mapM_cons] at ih ⊢
    rw [same field List.mem_cons_self, ih fun f hf => same f (List.mem_cons_of_mem _ hf)]

theorem fieldTexts_project (columns : List String) (image : Json) (fields : List String)
    (inside : ∀ field ∈ fields, field ∈ columns) :
    json.fieldTexts (.object (project columns image)) fields = json.fieldTexts image fields :=
  json.fieldTexts_congr fun field member => json.fieldText_project columns image field
    (inside field member)

/-- A member that is neither null nor nested has a text. -/
theorem fieldText_scalar {row : Json} {field : String}
    (value : ((row.get field).getD .null).isNull = false)
    (scalar : ((row.get field).getD .null).isNested = false) :
    ∃ text, json.fieldText row field = .ok text := by
  unfold fieldText
  cases found : row.get field with
  | none => simp [found, Json.isNull] at value
  | some member => cases member <;> simp_all [Json.isNull, Json.isNested]

end SerdeJson

end TierDb
