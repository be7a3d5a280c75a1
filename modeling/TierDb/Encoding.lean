import TierDb.Encoders
import TierDb.LogicalType

/-! Which values of one type the JSON encoder confuses. -/
namespace TierDb

def LogicalType.signedBits : LogicalType → Option Nat
  | .tinyint => some 8
  | .smallint => some 16
  | .integer => some 32
  | .bigint => some 64
  | _ => none

def LogicalType.unsignedBits : LogicalType → Option Nat
  | .utinyint => some 8
  | .usmallint => some 16
  | .uinteger => some 32
  | .ubigint => some 64
  | _ => none

mutual

/-- The values of the types built from BOOLEAN, the integers and VARCHAR by LIST, ARRAY and
STRUCT; any of them may be NULL. -/
inductive HasType : LogicalType → Value → Prop
  | null {type : LogicalType} : HasType type .null
  | boolean {b : Bool} : HasType .boolean (.boolean b)
  | signed {type : LogicalType} {bits : Nat} {n : Int} (width : type.signedBits = some bits)
      (range : -2^(bits - 1) ≤ n ∧ n < 2^(bits - 1)) : HasType type (.signed n)
  | unsigned {type : LogicalType} {bits n : Nat} (width : type.unsignedBits = some bits)
      (range : n < 2^bits) : HasType type (.unsigned n)
  | varchar {text : String} : HasType .varchar (.other text)
  | list {type : LogicalType} {children : List Value} (elements : HasElements type children) :
      HasType (.list type) (.list children)
  | array {type : LogicalType} {size : Nat} {children : List Value}
      (elements : HasElements type children) (length : children.length = size) :
      HasType (.array type size) (.list children)
  | struct {fields : List (String × LogicalType)} {children : List (String × Value)}
      (members : HasFields fields children) : HasType (.struct fields) (.struct children)

inductive HasElements : LogicalType → List Value → Prop
  | nil {type : LogicalType} : HasElements type []
  | cons {type : LogicalType} {child : Value} {rest : List Value} (first : HasType type child)
      (later : HasElements type rest) : HasElements type (child :: rest)

inductive HasFields : List (String × LogicalType) → List (String × Value) → Prop
  | nil : HasFields [] []
  | cons {name : String} {type : LogicalType} {child : Value}
      {fields : List (String × LogicalType)} {rest : List (String × Value)}
      (first : HasType type child) (later : HasFields fields rest) :
      HasFields ((name,type) :: fields) ((name,child) :: rest)

end

mutual

/-- The value with every text cut at its first NUL. -/
def Value.untilNul : Value → Value
  | .list children => .list (Value.untilNulAll children)
  | .struct children => .struct (Value.untilNulFields children)
  | .other text => .other (cString text)
  | value => value

def Value.untilNulAll : List Value → List Value
  | [] => []
  | child :: rest => child.untilNul :: Value.untilNulAll rest

def Value.untilNulFields : List (String × Value) → List (String × Value)
  | [] => []
  | (name,child) :: rest => (name,child.untilNul) :: Value.untilNulFields rest

end

/-- The values differ, but only behind a NUL of their texts. -/
def DifferBehindNul (v w : Value) : Prop := v ≠ w ∧ v.untilNul = w.untilNul

theorem unsignedBits_signed {type : LogicalType} {bits : Nat} (width : type.signedBits = some bits) :
    type.unsignedBits = none := by
  cases type <;> first | rfl | cases width

mutual

/-- Two values of one type have the same JSON exactly when they agree up to the first NUL
of every text. -/
theorem toJson_eq_iff : ∀ (v : Value) {w : Value} {type : LogicalType}, HasType type v →
    HasType type w → (tierDBValueToJson v = tierDBValueToJson w ↔ v.untilNul = w.untilNul)
  | .null, w, type, _, second => by
    cases second <;> simp [tierDBValueToJson, Value.untilNul]
  | .boolean b, w, type, first, second => by
    cases first
    cases second <;> simp_all [tierDBValueToJson, Value.untilNul, LogicalType.signedBits,
      LogicalType.unsignedBits]
  | .signed n, w, type, first, second => by
    cases first with
    | signed width _ =>
      cases second with
      | unsigned other _ => cases other.symm.trans (unsignedBits_signed width)
      | null | signed => simp [tierDBValueToJson, Value.untilNul]
      | _ => cases width
  | .unsigned n, w, type, first, second => by
    cases first with
    | unsigned width _ =>
      cases second with
      | signed other _ => cases width.symm.trans (unsignedBits_signed other)
      | null | unsigned => simp [tierDBValueToJson, Value.untilNul]
      | _ => cases width
  | .double d, w, type, first, _ => by cases first
  | .other text, w, type, first, second => by
    cases first
    cases second <;> simp_all [tierDBValueToJson, Value.untilNul, LogicalType.signedBits,
      LogicalType.unsignedBits]
  | .list children, w, type, first, second => by
    cases first with
    | list elements =>
      cases second with
      | null => simp [tierDBValueToJson, Value.untilNul]
      | list others =>
        simpa [tierDBValueToJson, Value.untilNul] using childrenToJson_eq_iff children elements others
      | signed width _ => cases width
      | unsigned width _ => cases width
    | array elements _ =>
      cases second with
      | null => simp [tierDBValueToJson, Value.untilNul]
      | array others _ =>
        simpa [tierDBValueToJson, Value.untilNul] using childrenToJson_eq_iff children elements others
      | signed width _ => cases width
      | unsigned width _ => cases width
  | .struct children, w, type, first, second => by
    cases first with
    | struct members =>
      cases second with
      | null => simp [tierDBValueToJson, Value.untilNul]
      | struct others =>
        simpa [tierDBValueToJson, Value.untilNul] using fieldsToJson_eq_iff children members others
      | signed width _ => cases width
      | unsigned width _ => cases width

theorem childrenToJson_eq_iff : ∀ (vs : List Value) {ws : List Value} {type : LogicalType},
    HasElements type vs → HasElements type ws →
    (childrenToJson vs = childrenToJson ws ↔ Value.untilNulAll vs = Value.untilNulAll ws)
  | [], ws, type, _, second => by
    cases second <;> simp [childrenToJson, Value.untilNulAll]
  | v :: vs, ws, type, first, second => by
    cases first with
    | cons head tail =>
      cases second with
      | nil => simp [childrenToJson, Value.untilNulAll]
      | cons head' tail' =>
        simp [childrenToJson, Value.untilNulAll, toJson_eq_iff v head head',
          childrenToJson_eq_iff vs tail tail']

theorem fieldsToJson_eq_iff : ∀ (vs : List (String × Value)) {ws : List (String × Value)}
    {fields : List (String × LogicalType)}, HasFields fields vs → HasFields fields ws →
    (fieldsToJson vs = fieldsToJson ws ↔ Value.untilNulFields vs = Value.untilNulFields ws)
  | [], ws, fields, first, second => by
    cases first
    cases second
    simp
  | (name,v) :: vs, ws, fields, first, second => by
    cases first with
    | cons head tail =>
      cases second with
      | cons head' tail' =>
        simp [fieldsToJson, Value.untilNulFields, toJson_eq_iff v head head',
          fieldsToJson_eq_iff vs tail tail']

end

/-- The encoder keeps two values of one type apart exactly when they do not differ behind
a NUL only. -/
theorem encoding_keeps_iff {type : LogicalType} {v w : Value} (first : HasType type v)
    (second : HasType type w) : (tierDBValueToJson v = tierDBValueToJson w → v = w) ↔
      ¬DifferBehindNul v w := by
  rw [toJson_eq_iff v first second, DifferBehindNul]
  constructor
  · rintro kept ⟨differ,agree⟩
    exact differ (kept agree)
  · intro behind agree
    exact by_contra fun differ => behind ⟨differ,agree⟩

theorem integer_lists_kept : (tierDBValueToJson (.list [.signed 1,.null]) =
    tierDBValueToJson (.list [.null,.signed 1]) →
      Value.list [.signed 1,.null] = .list [.null,.signed 1]) ↔
    ¬DifferBehindNul (.list [.signed 1,.null]) (.list [.null,.signed 1]) := by
  have one : HasType .integer (.signed 1) := .signed rfl (by decide)
  exact encoding_keeps_iff (.list (.cons one (.cons .null .nil)))
    (.list (.cons .null (.cons one .nil)))

/-- The texts "a" and "a\0b" are written alike. -/
theorem nul_text_lost : ¬∀ type v w, HasType type v → HasType type w →
    tierDBValueToJson v = tierDBValueToJson w → v = w := by
  intro claim
  have same := claim .varchar (.other "a") (.other "a\x00b") .varchar .varchar (by decide)
  have texts : "a" = "a\x00b" := Value.other.inj same
  exact absurd texts (by decide)

end TierDb
