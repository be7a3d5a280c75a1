import Mathlib.Algebra.Order.Ring.Int
import Mathlib.Data.List.Infix
import Mathlib.Data.List.TakeWhile
import TierDb.Library.Effect

/-! The DuckDB type of a column, read from its canonical name. -/
namespace TierDb

/-- DuckDB types, as far as the extension makes them or tells their values apart. -/
inductive LogicalType where
  | boolean
  | tinyint | smallint | integer | bigint
  | utinyint | usmallint | uinteger | ubigint
  | float | double
  | date | time | timeTz | timestamp | timestampTz
  | uuid | blob | varchar
  | decimal (width scale : Nat)
  | list (child : LogicalType)
  | array (child : LogicalType) (size : Nat)
  | struct (children : List (String × LogicalType))

/-! `std::string` and `std::stoi`, on characters; positions are of type `size_t`. -/

def npos : Nat := 2^64 - 1

def sizeAdd (a b : Nat) : Nat := (a + b) % 2^64

def sizeSub (a b : Nat) : Nat := (a + (2^64 - b)) % 2^64

def find (text : List Char) (c : Char) : Nat := (text.findIdx? (· = c)).getD npos

def substr (text : List Char) (pos count : Nat) : Except String (List Char) :=
  if text.length < pos then .error "basic_string::substr"
  else .ok ((text.drop pos).take count)

def isSpace (c : Char) : Bool := c = ' ' || (9 ≤ c.toNat && c.toNat ≤ 13)

def stoi (text : List Char) : Except String Int :=
  let (negative,rest) := match text.dropWhile isSpace with
    | '-' :: rest => (true,rest)
    | '+' :: rest => (false,rest)
    | rest => (false,rest)
  let digits := rest.takeWhile Char.isDigit
  let value : Int := if negative then -(Nat.ofDigitChars 10 digits 0) else Nat.ofDigitChars 10 digits 0
  if digits.isEmpty then .error "stoi"
  else if value < -2^31 || 2^31 ≤ value then .error "stoi"
  else .ok value

def upper (text : List Char) : List Char := text.map Char.toUpper

/-- The arguments of a DECIMAL; both are narrowed to 8 bits. -/
def decimalFromChars (t : List Char) : Except String LogicalType := do
  let opening := find t '('
  let close := find t ')'
  let args ← substr t (sizeAdd opening 1) (sizeSub (sizeSub close opening) 1)
  let comma := find args ','
  let width ← stoi (← substr args 0 comma)
  let scale ← stoi (← substr args (sizeAdd comma 1) npos)
  return .decimal (width % 2^8).toNat (scale % 2^8).toNat

def plainType (upper : String) : LogicalType :=
  if upper = "BIGINT" then .bigint
  else if upper = "INTEGER" then .integer
  else if upper = "SMALLINT" then .smallint
  else if upper = "BOOLEAN" then .boolean
  else if upper = "DOUBLE" then .double
  else if upper = "REAL" then .float
  else if upper = "DATE" then .date
  else if upper = "TIME" then .time
  else if upper = "TIME WITH TIME ZONE" then .timeTz
  else if upper = "TIMESTAMP" then .timestamp
  else if upper = "TIMESTAMP WITH TIME ZONE" then .timestampTz
  else if upper = "UUID" then .uuid
  else if upper = "BLOB" then .blob
  else .varchar

def typeFromChars (t : List Char) : Except String LogicalType :=
  if suffix : "[]".toList <:+ t then do
    return .list (← typeFromChars (t.take (t.length - 2)))
  else if "DECIMAL(".toList <+: upper t then decimalFromChars t
  else .ok (plainType (String.ofList (upper t)))
termination_by t.length
decreasing_by
  have long : 2 ≤ t.length := suffix.length_le
  rw [List.length_take]
  omega

def tierDBLogicalTypeFromString (duckdbType : String) : Except String LogicalType :=
  typeFromChars duckdbType.toList

/-- A type of the grammar that tierdb-core prints column types in. -/
inductive TypeName where
  | bigint | integer | smallint | boolean | double | real
  | date | time | timeTz | timestamp | timestampTz
  | uuid | blob | varchar
  | decimal (width scale : Nat) (bounds : 1 ≤ width ∧ width ≤ 38 ∧ scale ≤ width)
  | list (child : TypeName)

namespace TypeName

def print : TypeName → String
  | .bigint => "BIGINT"
  | .integer => "INTEGER"
  | .smallint => "SMALLINT"
  | .boolean => "BOOLEAN"
  | .double => "DOUBLE"
  | .real => "REAL"
  | .date => "DATE"
  | .time => "TIME"
  | .timeTz => "TIME WITH TIME ZONE"
  | .timestamp => "TIMESTAMP"
  | .timestampTz => "TIMESTAMP WITH TIME ZONE"
  | .uuid => "UUID"
  | .blob => "BLOB"
  | .varchar => "VARCHAR"
  | .decimal width scale _ => "DECIMAL(" ++ toString width ++ "," ++ toString scale ++ ")"
  | .list child => child.print ++ "[]"

/-- The type a name stands for. -/
def logical : TypeName → LogicalType
  | .bigint => .bigint
  | .integer => .integer
  | .smallint => .smallint
  | .boolean => .boolean
  | .double => .double
  | .real => .float
  | .date => .date
  | .time => .time
  | .timeTz => .timeTz
  | .timestamp => .timestamp
  | .timestampTz => .timestampTz
  | .uuid => .uuid
  | .blob => .blob
  | .varchar => .varchar
  | .decimal width scale _ => .decimal width scale
  | .list child => .list child.logical

theorem logical_injective : Function.Injective logical := by
  intro a b same
  induction a generalizing b with
  | list child ih =>
    cases b with
    | list other => rw [ih (LogicalType.list.inj same)]
    | _ => cases same
  | decimal width scale bounds =>
    cases b with
    | decimal width' scale' bounds' =>
      obtain ⟨rfl,rfl⟩ := LogicalType.decimal.inj same
      rfl
    | _ => cases same
  | _ => cases b <;> first | rfl | cases same

end TypeName

section Letters

/-- The letters are two ranges of codes. -/
theorem isAlpha_ranges {c : Char} : c.isAlpha = false ↔
    (c.toNat < 65 ∨ 90 < c.toNat) ∧ (c.toNat < 97 ∨ 122 < c.toNat) := by
  have ranges : c.isAlpha = (decide ('A'.val ≤ c.val ∧ c.val ≤ 'Z'.val) ||
      (decide ('a'.val ≤ c.val) && decide (c.val ≤ 'z'.val))) := rfl
  simp [ranges, UInt32.le_iff_toNat_le]
  omega

theorem toUpper_fixed {c d : Char} (made : c.toUpper = d) (plain : d.isAlpha = false) : c = d := by
  unfold Char.toUpper at made
  split at made
  · rename_i small
    subst made
    have moved := (isAlpha_ranges.mp plain).1
    simp only [UInt32.le_iff_toNat_le] at small
    simp only [← Char.toNat_val] at moved
    simp [UInt32.toNat_add] at moved small
    omega
  · exact made

/-- Text without letters is what it is made from. -/
theorem upper_fixed {t plain : List Char} (made : upper t = plain)
    (letterless : ∀ c ∈ plain, c.isAlpha = false) : t = plain := by
  induction t generalizing plain with
  | nil => exact made
  | cons c rest ih =>
    cases plain with
    | nil => cases made
    | cons d tail =>
      obtain ⟨head,later⟩ := List.cons.inj made
      rw [toUpper_fixed head (letterless d List.mem_cons_self),
        ih later fun c member => letterless c (List.mem_cons_of_mem _ member)]

theorem digit_letterless {c : Char} (digit : c.isDigit = true) : c.isAlpha = false := by
  simp only [Char.isDigit, Bool.and_eq_true, decide_eq_true_eq, UInt32.le_iff_toNat_le] at digit
  rw [isAlpha_ranges]
  simp at digit
  omega

end Letters

section Numbers

theorem stoi_digits {digits : List Char} (all : ∀ c ∈ digits, c.isDigit = true)
    (some : digits ≠ []) (small : Nat.ofDigitChars 10 digits 0 < 2^31) :
    stoi digits = .ok (Nat.ofDigitChars 10 digits 0) := by
  obtain ⟨c,rest,rfl⟩ := List.exists_cons_of_ne_nil some
  have digit : c.isDigit = true := all c List.mem_cons_self
  have visible : isSpace c = false := by
    simp only [Char.isDigit, Bool.and_eq_true, decide_eq_true_eq, UInt32.le_iff_toNat_le] at digit
    have space : c ≠ ' ' := by rintro rfl; simp at digit
    simp only [isSpace, space, decide_false, Bool.false_or, Bool.and_eq_false_iff,
      decide_eq_false_iff_not]
    simp at digit
    omega
  have kept : (c :: rest).dropWhile isSpace = c :: rest := by simp [visible]
  have taken : (c :: rest).takeWhile Char.isDigit = c :: rest := List.takeWhile_eq_self_iff.mpr all
  have bounds : ¬((Nat.ofDigitChars 10 (c :: rest) 0 : Int) < -2^31 ∨
      2^31 ≤ (Nat.ofDigitChars 10 (c :: rest) 0 : Int)) := by omega
  unfold stoi
  rw [kept]
  split
  rename_i negative unsigned split
  have plain : negative = false ∧ unsigned = c :: rest := by
    split at split
    · rename_i same
      obtain ⟨rfl,_⟩ := List.cons.inj same
      simp at digit
    · rename_i same
      obtain ⟨rfl,_⟩ := List.cons.inj same
      simp at digit
    · obtain ⟨rfl,rfl⟩ := Prod.mk.inj split
      exact ⟨rfl,rfl⟩
  obtain ⟨rfl,rfl⟩ := plain
  simpa [taken] using bounds

/-- A printed number reads back. -/
theorem stoi_toDigits {n : Nat} (small : n < 2^31) : stoi (Nat.toDigits 10 n) = .ok n := by
  have value : Nat.ofDigitChars 10 (Nat.toDigits 10 n) 0 = n := Nat.ofDigitChars_ten_toDigits
  rw [stoi_digits (fun c => Nat.isDigit_of_mem_toDigits (by decide) (by decide)) Nat.toDigits_ne_nil
    (by rwa [value]), value]

/-- The first place of a character that no earlier text holds. -/
theorem find_append {front back : List Char} {c : Char} (absent : c ∉ front) :
    find (front ++ c :: back) c = front.length := by
  have none : front.findIdx? (· = c) = none := by
    rw [List.findIdx?_eq_none_iff]
    intro x inside
    exact decide_eq_false fun same => absent (same ▸ inside)
  simp [find, List.findIdx?_append, none, List.findIdx?_cons]

theorem substr_append (front middle back : List Char) :
    substr (front ++ middle ++ back) front.length middle.length = .ok middle := by
  simp [substr]

end Numbers

namespace TypeName

/-- The text between the parentheses. -/
def arguments (width scale : Nat) : List Char :=
  Nat.toDigits 10 width ++ ',' :: Nat.toDigits 10 scale

theorem digits_short {n : Nat} (small : n < 100) : (Nat.toDigits 10 n).length ≤ 2 :=
  (Nat.length_toDigits_le_iff (by decide) (by decide)).mpr small

theorem arguments_chars {width scale : Nat} :
    ∀ c ∈ arguments width scale, c.isDigit = true ∨ c = ',' := by
  intro c member
  rcases List.mem_append.mp member with digit | later
  · exact .inl (Nat.isDigit_of_mem_toDigits (by decide) (by decide) digit)
  · rcases List.mem_cons.mp later with comma | digit
    · exact .inr comma
    · exact .inl (Nat.isDigit_of_mem_toDigits (by decide) (by decide) digit)

theorem arguments_length (width scale : Nat) : (arguments width scale).length =
    (Nat.toDigits 10 width).length + (Nat.toDigits 10 scale).length + 1 := by
  simp [arguments, Nat.add_assoc]

/-- The two arguments are cut apart at their comma. -/
theorem arguments_cut (width : Nat) {scale : Nat} (deep : scale < 100) :
    find (arguments width scale) ',' = (Nat.toDigits 10 width).length ∧
      substr (arguments width scale) 0 (Nat.toDigits 10 width).length =
        .ok (Nat.toDigits 10 width) ∧
      substr (arguments width scale) ((Nat.toDigits 10 width).length + 1) npos =
        .ok (Nat.toDigits 10 scale) := by
  refine ⟨?_,by simp [substr, arguments],?_⟩
  · apply find_append
    intro inside
    exact absurd (Nat.isDigit_of_mem_toDigits (by decide) (by decide) inside) (by decide)
  · have all : (Nat.toDigits 10 scale).length ≤ npos := Nat.le_trans (digits_short deep) (by decide)
    have drops : (arguments width scale).drop ((Nat.toDigits 10 width).length + 1) =
        Nat.toDigits 10 scale := by simp [arguments]
    have inside : ¬(arguments width scale).length < (Nat.toDigits 10 width).length + 1 := by
      rw [arguments_length]
      omega
    rw [substr, if_neg inside, drops, List.take_of_length_le all]

/-- The parentheses enclose the arguments. -/
theorem parentheses_found {front inner : List Char} (opening : '(' ∉ front) (closing : ')' ∉ front)
    (plain : ')' ∉ inner) :
    find (front ++ '(' :: (inner ++ [')'])) '(' = front.length ∧
      find (front ++ '(' :: (inner ++ [')'])) ')' = front.length + 1 + inner.length ∧
      substr (front ++ '(' :: (inner ++ [')'])) (front.length + 1) inner.length = .ok inner := by
  refine ⟨find_append opening,?_,?_⟩
  · have absent : ')' ∉ front ++ '(' :: inner := by
      simp only [List.mem_append, List.mem_cons, not_or]
      exact ⟨closing,by decide,plain⟩
    have whole : front ++ '(' :: (inner ++ [')']) = (front ++ '(' :: inner) ++ ')' :: [] := by simp
    rw [whole, find_append absent, List.length_append, List.length_cons]
    omega
  · have whole : front ++ '(' :: (inner ++ [')']) = (front ++ ['(']) ++ inner ++ [')'] := by simp
    have length : (front ++ ['(']).length = front.length + 1 := by simp
    rw [whole, ← length, substr_append]

theorem decimal_reads {front : List Char} {width scale : Nat} (length : front.length = 7)
    (opening : '(' ∉ front) (closing : ')' ∉ front) (wide : width < 100) (deep : scale < 100) :
    decimalFromChars (front ++ '(' :: (arguments width scale ++ [')'])) =
      .ok (.decimal width scale) := by
  have plain : ')' ∉ arguments width scale := by
    intro inside
    rcases arguments_chars _ inside with digit | comma
    · exact absurd digit (by decide)
    · exact absurd comma (by decide)
  obtain ⟨opens,closes,between⟩ := parentheses_found opening closing plain
  obtain ⟨comma,first,second⟩ := arguments_cut width deep
  rw [length] at opens closes between
  have short : (Nat.toDigits 10 width).length ≤ 2 := digits_short wide
  have short' : (Nat.toDigits 10 scale).length ≤ 2 := digits_short deep
  have size := arguments_length width scale
  have start : sizeAdd 7 1 = 7 + 1 := by decide
  have count : sizeSub (sizeSub (7 + 1 + (arguments width scale).length) 7) 1 =
      (arguments width scale).length := by
    unfold sizeSub
    omega
  have next : sizeAdd (Nat.toDigits 10 width).length 1 = (Nat.toDigits 10 width).length + 1 := by
    unfold sizeAdd
    omega
  have narrow : ((width : Int) % 2^8).toNat = width := by omega
  have narrow' : ((scale : Int) % 2^8).toNat = scale := by omega
  unfold decimalFromChars
  simp only [opens, closes, start, count, between, comma, first, next, second, bind, Except.bind,
    stoi_toDigits (show width < 2^31 by omega), stoi_toDigits (show scale < 2^31 by omega), narrow,
    narrow', pure, Except.pure]

end TypeName

theorem typeFromChars_list (t : List Char) :
    typeFromChars (t ++ "[]".toList) = LogicalType.list <$> typeFromChars t := by
  have suffix : "[]".toList <:+ t ++ "[]".toList := List.suffix_append ..
  have front : (t ++ "[]".toList).take ((t ++ "[]".toList).length - 2) = t := by simp
  rw [typeFromChars, dif_pos suffix, front]
  cases typeFromChars t <;> rfl

theorem not_list {t name : List Char} (made : upper t = name) (plain : ¬"[]".toList <:+ name) :
    ¬"[]".toList <:+ t := by
  intro suffix
  have mapped : upper "[]".toList <:+ upper t := suffix.map Char.toUpper
  rw [made] at mapped
  exact plain mapped

theorem typeFromChars_plain {t : List Char} {name : String} (made : upper t = name.toList)
    (single : ¬"[]".toList <:+ name.toList) (simple : ¬"DECIMAL(".toList <+: name.toList) :
    typeFromChars t = .ok (plainType name) := by
  rw [typeFromChars, dif_neg (not_list made single), made, if_neg simple, String.ofList_toList]

theorem typeFromChars_decimal {t : List Char} {width scale : Nat}
    (bounds : 1 ≤ width ∧ width ≤ 38 ∧ scale ≤ width)
    (named : upper t = (TypeName.decimal width scale bounds).print.toList) :
    typeFromChars t = .ok (.decimal width scale) := by
  have parts : (TypeName.decimal width scale bounds).print.toList =
      "DECIMAL".toList ++ '(' :: (TypeName.arguments width scale ++ [')']) := by
    simp [TypeName.print, TypeName.arguments]
  rw [parts] at named
  have single : ¬"[]".toList <:+ t := by
    apply not_list named
    rintro ⟨before,ends⟩
    have last := congrArg List.getLast? ends
    rw [← List.cons_append, ← List.append_assoc, List.getLast?_concat, List.getLast?_append] at last
    simp at last
  have prefixed : "DECIMAL(".toList <+: upper t := by
    rw [named]
    exact ⟨TypeName.arguments width scale ++ [')'],by simp⟩
  obtain ⟨front,rest,rfl,letters,fixed⟩ := List.map_eq_append_iff.mp named
  have letterless : ∀ c ∈ '(' :: (TypeName.arguments width scale ++ [')']),
      c.isAlpha = false := by
    intro c member
    rcases List.mem_cons.mp member with rfl | member
    · rfl
    · rcases List.mem_append.mp member with inside | close
      · rcases TypeName.arguments_chars c inside with digit | rfl
        · exact digit_letterless digit
        · rfl
      · rw [List.mem_singleton.mp close]
        rfl
  have length : front.length = 7 := by
    rw [← List.length_map Char.toUpper, letters]
    rfl
  have absent : ∀ c, c.toUpper ∉ "DECIMAL".toList → c ∉ front := by
    intro c plain inside
    exact plain (letters ▸ List.mem_map_of_mem inside)
  rw [typeFromChars, dif_neg single, if_pos prefixed, upper_fixed fixed letterless]
  exact TypeName.decimal_reads length (absent '(' (by decide)) (absent ')' (by decide)) (by omega)
    (by omega)

/-- A canonical name, in any mixture of letter case, reads as the type it stands for, and
no two names stand for one type. -/
theorem type_names_read :
    (∀ (type : TypeName) (text : String), upper text.toList = type.print.toList →
      tierDBLogicalTypeFromString text = .ok type.logical) ∧
    ∀ a b : TypeName, a.logical = b.logical → a = b := by
  refine ⟨fun type text named => ?_,fun a b same => TypeName.logical_injective same⟩
  unfold tierDBLogicalTypeFromString
  generalize text.toList = t at named
  induction type generalizing t with
  | decimal width scale bounds => exact typeFromChars_decimal bounds named
  | list child ih =>
    rw [TypeName.print, String.toList_append] at named
    obtain ⟨front,suffix,rfl,printed,brackets⟩ := List.map_eq_append_iff.mp named
    have plain : ∀ c ∈ "[]".toList, c.isAlpha = false := by
      intro c member
      have bracket : c = '[' ∨ c = ']' := by simpa using member
      rcases bracket with rfl | rfl <;> rfl
    rw [upper_fixed brackets plain, typeFromChars_list, ih front printed]
    rfl
  | _ => exact typeFromChars_plain named (by decide) (by decide)

end TierDb
