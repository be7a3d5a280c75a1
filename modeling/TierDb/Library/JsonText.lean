import Mathlib.Data.List.Chain
import Mathlib.Data.List.TakeWhile

/-! JSON documents as text. A document is written without blanks and read by the grammar of
the format; what was written is read back. Numbers are kept as they are spelled. -/
namespace JsonText

inductive Doc where
  | null
  | bool (value : Bool)
  | number (spelling : List Char)
  | string (text : List Char)
  | array (elements : List Doc)
  | object (members : List (List Char × Doc))

inductive Token where
  | leftBrace
  | rightBrace
  | leftBracket
  | rightBracket
  | comma
  | colon
  | null
  | bool (value : Bool)
  | number (spelling : List Char)
  | string (text : List Char)
  deriving DecidableEq, Repr

section Numbers

/-- At least one digit, and nothing else. -/
def isDigits (text : List Char) : Bool := !text.isEmpty && text.all Char.isDigit

def isExponent : List Char → Bool
  | [] => true
  | e :: '+' :: digits | e :: '-' :: digits => (e = 'e' || e = 'E') && isDigits digits
  | e :: digits => (e = 'e' || e = 'E') && isDigits digits

/-- What may follow the integer part. -/
def isFraction : List Char → Bool
  | '.' :: c :: rest => c.isDigit && isExponent (rest.dropWhile Char.isDigit)
  | rest => isExponent rest

/-- No superfluous leading zero. -/
def isUnsigned : List Char → Bool
  | '0' :: rest => isFraction rest
  | c :: rest => c.isDigit && isFraction (rest.dropWhile Char.isDigit)
  | [] => false

def isNumber : List Char → Bool
  | '-' :: rest => isUnsigned rest
  | text => isUnsigned text

def isNumberChar (c : Char) : Bool :=
  c.isDigit || c = '-' || c = '+' || c = '.' || c = 'e' || c = 'E'

/-- The decimal spelling of an integer. -/
def integer : Int → List Char
  | .ofNat n => Nat.toDigits 10 n
  | .negSucc n => '-' :: Nat.toDigits 10 (n + 1)

/-- The integer a number spells, if it is one. -/
def readInteger : List Char → Option Int
  | '-' :: digits => if isDigits digits then some (-(Nat.ofDigitChars 10 digits 0 : Int)) else none
  | digits => if isDigits digits then some (Nat.ofDigitChars 10 digits 0) else none

theorem isDigits_toDigits (n : Nat) : isDigits (Nat.toDigits 10 n) = true := by
  have digits : ∀ c ∈ Nat.toDigits 10 n, c.isDigit = true :=
    fun c => Nat.isDigit_of_mem_toDigits (by decide) (by decide)
  simpa [isDigits, Nat.toDigits_ne_nil] using digits

theorem digit_ne_minus {c : Char} (digit : c.isDigit = true) : c ≠ '-' := by
  rintro rfl
  simp at digit

theorem readInteger_digits {digits : List Char} (all : isDigits digits = true) :
    readInteger digits = some (Nat.ofDigitChars 10 digits 0 : Int) := by
  cases digits with
  | nil => simp [isDigits] at all
  | cons c rest =>
    have first : c ≠ '-' := digit_ne_minus (by simp_all [isDigits])
    unfold readInteger
    split
    · rename_i same
      exact absurd (List.cons.inj same).1 first
    · rw [if_pos all]

@[simp] theorem readInteger_integer (i : Int) : readInteger (integer i) = some i := by
  cases i with
  | ofNat n => rw [integer, readInteger_digits (isDigits_toDigits n), Nat.ofDigitChars_ten_toDigits]; rfl
  | negSucc n =>
    rw [integer, readInteger, if_pos (isDigits_toDigits (n + 1)), Nat.ofDigitChars_ten_toDigits]
    rfl

theorem digitChar_first {n : Nat} (small : n < 10) (positive : 0 < n) :
    n.digitChar ≠ '0' ∧ n.digitChar.isDigit = true := by
  revert positive
  revert n
  decide

/-- A positive number's digits begin with one that is not zero. -/
theorem toDigits_first {n : Nat} (positive : 0 < n) :
    ∃ c rest, Nat.toDigits 10 n = c :: rest ∧ c ≠ '0' ∧ c.isDigit = true := by
  induction n using Nat.strongRecOn with
  | _ n ih =>
    by_cases small : n < 10
    · exact ⟨n.digitChar,[],Nat.toDigits_of_lt_base small,digitChar_first small positive⟩
    · obtain ⟨c,rest,front,first⟩ := ih (n / 10) (by omega) (by omega)
      rw [Nat.toDigits_of_base_le (by decide) (by omega), front]
      exact ⟨c,_,rfl,first⟩

theorem isFraction_digits {rest : List Char} (digits : ∀ c ∈ rest, c.isDigit = true) :
    isFraction (rest.dropWhile Char.isDigit) = true := by
  rw [List.dropWhile_eq_nil_iff.mpr digits]
  rfl

theorem isUnsigned_toDigits (n : Nat) : isUnsigned (Nat.toDigits 10 n) = true := by
  rcases Nat.eq_zero_or_pos n with rfl | positive
  · rw [Nat.toDigits_zero]
    rfl
  · obtain ⟨c,rest,digits,nonzero,first⟩ := toDigits_first positive
    have all : ∀ d ∈ rest, d.isDigit = true := fun d member =>
      Nat.isDigit_of_mem_toDigits (n := n) (b := 10) (by decide) (by decide) (by simp [digits, member])
    rw [digits]
    unfold isUnsigned
    split
    · rename_i same
      exact absurd (List.cons.inj same).1 nonzero
    · rename_i same
      obtain ⟨rfl,rfl⟩ := List.cons.inj same
      simp [first, isFraction_digits all]
    · rename_i same
      cases same

theorem isNumber_integer (i : Int) : isNumber (integer i) = true := by
  cases i with
  | negSucc n => exact isUnsigned_toDigits (n + 1)
  | ofNat n =>
    have digits := isDigits_toDigits n
    unfold isNumber integer
    split
    · rename_i same
      simp [isDigits, same] at digits
    · exact isUnsigned_toDigits n

theorem isNumberChar_digit {c : Char} (digit : c.isDigit = true) : isNumberChar c = true := by
  simp [isNumberChar, digit]

theorem isDigits_chars {text : List Char} (digits : isDigits text = true) :
    ∀ c ∈ text, isNumberChar c = true := by
  simp only [isDigits, Bool.and_eq_true, List.all_eq_true] at digits
  exact fun c member => isNumberChar_digit (digits.2 c member)

/-- The digits before a part of a number are characters of numbers as well. -/
theorem chars_of_dropWhile {rest : List Char}
    (chars : ∀ c ∈ rest.dropWhile Char.isDigit, isNumberChar c = true) :
    ∀ c ∈ rest, isNumberChar c = true := by
  intro c member
  rw [← List.takeWhile_append_dropWhile (p := Char.isDigit) (l := rest)] at member
  rcases List.mem_append.mp member with digit | later
  · exact isNumberChar_digit (by simpa using List.mem_takeWhile_imp digit)
  · exact chars c later

theorem isExponent_chars {text : List Char} (exponent : isExponent text = true) :
    ∀ c ∈ text, isNumberChar c = true := by
  unfold isExponent at exponent
  split at exponent
  · simp
  all_goals
    simp only [Bool.and_eq_true, Bool.or_eq_true, decide_eq_true_eq] at exponent
    have digits := isDigits_chars exponent.2
    rcases exponent.1 with rfl | rfl <;> simpa [isNumberChar] using digits

theorem isFraction_chars {text : List Char} (fraction : isFraction text = true) :
    ∀ c ∈ text, isNumberChar c = true := by
  unfold isFraction at fraction
  split at fraction
  · rename_i c rest
    simp only [Bool.and_eq_true] at fraction
    have later := chars_of_dropWhile (isExponent_chars fraction.2)
    simpa [isNumberChar_digit fraction.1, show isNumberChar '.' = true from rfl] using later
  · exact isExponent_chars fraction

theorem isUnsigned_chars {text : List Char} (unsigned : isUnsigned text = true) :
    (∃ c rest, text = c :: rest ∧ c.isDigit = true) ∧ ∀ c ∈ text, isNumberChar c = true := by
  unfold isUnsigned at unsigned
  split at unsigned
  · exact ⟨⟨_,_,rfl,rfl⟩,by simpa [show isNumberChar '0' = true from rfl] using isFraction_chars unsigned⟩
  · simp only [Bool.and_eq_true] at unsigned
    have later := chars_of_dropWhile (isFraction_chars unsigned.2)
    exact ⟨⟨_,_,rfl,unsigned.1⟩,by simpa [isNumberChar_digit unsigned.1] using later⟩
  · cases unsigned

/-- A number begins with its sign or a digit and has no characters but those of numbers. -/
theorem isNumber_chars {text : List Char} (number : isNumber text = true) :
    (∃ c rest, text = c :: rest ∧ (c = '-' ∨ c.isDigit = true)) ∧
      ∀ c ∈ text, isNumberChar c = true := by
  unfold isNumber at number
  split at number
  · exact ⟨⟨_,_,rfl,.inl rfl⟩,
      by simpa [show isNumberChar '-' = true from rfl] using (isUnsigned_chars number).2⟩
  · obtain ⟨⟨c,rest,same,digit⟩,chars⟩ := isUnsigned_chars number
    exact ⟨⟨c,rest,same,.inr digit⟩,chars⟩

end Numbers

section Strings

/-- Writers differ in the case of their digits. -/
def hexDigit (upper : Bool) (n : Nat) : Char :=
  (if upper then "0123456789ABCDEF" else "0123456789abcdef").toList.getD n '0'

def hexValue (c : Char) : Option Nat :=
  if c.isDigit then some (c.toNat - '0'.toNat)
  else if 'a' ≤ c ∧ c ≤ 'f' then some (c.toNat - 'a'.toNat + 10)
  else if 'A' ≤ c ∧ c ≤ 'F' then some (c.toNat - 'A'.toNat + 10)
  else none

/-- A character inside a string. Control characters without a name are spelled by their
code. -/
def escape (upper : Bool) (c : Char) : List Char :=
  if c = '"' then ['\\','"']
  else if c = '\\' then ['\\','\\']
  else if c = '\n' then ['\\','n']
  else if c = '\r' then ['\\','r']
  else if c = '\t' then ['\\','t']
  else if c = '\x08' then ['\\','b']
  else if c = '\x0c' then ['\\','f']
  else if c.toNat < 0x20 then
    ['\\','u','0','0',hexDigit upper (c.toNat / 16),hexDigit upper (c.toNat % 16)]
  else [c]

def unescape : Char → Option Char
  | '"' => some '"'
  | '\\' => some '\\'
  | '/' => some '/'
  | 'n' => some '\n'
  | 'r' => some '\r'
  | 't' => some '\t'
  | 'b' => some '\x08'
  | 'f' => some '\x0c'
  | _ => none

def readHex : List Char → Option (Nat × List Char)
  | a :: b :: c :: d :: rest => do
    let a ← hexValue a
    let b ← hexValue b
    let c ← hexValue c
    let d ← hexValue d
    some (((a * 16 + b) * 16 + c) * 16 + d,rest)
  | _ => none

/-- The code after `\u`; a character outside the basic plane takes two. -/
def readCode (text : List Char) : Option (Char × List Char) := do
  let (code,rest) ← readHex text
  if 0xD800 ≤ code ∧ code < 0xDC00 then
    match rest with
    | '\\' :: 'u' :: rest =>
      let (low,rest) ← readHex rest
      if 0xDC00 ≤ low ∧ low < 0xE000 then
        some (Char.ofNat (0x10000 + (code - 0xD800) * 0x400 + (low - 0xDC00)),rest)
      else none
    | _ => none
  else if 0xDC00 ≤ code ∧ code < 0xE000 then none
  else some (Char.ofNat code,rest)

/-- One character of a string, or its end. -/
def readChar : List Char → Option (Option Char × List Char)
  | [] => none
  | '"' :: rest => some (none,rest)
  | '\\' :: 'u' :: rest => (readCode rest).map fun (c,rest) => (some c,rest)
  | '\\' :: c :: rest => (unescape c).map fun c => (some c,rest)
  | c :: rest => if c.toNat < 0x20 then none else some (some c,rest)

/-- The rest of a string and what follows it. -/
def readString : Nat → List Char → Option (List Char × List Char)
  | 0, _ => none
  | n + 1, text =>
    match readChar text with
    | none => none
    | some (none,rest) => some ([],rest)
    | some (some c,rest) => (readString n rest).map fun (body,rest) => (c :: body,rest)

theorem hexValue_hexDigit : ∀ upper n, n < 16 → hexValue (hexDigit upper n) = some n := by decide

variable {upper : Bool}

theorem readChar_escape (c : Char) (rest : List Char) :
    readChar (escape upper c ++ rest) = some (some c,rest) := by
  unfold escape
  split_ifs with quote slash newline cr tab back feed control
  · subst quote; rfl
  · subst slash; rfl
  · subst newline; rfl
  · subst cr; rfl
  · subst tab; rfl
  · subst back; rfl
  · subst feed; rfl
  · have high := hexValue_hexDigit upper (c.toNat / 16) (by omega)
    have low := hexValue_hexDigit upper (c.toNat % 16) (by omega)
    have zero : hexValue '0' = some 0 := by decide
    have code : c.toNat / 16 * 16 + c.toNat % 16 = c.toNat := by omega
    have plain : ¬(0xD800 ≤ c.toNat ∧ c.toNat < 0xDC00) := by omega
    have single : ¬(0xDC00 ≤ c.toNat ∧ c.toNat < 0xE000) := by omega
    simp [readChar, readCode, readHex, zero, high, low, code, plain, single, Char.ofNat_toNat]
  · have rest_ : readChar (c :: rest) = if c.toNat < 0x20 then none else some (some c,rest) := by
      unfold readChar
      split <;> simp_all
    rw [List.singleton_append, rest_, if_neg control]

theorem readString_escape (upper : Bool) (body rest : List Char) {n : Nat} (enough : body.length < n) :
    readString n (body.flatMap (escape upper) ++ '"' :: rest) = some (body,rest) := by
  induction body generalizing n with
  | nil =>
    obtain ⟨m,rfl⟩ := Nat.exists_eq_add_of_lt enough
    simp [readString, readChar]
  | cons c body ih =>
    obtain ⟨m,rfl⟩ := Nat.exists_eq_add_of_lt (Nat.zero_lt_of_lt enough)
    rw [Nat.zero_add, List.flatMap_cons, List.append_assoc, readString, readChar_escape]
    simp [ih (n := m) (by simp at enough; omega)]

theorem escape_nonempty (c : Char) : escape upper c ≠ [] := by
  unfold escape
  split_ifs <;> simp

/-- Writing something for each element is at least as long as the list. -/
theorem length_le_flatMap {α β : Type} {f : α → List β} {list : List α}
    (nonempty : ∀ a ∈ list, f a ≠ []) : list.length ≤ (list.flatMap f).length := by
  induction list with
  | nil => rfl
  | cons a rest ih =>
    have one := List.length_pos_of_ne_nil (nonempty a List.mem_cons_self)
    have later := ih fun b member => nonempty b (List.mem_cons_of_mem _ member)
    simp only [List.length_cons, List.flatMap_cons, List.length_append]
    omega

end Strings

section Tokens

variable {upper : Bool}

def isBlank (c : Char) : Bool := c = ' ' || c = '\t' || c = '\n' || c = '\r'

/-- The token a text begins with, and what follows it. -/
def readToken : List Char → Option (Token × List Char)
  | '{' :: rest => some (.leftBrace,rest)
  | '}' :: rest => some (.rightBrace,rest)
  | '[' :: rest => some (.leftBracket,rest)
  | ']' :: rest => some (.rightBracket,rest)
  | ',' :: rest => some (.comma,rest)
  | ':' :: rest => some (.colon,rest)
  | '"' :: rest => (readString (rest.length + 1) rest).map fun (body,rest) => (.string body,rest)
  | 'n' :: 'u' :: 'l' :: 'l' :: rest => some (.null,rest)
  | 't' :: 'r' :: 'u' :: 'e' :: rest => some (.bool true,rest)
  | 'f' :: 'a' :: 'l' :: 's' :: 'e' :: rest => some (.bool false,rest)
  | text =>
    if isNumber (text.takeWhile isNumberChar) then
      some (.number (text.takeWhile isNumberChar),text.dropWhile isNumberChar)
    else none

/-- The tokens of a text; blanks may stand between them. -/
def lexFrom : Nat → List Char → Option (List Token)
  | 0, _ => none
  | n + 1, text =>
    match text.dropWhile isBlank with
    | [] => some []
    | c :: rest => do
      let (token,rest) ← readToken (c :: rest)
      let tokens ← lexFrom n rest
      some (token :: tokens)

def Token.spell (upper : Bool) : Token → List Char
  | .leftBrace => ['{']
  | .rightBrace => ['}']
  | .leftBracket => ['[']
  | .rightBracket => [']']
  | .comma => [',']
  | .colon => [':']
  | .null => "null".toList
  | .bool true => "true".toList
  | .bool false => "false".toList
  | .number spelling => spelling
  | .string text => '"' :: text.flatMap (escape upper) ++ ['"']

def Token.isNumber : Token → Bool
  | .number _ => true
  | _ => false

def Token.Valid : Token → Prop
  | .number spelling => JsonText.isNumber spelling = true
  | _ => True

/-- No two numbers stand side by side. -/
def Separated (tokens : List Token) : Prop :=
  tokens.IsChain fun a b => a.isNumber = false ∨ b.isNumber = false

theorem spell_first (upper : Bool) {token : Token} (valid : token.Valid) :
    ∃ c rest, token.spell upper = c :: rest ∧ isBlank c = false ∧
      (token.isNumber = false → isNumberChar c = false) := by
  cases token with
  | number spelling =>
    obtain ⟨⟨c,rest,same,first⟩,_⟩ := isNumber_chars valid
    refine ⟨c,rest,same,?_,by simp [Token.isNumber]⟩
    rcases first with rfl | digit
    · rfl
    · simp only [isBlank, Bool.or_eq_false_iff, decide_eq_false_iff_not]
      refine ⟨⟨⟨?_,?_⟩,?_⟩,?_⟩ <;> rintro rfl <;> simp at digit
  | bool value => cases value <;> exact ⟨_,_,rfl,rfl,fun _ => rfl⟩
  | _ => exact ⟨_,_,rfl,rfl,fun _ => rfl⟩

theorem readToken_number {spelling rest : List Char} (number : isNumber spelling = true)
    (stops : ∀ c ∈ rest.head?, isNumberChar c = false) :
    readToken (spelling ++ rest) = some (.number spelling,rest) := by
  obtain ⟨⟨c,more,same,first⟩,chars⟩ := isNumber_chars number
  have taken : (spelling ++ rest).takeWhile isNumberChar = spelling := by
    rw [List.takeWhile_append_of_pos chars]
    cases rest with
    | nil => simp
    | cons d rest => simp [stops d (by simp)]
  have left : (spelling ++ rest).dropWhile isNumberChar = rest := by
    rw [List.dropWhile_append_of_pos chars]
    cases rest with
    | nil => simp
    | cons d rest => simp [stops d (by simp)]
  have last : readToken (spelling ++ rest) =
      if isNumber ((spelling ++ rest).takeWhile isNumberChar) then
        some (.number ((spelling ++ rest).takeWhile isNumberChar),
          (spelling ++ rest).dropWhile isNumberChar)
      else none := by
    subst same
    rw [List.cons_append]
    unfold readToken
    split
    all_goals first | rfl | (rename_i is; obtain ⟨rfl,_⟩ := List.cons.inj is; simp at first)
  rw [last, taken, left, if_pos number]

theorem readToken_spell (upper : Bool) {token : Token} (valid : token.Valid) {rest : List Char}
    (stops : token.isNumber = true → ∀ c ∈ rest.head?, isNumberChar c = false) :
    readToken (token.spell upper ++ rest) = some (token,rest) := by
  cases token with
  | number spelling => exact readToken_number valid (stops rfl)
  | string text =>
    have shorter : text.length ≤ (text.flatMap (escape upper)).length :=
      length_le_flatMap fun c _ => escape_nonempty c
    have body := readString_escape upper text rest
      (n := (text.flatMap (escape upper) ++ '"' :: rest).length + 1)
      (by simp only [List.length_append, List.length_cons]; omega)
    simp only [Token.spell, List.cons_append, List.append_assoc, List.nil_append, readToken, body,
      Option.map_some]
  | bool value => cases value <;> rfl
  | _ => rfl

/-- Spelled tokens are read back. -/
theorem lexFrom_spell {tokens : List Token} (valid : ∀ token ∈ tokens, token.Valid)
    (separated : Separated tokens) {n : Nat} (enough : tokens.length < n) :
    lexFrom n (tokens.flatMap (Token.spell upper)) = some tokens := by
  induction tokens generalizing n with
  | nil =>
    obtain ⟨m,rfl⟩ := Nat.exists_eq_add_of_lt enough
    simp [lexFrom]
  | cons token rest ih =>
    obtain ⟨m,rfl⟩ := Nat.exists_eq_add_of_lt (Nat.zero_lt_of_lt enough)
    obtain ⟨c,more,first,black,_⟩ := spell_first upper (valid token List.mem_cons_self)
    have stops : token.isNumber = true →
        ∀ c ∈ (rest.flatMap (Token.spell upper)).head?, isNumberChar c = false := by
      intro number d head
      cases rest with
      | nil => simp at head
      | cons next others =>
        obtain ⟨e,_,begins,_,apart⟩ := spell_first upper (valid next (by simp))
        have plain := (List.isChain_cons_cons.mp separated).1.resolve_left (by simp [number])
        simp only [List.flatMap_cons, begins, List.cons_append, List.head?_cons, Option.mem_def,
          Option.some.injEq] at head
        exact head ▸ apart plain
    have read := readToken_spell upper (valid token List.mem_cons_self) stops
    have later := ih (fun other member => valid other (List.mem_cons_of_mem _ member))
      (List.IsChain.tail separated) (n := m) (by simp at enough; omega)
    have blank : (token.spell upper ++ rest.flatMap (Token.spell upper)).dropWhile isBlank =
        token.spell upper ++ rest.flatMap (Token.spell upper) := by simp [first, black]
    rw [Nat.zero_add, List.flatMap_cons, lexFrom, blank]
    rw [first, List.cons_append] at read ⊢
    simp [read, later]

end Tokens

section Documents

variable {upper : Bool}

mutual

/-- The tokens of a document. -/
def Doc.tokens : Doc → List Token
  | .null => [.null]
  | .bool value => [.bool value]
  | .number spelling => [.number spelling]
  | .string text => [.string text]
  | .array elements => .leftBracket :: Doc.tokensAll elements
  | .object members => .leftBrace :: Doc.tokensMembers members

def Doc.tokensAll : List Doc → List Token
  | [] => [.rightBracket]
  | [doc] => doc.tokens ++ [.rightBracket]
  | doc :: next :: rest => doc.tokens ++ .comma :: Doc.tokensAll (next :: rest)

def Doc.tokensMembers : List (List Char × Doc) → List Token
  | [] => [.rightBrace]
  | [(name,doc)] => .string name :: .colon :: doc.tokens ++ [.rightBrace]
  | (name,doc) :: next :: rest =>
    .string name :: .colon :: doc.tokens ++ .comma :: Doc.tokensMembers (next :: rest)

end

/-- The text of a document, without blanks. -/
def Doc.write (upper : Bool) (doc : Doc) : List Char := doc.tokens.flatMap (Token.spell upper)

mutual

/-- Every number is spelled as one. -/
def Doc.Valid : Doc → Prop
  | .number spelling => isNumber spelling = true
  | .array elements => Doc.ValidAll elements
  | .object members => Doc.ValidMembers members
  | _ => True

def Doc.ValidAll : List Doc → Prop
  | [] => True
  | doc :: rest => doc.Valid ∧ Doc.ValidAll rest

def Doc.ValidMembers : List (List Char × Doc) → Prop
  | [] => True
  | (_,doc) :: rest => doc.Valid ∧ Doc.ValidMembers rest

end

mutual

def parseDoc : Nat → List Token → Option (Doc × List Token)
  | 0, _ => none
  | _ + 1, .null :: rest => some (.null,rest)
  | _ + 1, .bool value :: rest => some (.bool value,rest)
  | _ + 1, .number spelling :: rest => some (.number spelling,rest)
  | _ + 1, .string text :: rest => some (.string text,rest)
  | _ + 1, .leftBracket :: .rightBracket :: rest => some (.array [],rest)
  | n + 1, .leftBracket :: rest => (parseElements n rest).map fun (docs,rest) => (.array docs,rest)
  | _ + 1, .leftBrace :: .rightBrace :: rest => some (.object [],rest)
  | n + 1, .leftBrace :: rest => (parseMembers n rest).map fun (docs,rest) => (.object docs,rest)
  | _, _ => none

/-- The elements of an array and its bracket. -/
def parseElements : Nat → List Token → Option (List Doc × List Token)
  | 0, _ => none
  | n + 1, tokens =>
    match parseDoc n tokens with
    | some (doc,.comma :: rest) => (parseElements n rest).map fun (docs,rest) => (doc :: docs,rest)
    | some (doc,.rightBracket :: rest) => some ([doc],rest)
    | _ => none

/-- The members of an object and its brace. -/
def parseMembers : Nat → List Token → Option (List (List Char × Doc) × List Token)
  | n + 1, .string name :: .colon :: tokens =>
    match parseDoc n tokens with
    | some (doc,.comma :: rest) =>
      (parseMembers n rest).map fun (docs,rest) => ((name,doc) :: docs,rest)
    | some (doc,.rightBrace :: rest) => some ([(name,doc)],rest)
    | _ => none
  | _, _ => none

end

/-- Reads a text that is one document. -/
def read (text : List Char) : Option Doc := do
  let tokens ← lexFrom (text.length + 1) text
  match parseDoc tokens.length tokens with
  | some (doc,[]) => some doc
  | _ => none

theorem tokens_first (doc : Doc) : ∃ token rest, doc.tokens = token :: rest ∧
    token ≠ .rightBracket ∧ token ≠ .rightBrace := by
  cases doc <;> exact ⟨_,_,rfl,by simp,by simp⟩

theorem parseDoc_array {n : Nat} {tokens : List Token}
    (some : ∀ rest, tokens ≠ .rightBracket :: rest) :
    parseDoc (n + 1) (.leftBracket :: tokens) =
      (parseElements n tokens).map fun (docs,rest) => (.array docs,rest) := by
  rw [parseDoc]
  exact some

/-- With enough fuel the tokens of a document, of the elements of an array and of the members
of an object are read back, whatever comes after them. -/
structure Reads (n : Nat) : Prop where
  doc : ∀ (doc : Doc) rest, doc.tokens.length ≤ n → parseDoc n (doc.tokens ++ rest) = some (doc,rest)
  elements : ∀ doc docs rest, (Doc.tokensAll (doc :: docs)).length ≤ n →
    parseElements n (Doc.tokensAll (doc :: docs) ++ rest) = some (doc :: docs,rest)
  members : ∀ name doc members rest, (Doc.tokensMembers ((name,doc) :: members)).length ≤ n →
    parseMembers n (Doc.tokensMembers ((name,doc) :: members) ++ rest) =
      some ((name,doc) :: members,rest)

theorem Reads.doc_next {n : Nat} (reads : Reads n) (doc : Doc) (rest : List Token)
    (enough : doc.tokens.length ≤ n + 1) :
    parseDoc (n + 1) (doc.tokens ++ rest) = some (doc,rest) := by
  cases doc with
  | null | bool value | number spelling | string text => rfl
  | array elements =>
    cases elements with
    | nil => rfl
    | cons doc docs =>
      have inside := reads.elements doc docs rest (by simpa [Doc.tokens] using enough)
      rw [Doc.tokens, List.cons_append, parseDoc_array, inside]
      · rfl
      · intro more same
        obtain ⟨token,others,first,apart,_⟩ := tokens_first doc
        cases docs <;> simp only [Doc.tokensAll, first, List.cons_append] at same <;>
          exact apart (List.cons.inj same).1
  | object members =>
    cases members with
    | nil => rfl
    | cons member members =>
      have inside := reads.members member.1 member.2 members rest
        (by simpa [Doc.tokens] using enough)
      cases members <;>
        simp only [Doc.tokens, Doc.tokensMembers, List.cons_append] at inside ⊢ <;>
        simp only [parseDoc, inside, Option.map_some]

theorem Reads.elements_next {n : Nat} (reads : Reads n) (doc : Doc) (docs : List Doc)
    (rest : List Token) (enough : (Doc.tokensAll (doc :: docs)).length ≤ n + 1) :
    parseElements (n + 1) (Doc.tokensAll (doc :: docs) ++ rest) = some (doc :: docs,rest) := by
  cases docs with
  | nil =>
    have first := reads.doc doc (.rightBracket :: rest) (by simpa [Doc.tokensAll] using enough)
    simp [Doc.tokensAll, parseElements, first]
  | cons next docs =>
    simp only [Doc.tokensAll, List.length_append, List.length_cons] at enough
    have first := reads.doc doc (.comma :: (Doc.tokensAll (next :: docs) ++ rest)) (by omega)
    have later := reads.elements next docs rest (by omega)
    simp [Doc.tokensAll, parseElements, first, later]

theorem Reads.members_next {n : Nat} (reads : Reads n) (name : List Char) (doc : Doc)
    (members : List (List Char × Doc)) (rest : List Token)
    (enough : (Doc.tokensMembers ((name,doc) :: members)).length ≤ n + 1) :
    parseMembers (n + 1) (Doc.tokensMembers ((name,doc) :: members) ++ rest) =
      some ((name,doc) :: members,rest) := by
  cases members with
  | nil =>
    simp only [Doc.tokensMembers, List.length_append, List.length_cons, List.length_nil] at enough
    have first := reads.doc doc (.rightBrace :: rest) (by omega)
    simp [Doc.tokensMembers, parseMembers, first]
  | cons next members =>
    simp only [Doc.tokensMembers, List.length_append, List.length_cons] at enough
    have first := reads.doc doc (.comma :: (Doc.tokensMembers (next :: members) ++ rest))
      (by omega)
    have shorter : (Doc.tokensMembers (next :: members)).length ≤ n := by omega
    have later := reads.members next.1 next.2 members rest shorter
    simp [Doc.tokensMembers, parseMembers, first, later]

/-- The induction is on the fuel, which every step of the parser uses. -/
theorem reads_tokens (n : Nat) : Reads n := by
  induction n with
  | zero =>
    refine ⟨fun doc rest short => ?_,fun doc docs rest short => ?_,
      fun name doc members rest short => ?_⟩
    · obtain ⟨token,more,first,_⟩ := tokens_first doc
      simp [first] at short
    · obtain ⟨token,more,first,_⟩ := tokens_first doc
      cases docs <;> simp [Doc.tokensAll, first] at short
    · cases members <;> simp [Doc.tokensMembers] at short
  | succ n ih => exact ⟨ih.doc_next,ih.elements_next,ih.members_next⟩

theorem Separated.cons {token : Token} {tokens : List Token} (plain : token.isNumber = false)
    (separated : Separated tokens) : Separated (token :: tokens) :=
  List.isChain_cons.mpr ⟨fun _ _ => .inl plain,separated⟩

theorem Separated.join {front back : List Token} (first : Separated front)
    (second : Separated back) (plain : ∀ token ∈ back.head?, token.isNumber = false) :
    Separated (front ++ back) :=
  List.isChain_append.mpr ⟨first,second,fun _ _ token head => .inr (plain token head)⟩

mutual

theorem tokens_separated : ∀ doc : Doc, Separated doc.tokens
  | .null | .bool _ | .number _ | .string _ => List.isChain_singleton _
  | .array elements => (tokensAll_separated elements).cons rfl
  | .object members => (tokensMembers_separated members).cons rfl

theorem tokensAll_separated : ∀ docs : List Doc, Separated (Doc.tokensAll docs)
  | [] => List.isChain_singleton _
  | [doc] => (tokens_separated doc).join (List.isChain_singleton _) (by simp [Token.isNumber])
  | doc :: next :: rest => (tokens_separated doc).join
      ((tokensAll_separated (next :: rest)).cons rfl) (by simp [Token.isNumber])

theorem tokensMembers_separated : ∀ members : List (List Char × Doc),
    Separated (Doc.tokensMembers members)
  | [] => List.isChain_singleton _
  | [(name,doc)] => (((tokens_separated doc).join (List.isChain_singleton _)
      (by simp [Token.isNumber])).cons rfl).cons rfl
  | (name,doc) :: next :: rest => (((tokens_separated doc).join
      ((tokensMembers_separated (next :: rest)).cons rfl) (by simp [Token.isNumber])).cons
      rfl).cons rfl

end

mutual

theorem tokens_valid : ∀ doc : Doc, doc.Valid → ∀ token ∈ doc.tokens, token.Valid
  | .null, _ | .bool _, _ | .string _, _ => by simp [Doc.tokens, Token.Valid]
  | .number _, valid => fun _ member => List.mem_singleton.mp member ▸ valid
  | .array elements, valid => by
    simpa [Doc.tokens, Token.Valid] using tokensAll_valid elements valid
  | .object members, valid => by
    simpa [Doc.tokens, Token.Valid] using tokensMembers_valid members valid

theorem tokensAll_valid : ∀ docs : List Doc, Doc.ValidAll docs →
    ∀ token ∈ Doc.tokensAll docs, token.Valid
  | [], _ => by simp [Doc.tokensAll, Token.Valid]
  | [doc], valid => by
    have first := tokens_valid doc valid.1
    simp only [Doc.tokensAll, List.mem_append, List.mem_singleton]
    rintro token (member | rfl)
    · exact first token member
    · trivial
  | doc :: next :: rest, valid => by
    have first := tokens_valid doc valid.1
    have later := tokensAll_valid (next :: rest) valid.2
    simp only [Doc.tokensAll, List.mem_append, List.mem_cons]
    rintro token (member | rfl | member)
    · exact first token member
    · trivial
    · exact later token member

theorem tokensMembers_valid : ∀ members : List (List Char × Doc), Doc.ValidMembers members →
    ∀ token ∈ Doc.tokensMembers members, token.Valid
  | [], _ => by simp [Doc.tokensMembers, Token.Valid]
  | [(name,doc)], valid => by
    have first := tokens_valid doc valid.1
    simp only [Doc.tokensMembers, List.mem_append, List.mem_cons, List.not_mem_nil, or_false]
    rintro token ((rfl | rfl | member) | rfl)
    · trivial
    · trivial
    · exact first token member
    · trivial
  | (name,doc) :: next :: rest, valid => by
    have first := tokens_valid doc valid.1
    have later := tokensMembers_valid (next :: rest) valid.2
    simp only [Doc.tokensMembers, List.mem_append, List.mem_cons]
    rintro token ((rfl | rfl | member) | rfl | member)
    · trivial
    · trivial
    · exact first token member
    · trivial
    · exact later token member

end

/-- What is written is read back. -/
theorem read_write {doc : Doc} (valid : doc.Valid) : read (doc.write upper) = some doc := by
  have tokens : lexFrom ((doc.write upper).length + 1) (doc.write upper) = some doc.tokens := by
    refine lexFrom_spell (tokens_valid doc valid) (tokens_separated doc) (Nat.lt_succ_of_le ?_)
    refine length_le_flatMap fun token member => ?_
    obtain ⟨c,rest,first,_⟩ := spell_first upper (tokens_valid doc valid token member)
    simp [first]
  have parsed := (reads_tokens doc.tokens.length).doc doc [] (Nat.le_refl _)
  rw [List.append_nil] at parsed
  simp [read, tokens, parsed]

theorem printable_of_all {text : List Char}
    (all : text.all (fun c => decide (0x20 ≤ c.toNat)) = true) : ∀ c ∈ text, 0x20 ≤ c.toNat :=
  fun c member => of_decide_eq_true (List.all_eq_true.mp all c member)

theorem escape_printable (c : Char) : ∀ d ∈ escape upper c, 0x20 ≤ d.toNat := by
  have digit : ∀ n, n < 16 → 0x20 ≤ (hexDigit upper n).toNat := by
    revert upper
    decide
  unfold escape
  split_ifs with quote slash newline cr tab back feed control
  iterate 7 exact printable_of_all rfl
  · simp only [List.mem_cons, List.not_mem_nil, or_false]
    rintro d (rfl | rfl | rfl | rfl | rfl | rfl)
    iterate 4 decide
    · exact digit _ (by omega)
    · exact digit _ (by omega)
  · simp only [List.mem_singleton]
    rintro d rfl
    omega

theorem isNumberChar_printable {c : Char} (char : isNumberChar c = true) : 0x20 ≤ c.toNat := by
  simp only [isNumberChar, Bool.or_eq_true, decide_eq_true_eq] at char
  rcases char with ((((digit | rfl) | rfl) | rfl) | rfl) | rfl
  · simp only [Char.isDigit, Bool.and_eq_true, decide_eq_true_eq] at digit
    have above : (48 : UInt32).toNat ≤ c.val.toNat := UInt32.le_iff_toNat_le.mp digit.1
    exact Nat.le_trans (by decide) above
  all_goals decide

theorem spell_printable {token : Token} (valid : token.Valid) : ∀ c ∈ token.spell upper, 0x20 ≤ c.toNat := by
  cases token with
  | number spelling => exact fun c member => isNumberChar_printable ((isNumber_chars valid).2 c member)
  | string text =>
    simp only [Token.spell, List.cons_append, List.mem_cons, List.mem_append, List.mem_flatMap,
      List.not_mem_nil, or_false]
    rintro c (rfl | ⟨d,_,member⟩ | rfl)
    · decide
    · exact escape_printable d c member
    · decide
  | bool value => cases value <;> exact printable_of_all rfl
  | _ => exact printable_of_all rfl

/-- A written text has no control characters. -/
theorem write_printable {doc : Doc} (valid : doc.Valid) : ∀ c ∈ doc.write upper, 0x20 ≤ c.toNat := by
  intro c member
  obtain ⟨token,part,inside⟩ := List.mem_flatMap.mp member
  exact spell_printable (tokens_valid doc valid token part) c inside

end Documents

section Access

/-- The first member of that name. -/
def Doc.get? (name : List Char) : Doc → Option Doc
  | .object members => (members.find? (·.1 = name)).map Prod.snd
  | _ => none

def Doc.elements : Doc → List Doc
  | .array elements => elements
  | _ => []

def Doc.getStr : Doc → Option (List Char)
  | .string text => some text
  | _ => none

def Doc.isNull : Doc → Bool
  | .null => true
  | _ => false

@[simp] theorem elements_array (docs : List Doc) : (Doc.array docs).elements = docs := rfl

theorem find?_named {members : List (List Char × Doc)} (distinct : (members.map Prod.fst).Nodup)
    {name : List Char} {doc : Doc} (member : (name,doc) ∈ members) :
    members.find? (·.1 = name) = some (name,doc) := by
  induction members with
  | nil => simp at member
  | cons first rest ih =>
    simp only [List.map_cons, List.nodup_cons, List.mem_map, not_exists, not_and] at distinct
    rcases List.mem_cons.mp member with rfl | later
    · simp
    · have other : first.1 ≠ name := fun same => distinct.1 _ later same.symm
      rw [List.find?_cons_of_neg (by simpa using other)]
      exact ih distinct.2 later

/-- An object with distinct names answers alike in any order of its members. -/
theorem get?_perm {members arranged : List (List Char × Doc)} (order : arranged.Perm members)
    (distinct : (members.map Prod.fst).Nodup) (name : List Char) :
    (Doc.object arranged).get? name = (Doc.object members).get? name := by
  have apart : (arranged.map Prod.fst).Nodup := ((order.map Prod.fst).nodup_iff).mpr distinct
  rw [Doc.get?, Doc.get?]
  cases found : members.find? (·.1 = name) with
  | none =>
    have missing : arranged.find? (·.1 = name) = none := by
      simpa [order.mem_iff] using found
    rw [missing]
  | some member =>
    have named : member.1 = name := by simpa using List.find?_some found
    have inside : (name,member.2) ∈ arranged :=
      order.mem_iff.mpr (named ▸ List.mem_of_find?_eq_some found)
    rw [find?_named apart inside]
    rfl

theorem validAll_iff {docs : List Doc} : Doc.ValidAll docs ↔ ∀ doc ∈ docs, doc.Valid := by
  induction docs with
  | nil => simp [Doc.ValidAll]
  | cons doc rest ih => simp [Doc.ValidAll, ih]

theorem validMembers_iff {members : List (List Char × Doc)} :
    Doc.ValidMembers members ↔ ∀ member ∈ members, member.2.Valid := by
  induction members with
  | nil => simp [Doc.ValidMembers]
  | cons member rest ih => simp [Doc.ValidMembers, ih]

end Access

end JsonText
