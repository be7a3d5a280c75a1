import TierDb.Library.Delimited

/-! The select list of a SQL query, read token by token up to its FROM. -/
namespace SelectList

inductive Token where
  | delimited (name : List Char)
  | word (letters : List Char)
  | symbol (c : Char)
  deriving DecidableEq, Repr

abbrev Item := List Token

def isWordChar (c : Char) : Bool := c.isAlphanum || c = '_'

/-- The first token and what follows it. There is none at the end of the text, in a
delimited identifier that does not end and at a character of no token. -/
def nextToken (text : List Char) : Option (Token × List Char) :=
  match text.dropWhile Char.isWhitespace with
  | [] => none
  | c :: rest =>
    if c = '"' then (Delimited.readBody '"' rest).map fun (name,after) => (.delimited name,after)
    else if isWordChar c then some (.word (c :: rest.takeWhile isWordChar),rest.dropWhile isWordChar)
    else if c = '(' ∨ c = ')' ∨ c = ',' then some (.symbol c,rest)
    else none

def Token.isKeyword (keyword : List Char) : Token → Bool
  | .word letters => letters.map Char.toUpper = keyword
  | _ => false

/-- The open parentheses after a token. -/
def depthAfter (depth : Nat) : Token → Nat
  | .symbol '(' => depth + 1
  | .symbol ')' => depth - 1
  | _ => depth

theorem nextToken_length {text after : List Char} {token : Token}
    (read : nextToken text = some (token,after)) : after.length < text.length := by
  have fewer := (List.dropWhile_suffix (l := text) Char.isWhitespace).length_le
  unfold nextToken at read
  split at read
  · cases read
  · rename_i c rest dropped
    rw [dropped, List.length_cons] at fewer
    split at read
    · obtain ⟨⟨name,left⟩,found,made⟩ := Option.map_eq_some_iff.mp read
      cases made
      have := Delimited.readBody_length found
      omega
    · split at read
      · cases read
        have := (List.dropWhile_suffix (l := rest) isWordChar).length_le
        omega
      · split at read
        · cases read
          omega
        · cases read

/-- Reads the rest of an item and the items after it, and returns what follows FROM. An
item ends at a comma or a FROM outside of parentheses. -/
def readItems (depth : Nat) (item : Item) (text : List Char) : Option (List Item × List Char) :=
  match _read : nextToken text with
  | none => none
  | some (token,after) =>
    if depth = 0 ∧ (token.isKeyword "FROM".toList ∨ token = .symbol ',') then
      if item = [] then none
      else if token = .symbol ',' then (readItems 0 [] after).map fun (items,rest) => (item :: items,rest)
      else some ([item],after)
    else readItems (depthAfter depth token) (item ++ [token]) after
termination_by text.length
decreasing_by all_goals exact nextToken_length _read

def readSelect (text : List Char) : Option (List Item × List Char) :=
  match nextToken text with
  | none => none
  | some (token,after) => if token.isKeyword "SELECT".toList then readItems 0 [] after else none

/-- The text reads as tokens of one item, whatever the item began with and whatever comes
after a comma or a blank. -/
def Spells (text : List Char) (tokens : Item) : Prop :=
  ∀ item after, (after.head? = some ',' ∨ after.head? = some ' ') →
    readItems 0 item (text ++ after) = readItems 0 (item ++ tokens) after

@[simp] theorem nextToken_blank (text : List Char) : nextToken (' ' :: text) = nextToken text := by
  have blank : Char.isWhitespace ' ' = true := by decide
  simp [nextToken, blank]

theorem readItems_blank (depth : Nat) (item : Item) (text : List Char) :
    readItems depth item (' ' :: text) = readItems depth item text := by
  rw [readItems, readItems, nextToken_blank]

section Steps

variable {depth : Nat} {item : Item} {text after : List Char} {token : Token}

theorem readItems_extend (read : nextToken text = some (token,after))
    (inside : ¬(depth = 0 ∧ (token.isKeyword "FROM".toList ∨ token = .symbol ','))) :
    readItems depth item text = readItems (depthAfter depth token) (item ++ [token]) after := by
  rw [readItems]
  split
  · rename_i stuck
    cases stuck.symm.trans read
  · rename_i other rest found
    cases found.symm.trans read
    rw [if_neg inside]

theorem readItems_comma (read : nextToken text = some (.symbol ',',after)) (some_token : item ≠ []) :
    readItems 0 item text =
      (readItems 0 [] after).map fun (items,rest) => (item :: items,rest) := by
  rw [readItems]
  split
  · rename_i stuck
    cases stuck.symm.trans read
  · rename_i other rest found
    cases found.symm.trans read
    simp [some_token]

theorem readItems_from {letters : List Char} (read : nextToken text = some (.word letters,after))
    (keyword : letters.map Char.toUpper = "FROM".toList) (some_token : item ≠ []) :
    readItems 0 item text = some ([item],after) := by
  rw [readItems]
  split
  · rename_i stuck
    cases stuck.symm.trans read
  · rename_i other rest found
    cases found.symm.trans read
    simp [Token.isKeyword, keyword, some_token]

end Steps

theorem nextToken_delimited (name : List Char) {after : List Char} (ends : after.head? ≠ some '"') :
    nextToken (Delimited.enclose '"' name ++ after) = some (.delimited name,after) := by
  have mark : Char.isWhitespace '"' = false := by decide
  simp [nextToken, Delimited.enclose, mark, Delimited.readBody_double name ends]

theorem spells_delimited (name : List Char) :
    Spells (Delimited.enclose '"' name) [.delimited name] := by
  intro item after follows
  have ends : after.head? ≠ some '"' := by rcases follows with h | h <;> simp [h]
  rw [readItems_extend (nextToken_delimited name ends) (by simp [Token.isKeyword])]
  rfl

/-- Further items, each after a comma and a blank, and the FROM behind them. -/
def continued (texts : List (List Char)) (after : List Char) : List Char :=
  texts.flatMap (fun text => ',' :: ' ' :: text) ++ (" FROM ".toList ++ after)

theorem continued_head (texts : List (List Char)) (after : List Char) :
    (continued texts after).head? = some ',' ∨ (continued texts after).head? = some ' ' := by
  cases texts with
  | nil => exact .inr rfl
  | cons => exact .inl rfl

theorem readItems_continued {entries : List (List Char × Item)} {after : List Char} {item : Item}
    (spelled : ∀ entry ∈ entries, Spells entry.1 entry.2 ∧ entry.2 ≠ []) (begun : item ≠ []) :
    readItems 0 item (continued (entries.map Prod.fst) after) =
      some (item :: entries.map Prod.snd,' ' :: after) := by
  induction entries generalizing item with
  | nil =>
    have last : nextToken (continued [] after) = some (.word "FROM".toList,' ' :: after) := rfl
    exact readItems_from last rfl begun
  | cons entry rest ih =>
    obtain ⟨⟨spells,some_token⟩,later⟩ := List.forall_mem_cons.mp spelled
    have split : continued ((entry :: rest).map Prod.fst) after =
        ',' :: ' ' :: (entry.1 ++ continued (rest.map Prod.fst) after) := by simp [continued]
    rw [split, readItems_comma rfl begun, readItems_blank, spells [] _ (continued_head ..),
      List.nil_append, ih later some_token]
    rfl

/-- A query whose items are spelled out reads as these items. -/
theorem readSelect_spelled {first : List Char × Item} {entries : List (List Char × Item)}
    {after : List Char} (spelled : ∀ entry ∈ first :: entries, Spells entry.1 entry.2 ∧ entry.2 ≠ []) :
    readSelect ("SELECT ".toList ++ (first.1 ++ continued (entries.map Prod.fst) after)) =
      some (first.2 :: entries.map Prod.snd,' ' :: after) := by
  obtain ⟨⟨spells,some_token⟩,later⟩ := List.forall_mem_cons.mp spelled
  have keyword : nextToken ("SELECT ".toList ++ (first.1 ++ continued (entries.map Prod.fst) after)) =
      some (.word "SELECT".toList,' ' :: (first.1 ++ continued (entries.map Prod.fst) after)) := rfl
  have starts : (Token.word "SELECT".toList).isKeyword "SELECT".toList = true := rfl
  rw [readSelect, keyword]
  simp only [starts, if_true]
  rw [readItems_blank, spells [] _ (continued_head ..), List.nil_append,
    readItems_continued later some_token]

end SelectList
