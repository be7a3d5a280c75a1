import Mathlib.Data.List.Infix

/-! Text between two marks, a mark inside it doubled; over any alphabet. -/
namespace Delimited

variable {α : Type} [DecidableEq α] (mark : α)

def double (text : List α) : List α := text.flatMap fun c => if c = mark then [mark,mark] else [c]

def enclose (text : List α) : List α := mark :: (double mark text ++ [mark])

/-- Reads up to the closing mark, past the opening one: a doubled mark stands for one.
Returns the text and what follows. -/
def readBody : List α → Option (List α × List α)
  | [] => none
  | c :: rest =>
    if c = mark then
      match rest with
      | d :: later =>
        if d = mark then (readBody later).map fun (text,after) => (mark :: text,after)
        else some ([],d :: later)
      | [] => some ([],[])
    else (readBody rest).map fun (text,after) => (c :: text,after)

@[simp] theorem double_nil : double mark [] = [] := rfl

theorem double_cons (c : α) (text : List α) :
    double mark (c :: text) = (if c = mark then [mark,mark] else [c]) ++ double mark text := rfl

@[simp] theorem double_cons_mark (text : List α) :
    double mark (mark :: text) = mark :: mark :: double mark text := by
  simp [double_cons]

theorem double_cons_ne {c : α} (plain : c ≠ mark) (text : List α) :
    double mark (c :: text) = c :: double mark text := by
  simp [double_cons, plain]

theorem readBody_pair (later : List α) : readBody mark (mark :: mark :: later) =
    (readBody mark later).map fun (text,after) => (mark :: text,after) := by
  simp [readBody]

variable {mark}

theorem readBody_plain {c : α} (plain : c ≠ mark) (rest : List α) : readBody mark (c :: rest) =
    (readBody mark rest).map fun (text,after) => (c :: text,after) := by
  cases rest <;> simp [readBody, plain]

theorem readBody_close {after : List α} (ends : after.head? ≠ some mark) :
    readBody mark (mark :: after) = some ([],after) := by
  cases after with
  | nil => simp [readBody]
  | cons d later =>
    have plain : d ≠ mark := by simpa using ends
    simp [readBody, plain]

/-- No text ends its marks early, and none runs into what follows. -/
theorem readBody_double (text : List α) {after : List α} (ends : after.head? ≠ some mark) :
    readBody mark (double mark text ++ mark :: after) = some (text,after) := by
  induction text with
  | nil => exact readBody_close ends
  | cons c text ih =>
    by_cases same : c = mark
    · subst same
      rw [double_cons_mark, List.cons_append, List.cons_append, readBody_pair, ih]
      rfl
    · rw [double_cons_ne mark same, List.cons_append, readBody_plain same, ih]
      rfl

/-- Reading consumes at least the closing mark. -/
theorem readBody_length {input text after : List α} (read : readBody mark input = some (text,after)) :
    after.length < input.length := by
  induction input using readBody.induct mark generalizing text after with
  | case1 => cases read
  | case2 later ih =>
    rw [readBody_pair] at read
    obtain ⟨⟨inner,rest⟩,found,made⟩ := Option.map_eq_some_iff.mp read
    cases made
    exact Nat.lt_succ_of_lt (Nat.lt_succ_of_lt (ih found))
  | case3 d later differ =>
    rw [readBody_close (by simpa using differ)] at read
    cases read
    exact Nat.lt_succ_self _
  | case4 =>
    rw [readBody_close (by simp)] at read
    cases read
    exact Nat.lt_succ_self _
  | case5 c rest plain ih =>
    rw [readBody_plain plain] at read
    obtain ⟨⟨inner,rest⟩,found,made⟩ := Option.map_eq_some_iff.mp read
    cases made
    exact Nat.lt_succ_of_lt (ih found)

section Words

variable {word a b text : List α}

omit [DecidableEq α] in
theorem prefix_mark_iff (unmarked : mark ∉ word) : word <+: a ++ mark :: b ↔ word <+: a := by
  induction word generalizing a with
  | nil => simp
  | cons w rest ih =>
    rw [List.mem_cons, not_or] at unmarked
    cases a with
    | nil => simp [List.cons_prefix_cons, Ne.symm unmarked.1]
    | cons c tail => rw [List.cons_append, List.cons_prefix_cons, List.cons_prefix_cons, ih unmarked.2]

omit [DecidableEq α] in
theorem infix_mark_cons (unmarked : mark ∉ word) : word <:+: mark :: b ↔ word <:+: b := by
  have first : word <+: [] ++ mark :: b ↔ word <+: [] := prefix_mark_iff unmarked
  rw [List.nil_append, List.prefix_nil] at first
  rw [List.infix_cons_iff, first]
  apply or_iff_right_of_imp
  rintro rfl
  exact List.nil_infix

omit [DecidableEq α] in
/-- A word without the mark is on one side of it. -/
theorem infix_mark_iff (unmarked : mark ∉ word) :
    word <:+: a ++ mark :: b ↔ word <:+: a ∨ word <:+: b := by
  induction a with
  | nil =>
    rw [List.nil_append, infix_mark_cons unmarked, List.infix_nil]
    apply (or_iff_right_of_imp _).symm
    rintro rfl
    exact List.nil_infix
  | cons c rest ih =>
    rw [List.cons_append, List.infix_cons_iff, List.infix_cons_iff, ih, ← List.cons_append,
      prefix_mark_iff unmarked, or_assoc]

theorem prefix_double_iff (unmarked : mark ∉ word) : word <+: double mark text ↔ word <+: text := by
  induction word generalizing text with
  | nil => simp
  | cons w rest ih =>
    rw [List.mem_cons, not_or] at unmarked
    cases text with
    | nil => simp
    | cons c tail =>
      by_cases same : c = mark
      · subst same
        simp [List.cons_prefix_cons, Ne.symm unmarked.1]
      · rw [double_cons_ne mark same, List.cons_prefix_cons, List.cons_prefix_cons, ih unmarked.2]

/-- Doubling neither hides a word without the mark nor makes one. -/
theorem infix_double_iff (unmarked : mark ∉ word) : word <:+: double mark text ↔ word <:+: text := by
  induction text with
  | nil => rfl
  | cons c rest ih =>
    by_cases same : c = mark
    · subst same
      rw [double_cons_mark, infix_mark_cons unmarked, infix_mark_cons unmarked,
        infix_mark_cons unmarked, ih]
    · rw [double_cons_ne mark same, List.infix_cons_iff, List.infix_cons_iff, ih,
        ← double_cons_ne mark same, prefix_double_iff unmarked]

end Words

end Delimited
