import Mathlib.Data.List.Infix
import TierDb.Write

/-! Running a direct chunk's lake statements on a DuckDB connection of their own.
A statement that succeeds commits by itself; one that fails has no effect. -/
namespace TierDb

/-- The lake, and the outcomes its next queries will have: `some` is an error text. -/
structure LakeSide where
  lake : Lake
  answers : List (Option String) := []

def conQuery (effect : Lake → Lake) : EStateM String LakeSide (Option String) := fun s =>
  match s.answers.head?.join with
  | some error => .ok (some error) { s with answers := s.answers.tail }
  | none => .ok none { lake := effect s.lake, answers := s.answers.tail }

def contains (text needle : String) : Bool := decide (needle.toList <:+: text.toList)

def isConflict (error : String) : Bool :=
  contains error "409" || contains error "Conflict" || contains error "CommitFailed"

def maxAttempts : Nat := 3

/-- The attempts of one statement, with so many more allowed after this one. Only a
conflict is retried, and the last attempt is not. -/
def attemptSql (statement : LakeStatement) : Nat → EStateM String LakeSide Unit
  | 0 => do
    match ← conQuery statement.effect with
    | none => return
    | some error => throw ("tierdb: lake write failed: " ++ error)
  | left + 1 => do
    match ← conQuery statement.effect with
    | none => return
    | some error =>
      if !isConflict error then
        throw ("tierdb: lake write failed: " ++ error)
      attemptSql statement left

def lakeLoop : List LakeStatement → EStateM String LakeSide Unit
  | [] => return
  | statement :: rest => do
    attemptSql statement (maxAttempts - 1)
    lakeLoop rest

def executeLakeDml (attachSql : String) (lakeSql : List LakeStatement) :
    EStateM String LakeSide Unit := do
  if lakeSql.isEmpty then
    return
  if attachSql ≠ "" then
    match ← conQuery id with
    | none => pure ()
    | some error => throw ("tierdb: lake catalog attach failed: " ++ error)
  lakeLoop lakeSql

theorem attemptSql_succeeds (statement : LakeStatement) (left : Nat) (lake : Lake) :
    attemptSql statement left ⟨lake,[]⟩ = .ok () ⟨statement.effect lake,[]⟩ := by
  have query : conQuery statement.effect ⟨lake,[]⟩ = .ok none ⟨statement.effect lake,[]⟩ := rfl
  cases left <;> rw [attemptSql, Effect.bind_of_ok query] <;> rfl

theorem lakeLoop_succeeds (lakeSql : List LakeStatement) (lake : Lake) :
    lakeLoop lakeSql ⟨lake,[]⟩ = .ok () ⟨lakeSql.foldl (fun l s => s.effect l) lake,[]⟩ := by
  induction lakeSql generalizing lake with
  | nil => rfl
  | cons statement rest ih =>
    rw [lakeLoop, Effect.bind_of_ok (attemptSql_succeeds statement _ lake), ih, List.foldl_cons]

/-- When no query fails, every statement takes effect, in order. -/
theorem executeLakeDml_succeeds (attachSql : String) (lakeSql : List LakeStatement) (lake : Lake) :
    executeLakeDml attachSql lakeSql ⟨lake,[]⟩ =
      .ok () ⟨lakeSql.foldl (fun l s => s.effect l) lake,[]⟩ := by
  unfold executeLakeDml
  cases lakeSql with
  | nil => rfl
  | cons statement rest =>
    by_cases attach : attachSql = ""
    · simpa [attach] using lakeLoop_succeeds (statement :: rest) lake
    · simpa [attach, Effect.bind_apply, conQuery] using lakeLoop_succeeds (statement :: rest) lake

end TierDb
