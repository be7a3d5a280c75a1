import Mathlib.Data.List.FinRange
import TierDb.Library.Retry
import TierDb.LakeDml

/-! How often a lake statement is attempted and how often it takes effect. The queries that
`TierDBExecuteLakeDml` makes are logged under the statement's place in the list. -/
namespace TierDb

/-- The loop over the attempts of one statement as the source writes it, with no bound but
the fuel; `none` when that runs out. -/
def attemptLoop (statement : LakeStatement) : Nat → Nat → EStateM String LakeSide (Option Unit)
  | 0, _ => return none
  | fuel + 1, attempt => do
    match ← conQuery statement.effect with
    | none => return some ()
    | some error =>
      if !isConflict error || maxAttempts ≤ attempt then
        throw ("tierdb: lake write failed: " ++ error)
      attemptLoop statement fuel (attempt + 1)

def lakeError (error : String) : String := "tierdb: lake write failed: " ++ error

def statementQuery (statement : LakeStatement) : EStateM String LakeSide (Option String) :=
  conQuery statement.effect

theorem attemptSql_retry (statement : LakeStatement) (left : Nat) :
    attemptSql statement left =
      Retry.attempt statementQuery isConflict lakeError statement left := by
  induction left with
  | zero =>
    refine congrArg (conQuery statement.effect >>= ·) ?_
    funext answer
    cases answer <;> rfl
  | succ left ih =>
    rw [attemptSql, Retry.attempt, ih]
    refine congrArg (conQuery statement.effect >>= ·) ?_
    funext answer
    cases answer <;> rfl

theorem attemptLoop_rounds (statement : LakeStatement) (fuel attempt : Nat) :
    attemptLoop statement fuel attempt =
      Retry.rounds statementQuery isConflict lakeError maxAttempts statement fuel attempt := by
  induction fuel generalizing attempt with
  | zero => rfl
  | succ fuel ih =>
    rw [attemptLoop, Retry.rounds, ih]
    refine congrArg (conQuery statement.effect >>= ·) ?_
    funext answer
    cases answer <;> rfl

/-- Three rounds are enough for the loop to end by itself. -/
theorem attemptLoop_ends (statement : LakeStatement) {fuel : Nat} (enough : maxAttempts ≤ fuel) :
    attemptLoop statement fuel 1 = some <$> attemptSql statement (maxAttempts - 1) := by
  unfold maxAttempts at enough
  rw [attemptLoop_rounds, attemptSql_retry]
  apply Retry.rounds_attempt
  · decide
  · rw [maxAttempts]
    omega

/-- The query of the statement in a place of the list. -/
def lakeQuery (lakeSql : List LakeStatement) (i : Fin lakeSql.length) :
    EStateM String LakeSide (Option String) :=
  statementQuery (lakeSql.get i)

theorem lakeLoop_retry (lakeSql : List LakeStatement) :
    lakeLoop lakeSql = Retry.loop (lakeQuery lakeSql) isConflict lakeError (maxAttempts - 1)
      (List.finRange lakeSql.length) := by
  have plain : ∀ statements, lakeLoop statements =
      Retry.loop statementQuery isConflict lakeError (maxAttempts - 1) statements := by
    intro statements
    induction statements with
    | nil => rfl
    | cons statement rest ih => rw [lakeLoop, Retry.loop, ih, attemptSql_retry]
  rw [plain]
  conv_lhs => rw [← List.map_get_finRange lakeSql]
  exact Retry.loop_map ..

/-- The ATTACH that precedes the statements. -/
def attachLake (attachSql : String) : EStateM String LakeSide Unit := do
  if attachSql ≠ "" then
    match ← conQuery id with
    | none => pure ()
    | some error => throw ("tierdb: lake catalog attach failed: " ++ error)

/-- The queries of the statements, each with its place and its answer. -/
def lakeLog (attachSql : String) (lakeSql : List LakeStatement) (s : LakeSide) :
    List (Fin lakeSql.length × Option String) :=
  if lakeSql.isEmpty then []
  else
    match attachLake attachSql s with
    | .error _ _ => []
    | .ok _ attached =>
      (Effect.final (Retry.loop (Retry.logged (lakeQuery lakeSql)) isConflict lakeError
        (maxAttempts - 1) (List.finRange lakeSql.length) (attached,[]))).2

/-- The answers that so many queries get. -/
def answersTo (answers : List (Option String)) (queries : Nat) : List (Option String) :=
  (List.range queries).map fun k => answers[k]?.join

theorem executeLakeDml_parts (attachSql : String) {lakeSql : List LakeStatement}
    (some : lakeSql.isEmpty = false) :
    executeLakeDml attachSql lakeSql = (do attachLake attachSql; lakeLoop lakeSql) := by
  funext s
  unfold executeLakeDml attachLake
  by_cases attach : attachSql = ""
  · simp [some, attach]
  · simp only [some, attach, ne_eq, not_false_eq_true, if_true, Bool.false_eq_true, if_false,
      Effect.bind_apply]
    cases conQuery id s with
    | error e t => rfl
    | ok answer t => cases answer <;> rfl

theorem lakeLog_attached {attachSql : String} {lakeSql : List LakeStatement} {s t u : LakeSide}
    {log : List (Fin lakeSql.length × Option String)} (some : lakeSql.isEmpty = false)
    (attached : attachLake attachSql s = .ok () t)
    (ran : Effect.final (Retry.loop (Retry.logged (lakeQuery lakeSql)) isConflict lakeError
      (maxAttempts - 1) (List.finRange lakeSql.length) (t,[])) = (u,log)) :
    lakeLog attachSql lakeSql s = log := by
  simp [lakeLog, some, attached, ran]

theorem lakeQuery_total (lakeSql : List LakeStatement) (i : Fin lakeSql.length) (s : LakeSide) :
    lakeQuery lakeSql i s = .ok s.answers.head?.join
      ⟨if s.answers.head?.join.isNone then (lakeSql.get i).effect s.lake else s.lake,
        s.answers.tail⟩ := by
  unfold lakeQuery statementQuery conQuery
  cases s.answers.head?.join <;> rfl

/-- Queries one after the other: the successful ones change the lake, and each takes the
next answer. -/
theorem path_lake {lakeSql : List LakeStatement}
    {log : List (Fin lakeSql.length × Option String)} {s t : LakeSide}
    (path : Retry.Path (lakeQuery lakeSql) log s t) :
    t.lake = (Retry.succeeded log).foldl (fun lake i => (lakeSql.get i).effect lake) s.lake ∧
      log.map Prod.snd = answersTo s.answers log.length ∧
      t.answers = s.answers.drop log.length := by
  induction log generalizing s with
  | nil =>
    obtain rfl : s = t := path
    exact ⟨rfl,rfl,rfl⟩
  | cons entry rest ih =>
    obtain ⟨i,answer⟩ := entry
    obtain ⟨m,sent,later⟩ := path
    rw [lakeQuery_total, EStateM.Result.ok.injEq] at sent
    obtain ⟨rfl,rfl⟩ := sent
    obtain ⟨lake,answers,left⟩ := ih later
    refine ⟨?_,?_,by rw [left, List.drop_tail, List.length_cons]⟩
    · rw [lake]
      cases answer : s.answers.head?.join <;> simp [Retry.succeeded]
    · rw [List.map_cons, answers, answersTo, answersTo, List.length_cons, List.range_succ_eq_map,
        List.map_cons, List.map_map]
      cases s.answers <;> simp [Function.comp_def]

theorem attachLake_cases (attachSql : String) (s : LakeSide) :
    (∃ t, attachLake attachSql s = .ok () t ∧ t.lake = s.lake ∧
      t.answers = if attachSql = "" then s.answers else s.answers.tail) ∨
    ∃ error t, attachLake attachSql s = .error ("tierdb: lake catalog attach failed: " ++ error) t ∧
      attachSql ≠ "" ∧ s.answers.head?.join = some error ∧ t.lake = s.lake ∧
        t.answers = s.answers.tail := by
  unfold attachLake
  by_cases attach : attachSql = ""
  · exact .inl ⟨s,by simp [attach],rfl,by simp [attach]⟩
  · simp only [attach, ne_eq, not_false_eq_true, if_true, if_false, Effect.bind_apply, conQuery]
    cases answer : s.answers.head?.join with
    | none => exact .inl ⟨_,rfl,rfl,rfl⟩
    | some error => exact .inr ⟨error,_,rfl,trivial,rfl,rfl,rfl⟩

/-- What an execution came to, by the log of its statements' queries: all of them took
effect, or those before the one it threw at, or none when the ATTACH failed. -/
def LakeOutcome (attachSql : String) (lakeSql : List LakeStatement) (s : LakeSide)
    (log : List (Fin lakeSql.length × Option String)) :
    EStateM.Result String LakeSide Unit → Prop
  | .ok _ t => Retry.succeeded log = List.finRange lakeSql.length ∧
      t.lake = lakeSql.foldl (fun lake statement => statement.effect lake) s.lake
  | .error e t =>
    (∃ error, attachSql ≠ "" ∧ s.answers.head?.join = some error ∧
      e = "tierdb: lake catalog attach failed: " ++ error ∧ log = [] ∧ t.lake = s.lake) ∨
    ∃ (i : Fin lakeSql.length) (last : String),
      Retry.succeeded log = (List.finRange lakeSql.length).take i ∧
      t.lake = (lakeSql.take i).foldl (fun lake statement => statement.effect lake) s.lake ∧
      log.getLast? = some (i,some last) ∧ e = lakeError last ∧
      (isConflict last = false ∨ (Retry.attempts i log).length = maxAttempts)

theorem foldl_places (lakeSql : List LakeStatement) (n : Nat) (lake : Lake) :
    ((List.finRange lakeSql.length).take n).foldl (fun lake i => (lakeSql.get i).effect lake) lake =
      (lakeSql.take n).foldl (fun lake statement => statement.effect lake) lake := by
  conv_rhs => rw [← List.map_get_finRange lakeSql, ← List.map_take]
  rw [List.foldl_map]

theorem finRange_before {n : Nat} {done rest : List (Fin n)} {i : Fin n}
    (split : List.finRange n = done ++ i :: rest) : done = (List.finRange n).take i := by
  have here : (List.finRange n)[done.length]? = some i := by simp [split]
  obtain ⟨inside,same⟩ := List.getElem?_eq_some_iff.mp here
  rw [List.getElem_finRange] at same
  have place : done.length = i := congrArg Fin.val same
  rw [split, ← place, List.take_left]

/-- The answers that are left for the queries of the statements: an ATTACH takes one. -/
def statementAnswers (attachSql : String) (lakeSql : List LakeStatement) (s : LakeSide) :
    List (Option String) :=
  if lakeSql.isEmpty || attachSql = "" then s.answers else s.answers.tail

/-- The loop over the attempts of a statement ends by itself. In every execution a
statement is queried three times at most and never again after it succeeded; the queries
get the given answers, of which the execution uses those of its log and no others, and the
statements took effect once each and in order: all of them, or those before the one it threw
at. -/
theorem lake_statements_once (attachSql : String) (lakeSql : List LakeStatement) (s : LakeSide) :
    (∀ statement fuel, maxAttempts ≤ fuel →
      attemptLoop statement fuel 1 = some <$> attemptSql statement (maxAttempts - 1)) ∧
    (∀ i, (Retry.attempts i (lakeLog attachSql lakeSql s)).length ≤ maxAttempts) ∧
    (∀ front i back, lakeLog attachSql lakeSql s = front ++ (i,none) :: back →
      ∀ entry ∈ back, entry.1 ≠ i) ∧
    (lakeLog attachSql lakeSql s).map Prod.snd =
      answersTo (if attachSql = "" then s.answers else s.answers.tail)
        (lakeLog attachSql lakeSql s).length ∧
    (Effect.final (executeLakeDml attachSql lakeSql s)).answers =
      (statementAnswers attachSql lakeSql s).drop (lakeLog attachSql lakeSql s).length ∧
    LakeOutcome attachSql lakeSql s (lakeLog attachSql lakeSql s)
      (executeLakeDml attachSql lakeSql s) := by
  refine ⟨fun statement _ enough => attemptLoop_ends statement enough,?_⟩
  cases empty : lakeSql.isEmpty with
  | true =>
    obtain rfl : lakeSql = [] := List.isEmpty_iff.mp empty
    exact ⟨fun i => i.elim0,fun front i => i.elim0,rfl,rfl,rfl,rfl⟩
  | false =>
    have queried : statementAnswers attachSql lakeSql s =
        if attachSql = "" then s.answers else s.answers.tail := by simp [statementAnswers, empty]
    rw [executeLakeDml_parts attachSql empty, lakeLoop_retry, queried]
    rcases attachLake_cases attachSql s with
      ⟨t,attached,lake,answers⟩ | ⟨error,t,failed,named,answer,lake,left⟩
    · have distinct := List.nodup_finRange lakeSql.length
      rw [Effect.bind_of_ok attached]
      rcases Retry.loop_logged isConflict lakeError
          (fun i s => ⟨_,_,lakeQuery_total lakeSql i s⟩) (maxAttempts - 1)
          (List.finRange lakeSql.length) t [] with
        ⟨u,log,ran,logged,done,path⟩ | ⟨done,i,rest,last,u,log,split,ran,logged,stopped,path⟩
      · have noted : lakeLog attachSql lakeSql s = log :=
          lakeLog_attached empty attached (congrArg Effect.final logged)
        rw [ran, noted]
        obtain ⟨after,asked,left⟩ := path_lake path
        rw [done.succeeded, lake] at after
        rw [answers] at asked left
        refine ⟨done.attempts distinct,fun _ _ _ => done.once distinct,asked,left,done.succeeded,?_⟩
        have all := foldl_places lakeSql lakeSql.length s.lake
        rw [List.take_of_length_le (by simp), List.take_length] at all
        rw [after, all]
      · have noted : lakeLog attachSql lakeSql s = log :=
          lakeLog_attached empty attached (congrArg Effect.final logged)
        rw [ran, noted]
        obtain ⟨after,asked,left⟩ := path_lake path
        rw [split, List.append_cons] at distinct
        have sofar := (List.nodup_append.mp distinct).1
        have before := finRange_before split
        rw [stopped.succeeded, before, foldl_places, lake] at after
        rw [answers] at asked left
        refine ⟨fun other => (stopped.attempts sofar other).1,fun _ _ _ => stopped.once sofar,asked,
          left,.inr ⟨i,last,?_,after,?_,rfl,(stopped.attempts sofar i).2⟩⟩
        · rw [← before]
          exact stopped.succeeded
        · obtain ⟨front,errors,parts,_⟩ := stopped.parts
          simp [parts]
    · have none : lakeLog attachSql lakeSql s = [] := by simp [lakeLog, failed]
      rw [Effect.bind_of_error failed, none]
      exact ⟨fun i => Nat.zero_le _,by simp,rfl,by rw [if_neg named]; exact left,
        .inl ⟨error,named,answer,rfl,rfl,lake⟩⟩

end TierDb
