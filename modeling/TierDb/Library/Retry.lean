import Mathlib.Data.List.Range
import TierDb.Library.Effect

/-! A list of items queried one after the other. A query that fails in a way that may pass
is made again while attempts are left; any other failure is thrown. The log keeps every
query made, with its answer. -/
namespace Retry

variable {α β ε η σ : Type}

section Loop

variable (query : α → EStateM η σ (Option ε)) (again : ε → Bool) (wrap : ε → η)

/-- The attempts of one item, with so many more allowed after this one. -/
def attempt (item : α) : Nat → EStateM η σ Unit
  | 0 => do
    match ← query item with
    | none => return
    | some e => throw (wrap e)
  | left + 1 => do
    match ← query item with
    | none => return
    | some e =>
      if !again e then
        throw (wrap e)
      attempt item left

def loop (left : Nat) : List α → EStateM η σ Unit
  | [] => return
  | item :: rest => do
    attempt query again wrap item left
    loop left rest

/-- The attempts of one item as a loop that counts them and has no bound of its own; `none`
when the fuel runs out first. -/
def rounds (limit : Nat) (item : α) : Nat → Nat → EStateM η σ (Option Unit)
  | 0, _ => return none
  | fuel + 1, count => do
    match ← query item with
    | none => return some ()
    | some e =>
      if !again e || limit ≤ count then
        throw (wrap e)
      rounds limit item fuel (count + 1)

/-- The loop ends by itself: it makes the attempts that are left, whatever the fuel. -/
theorem rounds_attempt (item : α) {limit fuel count : Nat} (within : count ≤ limit)
    (enough : limit - count < fuel) :
    rounds query again wrap limit item fuel count =
      some <$> attempt query again wrap item (limit - count) := by
  funext s
  induction fuel generalizing count s with
  | zero => omega
  | succ fuel ih =>
    rw [rounds, Effect.map_apply]
    cases more : limit - count with
    | zero =>
      have last : limit ≤ count := by omega
      rw [attempt, Effect.bind_apply, Effect.bind_apply]
      cases query item s with
      | error e t => rfl
      | ok answer t => cases answer <;> simp [last, Effect.bind_apply]
    | succ left =>
      have early : ¬limit ≤ count := by omega
      have one : limit - (count + 1) = left := by omega
      rw [attempt, Effect.bind_apply, Effect.bind_apply]
      cases query item s with
      | error e t => rfl
      | ok answer t =>
        cases answer with
        | none => rfl
        | some e =>
          have within' : count + 1 ≤ limit := by omega
          have later := ih within' (by omega) t
          rw [one, Effect.map_apply] at later
          cases passing : again e with
          | true => simpa [early, passing, Effect.bind_apply] using later
          | false => simp [passing, Effect.bind_apply]

theorem loop_map (item : β → α) (left : Nat) (items : List β) :
    loop query again wrap left (items.map item) =
      loop (fun b => query (item b)) again wrap left items := by
  have same : ∀ b left, attempt query again wrap (item b) left =
      attempt (fun b => query (item b)) again wrap b left := by
    intro b left
    induction left with
    | zero => rfl
    | succ left ih => rw [attempt, attempt, ih]
  induction items with
  | nil => rfl
  | cons b rest ih => rw [List.map_cons, loop, loop, same, ih]

end Loop

section Log

/-- A query that also notes its item and its answer. -/
def logged (query : α → EStateM η σ (Option ε)) (item : α) :
    EStateM η (σ × List (α × Option ε)) (Option ε) := fun s =>
  match query item s.1 with
  | .ok answer t => .ok answer (t,s.2 ++ [(item,answer)])
  | .error e t => .error e (t,s.2)

/-- The queries of a log, one after the other, lead from the first state to the second. -/
def Path (query : α → EStateM η σ (Option ε)) : List (α × Option ε) → σ → σ → Prop
  | [], s, t => s = t
  | (item,answer) :: rest, s, t => ∃ m, query item s = .ok answer m ∧ Path query rest m t

def failures (item : α) (errors : List ε) : List (α × Option ε) :=
  errors.map fun e => (item,some e)

/-- The items whose queries succeeded, in order. -/
def succeeded (log : List (α × Option ε)) : List α :=
  log.filterMap fun entry => if entry.2.isNone then some entry.1 else none

/-- The log of items that all took effect: of each the failures that were tried again, and
one success. -/
inductive Done (again : ε → Bool) (limit : Nat) : List α → List (α × Option ε) → Prop
  | nil : Done again limit [] []
  | cons {item : α} {rest : List α} {errors : List ε} {log : List (α × Option ε)}
      (passing : ∀ e ∈ errors, again e = true) (within : errors.length < limit)
      (later : Done again limit rest log) :
      Done again limit (item :: rest) (failures item errors ++ (item,none) :: log)

/-- The log of a loop that threw at `item`: the items before it took effect, and its last
failure was not to be tried again or was its last attempt. -/
structure Stopped (again : ε → Bool) (limit : Nat) (done : List α) (item : α) (last : ε)
    (log : List (α × Option ε)) : Prop where
  parts : ∃ front errors, log = front ++ (failures item errors ++ [(item,some last)]) ∧
    Done again limit done front ∧ (∀ e ∈ errors, again e = true) ∧ errors.length < limit ∧
    (again last = false ∨ errors.length + 1 = limit)

variable {query : α → EStateM η σ (Option ε)} {again : ε → Bool} {wrap : ε → η}

theorem Path.append {front back : List (α × Option ε)} {s m t : σ} (first : Path query front s m)
    (second : Path query back m t) : Path query (front ++ back) s t := by
  induction front generalizing s with
  | nil =>
    obtain rfl : s = m := first
    exact second
  | cons entry rest ih =>
    obtain ⟨n,sent,later⟩ := first
    exact ⟨n,sent,ih later⟩

@[simp] theorem succeeded_nil : succeeded ([] : List (α × Option ε)) = [] := rfl

theorem succeeded_append (front back : List (α × Option ε)) :
    succeeded (front ++ back) = succeeded front ++ succeeded back :=
  List.filterMap_append

@[simp] theorem succeeded_failures (item : α) (errors : List ε) :
    succeeded (failures item errors) = [] := by
  simp [succeeded, failures]

theorem Done.succeeded {limit : Nat} {items : List α} {log : List (α × Option ε)}
    (done : Done again limit items log) : Retry.succeeded log = items := by
  induction done with
  | nil => rfl
  | @cons item rest errors log _ _ _ ih =>
    rw [succeeded_append, succeeded_failures, List.nil_append]
    exact congrArg (item :: ·) ih

theorem Done.mem {limit : Nat} {items : List α} {log : List (α × Option ε)}
    (done : Done again limit items log) {entry : α × Option ε} (member : entry ∈ log) :
    entry.1 ∈ items := by
  induction done with
  | nil => cases member
  | cons _ _ _ ih =>
    rcases List.mem_append.mp member with failed | later
    · obtain ⟨e,_,rfl⟩ := List.mem_map.mp failed
      exact List.mem_cons_self
    · rcases List.mem_cons.mp later with rfl | later
      · exact List.mem_cons_self
      · exact List.mem_cons_of_mem _ (ih later)

/-- No query of an item follows one that succeeded. -/
theorem Done.once {limit : Nat} {items : List α} {log front back : List (α × Option ε)} {item : α}
    (done : Done again limit items log) (distinct : items.Nodup)
    (split : log = front ++ (item,none) :: back) : ∀ entry ∈ back, entry.1 ≠ item := by
  induction done generalizing front with
  | nil => simp at split
  | @cons first rest errors log _ _ later ih =>
    rw [List.nodup_cons] at distinct
    rcases List.append_eq_append_iff.mp split with ⟨middle,rfl,tail⟩ | ⟨middle,failed,tail⟩
    · cases middle with
      | nil =>
        obtain ⟨rfl,rfl⟩ : first = item ∧ log = back := by simpa using tail
        intro entry member here
        exact distinct.1 (here ▸ later.mem member)
      | cons entry middle =>
        obtain ⟨_,rest⟩ := List.cons.inj tail
        exact ih distinct.2 rest
    · cases middle with
      | nil =>
        obtain ⟨rfl,rfl⟩ : item = first ∧ back = log := by simpa using tail
        intro entry member here
        exact distinct.1 (here ▸ later.mem member)
      | cons entry middle =>
        obtain ⟨rfl,_⟩ := List.cons.inj tail
        have inside : (item,none) ∈ failures first errors := by simp [failed]
        obtain ⟨e,_,absurd⟩ := List.mem_map.mp inside
        cases absurd

/-- The queries of a stopped loop: those of the items it did, and then only failures. -/
theorem Stopped.once {limit : Nat} {done : List α} {item other : α} {last : ε}
    {log front back : List (α × Option ε)} (stopped : Stopped again limit done item last log)
    (distinct : (done ++ [item]).Nodup) (split : log = front ++ (other,none) :: back) :
    ∀ entry ∈ back, entry.1 ≠ other := by
  obtain ⟨did,errors,rfl,dones,_⟩ := stopped.parts
  obtain ⟨distinct',_,apart⟩ := List.nodup_append.mp distinct
  have failed : ∀ entry ∈ failures item errors ++ [(item,some last)],
      entry.1 = item ∧ entry.2 ≠ none := by
    intro entry member
    rcases List.mem_append.mp member with failed | here
    · obtain ⟨e,_,rfl⟩ := List.mem_map.mp failed
      exact ⟨rfl,nofun⟩
    · rw [List.mem_singleton.mp here]
      exact ⟨rfl,nofun⟩
  rcases List.append_eq_append_iff.mp split with ⟨middle,rfl,tail⟩ | ⟨middle,rfl,tail⟩
  · have inside : (other,none) ∈ failures item errors ++ [(item,some last)] := by simp [tail]
    exact absurd rfl (failed _ inside).2
  · cases middle with
    | nil =>
      have inside : (other,none) ∈ failures item errors ++ [(item,some last)] := by
        rw [List.nil_append] at tail
        simp [← tail]
      exact absurd rfl (failed _ inside).2
    | cons head middle =>
      obtain ⟨rfl,rfl⟩ := List.cons.inj tail
      intro entry member
      rcases List.mem_append.mp member with here | there
      · exact dones.once distinct' rfl entry here
      · rw [(failed entry there).1]
        have member' : (other,none) ∈ front ++ (other,none) :: middle := by simp
        exact Ne.symm (apart other (dones.mem member') item (by simp))

theorem Stopped.succeeded {limit : Nat} {done : List α} {item : α} {last : ε}
    {log : List (α × Option ε)} (stopped : Stopped again limit done item last log) :
    Retry.succeeded log = done := by
  obtain ⟨did,errors,rfl,dones,_⟩ := stopped.parts
  rw [succeeded_append, succeeded_append, dones.succeeded, succeeded_failures]
  simp [Retry.succeeded]

theorem attempt_done {item : α} {left : Nat} {s t : σ} (sent : query item s = .ok none t) :
    attempt query again wrap item left s = .ok () t := by
  cases left with
  | zero => rw [attempt, Effect.bind_of_ok sent]; rfl
  | succ left => rw [attempt, Effect.bind_of_ok sent]; rfl

theorem attempt_ends {item : α} {left : Nat} {s t : σ} {e : ε}
    (sent : query item s = .ok (some e) t) (ended : again e = false ∨ left = 0) :
    attempt query again wrap item left s = .error (wrap e) t := by
  cases left with
  | zero => rw [attempt, Effect.bind_of_ok sent]; rfl
  | succ left =>
    have refused : again e = false := by simpa using ended
    rw [attempt, Effect.bind_of_ok sent]
    simp [refused, Effect.bind_apply]

theorem attempt_again {item : α} {left : Nat} {s t : σ} {e : ε}
    (sent : query item s = .ok (some e) t) (passing : again e = true) :
    attempt query again wrap item (left + 1) s = attempt query again wrap item left t := by
  rw [attempt, Effect.bind_of_ok sent]
  simp [passing]

/-- The attempts of one item, and the log they leave. -/
theorem attempt_logged (total : ∀ item s, ∃ answer t, query item s = .ok answer t) (item : α)
    (left : Nat) (s : σ) (before : List (α × Option ε)) :
    (∃ errors t, attempt query again wrap item left s = .ok () t ∧
      attempt (logged query) again wrap item left (s,before) =
        .ok () (t,before ++ (failures item errors ++ [(item,none)])) ∧
      (∀ e ∈ errors, again e = true) ∧ errors.length ≤ left ∧
      Path query (failures item errors ++ [(item,none)]) s t) ∨
    ∃ errors last t, attempt query again wrap item left s = .error (wrap last) t ∧
      attempt (logged query) again wrap item left (s,before) =
        .error (wrap last) (t,before ++ (failures item errors ++ [(item,some last)])) ∧
      (∀ e ∈ errors, again e = true) ∧ errors.length ≤ left ∧
      (again last = false ∨ errors.length = left) ∧
      Path query (failures item errors ++ [(item,some last)]) s t := by
  induction left generalizing s before with
  | zero =>
    obtain ⟨answer,t,sent⟩ := total item s
    have noted : logged query item (s,before) = .ok answer (t,before ++ [(item,answer)]) := by
      simp [logged, sent]
    cases answer with
    | none =>
      exact .inl ⟨[],t,attempt_done sent,attempt_done noted,by simp,Nat.le_refl _,t,sent,rfl⟩
    | some e =>
      exact .inr ⟨[],e,t,attempt_ends sent (.inr rfl),attempt_ends noted (.inr rfl),by simp,
        Nat.le_refl _,.inr rfl,t,sent,rfl⟩
  | succ left ih =>
    obtain ⟨answer,t,sent⟩ := total item s
    have noted : logged query item (s,before) = .ok answer (t,before ++ [(item,answer)]) := by
      simp [logged, sent]
    cases answer with
    | none =>
      exact .inl ⟨[],t,attempt_done sent,attempt_done noted,by simp,Nat.zero_le _,t,sent,rfl⟩
    | some e =>
      cases passing : again e with
      | false =>
        exact .inr ⟨[],e,t,attempt_ends sent (.inl passing),attempt_ends noted (.inl passing),
          by simp,Nat.zero_le _,.inl passing,t,sent,rfl⟩
      | true =>
        have grown : ∀ tail : List (α × Option ε),
            before ++ [(item,some e)] ++ tail = before ++ ((item,some e) :: tail) := by simp
        rw [attempt_again sent passing, attempt_again noted passing]
        rcases ih t (before ++ [(item,some e)]) with
          ⟨errors,u,ran,log,pass,few,path⟩ | ⟨errors,last,u,ran,log,pass,few,ended,path⟩
        · refine .inl ⟨e :: errors,u,ran,?_,by simpa [passing] using pass,Nat.succ_le_succ few,t,
            sent,path⟩
          rw [log, grown]
          rfl
        · refine .inr ⟨e :: errors,last,u,ran,?_,by simpa [passing] using pass,
            Nat.succ_le_succ few,?_,t,sent,path⟩
          · rw [log, grown]
            rfl
          · exact ended.imp id fun all => congrArg (· + 1) all

/-- A loop either does all its items or stops at one, and its log says which. -/
theorem loop_logged (again : ε → Bool) (wrap : ε → η)
    (total : ∀ item s, ∃ answer t, query item s = .ok answer t) (left : Nat) (items : List α)
    (s : σ) (before : List (α × Option ε)) :
    (∃ t log, loop query again wrap left items s = .ok () t ∧
      loop (logged query) again wrap left items (s,before) = .ok () (t,before ++ log) ∧
      Done again (left + 1) items log ∧ Path query log s t) ∨
    ∃ done item rest last t log, items = done ++ item :: rest ∧
      loop query again wrap left items s = .error (wrap last) t ∧
      loop (logged query) again wrap left items (s,before) =
        .error (wrap last) (t,before ++ log) ∧
      Stopped again (left + 1) done item last log ∧ Path query log s t := by
  induction items generalizing s before with
  | nil => exact .inl ⟨s,[],rfl,by simp [loop],.nil,rfl⟩
  | cons item rest ih =>
    rcases attempt_logged total item left s before with
      ⟨errors,m,ran,log,pass,few,path⟩ | ⟨errors,last,t,ran,log,pass,few,ended,path⟩
    · rcases ih m (before ++ (failures item errors ++ [(item,none)])) with
        ⟨t,later,all,logged,done,onward⟩ |
        ⟨done,stop,tail,last,t,later,split,all,logged,stopped,onward⟩
      · refine .inl ⟨t,(failures item errors ++ [(item,none)]) ++ later,?_,?_,?_,path.append onward⟩
        · rw [loop, Effect.bind_of_ok ran, all]
        · rw [loop, Effect.bind_of_ok log, logged, List.append_assoc]
        · rw [List.append_assoc]
          exact .cons pass (Nat.lt_succ_of_le few) done
      · obtain ⟨front,tries,rfl,front_done,passing,within,ended⟩ := stopped.parts
        refine .inr ⟨item :: done,stop,tail,last,t,(failures item errors ++ [(item,none)]) ++
          (front ++ (failures stop tries ++ [(stop,some last)])),?_,?_,?_,?_,path.append onward⟩
        · rw [split, List.cons_append]
        · rw [loop, Effect.bind_of_ok ran, all]
        · rw [loop, Effect.bind_of_ok log, logged, List.append_assoc]
        · refine ⟨failures item errors ++ (item,none) :: front,tries,by simp,?_,passing,within,
            ended⟩
          exact .cons pass (Nat.lt_succ_of_le few) front_done
    · refine .inr ⟨[],item,rest,last,t,failures item errors ++ [(item,some last)],rfl,?_,?_,?_,path⟩
      · rw [loop, Effect.bind_of_error ran]
      · rw [loop, Effect.bind_of_error log]
      · exact ⟨[],errors,rfl,.nil,pass,Nat.lt_succ_of_le few,
          ended.imp id fun all => congrArg (· + 1) all⟩

section Counting

variable [DecidableEq α] {limit : Nat}

/-- The queries made of an item. -/
def attempts (item : α) (log : List (α × Option ε)) : List (α × Option ε) :=
  log.filter fun entry => entry.1 = item

theorem attempts_absent {item : α} {log : List (α × Option ε)}
    (absent : ∀ entry ∈ log, entry.1 ≠ item) : attempts item log = [] := by
  simpa [attempts] using absent

theorem attempts_append (item : α) (front back : List (α × Option ε)) :
    attempts item (front ++ back) = attempts item front ++ attempts item back :=
  List.filter_append ..

theorem attempts_failures (item : α) (errors : List ε) :
    attempts item (failures item errors) = failures item errors := by
  simp [attempts, failures]

theorem attempts_failures_other {item other : α} (apart : other ≠ item) (errors : List ε) :
    attempts item (failures other errors) = [] := by
  simp [attempts, failures, apart]

theorem Done.attempts {items : List α} {log : List (α × Option ε)}
    (done : Done again limit items log) (distinct : items.Nodup) (item : α) :
    (Retry.attempts item log).length ≤ limit := by
  induction done with
  | nil => exact Nat.zero_le _
  | @cons first rest errors log _ within later ih =>
    rw [List.nodup_cons] at distinct
    rw [attempts_append, ← List.singleton_append, attempts_append]
    by_cases same : first = item
    · subst same
      have none : Retry.attempts first log = [] :=
        attempts_absent fun entry member here => distinct.1 (here ▸ later.mem member)
      rw [attempts_failures, none]
      simpa [Retry.attempts, failures] using Nat.succ_le_of_lt within
    · rw [attempts_failures_other same]
      simpa [Retry.attempts, same] using ih distinct.2

theorem Stopped.attempts {done : List α} {item : α} {last : ε} {log : List (α × Option ε)}
    (stopped : Stopped again limit done item last log) (distinct : (done ++ [item]).Nodup)
    (other : α) : (Retry.attempts other log).length ≤ limit ∧
      (again last = false ∨ (Retry.attempts item log).length = limit) := by
  obtain ⟨did,errors,rfl,dones,_,within,ended⟩ := stopped.parts
  obtain ⟨distinct',_,apart⟩ := List.nodup_append.mp distinct
  have fresh : Retry.attempts item did = [] :=
    attempts_absent fun entry member => apart entry.1 (dones.mem member) item (by simp)
  have own : (Retry.attempts item
      (did ++ (failures item errors ++ [(item,some last)]))).length = errors.length + 1 := by
    rw [attempts_append, attempts_append, fresh, attempts_failures]
    simp [Retry.attempts, failures]
  constructor
  · by_cases same : item = other
    · subst same
      rw [own]
      exact Nat.succ_le_of_lt within
    · rw [attempts_append, attempts_append, attempts_failures_other same]
      simpa [Retry.attempts, same] using dones.attempts distinct' other
  · rw [own]
    exact ended

end Counting

end Log

end Retry
