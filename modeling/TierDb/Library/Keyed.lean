import Mathlib.Data.List.Perm.Basic
import Mathlib.Data.List.Nodup
import Mathlib.Data.List.Count

/-! Lists of rows addressed by a slot. An assignment empties a slot and may put one row
there. What a batch of assignments leaves in a slot is decided by the last of them. -/
namespace Keyed

variable {ρ σ : Type} [DecidableEq σ] (slot : ρ → Option σ)

def within (k : σ) (rows : List ρ) : List ρ := rows.filter fun r => slot r = some k

/-- The rows that have no slot. -/
def outside (rows : List ρ) : List ρ := rows.filter fun r => slot r = none

def erase (k : σ) (rows : List ρ) : List ρ := rows.filter fun r => slot r ≠ some k

def assign (k : σ) (value : Option ρ) (rows : List ρ) : List ρ :=
  erase slot k rows ++ value.toList

def assignAll (steps : List (σ × Option ρ)) (rows : List ρ) : List ρ :=
  steps.foldl (fun rows step => assign slot step.1 step.2 rows) rows

/-- No slot holds two rows. -/
def Unique (rows : List ρ) : Prop := ∀ k, (within slot k rows).length ≤ 1

/-- The last assignment to a slot. -/
def lastOf (k : σ) : List (σ × Option ρ) → Option (Option ρ)
  | [] => none
  | step :: rest => (lastOf k rest).or (if step.1 = k then some step.2 else none)

/-- Every row is assigned to its own slot. -/
def Addressed (steps : List (σ × Option ρ)) : Prop :=
  ∀ step ∈ steps, ∀ r ∈ step.2, slot r = some step.1

def erasures (ks : List σ) : List (σ × Option ρ) := ks.map fun k => (k,none)

/-- Every row to its own slot, in order. -/
def writes (rows : List ρ) : List (σ × Option ρ) :=
  rows.filterMap fun r => (slot r).map fun k => (k,some r)

section Rules

variable {slot}

@[simp] theorem assignAll_nil (rows : List ρ) : assignAll slot [] rows = rows := rfl

@[simp] theorem assignAll_cons (step : σ × Option ρ) (steps : List (σ × Option ρ))
    (rows : List ρ) :
    assignAll slot (step :: steps) rows = assignAll slot steps (assign slot step.1 step.2 rows) :=
  rfl

theorem assignAll_append (front back : List (σ × Option ρ)) (rows : List ρ) :
    assignAll slot (front ++ back) rows = assignAll slot back (assignAll slot front rows) := by
  simp [assignAll]

theorem within_append (k : σ) (front back : List ρ) :
    within slot k (front ++ back) = within slot k front ++ within slot k back := by
  simp [within]

theorem mem_within {k : σ} {r : ρ} {rows : List ρ} :
    r ∈ within slot k rows ↔ r ∈ rows ∧ slot r = some k := by
  simp [within]

theorem within_eq_nil {k : σ} {rows : List ρ} :
    within slot k rows = [] ↔ ∀ r ∈ rows, slot r ≠ some k := by
  simp [within]

theorem mem_erase {k : σ} {r : ρ} {rows : List ρ} :
    r ∈ erase slot k rows ↔ r ∈ rows ∧ slot r ≠ some k := by
  simp [erase]

@[simp] theorem within_erase_same (k : σ) (rows : List ρ) :
    within slot k (erase slot k rows) = [] := by
  simp only [within, List.filter_eq_nil_iff, decide_eq_true_eq]
  intro r member
  exact (mem_erase.mp member).2

theorem within_erase_other {j k : σ} (rows : List ρ) (apart : j ≠ k) :
    within slot j (erase slot k rows) = within slot j rows := by
  simp only [within, erase, List.filter_filter]
  apply List.filter_congr
  intro r _
  by_cases inside : slot r = some j
  · simp [inside, apart]
  · simp [inside]

theorem erase_append (k : σ) (front back : List ρ) :
    erase slot k (front ++ back) = erase slot k front ++ erase slot k back := by
  simp [erase]

theorem erase_of_empty {k : σ} {rows : List ρ} (empty : ∀ r ∈ rows, slot r ≠ some k) :
    erase slot k rows = rows := by
  simpa [erase, List.filter_eq_self] using empty

theorem within_assign {j k : σ} {value : Option ρ} {rows : List ρ}
    (addressed : ∀ r ∈ value, slot r = some k) :
    within slot j (assign slot k value rows) =
      if k = j then value.toList else within slot j rows := by
  have placed : within slot j value.toList = if k = j then value.toList else [] := by
    cases value with
    | none => simp [within]
    | some r =>
      have own := addressed r rfl
      by_cases same : k = j <;> simp [within, own, same]
  rw [assign, within_append, placed]
  by_cases same : k = j
  · simp [← same]
  · simp [within_erase_other rows (Ne.symm same), same]

omit [DecidableEq σ] in
theorem Addressed.tail {step : σ × Option ρ} {steps : List (σ × Option ρ)}
    (addressed : Addressed slot (step :: steps)) : Addressed slot steps :=
  fun other member => addressed other (List.mem_cons_of_mem _ member)

omit [DecidableEq σ] in
theorem Addressed.append {front back : List (σ × Option ρ)} (first : Addressed slot front)
    (second : Addressed slot back) : Addressed slot (front ++ back) := fun step member =>
  (List.mem_append.mp member).elim (first step) (second step)

omit [DecidableEq σ] in
theorem Addressed.single {c : Prop} [Decidable c] {step : σ × Option ρ}
    (own : ∀ r ∈ step.2, slot r = some step.1) : Addressed slot (if c then [step] else []) := by
  intro other member
  obtain ⟨_,same⟩ := List.mem_ite_nil_right.mp member
  obtain rfl := List.mem_singleton.mp same
  exact own

omit [DecidableEq σ] in
theorem Addressed.flatMap {β : Type} {bs : List β} {steps : β → List (σ × Option ρ)}
    (each : ∀ b ∈ bs, Addressed slot (steps b)) : Addressed slot (bs.flatMap steps) := by
  intro step member
  obtain ⟨b,known,inside⟩ := List.mem_flatMap.mp member
  exact each b known step inside

omit [DecidableEq σ] in
theorem erasures_addressed (ks : List σ) : Addressed slot (erasures ks : List (σ × Option ρ)) := by
  intro step member r inside
  obtain ⟨k,_,rfl⟩ := List.mem_map.mp member
  cases inside

omit [DecidableEq σ] in
theorem writes_addressed (rows : List ρ) : Addressed slot (writes slot rows) := by
  intro step member r inside
  obtain ⟨row,_,made⟩ := List.mem_filterMap.mp member
  obtain ⟨k,here,rfl⟩ := Option.map_eq_some_iff.mp made
  cases inside
  exact here

/-- The newest assignment to a slot wins; a slot not assigned keeps its rows. -/
theorem within_assignAll {steps : List (σ × Option ρ)} {rows : List ρ}
    (addressed : Addressed slot steps) (k : σ) :
    within slot k (assignAll slot steps rows) =
      match lastOf k steps with
      | some value => value.toList
      | none => within slot k rows := by
  induction steps generalizing rows with
  | nil => simp [lastOf]
  | cons step rest ih =>
    have own := addressed step List.mem_cons_self
    rw [assignAll_cons, ih addressed.tail, within_assign own, lastOf]
    cases later : lastOf k rest with
    | some value => simp
    | none => by_cases same : step.1 = k <;> simp [same]

theorem outside_assign {k : σ} {value : Option ρ} {rows : List ρ}
    (addressed : ∀ r ∈ value, slot r = some k) :
    outside slot (assign slot k value rows) = outside slot rows := by
  have placed : outside slot value.toList = [] := by
    cases value with
    | none => rfl
    | some r => simp [outside, addressed r rfl]
  have kept : outside slot (erase slot k rows) = outside slot rows := by
    simp only [outside, erase, List.filter_filter]
    apply List.filter_congr
    intro r _
    by_cases none : slot r = none <;> simp [none]
  rw [assign, outside, List.filter_append]
  exact (congrArg₂ (· ++ ·) kept placed).trans (List.append_nil _)

theorem outside_assignAll {steps : List (σ × Option ρ)} {rows : List ρ}
    (addressed : Addressed slot steps) :
    outside slot (assignAll slot steps rows) = outside slot rows := by
  induction steps generalizing rows with
  | nil => rfl
  | cons step rest ih =>
    rw [assignAll_cons, ih addressed.tail, outside_assign (addressed step List.mem_cons_self)]

/-- Two lists hold the same rows when every slot does, and the rest. -/
theorem perm_of_within (slot : ρ → Option σ) {a b : List ρ}
    (slots : ∀ k, (within slot k a).Perm (within slot k b))
    (rest : (outside slot a).Perm (outside slot b)) : a.Perm b := by
  classical
  rw [List.perm_iff_count]
  intro r
  cases here : slot r with
  | none =>
    have count := rest.count_eq r
    rwa [outside, outside, List.count_filter (by simp [here]),
      List.count_filter (by simp [here])] at count
  | some k =>
    have count := (slots k).count_eq r
    rwa [within, within, List.count_filter (by simp [here]),
      List.count_filter (by simp [here])] at count

theorem assign_perm {k : σ} {value : Option ρ} {a b : List ρ} (perm : a.Perm b) :
    (assign slot k value a).Perm (assign slot k value b) :=
  (perm.filter _).append_right _

theorem assignAll_perm {steps : List (σ × Option ρ)} {a b : List ρ} (perm : a.Perm b) :
    (assignAll slot steps a).Perm (assignAll slot steps b) := by
  induction steps generalizing a b with
  | nil => exact perm
  | cons step rest ih => exact ih (assign_perm perm)

theorem within_perm {k : σ} {a b : List ρ} (perm : a.Perm b) :
    (within slot k a).Perm (within slot k b) := perm.filter _

/-- Only the last assignment to each slot counts. -/
theorem assignAll_of_last {front back : List (σ × Option ρ)} (first : Addressed slot front)
    (second : Addressed slot back) (same : ∀ k, lastOf k front = lastOf k back) (rows : List ρ) :
    (assignAll slot front rows).Perm (assignAll slot back rows) := by
  refine perm_of_within slot (fun k => ?_) ?_
  · rw [within_assignAll first, within_assignAll second, same]
  · rw [outside_assignAll first, outside_assignAll second]

theorem within_after {steps : List (σ × Option ρ)} {before after : List ρ}
    (moved : after.Perm (assignAll slot steps before)) (addressed : Addressed slot steps) (k : σ) :
    (within slot k after).Perm
      (match lastOf k steps with
        | some value => value.toList
        | none => within slot k before) :=
  (within_perm moved).trans (.of_eq (within_assignAll addressed k))

theorem lastOf_append (k : σ) (front back : List (σ × Option ρ)) :
    lastOf k (front ++ back) = (lastOf k back).or (lastOf k front) := by
  induction front with
  | nil => simp [lastOf]
  | cons step rest ih => simp [lastOf, ih, Option.or_assoc]

/-- Assigning the same once more changes nothing. -/
theorem assignAll_twice {steps : List (σ × Option ρ)} (addressed : Addressed slot steps)
    (rows : List ρ) :
    (assignAll slot steps (assignAll slot steps rows)).Perm (assignAll slot steps rows) := by
  rw [← assignAll_append]
  refine assignAll_of_last (addressed.append addressed) addressed (fun k => ?_) rows
  rw [lastOf_append, Option.or_self]

theorem lastOf_none {k : σ} {steps : List (σ × Option ρ)} :
    lastOf k steps = none ↔ ∀ step ∈ steps, step.1 ≠ k := by
  induction steps with
  | nil => simp [lastOf]
  | cons step rest ih => by_cases same : step.1 = k <;> simp [lastOf, ih, same]

theorem lastOf_mem {k : σ} {value : Option ρ} {steps : List (σ × Option ρ)}
    (last : lastOf k steps = some value) : (k,value) ∈ steps := by
  induction steps with
  | nil => cases last
  | cons step rest ih =>
    rw [lastOf, Option.or_eq_some_iff] at last
    rcases last with later | ⟨_,first⟩
    · exact List.mem_cons_of_mem _ (ih later)
    · split at first
      · rename_i same
        cases first
        exact same ▸ List.mem_cons_self
      · cases first

/-- Steps at different places may be taken in any order. -/
theorem lastOf_shuffle {β : Type} {bs cs : List β} {steps : β → List (σ × Option ρ)}
    (perm : bs.Perm cs)
    (apart : bs.Pairwise fun b c => ∀ x ∈ steps b, ∀ y ∈ steps c, x.1 ≠ y.1) (k : σ) :
    lastOf k (bs.flatMap steps) = lastOf k (cs.flatMap steps) := by
  have symmetric : ∀ {b c : β}, (∀ x ∈ steps b, ∀ y ∈ steps c, x.1 ≠ y.1) →
      ∀ x ∈ steps c, ∀ y ∈ steps b, x.1 ≠ y.1 :=
    fun away x inside y inside' => (away y inside' x inside).symm
  induction perm with
  | nil => rfl
  | cons b _ ih => rw [List.flatMap_cons, List.flatMap_cons, lastOf_append, lastOf_append,
      ih (List.pairwise_cons.mp apart).2]
  | swap b c rest =>
    have away := (List.pairwise_cons.mp apart).1 b List.mem_cons_self
    simp only [List.flatMap_cons, lastOf_append, Option.or_assoc]
    congr 1
    cases first : lastOf k (steps b) with
    | none => simp
    | some value =>
      have none : lastOf k (steps c) = none :=
        lastOf_none.mpr fun x inside => away x inside _ (lastOf_mem first)
      simp [none]
  | trans first _ ih ih' => rw [ih apart, ih' (first.pairwise apart symmetric)]

theorem assignAll_shuffle {β : Type} {bs cs : List β} {steps : β → List (σ × Option ρ)}
    {a b : List ρ} (perm : bs.Perm cs) (same : a.Perm b)
    (apart : bs.Pairwise fun b c => ∀ x ∈ steps b, ∀ y ∈ steps c, x.1 ≠ y.1)
    (addressed : ∀ b ∈ bs, Addressed slot (steps b)) :
    (assignAll slot (bs.flatMap steps) a).Perm (assignAll slot (cs.flatMap steps) b) :=
  (assignAll_of_last (.flatMap addressed)
    (.flatMap fun c member => addressed c (perm.mem_iff.mpr member))
    (lastOf_shuffle perm apart) a).trans (assignAll_perm same)

theorem lastOf_erasures (k : σ) (ks : List σ) :
    lastOf k (erasures ks : List (σ × Option ρ)) = if k ∈ ks then some none else none := by
  induction ks with
  | nil => rfl
  | cons j rest ih =>
    simp only [erasures, List.map_cons, lastOf] at ih ⊢
    rw [ih]
    by_cases later : k ∈ rest
    · simp [later]
    · by_cases same : j = k
      · simp [later, same]
      · simp [later, same, Ne.symm same]

theorem lastOf_writes (k : σ) (rows : List ρ) :
    lastOf k (writes slot rows) = (within slot k rows).getLast?.map some := by
  induction rows with
  | nil => rfl
  | cons r rest ih =>
    cases here : slot r with
    | none =>
      have same : within slot k (r :: rest) = within slot k rest := by simp [within, here]
      rw [same, ← ih]
      simp [writes, here]
    | some j =>
      have step : writes slot (r :: rest) = (j,some r) :: writes slot rest := by
        simp [writes, here]
      rw [step, lastOf, ih]
      by_cases same : j = k
      · have first : within slot k (r :: rest) = r :: within slot k rest := by
          simp [within, here, same]
        cases last : (within slot k rest).getLast? <;> simp [first, same, List.getLast?_cons, last]
      · have first : within slot k (r :: rest) = within slot k rest := by
          simp [within, here, same]
        simp [first, same]

theorem assignAll_erasures (ks : List σ) (rows : List ρ) :
    assignAll slot (erasures ks) rows = rows.filter fun r => ∀ k ∈ ks, slot r ≠ some k := by
  induction ks generalizing rows with
  | nil => simp [erasures]
  | cons k rest ih =>
    have step : assignAll slot (erasures (k :: rest)) rows =
        assignAll slot (erasures rest) (erase slot k rows) := by
      simp [erasures, assign]
    rw [step, ih, erase, List.filter_filter]
    apply List.filter_congr
    intro r _
    simp [Bool.and_comm]

theorem Unique.perm {a b : List ρ} (unique : Unique slot a) (perm : a.Perm b) : Unique slot b :=
  fun k => by
    have same : (within slot k a).length = (within slot k b).length := (perm.filter _).length_eq
    exact same ▸ unique k

theorem Unique.sublist {a b : List ρ} (unique : Unique slot b) (sub : a.Sublist b) :
    Unique slot a :=
  fun k => Nat.le_trans (sub.filter _).length_le (unique k)

/-- Two rows of one slot among unique rows stand at one place. -/
theorem Unique.apart {front back : List ρ} {r s : ρ} {k : σ}
    (unique : Unique slot (front ++ back)) (inFront : r ∈ front) (inBack : s ∈ back)
    (here : slot r = some k) : slot s ≠ some k := by
  intro there
  have bound := unique k
  rw [within_append, List.length_append] at bound
  have one := List.length_pos_of_mem (mem_within.mpr ⟨inFront,here⟩)
  have two := List.length_pos_of_mem (mem_within.mpr ⟨inBack,there⟩)
  omega

theorem Unique.left {front back : List ρ} (unique : Unique slot (front ++ back)) :
    Unique slot front := fun k => by
  have bound := unique k
  rw [within_append, List.length_append] at bound
  omega

theorem Unique.right {front back : List ρ} (unique : Unique slot (front ++ back)) :
    Unique slot back := fun k => by
  have bound := unique k
  rw [within_append, List.length_append] at bound
  omega

theorem Unique.of_nodup {rows : List ρ} (distinct : (rows.filterMap slot).Nodup) :
    Unique slot rows := by
  intro k
  have same : (within slot k rows).length = (rows.filterMap slot).count k := by
    induction rows with
    | nil => rfl
    | cons r rest ih =>
      have later := ih (by
        cases here : slot r <;> simp_all)
      cases here : slot r with
      | none => simpa [within, here] using later
      | some j => by_cases same : j = k <;> simpa [within, here, same] using later
  rw [same]
  exact List.nodup_iff_count_le_one.mp distinct k

/-- Erasing the slots of some of the rows leaves the others. -/
theorem Unique.erasures_perm {ks : List σ} {rows olds rest : List ρ} (unique : Unique slot rows)
    (split : rows.Perm (olds ++ rest)) (slots : olds.map slot = ks.map some) :
    (assignAll slot (erasures ks) rows).Perm rest := by
  have gone : ∀ r ∈ olds, ∃ k ∈ ks, slot r = some k := by
    intro r member
    have inKs : slot r ∈ ks.map some := slots ▸ List.mem_map_of_mem member
    obtain ⟨k,known,same⟩ := List.mem_map.mp inKs
    exact ⟨k,known,same.symm⟩
  have kept : ∀ r ∈ rest, ∀ k ∈ ks, slot r ≠ some k := by
    intro r member k known
    have inOlds : some k ∈ olds.map slot := slots ▸ List.mem_map_of_mem known
    obtain ⟨o,old,same⟩ := List.mem_map.mp inOlds
    exact (unique.perm split).apart old member same
  refine (assignAll_perm split).trans ?_
  have first : olds.filter (fun r => ∀ k ∈ ks, slot r ≠ some k) = [] := by
    simp only [List.filter_eq_nil_iff, decide_eq_true_eq]
    intro r member free
    obtain ⟨k,known,same⟩ := gone r member
    exact free k known same
  have second : rest.filter (fun r => ∀ k ∈ ks, slot r ≠ some k) = rest := by
    simpa [List.filter_eq_self] using kept
  rw [assignAll_erasures, List.filter_append, first, second, List.nil_append]

/-- Writing unique rows to free slots adds them. -/
theorem assignAll_writes {news rows : List ρ} (slotted : ∀ n ∈ news, (slot n).isSome)
    (unique : Unique slot news) (free : ∀ n ∈ news, ∀ r ∈ rows, slot r ≠ slot n) :
    assignAll slot (writes slot news) rows = rows ++ news := by
  induction news generalizing rows with
  | nil => simp [writes]
  | cons n rest ih =>
    obtain ⟨k,here⟩ := Option.isSome_iff_exists.mp (slotted n List.mem_cons_self)
    have empty : erase slot k rows = rows :=
      erase_of_empty fun r member => here ▸ free n List.mem_cons_self r member
    have step : assignAll slot (writes slot (n :: rest)) rows =
        assignAll slot (writes slot rest) (rows ++ [n]) := by
      simp [writes, here, assign, empty]
    have split : Unique slot ([n] ++ rest) := unique
    rw [step, ih (fun m later => slotted m (List.mem_cons_of_mem _ later)) split.right]
    · simp
    · intro m later r member
      rcases List.mem_append.mp member with old | new
      · exact free m (List.mem_cons_of_mem _ later) r old
      · obtain rfl := List.mem_singleton.mp new
        intro same
        exact split.apart List.mem_cons_self later here (same.symm.trans here)

theorem Unique.append {front back : List ρ} (first : Unique slot front) (second : Unique slot back)
    (apart : ∀ r ∈ front, ∀ s ∈ back, slot s ≠ none → slot r ≠ slot s) :
    Unique slot (front ++ back) := by
  intro k
  rw [within_append, List.length_append]
  have one := first k
  have two := second k
  by_contra crowded
  have inFront : within slot k front ≠ [] := by
    intro none
    simp [none] at crowded
    omega
  have inBack : within slot k back ≠ [] := by
    intro none
    simp [none] at crowded
    omega
  obtain ⟨r,left⟩ := List.exists_mem_of_ne_nil _ inFront
  obtain ⟨s,right⟩ := List.exists_mem_of_ne_nil _ inBack
  obtain ⟨member,here⟩ := mem_within.mp left
  obtain ⟨member',there⟩ := mem_within.mp right
  exact apart r member s member' (by simp [there]) (here.trans there.symm)

omit [DecidableEq σ] in
theorem writes_append (front back : List ρ) :
    writes slot (front ++ back) = writes slot front ++ writes slot back :=
  List.filterMap_append

/-- Writing unique rows replaces what their slots held. -/
theorem replace_perm {news : List ρ} (rows : List ρ) (slotted : ∀ n ∈ news, (slot n).isSome)
    (unique : Unique slot news) :
    ((rows.filter fun r => ∀ n ∈ news, slot r ≠ slot n) ++ news).Perm
      (assignAll slot (writes slot news) rows) := by
  have kept : (rows.filter fun r => ∀ n ∈ news, slot r ≠ slot n) =
      assignAll slot (erasures (news.filterMap slot)) rows := by
    rw [assignAll_erasures]
    apply List.filter_congr
    intro r _
    rw [Bool.eq_iff_iff, decide_eq_true_eq, decide_eq_true_eq]
    simp only [List.mem_filterMap]
    constructor
    · rintro apart k ⟨n,member,here⟩ same
      exact apart n member (same.trans here.symm)
    · intro apart n member same
      obtain ⟨k,here⟩ := Option.isSome_iff_exists.mp (slotted n member)
      exact apart k ⟨n,member,here⟩ (same.trans here)
  have free : ∀ n ∈ news, ∀ r ∈ rows.filter (fun r => ∀ n ∈ news, slot r ≠ slot n),
      slot r ≠ slot n := by
    intro n known r member
    have apart : ∀ n ∈ news, slot r ≠ slot n := by simpa using (List.mem_filter.mp member).2
    exact apart n known
  rw [← assignAll_writes slotted unique free, kept, ← assignAll_append]
  refine assignAll_of_last ((erasures_addressed _).append (writes_addressed _))
    (writes_addressed _) (fun k => ?_) rows
  rw [lastOf_append, lastOf_erasures]
  cases last : lastOf k (writes slot news) with
  | some value => simp
  | none =>
    rw [lastOf_writes, Option.map_eq_none_iff, List.getLast?_eq_none_iff] at last
    have absent : k ∉ news.filterMap slot := by
      rw [List.mem_filterMap]
      rintro ⟨n,member,here⟩
      exact List.not_mem_nil (last ▸ mem_within.mpr ⟨member,here⟩)
    simp [absent]

theorem lastOf_writes_mem {k : σ} {rows : List ρ} {value : Option ρ}
    (last : lastOf k (writes slot rows) = some value) :
    ∃ r ∈ rows, slot r = some k ∧ value = some r := by
  rw [lastOf_writes, Option.map_eq_some_iff] at last
  obtain ⟨r,last,rfl⟩ := last
  obtain ⟨member,here⟩ := mem_within.mp (List.mem_of_getLast? last)
  exact ⟨r,member,here,rfl⟩

end Rules

section Batches

/-- The slots a batch erases, then the rows it writes. -/
def batch (part : List σ × List ρ) : List (σ × Option ρ) :=
  erasures part.1 ++ writes slot part.2

/-- No row of the earlier part stands in a slot the later part erases. -/
def Apart (earlier later : List σ × List ρ) : Prop :=
  ∀ r ∈ earlier.2, ∀ k ∈ later.1, slot r ≠ some k

variable {slot}

theorem lastOf_batch (k : σ) (part : List σ × List ρ) : lastOf k (batch slot part) =
    (lastOf k (writes slot part.2)).or (if k ∈ part.1 then some none else none) := by
  rw [batch, lastOf_append, lastOf_erasures]

omit [DecidableEq σ] in
theorem batch_addressed (part : List σ × List ρ) : Addressed slot (batch slot part) :=
  (erasures_addressed part.1).append (writes_addressed part.2)

omit [DecidableEq σ] in
theorem batches_addressed (parts : List (List σ × List ρ)) :
    Addressed slot (parts.flatMap (batch slot)) :=
  .flatMap fun part _ => batch_addressed part

/-- Parts that are apart may be joined into one batch. -/
theorem lastOf_batches {parts : List (List σ × List ρ)} (apart : parts.Pairwise (Apart slot))
    (k : σ) : lastOf k (parts.flatMap (batch slot)) =
      lastOf k (batch slot (parts.flatMap Prod.fst,parts.flatMap Prod.snd)) := by
  induction parts with
  | nil => rfl
  | cons part rest ih =>
    rw [List.pairwise_cons] at apart
    rw [List.flatMap_cons, lastOf_append, ih apart.2, lastOf_batch, lastOf_batch, lastOf_batch]
    simp only [List.flatMap_cons, writes_append, lastOf_append, List.mem_append]
    -- The part's writes and the later erasures do not meet, so they commute.
    have commute : lastOf k (writes slot part.2) = none ∨ k ∉ rest.flatMap Prod.fst := by
      by_contra both
      push Not at both
      obtain ⟨written,erased⟩ := both
      obtain ⟨value,last⟩ := Option.ne_none_iff_exists'.mp written
      obtain ⟨r,member,here,_⟩ := lastOf_writes_mem last
      obtain ⟨later,known,erased⟩ := List.mem_flatMap.mp erased
      exact apart.1 later known r member k erased here
    rcases commute with none | absent
    · by_cases own : k ∈ part.1 <;> by_cases later : k ∈ rest.flatMap Prod.fst <;>
        simp [none, own, later]
    · simp [absent, Option.or_assoc]

/-- When a later part erases what an earlier one wrote, and no slot is written twice,
some written row does not survive. -/
theorem lost_of_not_apart {parts : List (List σ × List ρ)}
    (unique : Unique slot (parts.flatMap Prod.snd)) (meet : ¬parts.Pairwise (Apart slot)) :
    ∃ r ∈ parts.flatMap Prod.snd, ∃ k, slot r = some k ∧
      lastOf k (parts.flatMap (batch slot)) = some none := by
  induction parts with
  | nil => exact absurd .nil meet
  | cons part rest ih =>
    rw [List.flatMap_cons] at unique
    simp only [List.flatMap_cons, List.mem_append, lastOf_append]
    by_cases later : rest.Pairwise (Apart slot)
    · have first : ∃ other ∈ rest, ¬Apart slot part other := by
        by_contra none
        push Not at none
        exact meet (List.pairwise_cons.mpr ⟨none,later⟩)
      obtain ⟨other,known,meets⟩ := first
      simp only [Apart, not_forall, not_not] at meets
      obtain ⟨r,member,k,erased,here⟩ := meets
      have unwritten : lastOf k (writes slot (rest.flatMap Prod.snd)) = none := by
        by_contra written
        obtain ⟨value,last⟩ := Option.ne_none_iff_exists'.mp written
        obtain ⟨s,inRest,there,_⟩ := lastOf_writes_mem last
        exact unique.apart member inRest here there
      refine ⟨r,.inl member,k,here,?_⟩
      have gone : k ∈ rest.flatMap Prod.fst := List.mem_flatMap.mpr ⟨other,known,erased⟩
      rw [lastOf_batches later, lastOf_batch, unwritten]
      simp [gone]
    · obtain ⟨r,member,k,here,lost⟩ := ih unique.right later
      exact ⟨r,.inr member,k,here,by simp [lost]⟩

end Batches

end Keyed
