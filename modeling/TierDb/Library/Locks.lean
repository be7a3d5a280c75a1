import Mathlib.Algebra.Order.BigOperators.Group.Finset
import Mathlib.Data.Set.Finite.Lemmas
import TierDb.Library.Runs

/-! Threads that take mutexes in scopes, as lock guards do. What decides a branch, how often
a loop runs and which action throws is left open; a throw releases the mutexes of the scopes
it leaves. -/
namespace Locks

inductive Code (μ α : Type) where
  | skip
  | act (action : α)
  | seq (first rest : Code μ α)
  | branch (left right : Code μ α)
  | loop (body : Code μ α)
  | guarded (mutex : μ) (body : Code μ α)
  | attempt (body handler : Code μ α)

/-- What a thread has still to do, innermost first. -/
inductive Frame (μ α : Type) where
  | run (code : Code μ α)
  | unlock (mutex : μ)
  | catch (handler : Code μ α)

structure Thread (μ α : Type) where
  frames : List (Frame μ α)
  raising : Bool := false

structure Pool (ι μ α : Type) where
  threads : ι → Thread μ α
  locked : μ → Bool

variable {ι μ α : Type}

section Step

variable [DecidableEq μ]

/-- One step of a thread. The bit decides a branch, whether a loop goes on and whether an
action returns. A guard waits for its mutex. -/
def Thread.step (locked : μ → Bool) (bit : Bool) : Thread μ α → Option (Thread μ α × (μ → Bool))
  | ⟨[],_⟩ => none
  | ⟨.unlock m :: rest,raising⟩ => some (⟨rest,raising⟩,Function.update locked m false)
  | ⟨.run _ :: rest,true⟩ => some (⟨rest,true⟩,locked)
  | ⟨.catch handler :: rest,true⟩ => some (⟨.run handler :: rest,false⟩,locked)
  | ⟨.catch _ :: rest,false⟩ => some (⟨rest,false⟩,locked)
  | ⟨.run .skip :: rest,false⟩ => some (⟨rest,false⟩,locked)
  | ⟨.run (.act _) :: rest,false⟩ => some (⟨rest,!bit⟩,locked)
  | ⟨.run (.seq p q) :: rest,false⟩ => some (⟨.run p :: .run q :: rest,false⟩,locked)
  | ⟨.run (.branch p q) :: rest,false⟩ =>
    some (⟨.run (if bit then p else q) :: rest,false⟩,locked)
  | ⟨.run (.loop p) :: rest,false⟩ =>
    some (⟨if bit then .run p :: .run (.loop p) :: rest else rest,false⟩,locked)
  | ⟨.run (.attempt p q) :: rest,false⟩ => some (⟨.run p :: .catch q :: rest,false⟩,locked)
  | ⟨.run (.guarded m p) :: rest,false⟩ =>
    if locked m then none
    else some (⟨.run p :: .unlock m :: rest,false⟩,Function.update locked m true)

/-- One step of one thread of the pool. -/
def step [DecidableEq ι] (pool : Pool ι μ α) (move : ι × Bool) : Option (Pool ι μ α) :=
  ((pool.threads move.1).step pool.locked move.2).map fun next =>
    ⟨Function.update pool.threads move.1 next.1,next.2⟩

end Step

/-- Nothing is left to do. -/
def Thread.Finished (thread : Thread μ α) : Prop := thread.frames = []

def Thread.Holds (thread : Thread μ α) (m : μ) : Prop := .unlock m ∈ thread.frames

/-- The thread is about to act. -/
def Thread.At (thread : Thread μ α) (action : α) : Prop :=
  thread.raising = false ∧ ∃ rest, thread.frames = .run (.act action) :: rest

/-- The code takes mutexes in the order of their ranks, none below `floor`. -/
def Code.Above (rank : μ → Nat) (floor : Nat) : Code μ α → Prop
  | .skip | .act _ => True
  | .seq p q | .branch p q | .attempt p q => p.Above rank floor ∧ q.Above rank floor
  | .loop p => p.Above rank floor
  | .guarded m p => floor ≤ rank m ∧ p.Above rank (rank m + 1)

/-- Every action has the mutexes it needs. -/
def Code.Covered (needs : α → μ → Prop) (held : μ → Prop) : Code μ α → Prop
  | .skip => True
  | .act a => ∀ m, needs a m → held m
  | .seq p q | .branch p q | .attempt p q => p.Covered needs held ∧ q.Covered needs held
  | .loop p => p.Covered needs held
  | .guarded m p => p.Covered needs fun other => other = m ∨ held other

def Code.size : Code μ α → Nat
  | .skip | .act _ => 1
  | .seq p q | .branch p q | .attempt p q => p.size + q.size + 2
  | .loop p => p.size + 1
  | .guarded _ p => p.size + 2

def Frame.size : Frame μ α → Nat
  | .run p => p.size
  | .unlock _ => 1
  | .catch p => p.size + 1

def Thread.size (thread : Thread μ α) : Nat :=
  thread.frames.foldr (fun frame size => frame.size + size) 0

/-- All threads are about to run their codes, and every mutex is free. -/
def Pool.start (codes : ι → Code μ α) : Pool ι μ α := ⟨fun i => ⟨[.run (codes i)],false⟩,fun _ => false⟩

section Ranked

variable {rank : μ → Nat} {needs : α → μ → Prop}

theorem Code.Above.lower {floor lower : Nat} {p : Code μ α} (above : p.Above rank floor)
    (le : lower ≤ floor) : p.Above rank lower := by
  induction p with
  | skip | act => trivial
  | seq p q ihp ihq | branch p q ihp ihq | attempt p q ihp ihq =>
    exact ⟨ihp above.1,ihq above.2⟩
  | loop p ih => exact ih above
  | guarded m p ih => exact ⟨le.trans above.1,above.2⟩

theorem Code.Covered.more {held more : μ → Prop} {p : Code μ α} (covered : p.Covered needs held)
    (all : ∀ m, held m → more m) : p.Covered needs more := by
  induction p generalizing held more with
  | skip => trivial
  | act a => exact fun m need => all m (covered m need)
  | seq p q ihp ihq | branch p q ihp ihq | attempt p q ihp ihq =>
    exact ⟨ihp covered.1 all,ihq covered.2 all⟩
  | loop p ih => exact ih covered all
  | guarded m p ih => exact ih covered fun other => Or.imp id (all other)

/-- The rank from which on the frames may take mutexes. -/
def floorOf (rank : μ → Nat) : List (Frame μ α) → Nat
  | [] => 0
  | .unlock m :: _ => rank m + 1
  | .run _ :: rest | .catch _ :: rest => floorOf rank rest

/-- The mutexes of a stack rise towards its top, and what is still to be run takes mutexes
above those it holds then. -/
def Ranked (rank : μ → Nat) : List (Frame μ α) → Prop
  | [] => True
  | .unlock m :: rest => floorOf rank rest ≤ rank m ∧ Ranked rank rest
  | .run p :: rest | .catch p :: rest => p.Above rank (floorOf rank rest) ∧ Ranked rank rest

/-- What is still to be run has the mutexes it needs when it comes to run. -/
def CoveredBy (needs : α → μ → Prop) : List (Frame μ α) → Prop
  | [] => True
  | .unlock _ :: rest => CoveredBy needs rest
  | .run p :: rest | .catch p :: rest =>
    p.Covered needs (fun m => .unlock m ∈ rest) ∧ CoveredBy needs rest

theorem Ranked.below {frames : List (Frame μ α)} (ranked : Ranked rank frames) {m : μ}
    (held : .unlock m ∈ frames) : rank m < floorOf rank frames := by
  induction frames with
  | nil => cases held
  | cons frame rest ih =>
    cases frame with
    | unlock other =>
      rcases List.mem_cons.mp held with same | deeper
      · cases same
        exact Nat.lt_succ_self _
      · exact (ih ranked.2 deeper).trans_le (ranked.1.trans (Nat.le_succ _))
    | run p | «catch» p =>
      exact ih ranked.2 (by simpa using held)

/-- A mutex is on a stack once. -/
theorem Ranked.once {m : μ} {rest : List (Frame μ α)} (ranked : Ranked rank (.unlock m :: rest)) :
    .unlock m ∉ rest := fun deeper =>
  absurd ((ranked.2.below deeper).trans_le ranked.1) (lt_irrefl _)

end Ranked

section Threads

variable [DecidableEq μ] {rank : μ → Nat} {needs : α → μ → Prop} {locked after : μ → Bool}
  {bit : Bool} {thread next : Thread μ α}

/-- A step takes a free mutex, releases one that its thread holds, or does neither. -/
theorem Thread.step_mutexes (ranked : Ranked rank thread.frames)
    (taken : thread.step locked bit = some (next,after)) :
    (after = locked ∧ ∀ m, next.Holds m ↔ thread.Holds m) ∨
    (∃ m, locked m = false ∧ after = Function.update locked m true ∧
      ∀ other, next.Holds other ↔ other = m ∨ thread.Holds other) ∨
    ∃ m, after = Function.update locked m false ∧ thread.Holds m ∧
      ∀ other, next.Holds other ↔ other ≠ m ∧ thread.Holds other := by
  obtain ⟨frames,raising⟩ := thread
  cases frames with
  | nil => cases taken
  | cons frame rest =>
    cases frame with
    | unlock m =>
      cases taken
      refine .inr (.inr ⟨m,rfl,List.mem_cons_self,fun other => ?_⟩)
      simp only [Thread.Holds, List.mem_cons, Frame.unlock.injEq]
      constructor
      · exact fun held => ⟨fun same => ranked.once (same ▸ held),.inr held⟩
      · rintro ⟨apart,held⟩
        exact held.resolve_left apart
    | «catch» handler =>
      cases raising <;> cases taken <;> exact .inl ⟨rfl,fun m => by simp [Thread.Holds]⟩
    | run code =>
      cases raising with
      | true => cases taken; exact .inl ⟨rfl,fun m => by simp [Thread.Holds]⟩
      | false =>
        cases code with
        | skip | act a | seq p q | branch p q | attempt p q =>
          cases taken
          exact .inl ⟨rfl,fun m => by simp [Thread.Holds]⟩
        | loop p =>
          cases taken
          exact .inl ⟨rfl,fun m => by cases bit <;> simp [Thread.Holds]⟩
        | guarded m p =>
          simp only [Thread.step, Option.ite_none_left_eq_some, Option.some.injEq,
            Prod.mk.injEq] at taken
          obtain ⟨free,rfl,rfl⟩ := taken
          exact .inr (.inl ⟨m,by simpa using free,rfl,fun other => by simp [Thread.Holds]⟩)

theorem Thread.step_ranked (ranked : Ranked rank thread.frames)
    (taken : thread.step locked bit = some (next,after)) : Ranked rank next.frames := by
  obtain ⟨frames,raising⟩ := thread
  cases frames with
  | nil => cases taken
  | cons frame rest =>
    cases frame with
    | unlock m => cases taken; exact ranked.2
    | «catch» handler =>
      cases raising <;> cases taken
      · exact ranked.2
      · exact ranked
    | run code =>
      cases raising with
      | true => cases taken; exact ranked.2
      | false =>
        cases code with
        | skip | act a => cases taken; exact ranked.2
        | seq p q | attempt p q => cases taken; exact ⟨ranked.1.1,ranked.1.2,ranked.2⟩
        | branch p q => cases taken; cases bit <;> exact ⟨by simp [ranked.1.1, ranked.1.2],ranked.2⟩
        | loop p =>
          cases taken
          cases bit
          · exact ranked.2
          · exact ⟨ranked.1,ranked.1,ranked.2⟩
        | guarded m p =>
          simp only [Thread.step, Option.ite_none_left_eq_some, Option.some.injEq,
            Prod.mk.injEq] at taken
          obtain ⟨_,rfl,_⟩ := taken
          exact ⟨ranked.1.2,ranked.1.1,ranked.2⟩

theorem Thread.step_covered (covered : CoveredBy needs thread.frames)
    (taken : thread.step locked bit = some (next,after)) : CoveredBy needs next.frames := by
  obtain ⟨frames,raising⟩ := thread
  cases frames with
  | nil => cases taken
  | cons frame rest =>
    cases frame with
    | unlock m => cases taken; exact covered
    | «catch» handler =>
      cases raising <;> cases taken
      · exact covered.2
      · exact covered
    | run code =>
      cases raising with
      | true => cases taken; exact covered.2
      | false =>
        cases code with
        | skip | act a => cases taken; exact covered.2
        | seq p q | attempt p q =>
          cases taken
          exact ⟨covered.1.1.more fun m held => List.mem_cons_of_mem _ held,covered.1.2,covered.2⟩
        | branch p q =>
          cases taken
          cases bit <;> exact ⟨by simp [covered.1.1, covered.1.2],covered.2⟩
        | loop p =>
          cases taken
          cases bit
          · exact covered.2
          · exact ⟨covered.1.more fun m held => List.mem_cons_of_mem _ held,covered.1,covered.2⟩
        | guarded m p =>
          simp only [Thread.step, Option.ite_none_left_eq_some, Option.some.injEq,
            Prod.mk.injEq] at taken
          obtain ⟨_,rfl,_⟩ := taken
          have inner : p.Covered needs fun other => other = m ∨ .unlock other ∈ rest := covered.1
          refine ⟨inner.more fun other held => ?_,covered.2⟩
          rcases held with rfl | deeper
          · exact List.mem_cons_self
          · exact List.mem_cons_of_mem _ deeper

/-- Only a guard whose mutex is taken waits. -/
theorem Thread.waits {locked : μ → Bool} (thread : Thread μ α) (unfinished : ¬thread.Finished) :
    (∀ bit, ∃ next, thread.step locked bit = some next) ∨
    ∃ m p rest, thread = ⟨.run (.guarded m p) :: rest,false⟩ ∧ locked m = true := by
  obtain ⟨frames,raising⟩ := thread
  cases frames with
  | nil => exact absurd rfl unfinished
  | cons frame rest =>
    cases frame with
    | unlock m => exact .inl fun _ => ⟨_,rfl⟩
    | «catch» handler => cases raising <;> exact .inl fun _ => ⟨_,rfl⟩
    | run code =>
      cases raising with
      | true => exact .inl fun _ => ⟨_,rfl⟩
      | false =>
        cases code with
        | guarded m p =>
          cases free : locked m with
          | true => exact .inr ⟨m,p,rest,rfl,free⟩
          | false => exact .inl fun _ => ⟨_,by simp [Thread.step, free]; rfl⟩
        | skip | act a | seq p q | branch p q | attempt p q | loop p =>
          exact .inl fun _ => ⟨_,rfl⟩

end Threads

/-- The mutexes are locked by the threads that hold them, each by one. -/
structure Sound (rank : μ → Nat) (needs : α → μ → Prop) (pool : Pool ι μ α) : Prop where
  ranked : ∀ i, Ranked rank (pool.threads i).frames
  covered : ∀ i, CoveredBy needs (pool.threads i).frames
  locked : ∀ m, pool.locked m = true ↔ ∃ i, (pool.threads i).Holds m
  alone : ∀ i j m, (pool.threads i).Holds m → (pool.threads j).Holds m → i = j

section Pools

variable {rank : μ → Nat} {needs : α → μ → Prop} {pool next : Pool ι μ α}

theorem start_sound {codes : ι → Code μ α} (above : ∀ i, (codes i).Above rank 0)
    (covered : ∀ i, (codes i).Covered needs fun _ => False) :
    Sound rank needs (Pool.start codes) where
  ranked i := ⟨above i,trivial⟩
  covered i := ⟨(covered i).more fun _ => False.elim,trivial⟩
  locked m := by simp [Pool.start, Thread.Holds]
  alone i j m held := by simp [Pool.start, Thread.Holds] at held

/-- Of threads that act under one mutex only one is about to. -/
theorem Sound.exclusive (sound : Sound rank needs pool) {i j : ι} {a b : α} {m : μ}
    (first : (pool.threads i).At a) (second : (pool.threads j).At b) (need : needs a m)
    (need' : needs b m) : i = j := by
  have holds {k : ι} {action : α} (at_ : (pool.threads k).At action) (need : needs action m) :
      (pool.threads k).Holds m := by
    obtain ⟨_,rest,frames⟩ := at_
    have covered := sound.covered k
    rw [frames] at covered
    rw [Thread.Holds, frames]
    exact List.mem_cons_of_mem _ (covered.1 m need)
  exact sound.alone i j m (holds first need) (holds second need')

/-- A pool whose threads are done holds no mutex. -/
theorem Sound.free (sound : Sound rank needs pool) (finished : ∀ i, (pool.threads i).Finished)
    (m : μ) : pool.locked m = false := by
  rw [Bool.eq_false_iff]
  intro taken
  obtain ⟨i,held⟩ := (sound.locked m).mp taken
  have none := finished i
  rw [Thread.Finished] at none
  simp [Thread.Holds, none] at held

variable [DecidableEq ι] [DecidableEq μ]

theorem Sound.step (sound : Sound rank needs pool) {move : ι × Bool}
    (taken : Locks.step pool move = some next) : Sound rank needs next := by
  obtain ⟨i,bit⟩ := move
  obtain ⟨⟨thread,after⟩,moved,rfl⟩ := Option.map_eq_some_iff.mp taken
  have others {j : ι} (apart : j ≠ i) :
      Function.update pool.threads i thread j = pool.threads j := Function.update_of_ne apart ..
  have own : Function.update pool.threads i thread i = thread := Function.update_self ..
  have mutexes := Thread.step_mutexes (sound.ranked i) moved
  -- who holds what after the step
  have holder (m : μ) : ∀ j, (Function.update pool.threads i thread j).Holds m →
      (pool.threads j).Holds m ∨ (j = i ∧ pool.locked m = false) := by
    intro j held
    by_cases same : j = i
    · subst same
      rw [own] at held
      rcases mutexes with ⟨_,kept⟩ | ⟨m',free,_,more⟩ | ⟨m',_,_,fewer⟩
      · exact .inl ((kept m).mp held)
      · rcases (more m).mp held with rfl | old
        · exact .inr ⟨rfl,free⟩
        · exact .inl old
      · exact .inl ((fewer m).mp held).2
    · rw [others same] at held
      exact .inl held
  refine ⟨fun j => ?_,fun j => ?_,fun m => ?_,fun j k m first second => ?_⟩
  · by_cases same : j = i
    · subst same
      simpa only [own] using Thread.step_ranked (sound.ranked j) moved
    · simpa only [others same] using sound.ranked j
  · by_cases same : j = i
    · subst same
      simpa only [own] using Thread.step_covered (sound.covered j) moved
    · simpa only [others same] using sound.covered j
  · have before : pool.locked m = true ↔
        (pool.threads i).Holds m ∨ ∃ j, j ≠ i ∧ (pool.threads j).Holds m := by
      rw [sound.locked m]
      simpa using Function.exists_update_iff pool.threads (a := i) (b := pool.threads i)
        fun _ thread => thread.Holds m
    change after m = true ↔ ∃ j, (Function.update pool.threads i thread j).Holds m
    rw [Function.exists_update_iff pool.threads fun _ thread => thread.Holds m]
    rcases mutexes with ⟨rfl,kept⟩ | ⟨m',_,rfl,more⟩ | ⟨m',rfl,has,fewer⟩
    · rw [before, kept]
    · by_cases here : m = m'
      · simp [here, more]
      · rw [Function.update_of_ne here, before, more, or_iff_right here]
    · by_cases here : m = m'
      · subst here
        have none : ∀ j, j ≠ i → ¬(pool.threads j).Holds m := fun j apart held =>
          apart (sound.alone j i m held has)
        simpa [fewer] using none
      · rw [Function.update_of_ne here, before, fewer, and_iff_right here]
  · rcases holder m j first with old | ⟨rfl,free⟩ <;> rcases holder m k second with old' | ⟨rfl,free'⟩
    · exact sound.alone j k m old old'
    · exact absurd ((sound.locked m).mpr ⟨j,old⟩) (by simp [free'])
    · exact absurd ((sound.locked m).mpr ⟨k,old'⟩) (by simp [free])
    · rfl

/-- The rank of the mutex that a thread is about to take. -/
def Thread.awaited (rank : μ → Nat) (thread : Thread μ α) : Nat :=
  match thread.frames with
  | .run (.guarded m _) :: _ => rank m
  | _ => 0

/-- Some unfinished thread can go on: one of the highest rank waited for does not wait. -/
theorem Sound.progress [Finite ι] (sound : Sound rank needs pool) {i : ι}
    (unfinished : ¬(pool.threads i).Finished) :
    ∃ j, ∀ bit, ∃ next, Locks.step pool (j,bit) = some next := by
  by_contra stuck
  push Not at stuck
  have waits (j : ι) (busy : ¬(pool.threads j).Finished) : ∃ m p rest,
      pool.threads j = ⟨.run (.guarded m p) :: rest,false⟩ ∧ pool.locked m = true := by
    refine ((pool.threads j).waits busy).resolve_left fun goes => ?_
    obtain ⟨bit,stays⟩ := stuck j
    obtain ⟨next,moved⟩ := goes bit
    exact stays _ (by simp [Locks.step, moved]; rfl)
  -- among the waiting threads, one that waits for the highest rank
  obtain ⟨j,busy,highest⟩ := Set.exists_max_image {j | ¬(pool.threads j).Finished}
    (fun j => (pool.threads j).awaited rank) (Set.toFinite _) ⟨i,unfinished⟩
  obtain ⟨m,p,rest,is,taken⟩ := waits j busy
  obtain ⟨k,held⟩ := (sound.locked m).mp taken
  have busy' : ¬(pool.threads k).Finished := by
    intro finished
    rw [Thread.Finished] at finished
    simp [Thread.Holds, finished] at held
  obtain ⟨m',p',rest',is',_⟩ := waits k busy'
  have ranked := sound.ranked k
  rw [is'] at ranked held
  have deeper : Frame.unlock m ∈ rest' := by simpa [Thread.Holds] using held
  have rises : rank m < rank m' := (ranked.2.below deeper).trans_le ranked.1.1
  have most := highest k busy'
  simp only [Thread.awaited, is, is'] at most
  omega

theorem Thread.step_shrinks {locked after : μ → Bool} {thread next : Thread μ α}
    (taken : thread.step locked false = some (next,after)) : next.size < thread.size := by
  obtain ⟨frames,raising⟩ := thread
  cases frames with
  | nil => cases taken
  | cons frame rest =>
    cases frame with
    | unlock m => cases taken; simp [Thread.size, Frame.size]
    | «catch» handler => cases raising <;> cases taken <;> simp [Thread.size, Frame.size]
    | run code =>
      have positive : 0 < code.size := by cases code <;> simp [Code.size]
      cases raising with
      | true => cases taken; simpa [Thread.size, Frame.size] using positive
      | false =>
        cases code with
        | skip | act a | loop p | seq p q | branch p q | attempt p q =>
          cases taken
          simp only [Thread.size, List.foldr_cons, Frame.size, Code.size,
            Bool.false_eq_true, if_false]
          omega
        | guarded m p =>
          simp only [Thread.step, Option.ite_none_left_eq_some, Option.some.injEq,
            Prod.mk.injEq] at taken
          obtain ⟨_,rfl,_⟩ := taken
          simp only [Thread.size, List.foldr_cons, Frame.size, Code.size]
          omega

/-- From every sound pool all threads can come to their ends. -/
theorem Sound.finishes [Fintype ι] (sound : Sound rank needs pool) :
    ∃ moves next, Runs.run Locks.step pool moves = some next ∧ ∀ i, (next.threads i).Finished := by
  induction is : ∑ i, (pool.threads i).size using Nat.strong_induction_on generalizing pool with
  | _ total ih =>
    by_cases done : ∀ i, (pool.threads i).Finished
    · exact ⟨[],pool,rfl,done⟩
    · obtain ⟨i,unfinished⟩ := not_forall.mp done
      obtain ⟨j,goes⟩ := sound.progress unfinished
      obtain ⟨mid,taken⟩ := goes false
      have smaller : ∑ i, (mid.threads i).size < total := by
        obtain ⟨⟨thread,after⟩,moved,rfl⟩ := Option.map_eq_some_iff.mp taken
        rw [← is]
        refine Finset.sum_lt_sum (fun k _ => ?_) ⟨j,Finset.mem_univ _,?_⟩
        · by_cases same : k = j
          · subst same
            simpa using (Thread.step_shrinks moved).le
          · simp [Function.update_of_ne same]
        · simpa using Thread.step_shrinks moved
      obtain ⟨moves,next,ran,finished⟩ := ih _ smaller (sound.step taken) rfl
      exact ⟨(j,false) :: moves,next,Runs.run_cons.mpr ⟨mid,taken,ran⟩,finished⟩

end Pools

end Locks
