import TierDb.Boundary
import TierDb.Reference

/-! Atomicity of DuckDB transactions that share one connection. A transaction's
effects are the writes the server acknowledged for it; they are durable when the
durable journal holds them. -/
namespace TierDb

def effects (log : List (Nat × Write)) (t : Nat) : List (Nat × Write) :=
  log.filter (·.1 = t)

/-- The durable database is what its journal makes of `base`. A committed transaction
with no failed call has all its effects durable, one that was rolled back or still
runs has none. -/
structure Atomic (core : Core) (base : Database) (sys : System) : Prop where
  replayed : runAll core (sys.journal.map Prod.snd) base = .ok sys.durable
  committed : ∀ t, sys.ended t = some .committed → sys.failed t = false →
    effects sys.journal t = effects sys.issued t
  undone : ∀ t, sys.ended t = some .rolledBack ∨ sys.ended t = none → effects sys.journal t = []

/-- No transaction yet, and nothing recorded on the connection. -/
structure Fresh (sys : System) : Prop where
  inTxn : sys.conn.inTxn = false
  block : sys.conn.client.session.block = .idle
  journal : sys.journal = []
  issued : sys.issued = []
  transactions : ∀ t, sys.transactions t = none
  failed : ∀ t, sys.failed t = false
  ended : ∀ t, sys.ended t = none

/-- Chunks and boundaries only. -/
def Event.Writes : Event → Prop
  | .scan .. => False
  | _ => True

def System.Writing (sys : System) (t : Nat) : Prop :=
  ∃ txn, sys.transactions t = some txn ∧ txn.writeActive = true

instance (sys : System) (t : Nat) : Decidable (sys.Writing t) :=
  decidable_of_iff ((sys.transactions t).any TierDBTransaction.writeActive = true)
    (by simp [System.Writing, Option.any_eq_true])

/-- A chunk runs only if the connection's write flag is clear or was set for its own
transaction: no other transaction has an active write, and no COMMIT or ROLLBACK that
the server refused has left the flag behind. -/
def OwnFlag (sys : System) : Event → Prop
  | .chunk t .. => sys.conn.inTxn = true → sys.Writing t
  | _ => True

instance (sys : System) (event : Event) : Decidable (OwnFlag sys event) :=
  match event with
  | .chunk t .. => inferInstanceAs (Decidable (sys.conn.inTxn = true → sys.Writing t))
  | .start _ | .scan .. | .commit .. | .rollback .. => isTrue trivial

@[simp] theorem effects_append (a b : List (Nat × Write)) (t : Nat) :
    effects (a ++ b) t = effects a t ++ effects b t := by simp [effects]

@[simp] theorem effects_nil (t : Nat) : effects [] t = [] := rfl

@[simp] theorem effects_tagged (writes : List Write) (t : Nat) :
    effects (tagged t writes) t = tagged t writes := by
  simp [effects, tagged, List.filter_eq_self]

theorem effects_tagged_other {t u : Nat} (writes : List Write) (apart : u ≠ t) :
    effects (tagged t writes) u = [] := by
  simp [effects, tagged, List.filter_eq_nil_iff, Ne.symm apart]

/-- The block that transaction `t` writes in holds the durable state followed by
`t`'s effects, unless a call of `t` has failed and aborted it. -/
def OwnBlock (core : Core) (conn : Conn) (t : Nat) (failed : Prop) : Prop :=
  (∃ w new, conn.client.session.block = .open w ∧
    Grew core t conn.client.session.durable w new ∧
    effects conn.client.issued t = tagged t new) ∨
  (conn.client.session.block = .aborted ∧ failed)

/-- The invariant of writers that do not overlap: the open block, if any, belongs to
the one transaction with an active write. -/
structure Separate (core : Core) (base : Database) (sys : System) : Prop where
  block : (sys.conn.client.session.block = .idle ∧ ∀ t, ¬sys.Writing t) ∨
    (∃ t, sys.Writing t ∧ (∀ u, sys.Writing u → u = t) ∧ sys.conn.inTxn = true ∧
      OwnBlock core sys.conn t (sys.failed t = true))
  unpinned : ∀ t txn, sys.transactions t = some txn → txn.pins = []
  current : ∀ t txn, sys.transactions t = some txn → sys.ended t = none
  silent : ∀ t, sys.ended t = none → ¬sys.Writing t → effects sys.issued t = []
  replayed : runAll core (sys.journal.map Prod.snd) base = .ok sys.durable
  committed : ∀ t, sys.ended t = some .committed →
    effects sys.journal t = effects sys.issued t
  undone : ∀ t, sys.ended t = some .rolledBack ∨ sys.ended t = none → effects sys.journal t = []

theorem Separate.atomic {core : Core} {base : Database} {sys : System}
    (separate : Separate core base sys) : Atomic core base sys where
  replayed := separate.replayed
  committed t ended _ := separate.committed t ended
  undone := separate.undone

theorem Fresh.separate (core : Core) {sys : System} (fresh : Fresh sys) :
    Separate core sys.durable sys where
  block := .inl ⟨fresh.block,fun t => by simp [System.Writing, fresh.transactions]⟩
  unpinned t txn found := by simp [fresh.transactions] at found
  current t txn found := by simp [fresh.transactions] at found
  silent t _ _ := by simp [fresh.issued]
  replayed := by simp [fresh.journal, runAll]
  committed t ended := by simp [fresh.ended] at ended
  undone t _ := by simp [fresh.journal]

theorem writing_assign_other {sys : System} {t u : Nat} {txn : Option TierDBTransaction}
    (apart : u ≠ t) :
    System.Writing { sys with transactions := assign sys.transactions t txn } u ↔
      sys.Writing u := by
  simp [System.Writing, assign_other t apart]

theorem Reference.system_fresh (db : Database) : Fresh (Reference.system db) :=
  ⟨rfl,rfl,rfl,rfl,fun _ => rfl,fun _ => rfl,fun _ => rfl⟩

/-- Where the writers are after a call of `t`: others as before, `t` by its flag. -/
theorem writing_settleResult {α : Type} {sys : System} {t u : Nat}
    {result : EStateM.Result String Attached α} :
    (sys.settleResult t result).Writing u ↔
      if u = t then (Effect.final result).txn.writeActive = true else sys.Writing u := by
  by_cases same : u = t
  · subst same; simp [System.Writing]
  · simp [System.Writing, same]

theorem writing_close {sys : System} {t u : Nat} {ending : Ending} {a : Attached} :
    (sys.close t ending a).Writing u ↔ u ≠ t ∧ sys.Writing u := by
  by_cases same : u = t
  · subst same; simp [System.Writing]
  · simp [System.Writing, same]

theorem step_start_separate {core : Core} {base : Database} {sys next : System} {t : Nat}
    (separate : Separate core base sys) (taken : step core sys (.start t) = some next) :
    Separate core base next := by
  obtain ⟨free,open_,rfl⟩ := step_start taken
  have writing (u : Nat) : System.Writing
      { sys with transactions := assign sys.transactions t (some {}) } u ↔ sys.Writing u := by
    by_cases same : u = t
    · subst same; simp [System.Writing, free]
    · exact writing_assign_other same
  refine ⟨?_,?_,?_,?_,separate.replayed,separate.committed,separate.undone⟩
  · simpa only [writing] using separate.block
  · intro u txn found
    by_cases same : u = t
    · subst same
      simp only [assign_same, Option.some.injEq] at found
      simp [← found]
    · exact separate.unpinned u txn (by simpa [assign_other t same] using found)
  · intro u txn found
    by_cases same : u = t
    · exact same ▸ open_
    · exact separate.current u txn (by simpa [assign_other t same] using found)
  · intro u ended idle
    exact separate.silent u ended (fun w => idle ((writing u).mpr w))

/-- Statements sent for `t` keep its block, and leave the durable state and what was
issued for others alone. -/
theorem OwnBlock.sends {core : Core} {aborts failed : Prop} {c d : Conn} {t : Nat}
    (own : OwnBlock core c t failed) (author : c.client.author = t)
    (sends : Sends core aborts c d) :
    OwnBlock core d t (failed ∨ aborts) ∧
      d.client.session.durable = c.client.session.durable ∧
      ∀ u, u ≠ t → effects d.client.issued u = effects c.client.issued u := by
  obtain ⟨new,issued,moved⟩ := sends.sent
  rw [author] at issued moved
  have others (u : Nat) (apart : u ≠ t) :
      effects d.client.issued u = effects c.client.issued u := by
    simp [issued, effects_tagged_other new apart]
  rcases own with ⟨w,front,«open»,grew,mine⟩ | ⟨aborted,bad⟩
  · simp only [BlockMoves, «open»] at moved
    obtain ⟨durable,⟨w',still,more⟩ | ⟨bad,aborted⟩⟩ := moved
    · refine ⟨.inl ⟨w',front ++ new,still,durable ▸ grew.trans more,?_⟩,durable,others⟩
      simp [issued, mine]
    · exact ⟨.inr ⟨aborted,.inr bad⟩,durable,others⟩
  · simp only [BlockMoves, aborted] at moved
    exact ⟨.inr ⟨moved.1,.inl bad⟩,moved.2.1,others⟩

/-- With the flag clear or its own, a chunk's call either fails to begin and leaves the
session idle, or goes on inside the transaction's own block. -/
theorem Separate.ensure {core : Core} {base : Database} {sys : System} {t : Nat}
    {txn : TierDBTransaction} (separate : Separate core base sys)
    (found : sys.transactions t = some txn) (live : sys.failed t = false)
    (flag : sys.conn.inTxn = true → sys.Writing t) (verdicts answers : List (Option String)) :
    match ensureWriteTxn (sys.enter t txn verdicts answers) with
    | .error _ b => b.txn = txn ∧ txn.writeActive = false ∧ (∀ u, ¬sys.Writing u) ∧
        b.conn.client.session.block = .idle ∧
        b.conn.client.session.durable = sys.conn.client.session.durable ∧
        b.conn.client.issued = sys.issued
    | .ok _ b => b.txn = { txn with writeActive := true } ∧ (∀ u, sys.Writing u → u = t) ∧
        b.conn.inTxn = true ∧ b.conn.client.author = t ∧ OwnBlock core b.conn t False ∧
        b.conn.client.session.durable = sys.conn.client.session.durable ∧
        b.conn.client.issued = sys.issued := by
  rcases separate.block with ⟨idle,none⟩ | ⟨u,writing,only,inTxn,own⟩
  · have quiet : txn.writeActive = false := by
      by_contra active
      exact none t ⟨txn,found,by simpa using active⟩
    have clear : sys.conn.inTxn = false := by
      by_contra set
      exact none t (flag (by simpa using set))
    have silent : effects sys.issued t = [] :=
      separate.silent t (separate.current t txn found) (none t)
    rcases ensureWriteTxn_idle (a := sys.enter t txn verdicts answers) quiet clear idle with
      ⟨e,refused⟩ | begun
    · rw [refused]
      exact ⟨rfl,quiet,none,idle,rfl,rfl⟩
    · rw [begun]
      exact ⟨rfl,fun u w => absurd w (none u),rfl,rfl,
        .inl ⟨_,[],rfl,Grew.refl core t _,silent⟩,rfl,rfl⟩
  · have mine : t = u := only t (flag inTxn)
    subst mine
    obtain ⟨txn',found',active⟩ := writing
    obtain rfl : txn = txn' := Option.some.inj (found.symm.trans found')
    rw [ensureWriteTxn_apply, if_pos (by simpa using active)]
    refine ⟨?_,only,inTxn,rfl,?_,rfl,rfl⟩
    · cases txn; simp_all
    · simpa [live, OwnBlock] using own

/-- A call of `t` that keeps the durable state and what was issued for others keeps the
invariant, provided it leaves the open block with its owner. -/
theorem Separate.settleResult {core : Core} {base : Database} {sys : System} {t : Nat} {α : Type}
    {txn : TierDBTransaction} {result : EStateM.Result String Attached α}
    (separate : Separate core base sys) (found : sys.transactions t = some txn)
    (unpinned : (Effect.final result).txn.pins = [])
    (durable : (Effect.final result).conn.client.session.durable = sys.conn.client.session.durable)
    (others : ∀ u, u ≠ t →
      effects (Effect.final result).conn.client.issued u = effects sys.issued u)
    (silent : (Effect.final result).txn.writeActive = false →
      effects (Effect.final result).conn.client.issued t = [])
    (block : ((Effect.final result).conn.client.session.block = .idle ∧
        ∀ u, ¬(sys.settleResult t result).Writing u) ∨
      (∃ u, (sys.settleResult t result).Writing u ∧
        (∀ v, (sys.settleResult t result).Writing v → v = u) ∧
        (Effect.final result).conn.inTxn = true ∧
        OwnBlock core (Effect.final result).conn u ((sys.settleResult t result).failed u = true))) :
    Separate core base (sys.settleResult t result) := by
  have current : sys.ended t = none := separate.current t txn found
  have journal : (sys.settleResult t result).journal = sys.journal := by
    simp [System.journal, durable]
  have issued : (sys.settleResult t result).issued = (Effect.final result).conn.client.issued := by
    simp [System.issued]
  refine ⟨by simpa using block,?_,?_,?_,?_,?_,?_⟩
  · intro u other there
    by_cases same : u = t
    · subst same
      simp only [settleResult_transactions, assign_same, Option.some.injEq] at there
      exact there ▸ unpinned
    · exact separate.unpinned u other (by simpa [same] using there)
  · intro u other there
    by_cases same : u = t
    · simpa [same] using current
    · simpa using separate.current u other (by simpa [same] using there)
  · intro u ended idle
    rw [writing_settleResult] at idle
    rw [issued]
    by_cases same : u = t
    · subst same
      exact silent (by simpa using idle)
    · simp only [same, if_false] at idle
      exact (others u same).trans (separate.silent u (by simpa using ended) idle)
  · rw [journal]
    simpa [System.durable, durable] using separate.replayed
  · intro u ended
    have apart : u ≠ t := by
      rintro rfl
      simp [current] at ended
    rw [journal, issued]
    exact (separate.committed u (by simpa using ended)).trans (others u apart).symm
  · rw [journal]
    simpa using separate.undone

theorem step_chunk_separate {core : Core} {base : Database} {sys next : System} {t : Nat}
    {kind : ChunkKind} {schema table : String} {rows : JsonText}
    {verdicts answers : List (Option String)} (separate : Separate core base sys)
    (flag : sys.conn.inTxn = true → sys.Writing t)
    (taken : step core sys (.chunk t kind schema table rows verdicts answers) = some next) :
    Separate core base next := by
  obtain ⟨txn,found,live,rfl⟩ := step_chunk taken
  have unpinned := separate.unpinned t txn found
  have ensured := separate.ensure found live flag verdicts answers
  have cases := sinkChunk_cases core kind schema table rows (sys.enter t txn verdicts answers)
  generalize sinkChunk core kind schema table rows (sys.enter t txn verdicts answers) = result
    at cases ⊢
  rcases cases with ⟨e,b,begun,threw⟩ | ⟨b,begun,sent⟩
  · rw [begun] at ensured
    obtain ⟨same,quiet,none,idle,durable,issued⟩ := ensured
    rw [threw]
    refine separate.settleResult found (by simp [same, unpinned]) durable
      (fun u _ => by simp [issued]) (fun _ => ?_) (.inl ⟨idle,fun u => ?_⟩)
    · simpa [issued] using separate.silent t (separate.current t txn found) (none t)
    · rw [writing_settleResult]
      split
      · simp [same, quiet]
      · exact none u
  · rw [begun] at ensured
    obtain ⟨flagged,only,inTxn,author,own,durable,issued⟩ := ensured
    obtain ⟨same,outcome⟩ := sent
    have active : (Effect.final result).txn.writeActive = true := by simp [same, flagged]
    have writes (u : Nat) : (sys.settleResult t result).Writing u ↔ u = t := by
      rw [writing_settleResult]
      split
      · simp [*]
      · exact ⟨only u,fun h => absurd h ‹_›⟩
    have keeps {aborts : Prop} (sends : Sends core aborts b.conn (Effect.final result).conn)
        (bad : aborts → (sys.settleResult t result).failed t = true) :
        Separate core base (sys.settleResult t result) := by
      obtain ⟨own',durable',others⟩ := own.sends author sends
      refine separate.settleResult found (by simp [same, flagged, unpinned])
        (durable'.trans durable) (fun u apart => (others u apart).trans (by rw [issued]))
        (fun quiet => by simp [active] at quiet) (.inr ⟨t,(writes t).mpr rfl,?_,?_,?_⟩)
      · exact fun u w => (writes u).mp w
      · rw [sends.inTxn, inTxn]
      · rcases own' with «open» | ⟨aborted,cause⟩
        · exact .inl «open»
        · exact .inr ⟨aborted,bad (by simpa using cause)⟩
    rcases outcome with ⟨_,sends⟩ | ⟨threw,sends⟩
    · exact keeps sends False.elim
    · exact keeps sends fun _ => settleResult_failed sys t threw

/-- A boundary of `t` keeps the invariant if it leaves the session to the writer that
remains and makes durable what the ending says. -/
theorem Separate.close {core : Core} {base : Database} {sys : System} {t : Nat} {a : Attached}
    {txn : TierDBTransaction} {ending : Ending}
    (separate : Separate core base sys) (found : sys.transactions t = some txn)
    (issued : a.conn.client.issued = sys.issued)
    (others : ∀ u, u ≠ t →
      effects a.conn.client.session.durable.journal u = effects sys.journal u)
    (replayed : runAll core (a.conn.client.session.durable.journal.map Prod.snd) base =
      .ok a.conn.client.session.durable.database)
    (committed : ending = .committed →
      effects a.conn.client.session.durable.journal t = effects sys.issued t)
    (undone : ending = .rolledBack →
      effects a.conn.client.session.durable.journal t = [])
    (block : (a.conn.client.session.block = .idle ∧ ∀ u, u ≠ t → ¬sys.Writing u) ∨
      (∃ u, u ≠ t ∧ sys.Writing u ∧ (∀ v, sys.Writing v → v = u) ∧ a.conn.inTxn = true ∧
        OwnBlock core a.conn u (sys.failed u = true))) :
    Separate core base (sys.close t ending a) := by
  have current : sys.ended t = none := separate.current t txn found
  refine ⟨?_,?_,?_,?_,replayed,?_,?_⟩
  · rcases block with ⟨idle,none⟩ | ⟨u,apart,writing,only,inTxn,own⟩
    · exact .inl ⟨idle,fun u w => none u (writing_close.mp w).1 (writing_close.mp w).2⟩
    · exact .inr ⟨u,writing_close.mpr ⟨apart,writing⟩,
        fun v w => only v (writing_close.mp w).2,inTxn,own⟩
  · intro u other there
    by_cases same : u = t
    · simp [same] at there
    · exact separate.unpinned u other (by simpa [same] using there)
  · intro u other there
    by_cases same : u = t
    · simp [same] at there
    · simpa [same] using separate.current u other (by simpa [same] using there)
  · intro u ended idle
    by_cases same : u = t
    · simp [same] at ended
    · have idle : ¬sys.Writing u := fun w => idle (writing_close.mpr ⟨same,w⟩)
      simpa [System.issued, issued] using
        separate.silent u (by simpa [same] using ended) idle
  · intro u ended
    by_cases same : u = t
    · subst same
      simp only [close_ended, assign_same, Option.some.injEq] at ended
      simpa [System.journal, System.issued, issued] using committed ended
    · have before := separate.committed u (by simpa [same] using ended)
      simpa [System.journal, System.issued, issued] using (others u same).trans before
  · intro u ended
    by_cases same : u = t
    · subst same
      simp only [close_ended, assign_same, Option.some.injEq, reduceCtorEq, or_false] at ended
      simpa [System.journal] using undone ended
    · have before := separate.undone u (by simpa [same] using ended)
      simpa [System.journal] using (others u same).trans before

/-- A transaction without an active write has no effects and does not own the block. -/
theorem Separate.idle {core : Core} {base : Database} {sys : System} {t : Nat}
    {txn : TierDBTransaction} (separate : Separate core base sys)
    (found : sys.transactions t = some txn) (quiet : txn.writeActive = false) :
    effects sys.issued t = [] ∧ effects sys.journal t = [] ∧
      ((sys.conn.client.session.block = .idle ∧ ∀ u, u ≠ t → ¬sys.Writing u) ∨
        (∃ u, u ≠ t ∧ sys.Writing u ∧ (∀ v, sys.Writing v → v = u) ∧ sys.conn.inTxn = true ∧
          OwnBlock core sys.conn u (sys.failed u = true))) := by
  have resting : ¬sys.Writing t := by
    rintro ⟨other,found',active⟩
    obtain rfl : txn = other := Option.some.inj (found.symm.trans found')
    simp [quiet] at active
  have current := separate.current t txn found
  refine ⟨separate.silent t current resting,separate.undone t (.inr current),?_⟩
  rcases separate.block with ⟨idle,none⟩ | ⟨u,writing,only,inTxn,own⟩
  · exact .inl ⟨idle,fun u _ => none u⟩
  · exact .inr ⟨u,fun same => resting (same ▸ writing),writing,only,inTxn,own⟩

/-- A transaction with an active write owns the flag and the block. -/
theorem Separate.owner {core : Core} {base : Database} {sys : System} {t : Nat}
    {txn : TierDBTransaction} (separate : Separate core base sys)
    (found : sys.transactions t = some txn) (active : txn.writeActive = true) :
    (∀ u, u ≠ t → ¬sys.Writing u) ∧ sys.conn.inTxn = true ∧
      OwnBlock core sys.conn t (sys.failed t = true) := by
  rcases separate.block with ⟨_,none⟩ | ⟨u,_,only,inTxn,own⟩
  · exact absurd ⟨txn,found,active⟩ (none t)
  · obtain rfl : t = u := only t ⟨txn,found,active⟩
    exact ⟨fun v apart w => apart (only v w),inTxn,own⟩

theorem step_commit_separate {core : Core} {base : Database} {sys next : System} {t : Nat}
    {verdicts : List (Option String)} (separate : Separate core base sys)
    (taken : step core sys (.commit t verdicts) = some next) : Separate core base next := by
  obtain ⟨txn,ending,found,live,rfl,reported,kept⟩ := step_commit taken
  have unpinned : (sys.enter t txn verdicts []).txn.pins = [] := separate.unpinned t txn found
  rw [commitTransaction_unpinned unpinned] at reported ⊢
  cases flag : txn.writeActive with
  | false =>
    obtain ⟨none,undone,block⟩ := separate.idle found flag
    have skipped : commitWrite (sys.enter t txn verdicts []) =
        .ok () (sys.enter t txn verdicts []) := by simp [commitWrite_apply, flag]
    rw [skipped]
    exact separate.close found rfl (fun _ _ => rfl) separate.replayed
      (fun _ => undone.trans none.symm) (fun _ => undone) block
  | true =>
    obtain ⟨others,inTxn,own⟩ := separate.owner found flag
    simp only [OwnBlock, live, Bool.false_eq_true, and_false, or_false] at own
    obtain ⟨w,new,inside,grew,mine⟩ := own
    have undone := separate.undone t (.inr (separate.current t txn found))
    have view : (sys.enter t txn verdicts []).conn.client.session.view = w := by
      simp [Sql.Session.view, inside]
    rw [commitWrite_active flag inTxn, view] at reported ⊢
    cases verdict : (sys.enter t txn verdicts []).conn.client.session.verdict with
    | some e =>
      rw [verdict] at reported
      have told : ending ≠ .committed := by simpa using reported
      exact separate.close found rfl (fun _ _ => rfl) separate.replayed
        (fun same => absurd same told) (fun same => absurd same kept) (.inl ⟨rfl,others⟩)
    | none =>
      refine separate.close found rfl (fun u apart => ?_) ?_ (fun _ => ?_)
        (fun same => absurd same kept) (.inl ⟨rfl,others⟩)
      · change effects w.journal u = _
        rw [grew.journal, effects_append, effects_tagged_other new apart, List.append_nil]
        rfl
      · exact grew.replayed separate.replayed
      · change effects w.journal t = _
        rw [grew.journal, effects_append, effects_tagged]
        exact (congrArg (· ++ tagged t new) undone).trans mine.symm

theorem step_rollback_separate {core : Core} {base : Database} {sys next : System} {t : Nat}
    {verdicts : List (Option String)} (separate : Separate core base sys)
    (taken : step core sys (.rollback t verdicts) = some next) : Separate core base next := by
  obtain ⟨txn,found,rfl⟩ := step_rollback taken
  have unpinned : (sys.enter t txn verdicts []).txn.pins = [] := separate.unpinned t txn found
  rw [rollbackTransaction_unpinned unpinned]
  have undone := separate.undone t (.inr (separate.current t txn found))
  cases flag : txn.writeActive with
  | false =>
    obtain ⟨_,_,block⟩ := separate.idle found flag
    have skipped : rollbackWrite (sys.enter t txn verdicts []) =
        .ok () (sys.enter t txn verdicts []) := by simp [rollbackWrite_apply, flag]
    rw [skipped]
    exact separate.close found rfl (fun _ _ => rfl) separate.replayed
      (fun told => by simp at told) (fun _ => undone) block
  | true =>
    obtain ⟨others,inTxn,_⟩ := separate.owner found flag
    have left : (Effect.final (rollbackWrite (sys.enter t txn verdicts []))).conn.client =
        { sys.conn.client with
          author := t
          session := (sys.enter t txn verdicts []).conn.client.session.leave } := by
      rw [rollbackWrite_active flag inTxn]
      split <;> rfl
    generalize Effect.final (rollbackWrite (sys.enter t txn verdicts [])) = a at left
    have journal : a.forget.conn.client.session.durable = sys.conn.client.session.durable := by
      simp [left]
    refine separate.close found (by simp [left, System.issued]) (fun _ _ => ?_) ?_
      (fun told => by simp at told) (fun _ => ?_) (.inl ⟨by simp [left],others⟩)
    · rw [journal]
      rfl
    · rw [journal]
      exact separate.replayed
    · rw [journal]
      exact undone

theorem step_separate {core : Core} {base : Database} (sys : System) (event : Event)
    (next : System) (separate : Separate core base sys) (allowed : event.Writes ∧ OwnFlag sys event)
    (taken : step core sys event = some next) : Separate core base next := by
  cases event with
  | start t => exact step_start_separate separate taken
  | scan t ref verdicts => exact absurd allowed.1 id
  | chunk t kind schema table rows verdicts answers =>
    exact step_chunk_separate separate allowed.2 taken
  | commit t verdicts => exact step_commit_separate separate taken
  | rollback t verdicts => exact step_rollback_separate separate taken

/-- Two transactions open together that write one after the other. -/
def consecutive : List Event :=
  [.start 1,.start 2,Reference.chunk 1 .insert [.object (Reference.item 1 20 0)],.commit 1 [],
    Reference.chunk 2 .insert [.object (Reference.item 2 20 0)],.rollback 2 []]

/-- Two transactions insert one row each; the first commits. -/
def overlapping : List Event :=
  [.start 1,.start 2,Reference.chunk 1 .insert [.object (Reference.item 1 20 0)],
    Reference.chunk 2 .insert [.object (Reference.item 2 20 0)],.commit 1 []]

end TierDb
