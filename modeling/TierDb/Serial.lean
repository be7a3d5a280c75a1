import TierDb.Boundary
import TierDb.Reference
import TierDb.Atomicity

/-! Serial histories whose COMMIT statements the server may refuse. A refused COMMIT
ends the block but leaves the connection's write flag set, so that the next writer
begins no block and its statements commit one by one. -/
namespace TierDb

structure ChunkCall where
  kind : ChunkKind
  schema : String
  table : String
  rows : JsonText
  verdicts : List (Option String)
  answers : List (Option String)

inductive SerialEnd where
  | commit (refusal : Option String)
  | rollback
  deriving DecidableEq

structure SerialTxn where
  chunks : List ChunkCall
  ending : SerialEnd

def ChunkCall.event (t : Nat) (call : ChunkCall) : Event :=
  .chunk t call.kind call.schema call.table call.rows call.verdicts call.answers

def SerialEnd.event (t : Nat) : SerialEnd → Event
  | .commit refusal => .commit t [refusal]
  | .rollback => .rollback t []

def SerialTxn.events (t : Nat) (txn : SerialTxn) : List Event :=
  .start t :: (txn.chunks.map (ChunkCall.event t) ++ [txn.ending.event t])

/-- One transaction after the other, numbered from `t`. -/
def serialEvents : Nat → List SerialTxn → List Event
  | _, [] => []
  | t, txn :: rest => txn.events t ++ serialEvents (t + 1) rest

def SerialTxn.hasRows (txn : SerialTxn) : Bool := txn.chunks.any fun call => rowCount call.rows ≠ 0

def SerialEnd.refused : SerialEnd → Bool
  | .commit (some _) => true
  | _ => false

/-- Whether the write flag is left set behind the transaction. -/
def SerialTxn.leavesFlag (txn : SerialTxn) (stale : Bool) : Bool :=
  if txn.chunks.isEmpty then stale else txn.ending.refused

/-- Every transaction that writes rows under a flag left by a refused COMMIT is
committed, and its own COMMIT is accepted. -/
def LandsClean : Bool → List SerialTxn → Prop
  | _, [] => True
  | stale, txn :: rest =>
    (stale = true → txn.hasRows = true → txn.ending = .commit none) ∧
      LandsClean (txn.leavesFlag stale) rest

/-- The effects of the transactions that DuckDB was told are committed. -/
def System.committedEffects (sys : System) : List (Nat × Write) :=
  sys.issued.filter fun e => sys.ended e.1 = some .committed

/-- The durable state is what the committed transactions made of `base`. -/
structure Landed (core : Core) (base : Database) (sys : System) : Prop where
  journal : sys.journal = sys.committedEffects
  state : runAll core (sys.committedEffects.map Prod.snd) base = .ok sys.durable

/-- A boundary state: no transaction is open, and `stale` is the flag. -/
structure Between (core : Core) (base : Database) (n : Nat) (stale : Bool) (sys : System) :
    Prop where
  block : sys.conn.client.session.block = .idle
  inTxn : sys.conn.inTxn = stale
  transactions : ∀ t, sys.transactions t = none
  ended : ∀ t, n ≤ t → sys.ended t = none
  issued : ∀ e ∈ sys.issued, e.1 < n
  replayed : runAll core (sys.journal.map Prod.snd) base = .ok sys.durable

/-- Where transaction `n` has put `new` since the snapshot `before`: into the durable
state when the flag was stale, into its block otherwise. -/
def Placed (core : Core) (before : Snapshot) (n : Nat) (stale : Bool)
    (session : Sql.Session Snapshot Int) (new : List Write) : Prop :=
  (stale = true ∧ session.block = .idle ∧ Grew core n before session.durable new) ∨
  (stale = false ∧ session.durable = before ∧ ∃ w, session.block = .open w ∧ Grew core n before w new)

/-- Transaction `n` runs alone since the boundary state `before` and has sent `new`. -/
structure Inside (core : Core) (before : System) (n : Nat) (stale active : Bool)
    (new : List Write) (sys : System) : Prop where
  ended : sys.ended = before.ended
  issued : sys.issued = before.issued ++ tagged n new
  others : ∀ t, t ≠ n → sys.transactions t = none
  own : ∃ txn, sys.transactions n = some txn ∧ txn.pins = [] ∧ txn.writeActive = active
  place : if active then sys.conn.inTxn = true ∧
      Placed core before.conn.client.session.durable n stale sys.conn.client.session new
    else new = [] ∧ sys.conn.inTxn = stale ∧ sys.conn.client.session.block = .idle ∧
      sys.conn.client.session.durable = before.conn.client.session.durable

variable {core : Core}

theorem Placed.took {before : Snapshot} {n : Nat} {stale : Bool} {c d : Conn}
    {new more : List Write} (placed : Placed core before n stale c.client.session new)
    (author : c.client.author = n) (took : Took core more c d) :
    Placed core before n stale d.client.session (new ++ more) := by
  have moved := took.moved
  rw [author] at moved
  rcases placed with ⟨flag,idle,grew⟩ | ⟨flag,durable,w,inside,grew⟩
  · simp only [BlockMoves, idle] at moved
    exact .inl ⟨flag,moved.1,grew.trans moved.2⟩
  · simp only [BlockMoves, inside, false_and, or_false] at moved
    obtain ⟨kept,w',still,more⟩ := moved
    exact .inr ⟨flag,kept.trans durable,w',still,grew.trans more⟩

theorem Placed.tables {before : Snapshot} {n : Nat} {stale : Bool} {c : Conn} {new : List Write}
    (placed : Placed core before n stale c.client.session new) :
    c.db.tables = before.database.tables := by
  rcases placed with ⟨_,idle,grew⟩ | ⟨_,_,w,inside,grew⟩
  · simpa [Conn.db, Sql.Session.view, idle] using grew.catalog.tables
  · simpa [Conn.db, Sql.Session.view, inside] using grew.catalog.tables

theorem Placed.view {before : Snapshot} {n : Nat} {stale : Bool}
    {session : Sql.Session Snapshot Int} {new : List Write}
    (placed : Placed core before n stale session new) : Grew core n before session.view new := by
  rcases placed with ⟨_,idle,grew⟩ | ⟨_,_,w,inside,grew⟩
  · simpa [Sql.Session.view, idle] using grew
  · simpa [Sql.Session.view, inside] using grew

theorem Placed.durable {before : Snapshot} {n : Nat} {stale : Bool}
    {session : Sql.Session Snapshot Int} {new : List Write}
    (placed : Placed core before n stale session new) :
    Grew core n before session.durable (if stale then new else []) := by
  rcases placed with ⟨rfl,_,grew⟩ | ⟨rfl,rfl,_⟩
  · exact grew
  · exact Grew.refl core n _

/-- The first chunk begins a block, unless the flag is stale; later ones go on. -/
theorem Inside.ensure {before sys : System} {n : Nat} {stale active : Bool}
    {new : List Write} {txn : TierDBTransaction} {verdicts answers : List (Option String)}
    {b : Attached} (inside : Inside core before n stale active new sys)
    (found : sys.transactions n = some txn)
    (begun : ensureWriteTxn (sys.enter n txn verdicts answers) = .ok () b) :
    b.txn.pins = [] ∧ b.txn.writeActive = true ∧ b.conn.inTxn = true ∧ b.conn.client.author = n ∧
      b.conn.client.issued = sys.issued ∧
      Placed core before.conn.client.session.durable n stale b.conn.client.session new := by
  obtain ⟨txn',found',unpinned,flag⟩ := inside.own
  obtain rfl : txn = txn' := Option.some.inj (found.symm.trans found')
  have place := inside.place
  cases active with
  | true =>
    rw [ensureWriteTxn_apply, if_pos (by simpa using flag)] at begun
    cases begun
    exact ⟨unpinned,flag,place.1,rfl,rfl,place.2⟩
  | false =>
    obtain ⟨rfl,inTxn,idle,durable⟩ := place
    by_cases left : sys.conn.inTxn = true
    · rw [ensureWriteTxn_apply, txnBegin_apply] at begun
      simp only [enter_txn, flag, Bool.false_eq_true, if_false, enter_inTxn, left, if_true] at begun
      cases begun
      refine ⟨unpinned,rfl,left,rfl,rfl,.inl ⟨inTxn ▸ left,idle,?_⟩⟩
      exact durable ▸ Grew.refl core n _
    · rcases ensureWriteTxn_idle (a := sys.enter n txn verdicts answers) flag
        (by simpa using left) idle with ⟨e,refused⟩ | accepted
      · simp [refused] at begun
      · rw [accepted] at begun
        cases begun
        refine ⟨unpinned,rfl,rfl,rfl,rfl,.inr ⟨by simpa [inTxn] using left,durable,_,rfl,?_⟩⟩
        exact durable ▸ Grew.refl core n _

/-- Tables addressed by the transaction are tiered. -/
def ChunkCall.Tiered (db : Database) (call : ChunkCall) : Prop :=
  ∀ row, db.findTable call.schema call.table = .ok (some row) → row.mode = "tiered"

/-- A successful chunk of transaction `n` adds its writes. -/
theorem Inside.chunk {before sys next : System} {n : Nat} {stale active : Bool}
    {new : List Write} {call : ChunkCall} (inside : Inside core before n stale active new sys)
    (tiered : call.Tiered before.durable) (taken : step core sys (call.event n) = some next)
    (succeeded : next.failed n = false) :
    ∃ more, (more = [] ↔ rowCount call.rows = 0) ∧
      Inside core before n stale true (new ++ more) next := by
  obtain ⟨txn,found,_,rfl⟩ := step_chunk taken
  cases ran : sinkChunk core call.kind call.schema call.table call.rows
      (sys.enter n txn call.verdicts call.answers) with
  | error e d => simp [ran, System.settleResult] at succeeded
  | ok count d =>
    obtain ⟨b,ctx,writes,outcome,begun,opened,made,took,same,_⟩ := sinkChunk_ok ran
    obtain ⟨unpinned,active',inTxn,author,issued,placed⟩ := inside.ensure found begun
    obtain ⟨row,read⟩ := openChunk_some core opened
    have places : ctx.mode.Places := by
      have mode := tiered row ((findTable_congr placed.tables _ _).symm.trans read.found)
      have moded := read.mode
      rw [read.ts] at moded
      simp only [TableSchema.modeOf, Registration.withColumns, mode] at moded
      exact core.tiered_places _ _ _ moded
    refine ⟨writes,planChunk_writes places made,inside.ended,?_,fun t apart => ?_,
      ⟨d.txn,by simp,by rw [same]; exact unpinned,by rw [same]; exact active'⟩,?_⟩
    · have sent : d.conn.client.issued = _ := took.issued
      simp only [settleResult_conn, System.issued, Effect.final_ok, sent, issued, author]
      have before := inside.issued
      simp only [System.issued] at before
      simp [before]
    · simpa [apart] using inside.others t apart
    · exact ⟨by simpa [took.inTxn] using inTxn,placed.took author took⟩

/-- The chunks of one transaction, all of them successful. -/
theorem Inside.chunks {before sys next : System} {n : Nat} {stale active : Bool}
    {new : List Write} {calls : List ChunkCall}
    (inside : Inside core before n stale active new sys)
    (tiered : ∀ call ∈ calls, call.Tiered before.durable)
    (ran : Runs.run (step core) sys (calls.map (ChunkCall.event n)) = some next)
    (succeeded : next.failed n = false) :
    ∃ more, (more = [] ↔ ∀ call ∈ calls, rowCount call.rows = 0) ∧
      Inside core before n stale (active || !calls.isEmpty) (new ++ more) next := by
  induction calls generalizing sys active new with
  | nil =>
    cases ran
    exact ⟨[],by simp,by simpa using inside⟩
  | cons call rest ih =>
    obtain ⟨mid,taken,later⟩ := Runs.run_cons.mp ran
    obtain ⟨front,none,first⟩ := inside.chunk (tiered call List.mem_cons_self) taken
      (run_keeps_unfailed succeeded later)
    obtain ⟨back,none',rest'⟩ := ih first
      (fun other member => tiered other (List.mem_cons_of_mem _ member)) later
    refine ⟨front ++ back,by simp [none, none'],?_⟩
    simpa using rest'

/-- A boundary of transaction `n` that put `landed` on top of the durable state and
counts `committed` as committed. -/
structure Closed (core : Core) (base : Database) (n : Nat) (flag : Bool) (before next : System)
    (landed committed : List Write) : Prop where
  between : Between core base (n + 1) flag next
  journal : next.journal = before.journal ++ tagged n landed
  effects : next.committedEffects = before.committedEffects ++ tagged n committed

/-- A boundary call that leaves the session idle closes its transaction. -/
theorem Inside.close {base : Database} {before sys : System} {n : Nat}
    {stale active flag : Bool} {new landed committed : List Write} {told : Ending} {a : Attached}
    (inside : Inside core before n stale active new sys)
    (between : Between core base n stale before)
    (block : a.conn.client.session.block = .idle) (inTxn : a.conn.inTxn = flag)
    (issued : a.conn.client.issued = sys.issued)
    (grew : Grew core n before.conn.client.session.durable a.conn.client.session.durable landed)
    (counted : committed = if told = .committed then new else []) :
    Closed core base n flag before (sys.close n told a) landed committed := by
  have sent : (sys.close n told a).issued = before.issued ++ tagged n new := by
    simpa [System.issued, issued] using inside.issued
  refine ⟨⟨block,inTxn,fun t => ?_,fun t later => ?_,fun e member => ?_,
    grew.replayed between.replayed⟩,grew.journal,?_⟩
  · by_cases same : t = n
    · simp [same]
    · simpa [same] using inside.others t same
  · have apart : t ≠ n := by omega
    simpa [apart, inside.ended] using between.ended t (by omega)
  · rw [sent] at member
    rcases List.mem_append.mp member with old | own
    · exact Nat.lt_succ_of_lt (between.issued e old)
    · simp only [tagged, List.mem_map] at own
      obtain ⟨w,_,rfl⟩ := own
      exact Nat.lt_succ_self n
  · unfold System.committedEffects
    rw [sent, List.filter_append]
    congr 1
    · apply List.filter_congr
      intro e member
      have apart : e.1 ≠ n := Nat.ne_of_lt (between.issued e member)
      simp [apart, inside.ended]
    · by_cases same : told = .committed
      · simp [counted, same, tagged, List.filter_eq_self]
      · simp [counted, same, tagged, List.filter_eq_nil_iff]

/-- Where the writes of a transaction went: a stale flag lets them land whatever the
ending is, else they land with an accepted COMMIT. -/
theorem Inside.boundary {base : Database} {before sys next : System} {n : Nat}
    {stale active : Bool} {new : List Write} {ending : SerialEnd}
    (between : Between core base n stale before)
    (inside : Inside core before n stale active new sys)
    (taken : step core sys (ending.event n) = some next) :
    Closed core base n (if active then ending.refused else stale) before next
      (if stale = true ∨ ending = .commit none then new else [])
      (if ending = .commit none then new else []) := by
  obtain ⟨txn,found,unpinned,flag⟩ := inside.own
  have place := inside.place
  cases active with
  | false =>
    obtain ⟨rfl,inTxn,idle,durable⟩ := place
    have still : Grew core n before.conn.client.session.durable
        sys.conn.client.session.durable [] := durable ▸ Grew.refl core n _
    cases ending with
    | commit refusal =>
      obtain ⟨txn',told,found',_,rfl,_,_⟩ := step_commit taken
      obtain rfl : txn = txn' := Option.some.inj (found.symm.trans found')
      have skipped : commitWrite (sys.enter n txn [refusal] []) =
          .ok () (sys.enter n txn [refusal] []) := by simp [commitWrite_apply, flag]
      rw [commitTransaction_unpinned unpinned, skipped]
      exact inside.close between idle inTxn rfl (by simpa using still) (by simp)
    | rollback =>
      obtain ⟨txn',found',rfl⟩ := step_rollback taken
      obtain rfl : txn = txn' := Option.some.inj (found.symm.trans found')
      have skipped : rollbackWrite (sys.enter n txn [] []) =
          .ok () (sys.enter n txn [] []) := by simp [rollbackWrite_apply, flag]
      rw [rollbackTransaction_unpinned unpinned, skipped]
      exact inside.close between idle inTxn rfl (by simpa using still) (by simp)
  | true =>
    obtain ⟨inTxn,placed⟩ := place
    have grew : Grew core n before.conn.client.session.durable
        (if ending = .commit none then sys.conn.client.session.view
          else sys.conn.client.session.durable)
        (if stale = true ∨ ending = .commit none then new else []) := by
      by_cases accepted : ending = .commit none
      · simpa [accepted] using placed.view
      · simpa [accepted] using placed.durable
    cases ending with
    | commit refusal =>
      obtain ⟨txn',told,found',_,rfl,reported,_⟩ := step_commit taken
      obtain rfl : txn = txn' := Option.some.inj (found.symm.trans found')
      have verdict : (sys.enter n txn [refusal] []).conn.client.session.verdict = refusal := rfl
      rw [commitTransaction_unpinned unpinned, commitWrite_active flag inTxn, verdict]
        at reported ⊢
      cases refusal with
      | some e =>
        have other : told ≠ .committed := by simpa using reported
        exact inside.close between rfl inTxn rfl grew (by simp [other])
      | none =>
        have told : told = .committed := by simpa using reported
        exact inside.close between rfl rfl rfl grew (by simp [told])
    | rollback =>
      obtain ⟨txn',found',rfl⟩ := step_rollback taken
      obtain rfl : txn = txn' := Option.some.inj (found.symm.trans found')
      rw [rollbackTransaction_unpinned unpinned, rollbackWrite_active flag inTxn]
      exact inside.close between rfl rfl rfl grew (by simp)

theorem Between.start {base : Database} {sys next : System} {n : Nat} {stale : Bool}
    (between : Between core base n stale sys) (taken : step core sys (.start n) = some next) :
    Inside core sys n stale false [] next := by
  obtain ⟨_,_,rfl⟩ := step_start taken
  refine ⟨rfl,by simp [System.issued],fun t apart => ?_,⟨{},by simp,rfl,rfl⟩,
    rfl,between.inTxn,between.block,rfl⟩
  simpa [apart] using between.transactions t

/-- One transaction of a serial history, from one boundary to the next. -/
theorem Between.transaction {base : Database} {sys next : System} {n : Nat} {stale : Bool}
    {txn : SerialTxn} (between : Between core base n stale sys)
    (tiered : ∀ call ∈ txn.chunks, call.Tiered sys.durable)
    (ran : Runs.run (step core) sys (txn.events n) = some next)
    (succeeded : next.failed n = false) :
    ∃ new, (new = [] ↔ txn.hasRows = false) ∧
      Closed core base n (txn.leavesFlag stale) sys next
        (if stale = true ∨ txn.ending = .commit none then new else [])
        (if txn.ending = .commit none then new else []) := by
  obtain ⟨started,sent,start,chunks,ended⟩ := Runs.run_between.mp ran
  obtain ⟨new,none,inside⟩ := (between.start start).chunks tiered chunks
    (run_keeps_unfailed succeeded (Runs.run_cons.mpr ⟨next,ended,Runs.run_nil next⟩))
  refine ⟨new,by simpa [SerialTxn.hasRows] using none,?_⟩
  have closed := inside.boundary between ended
  cases empty : txn.chunks.isEmpty with
  | true => simpa [SerialTxn.leavesFlag, empty] using closed
  | false => simpa [SerialTxn.leavesFlag, empty] using closed

theorem Between.landed {base : Database} {sys : System} {n : Nat} {stale : Bool}
    (between : Between core base n stale sys) :
    Landed core base sys ↔ sys.journal = sys.committedEffects :=
  ⟨Landed.journal,fun same => ⟨same,same ▸ between.replayed⟩⟩

theorem Between.tables {base : Database} {sys : System} {n : Nat} {stale : Bool}
    (between : Between core base n stale sys) : sys.durable.tables = base.tables :=
  (runAll_sameCatalog between.replayed).tables

/-- From a boundary that landed, the next one lands unless writes escaped a transaction
that is not committed. -/
theorem Closed.landed {base : Database} {before next : System} {n : Nat} {stale flag : Bool}
    {new : List Write} {accepted : Prop} [Decidable accepted]
    (closed : Closed core base n flag before next (if stale = true ∨ accepted then new else [])
      (if accepted then new else []))
    (landed : before.journal = before.committedEffects) :
    next.journal = next.committedEffects ↔ (stale = true → new ≠ [] → accepted) := by
  rw [closed.journal, closed.effects, landed, List.append_cancel_left_eq]
  by_cases told : accepted
  · simp [told]
  · cases stale <;> simp [told, tagged]

theorem landed_from {base : Database} {sys final : System} {n : Nat} {stale : Bool}
    {history : List SerialTxn} (between : Between core base n stale sys)
    (landed : sys.journal = sys.committedEffects)
    (tiered : ∀ txn ∈ history, ∀ call ∈ txn.chunks, call.Tiered base)
    (ran : Runs.run (step core) sys (serialEvents n history) = some final)
    (succeeded : ∀ t, n ≤ t → t < n + history.length → final.failed t = false) :
    (∀ front, front <+: history → ∀ next,
      Runs.run (step core) sys (serialEvents n front) = some next → Landed core base next) ↔
      LandsClean stale history := by
  induction history generalizing sys n stale with
  | nil =>
    simp only [LandsClean, iff_true, List.prefix_nil, forall_eq]
    intro next same
    cases same
    exact between.landed.mpr landed
  | cons txn rest ih =>
    obtain ⟨mid,first,later⟩ := Runs.run_append_some.mp ran
    have tieredHere : ∀ call ∈ txn.chunks, call.Tiered sys.durable := fun call member row found =>
      tiered txn List.mem_cons_self call member row
        ((findTable_congr between.tables _ _).symm.trans found)
    obtain ⟨new,empty,closed⟩ := between.transaction tieredHere first
      (run_keeps_unfailed (succeeded n (Nat.le_refl n) (by simp)) later)
    have succeededRest : ∀ t, n + 1 ≤ t → t < n + 1 + rest.length → final.failed t = false :=
      fun t low high => succeeded t (by omega) (by rw [List.length_cons]; omega)
    have here : Landed core base mid ↔
        (stale = true → txn.hasRows = true → txn.ending = .commit none) := by
      rw [closed.between.landed, closed.landed landed]
      simp [empty]
    constructor
    · intro all
      have step₁ : Landed core base mid := all [txn] (List.prefix_append [txn] rest) mid
        (Runs.run_append_some.mpr ⟨mid,first,rfl⟩)
      refine ⟨here.mp step₁,(ih closed.between step₁.journal
        (fun other member => tiered other (List.mem_cons_of_mem _ member)) later
        succeededRest).mp ?_⟩
      intro front part next reached
      exact all (txn :: front) (List.cons_prefix_cons.mpr ⟨rfl,part⟩) next
        (Runs.run_append_some.mpr ⟨mid,first,reached⟩)
    · rintro ⟨clean,cleanRest⟩ front part next reached
      have step₁ : Landed core base mid := here.mpr clean
      rcases List.prefix_cons_iff.mp part with rfl | ⟨front,rfl,shorter⟩
      · cases reached
        exact between.landed.mpr landed
      · obtain ⟨other,again,reached⟩ := Runs.run_append_some.mp reached
        obtain rfl : mid = other := Option.some.inj (first.symm.trans again)
        exact (ih closed.between step₁.journal
          (fun other member => tiered other (List.mem_cons_of_mem _ member)) later
          succeededRest).mpr cleanRest front shorter next reached

theorem Fresh.between {sys : System} (fresh : Fresh sys) :
    Between core sys.durable 0 false sys where
  block := fresh.block
  inTxn := fresh.inTxn
  transactions := fresh.transactions
  ended t _ := fresh.ended t
  issued e member := by simp [fresh.issued] at member
  replayed := by simp [fresh.journal, runAll]

/-- After every boundary of a serial history the durable state is that of the committed
transactions, exactly when no transaction writes rows under a stale flag without being
committed. -/
theorem serial_landed_iff (core : Core) {sys final : System} {history : List SerialTxn}
    (fresh : Fresh sys)
    (tiered : ∀ txn ∈ history, ∀ call ∈ txn.chunks, call.Tiered sys.durable)
    (ran : Runs.run (step core) sys (serialEvents 0 history) = some final)
    (succeeded : ∀ t < history.length, final.failed t = false) :
    (∀ front, front <+: history → ∀ next,
      Runs.run (step core) sys (serialEvents 0 front) = some next →
      Landed core sys.durable next) ↔ LandsClean false history :=
  landed_from fresh.between (by simp [fresh.journal, System.committedEffects, fresh.issued])
    tiered ran fun t _ high => succeeded t (by omega)

section Histories

def insertOne (id : Int) : ChunkCall :=
  ⟨.insert,"public","items",some (.array [.object (Reference.item id 20 0)]),[],[]⟩

theorem insertOne_tiered (id : Int) :
    (insertOne id).Tiered (Reference.database "tiered" 10 []) := by
  intro row found
  have registered : (Reference.database "tiered" 10 []).findTable "public" "items" =
      .ok (some (Reference.registration "tiered")) := by rfl
  cases registered.symm.trans found
  rfl

/-- A refused COMMIT, then a transaction that commits under the flag it left. -/
def recovered : List SerialTxn :=
  [⟨[insertOne 1],.commit (some "serialization failure")⟩,⟨[insertOne 2],.commit none⟩]

theorem recovered_landed :
    ∃ final, Runs.run (step Reference.core)
        (Reference.system (Reference.database "tiered" 10 [])) (serialEvents 0 recovered) =
          some final ∧
      ∀ front, front <+: recovered → ∀ next,
        Runs.run (step Reference.core) (Reference.system (Reference.database "tiered" 10 []))
          (serialEvents 0 front) = some next →
        Landed Reference.core (Reference.database "tiered" 10 []) next := by
  have checked : ((Runs.run (step Reference.core)
      (Reference.system (Reference.database "tiered" 10 [])) (serialEvents 0 recovered)).map
        fun final => decide (∀ t < recovered.length, final.failed t = false)) = some true := by
    decide +kernel
  obtain ⟨final,ran,succeeded⟩ := Option.map_eq_some_iff.mp checked
  refine ⟨final,ran,(serial_landed_iff Reference.core (Reference.system_fresh _) ?_ ran
    (of_decide_eq_true succeeded)).mpr (by simp [LandsClean, recovered])⟩
  intro txn member call inside
  simp only [recovered, List.mem_cons, List.not_mem_nil, or_false] at member
  rcases member with rfl | rfl <;>
    simp only [List.mem_cons, List.not_mem_nil, or_false] at inside <;>
    exact inside ▸ insertOne_tiered _

/-- A refused COMMIT, then a transaction that is rolled back. -/
def escaped : List SerialTxn :=
  [⟨[insertOne 1],.commit (some "serialization failure")⟩,⟨[insertOne 2],.rollback⟩]

/-- The row of the rolled-back transaction is durable. -/
theorem escaped_not_landed :
    ¬∀ sys final history, Fresh sys →
      (∀ txn ∈ history, ∀ call ∈ txn.chunks, call.Tiered sys.durable) →
      Runs.run (step Reference.core) sys (serialEvents 0 history) = some final →
      (∀ t < history.length, final.failed t = false) →
      Landed Reference.core sys.durable final := by
  intro claim
  have checked : ((Runs.run (step Reference.core)
      (Reference.system (Reference.database "tiered" 10 [])) (serialEvents 0 escaped)).map
        fun final => (decide (∀ t < escaped.length, final.failed t = false),
          final.journal.length,final.committedEffects.length)) = some (true,1,0) := by
    decide +kernel
  obtain ⟨final,ran,seen⟩ := Option.map_eq_some_iff.mp checked
  simp only [Prod.mk.injEq, decide_eq_true_eq] at seen
  have landed := claim _ final escaped (Reference.system_fresh _) ?_ ran seen.1
  · rw [landed.journal, seen.2.2] at seen
    simp at seen
  · intro txn member call inside
    simp only [escaped, List.mem_cons, List.not_mem_nil, or_false] at member
    rcases member with rfl | rfl <;>
      simp only [List.mem_cons, List.not_mem_nil, or_false] at inside <;>
      exact inside ▸ insertOne_tiered _

end Histories

end TierDb
