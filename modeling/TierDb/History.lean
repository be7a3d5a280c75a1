import TierDb.Updating

/-! A tiered table under the statements of any number of transactions. What SQL says a history
of statements, commits and rollbacks makes of a relation is what the stores hold. -/
namespace TierDb

open Layout Transactions

/-- A sink call of a statement, with the outcomes of what it sends. -/
structure SinkCall (width : Nat) where
  rows : List (ChunkRow width)
  verdicts : List (Option String) := []
  answers : List (Option String) := []

/-- The calls of transaction `t` that a chunk comes to; an empty one is not sent. -/
def SinkCall.events {width : Nat} (layout : Layout) (t : Nat) (sink : TierDBSink width)
    (call : SinkCall width) : List Event :=
  if call.rows = [] then []
  else [.chunk t sink.kind layout.schema layout.name (sink.rowsJson call.rows) call.verdicts
    call.answers]

/-- The entry that the statements of a table are planned with. -/
structure Layout.Planned (layout : Layout) (virtual : VirtualColumns) (table : TierDBTableEntry)
    (rowIds : List Nat) : Prop where
  is : layout.EntryOf table.schema
  distinct : layout.names.Nodup
  plain : layout.PlainKeys
  room : table.HasRoom virtual
  ids : table.getRowIdColumns virtual = .ok rowIds

/-- What a transaction has of the table: the stored rows while it has written nothing, its own
once it has, and nothing to rely on after a statement that broke off. -/
inductive View where
  | unwritten
  | reads (rows : List Fields)
  | broken

/-- The table as a relation that transactions change. -/
structure SqlTable where
  stored : List Fields
  views : Nat → View := fun _ => .unwritten

def SqlTable.seen (s : SqlTable) (t : Nat) : Option (List Fields) :=
  match s.views t with
  | .unwritten => some s.stored
  | .reads rows => some rows
  | .broken => none

def SqlTable.setView (s : SqlTable) (t : Nat) (view : View) : SqlTable :=
  { s with views := assign s.views t view }

@[simp] theorem setView_same (s : SqlTable) (t : Nat) (view : View) :
    (s.setView t view).views t = view := assign_same _ _ _

@[simp] theorem setView_other {s : SqlTable} {t u : Nat} {view : View} (apart : u ≠ t) :
    (s.setView t view).views u = s.views u := assign_other _ apart

section Statements

variable (core : Core) (layout : Layout) (virtual : VirtualColumns) (table : TierDBTableEntry)
  (rowIds : List Nat)

/-- A statement over the rows a transaction reads: its planned sink, the chunks that reach it
and the rows that SQL leaves. The rows an INSERT gives and an UPDATE makes have new keys. -/
inductive StatementOf (rows : List Fields) :
    (width : Nat) → TierDBSink width → List (List (ChunkRow width)) → List Fields → Prop
  | delete {sql attachSql : String} {data : TierDBScanBindData} {plan : RowIdPlan rowIds}
      {sink : TierDBSink plan.carried.length} {selected : List (Fields × MergedRow)}
      {rest : List Fields} {scanned : List (List Value)}
      {chunks : List (List (ChunkRow plan.carried.length))}
      (bound : table.getScanFunction virtual sql attachSql = .ok data)
      (planned : planDelete virtual table false plan.expressions = .ok sink)
      (split : rows.Perm (selected.map Prod.fst ++ rest))
      (reads : ∀ p ∈ selected, ReadsKey core table.keyNames p.1 p.2)
      (encodable : ∀ p ∈ selected, KeyEncodable table.keyNames p.2)
      (scans : (selected.map Prod.snd).mapM (data.scanRow plan.columnIds) = some scanned)
      (cut : chunks.flatten.Perm (scanned.map plan.child)) :
      StatementOf rows plan.carried.length sink chunks rest
  | insert {source : InsertSource table} {sink : TierDBSink table.columns.length}
      {given : List (ChunkRow source.width)} {chunks : List (List (ChunkRow table.columns.length))}
      (planned : planInsert table (some source) false .throw =
        .ok ⟨source.width,source.child,sink⟩)
      (encodable : ∀ row ∈ given, sink.Encodable (source.child row))
      (scalar : ∀ row ∈ given, layout.Scalar (.object (insertedRow core layout source row)))
      (newKeys : Keyed.Unique (layout.key core) (given.map (insertedRow core layout source)))
      (fresh : ∀ row ∈ given, ∀ old ∈ rows,
        layout.key core old ≠ layout.key core (insertedRow core layout source row))
      (cut : chunks.flatten = given.map source.child) :
      StatementOf rows table.columns.length sink chunks
        (rows ++ given.map (insertedRow core layout source))
  | update {sql attachSql : String} {data : TierDBScanBindData} {plan : UpdatePlan table rowIds}
      {sink : TierDBSink plan.width} {selected : List (Fields × MergedRow)} {rest : List Fields}
      {chunks : List (List (ChunkRow plan.width))}
      (bound : table.getScanFunction virtual sql attachSql = .ok data)
      (planned : planUpdate virtual table false plan.columns plan.references = .ok sink)
      (split : rows.Perm (selected.map Prod.fst ++ rest))
      (reads : ∀ p ∈ selected, ReadsRow core table p.1 p.2)
      (encodable : ∀ p ∈ selected, sink.Encodable (plan.fed data p))
      (scalar : ∀ p ∈ selected, layout.Scalar (.object (plan.new core layout data p)))
      (separate : layout.Separate core (plan.new core layout data) selected rest)
      (cut : chunks.flatten.Perm (selected.map (plan.fed data))) :
      StatementOf rows plan.width sink chunks (rest ++ selected.map (plan.new core layout data))

/-- One step of a history of the table, with the calls it comes to. A statement that breaks off
has sent some of its chunks. -/
inductive SqlTable.Step (s : SqlTable) : List Event → SqlTable → Prop
  | start (t : Nat) : Step s [.start t] s
  | scan (t : Nat) (ref : TableRef) (verdicts : List (Option String)) :
      Step s [.scan t ref verdicts] s
  | elsewhere (t : Nat) (kind : ChunkKind) {schema name : String} (rows : JsonText)
      (verdicts answers : List (Option String)) (apart : schema = layout.schema → name ≠ layout.name) :
      Step s [.chunk t kind schema name rows verdicts answers] s
  | statement {t width : Nat} {rows after : List Fields} {sink : TierDBSink width}
      {calls : List (SinkCall width)} (seen : s.seen t = some rows)
      (made : StatementOf core layout virtual table rowIds rows width sink (calls.map SinkCall.rows)
        after)
      (sends : calls.flatMap (SinkCall.events layout t sink) ≠ []) :
      Step s (calls.flatMap (SinkCall.events layout t sink)) (s.setView t (.reads after))
  | breaks {t width : Nat} {rows after : List Fields} {sink : TierDBSink width}
      {calls : List (SinkCall width)} {chunks : List (List (ChunkRow width))}
      (seen : s.seen t = some rows)
      (made : StatementOf core layout virtual table rowIds rows width sink chunks after)
      (front : calls.map SinkCall.rows <+: chunks) :
      Step s (calls.flatMap (SinkCall.events layout t sink)) (s.setView t .broken)
  | commit {t : Nat} {rows : List Fields} (verdicts : List (Option String))
      (seen : s.seen t = some rows) (accepted : verdicts.head?.join = none) :
      Step s [.commit t verdicts] { s.setView t .unwritten with stored := rows }
  | refused {t : Nat} (verdicts : List (Option String)) (refused : verdicts.head?.join ≠ none) :
      Step s [.commit t verdicts] (s.setView t .unwritten)
  | rollback (t : Nat) (verdicts : List (Option String)) :
      Step s [.rollback t verdicts] (s.setView t .unwritten)

/-- The steps of any number of transactions, one after the other. -/
inductive SqlTable.History : SqlTable → List Event → SqlTable → Prop
  | done (s : SqlTable) : History s [] s
  | step {s next last : SqlTable} {events rest : List Event}
      (first : SqlTable.Step core layout virtual table rowIds s events next)
      (later : History next rest last) : History s (events ++ rest) last

end Statements

section Turning

variable {core : Core} {layout : Layout} {virtual : VirtualColumns} {table : TierDBTableEntry}
  {rowIds : List Nat}

/-- What the calls of a statement assign turns the rows it reads into those SQL leaves. -/
theorem StatementOf.turns (planned : layout.Planned virtual table rowIds) {rows after : List Fields}
    {width : Nat} {sink : TierDBSink width} {chunks : List (List (ChunkRow width))}
    (unique : Keyed.Unique (layout.key core) rows) (sided : Sided core layout rows)
    (made : StatementOf core layout virtual table rowIds rows width sink chunks after) :
    layout.Turns core sink chunks rows after := by
  cases made with
  | @delete sql attachSql data plan _ selected _ scanned chunks bound sinks split reads encodable scans cut =>
    have own : table.keyNames = layout.pkCols ++ [layout.tierKeyCol] := planned.is.keyNames
    obtain ⟨data',bound',sinks',scanRow,cells⟩ := delete_planned sql attachSql planned.room planned.ids plan
    cases bound.symm.trans bound'
    cases sinks.symm.trans sinks'
    have read : (selected.map Prod.snd).mapM (data.scanRow plan.columnIds) =
        some ((selected.map Prod.snd).map (plan.scanned data)) := by
      rw [scanRow]
      exact List.mapM_pure
    cases scans.symm.trans read
    rw [List.map_map, List.map_map] at cut
    obtain ⟨fed,flat,order⟩ := map_of_perm cut
    have keys : FedKeys core table plan data fed chunks :=
      ⟨cells,flat,fun p member => reads p (order.mem_iff.mp member),
        fun p member => encodable p (order.mem_iff.mp member)⟩
    have split' := split.trans ((order.symm.map Prod.fst).append_right after)
    exact keys.turns own unique split' (reads_slotted own sided split' keys.reads)
  | insert sinks encodable scalar newKeys fresh cut =>
    cases sinks
    exact FedRows.turns ⟨cut,encodable,scalar⟩ planned.is planned.distinct unique newKeys fresh
  | @update sql attachSql data plan _ selected rest chunks bound sinks split reads encodable scalar
      separate cut =>
    obtain ⟨bound',sinks'⟩ := plan.planned virtual sql attachSql
    cases bound.symm.trans bound'
    cases sinks.symm.trans sinks'
    obtain ⟨fed,order,pairs⟩ := fed_pairs planned.is planned.distinct planned.plain planned.room
      planned.ids reads encodable scalar cut
    have turns := pairs.turns unique (split.trans ((order.symm.map Prod.fst).append_right rest))
      (separate.perm order)
    refine ⟨turns.scalar,fun slotted => ?_⟩
    obtain ⟨turned,unique'⟩ := turns.assigns slotted
    have same := (order.map (plan.new core layout (table.bindData virtual sql attachSql))).append_left rest
    exact ⟨turned.trans same,unique'.perm same⟩

end Turning

def System.Unpinned (sys : System) (t : Nat) : Prop :=
  ∀ txn, sys.transactions t = some txn → txn.pins = []

instance (sys : System) (t : Nat) : Decidable (sys.Unpinned t) :=
  decidable_of_iff ((sys.transactions t).all fun txn => decide (txn.pins = []))
    (by simp [System.Unpinned, Option.all_eq_true])

/-- A call that sends statements comes only while no block of another transaction is open,
a chunk only if the connection's write flag is clear or its own. -/
def Uncontended (sys : System) : Event → Prop
  | .start _ => True
  | .scan t _ _ => sys.conn.client.session.InBlock → sys.Writing t
  | .chunk t .. => sys.conn.inTxn = true → sys.Writing t
  | .commit t _ | .rollback t _ =>
    sys.conn.client.session.InBlock → sys.Writing t ∨ sys.Unpinned t

instance (sys : System) (event : Event) : Decidable (Uncontended sys event) :=
  match event with
  | .start _ => isTrue trivial
  | .scan t _ _ => inferInstanceAs (Decidable (sys.conn.client.session.InBlock → sys.Writing t))
  | .chunk t .. => inferInstanceAs (Decidable (sys.conn.inTxn = true → sys.Writing t))
  | .commit t _ | .rollback t _ => inferInstanceAs
      (Decidable (sys.conn.client.session.InBlock → sys.Writing t ∨ sys.Unpinned t))

section Events

/-! A chunk call and the end of a transaction in `step`: their parts, one after the other. -/

variable {core : Core} {layout : Layout} {lake : Lake} {sys next : System}
  {store : Store Fields Slot} {t : Nat} {txn : TierDBTransaction}

/-- What a failed call of `t` was to change may as well be pending: `t` will not commit. -/
theorem Refined.loses (refined : Refined core layout lake sys store) (failed : sys.failed t = true)
    (steps : List (Slot × Option Fields)) :
    Refined core layout lake sys (store.act (layout.slot core) (.change t steps)) := by
  have pending : ∀ u, u ≠ t →
      (store.act (layout.slot core) (.change t steps)).pending u = store.pending u :=
    fun u apart => setPending_other _ _ _ apart
  refine ⟨refined.durable,refined.block.imp_right ?_,fun u passive live => ?_⟩
  · rintro ⟨u,writing,only,inTxn,own⟩
    refine ⟨u,writing,only,inTxn,?_⟩
    by_cases same : u = t
    · exact .inr ⟨own.inBlock,same ▸ failed⟩
    · rw [Store.seen, pending u same]
      exact own
  · have same : u ≠ t := fun same => by simp [same, failed] at live
    rw [pending u same]
    exact refined.silent u passive live

theorem step_chunk_refined {kind : ChunkKind} {schema table : String} {rows : JsonText}
    {verdicts answers : List (Option String)} (refined : Refined core layout lake sys store)
    (scalar : schema = layout.schema → table = layout.name → layout.ScalarImages core kind rows)
    (flag : sys.conn.inTxn = true → sys.Writing t)
    (taken : step core sys (.chunk t kind schema table rows verdicts answers) = some next) :
    Refined core layout lake next (store.act (layout.slot core)
      (.change t (layout.changes core kind schema table rows))) := by
  obtain ⟨txn,found,live,rfl⟩ := step_chunk taken
  obtain ⟨begun,active⟩ := refined.begins found live flag verdicts answers
  have author := ensureWriteTxn_keeps (authored core t) (sys.enter t txn verdicts answers) rfl
  unfold sinkChunk
  cases ran : ensureWriteTxn (sys.enter t txn verdicts answers) with
  | error e b =>
    rw [ran] at begun
    rw [Effect.bind_of_error ran]
    exact begun.loses (by simp [System.settleResult]) _
  | ok u b =>
    rw [ran] at begun
    rw [ran, Effect.final_ok] at author
    rw [Effect.bind_of_ok ran]
    have sent := begun.sends scalar (by simp [System.settleResult]) live (active b ran)
      b.conn.client.session.verdicts b.lakeSide.answers
    rw [System.settleResult, enter_settle sys author] at sent
    cases chunked : client (chunkFunction core kind schema table rows) b with
    | error e d =>
      rw [chunked, settle_settleResult] at sent
      rw [Effect.bind_of_error chunked]
      exact sent
    | ok outcome d =>
      rw [chunked, settle_settleResult] at sent
      rw [Effect.bind_of_ok chunked]
      refine Refined.aside (a := d) sent _ ?_ ?_ <;>
        cases ran : executeLakeDml (outcome.attachSql.getD "") outcome.lakeSql d.lakeSide <;>
        simp [Effect.bind_apply, Effect.zoom, ran]

/-- The end of `t`. -/
theorem Refined.ends (refined : Refined core layout lake sys store) (commits : Bool)
    (verdicts : List (Option String)) (ending : Ending) (found : sys.transactions t = some txn)
    (live : commits = true → sys.failed t = false)
    (own : sys.conn.client.session.InBlock → sys.Writing t ∨ sys.Unpinned t) :
    Refined core layout lake
      (sys.close t ending (endTransaction commits (sys.enter t txn verdicts [])))
      (store.act (layout.slot core)
        (if commits = true ∧ verdicts.head?.join = none then .commit t else .undo t)) := by
  have left := refined.leaves commits verdicts found live
  have passive : ¬(sys.settle t (endWrite commits (sys.enter t txn verdicts [])).forget).Writing t := by
    simp [System.Writing, Attached.forget, endWrite_quiet]
  have moved := endTransaction_repins commits (sys.enter t txn verdicts [])
  by_cases idle : (endWrite commits (sys.enter t txn verdicts [])).conn.client.session.block = .idle
  · have freed := left.releases (a := { (endWrite commits (sys.enter t txn verdicts [])).forget with
      conn := (endTransaction commits (sys.enter t txn verdicts [])).conn })
      idle (assign_same _ _ _) rfl moved
    rw [← settle_close sys t ending, ← settle_close _ t ending]
    refine freed.returns (t := t) ?_ rfl
    simp [System.Writing, System.settle, Attached.forget, endWrite_quiet]
  · have quiet : ¬sys.Writing t := by
      intro writing
      have inTxn := (refined.inside writing).2.1
      obtain ⟨txn',found',active⟩ := writing
      obtain rfl : txn = txn' := Option.some.inj (found.symm.trans found')
      exact idle (endWrite_active (a := sys.enter t txn verdicts []) active inTxn commits).1
    obtain ⟨unsent,ends⟩ := endTransaction_final (a := sys.enter t txn verdicts [])
      (by simpa [System.Writing, found] using quiet) commits
    rw [unsent] at left idle passive
    have unpinned : txn.pins = [] := (own idle).resolve_left quiet txn found
    rw [← settle_close sys t ending]
    exact left.returns passive (by simp [ends, unpinned, releaseEach])

end Events

section Calls

variable {core : Core} {layout : Layout} {lake : Lake} {sys next : System}
  {store after : Store Fields Slot} {t : Nat}

/-- What the calls of `t` leave to the other transactions and to the stored rows. -/
structure Called (core : Core) (layout : Layout) (lake : Lake) (t : Nat) (sys next : System)
    (store after : Store Fields Slot) : Prop where
  refined : Refined core layout lake next after
  stored : after.stored = store.stored
  pending : ∀ u, u ≠ t → after.pending u = store.pending u
  writing : ∀ u, u ≠ t → (next.Writing u ↔ sys.Writing u)
  failed : ∀ u, u ≠ t → next.failed u = sys.failed u

theorem Called.trans {middle : System} {between : Store Fields Slot}
    (first : Called core layout lake t sys middle store between)
    (second : Called core layout lake t middle next between after) :
    Called core layout lake t sys next store after where
  refined := second.refined
  stored := second.stored.trans first.stored
  pending u apart := (second.pending u apart).trans (first.pending u apart)
  writing u apart := (second.writing u apart).trans (first.writing u apart)
  failed u apart := (second.failed u apart).trans (first.failed u apart)

/-- Where a chunk may be sent, the session reads what the store shows its transaction. -/
theorem Refined.reads (refined : Refined core layout lake sys store) (live : sys.failed t = false)
    (flag : sys.conn.inTxn = true → sys.Writing t) :
    layout.Hosts core lake (store.seen (layout.slot core) t) sys.conn.db := by
  by_cases writing : sys.Writing t
  · obtain ⟨_,_,own⟩ := refined.inside writing
    simp only [OwnCopy, live, Bool.false_eq_true, and_false, or_false] at own
    obtain ⟨w,inside,hosts⟩ := own
    have view : sys.conn.db = w.database := by simp [Conn.db, Sql.Session.view, inside]
    rw [view]
    exact hosts
  · have clear : sys.conn.inTxn = false := by simpa using mt flag writing
    have idle : sys.conn.client.session.block = .idle := by
      rcases refined.block with idle | ⟨_,_,_,set,_⟩
      · exact idle.1
      · simp [clear] at set
    have view : sys.conn.db = sys.durable := by
      simp [Conn.db, Sql.Session.view, idle, System.durable]
    rw [view, seen_idle (refined.silent t writing live)]
    exact refined.durable

theorem sinkChunk_writes {kind : ChunkKind} {schema name : String} {rows : JsonText}
    {a d : Attached} {count : Int} (returned : sinkChunk core kind schema name rows a = .ok count d) :
    d.txn.writeActive = true := by
  obtain ⟨b,_,_,_,begun,_,_,rfl,_⟩ := sinkChunk_returned returned
  rw [ensureWriteTxn_apply] at begun
  split at begun
  · cases begun
    assumption
  · cases sent : txnBegin a.conn with
    | error e c => simp [sent] at begun
    | ok u c =>
      simp only [sent, EStateM.Result.ok.injEq, true_and] at begun
      rw [← begun]
      rfl

/-- One chunk call. If it did not fail, its transaction writes and the rows it named and wrote
have slots. -/
theorem chunk_called {kind : ChunkKind} {schema name : String} {rows : JsonText}
    {verdicts answers : List (Option String)} (refined : Refined core layout lake sys store)
    (scalar : schema = layout.schema → name = layout.name → layout.ScalarImages core kind rows)
    (flag : sys.conn.inTxn = true → sys.Writing t)
    (taken : step core sys (.chunk t kind schema name rows verdicts answers) = some next) :
    Called core layout lake t sys next store (store.act (layout.slot core)
        (.change t (layout.changes core kind schema name rows))) ∧
      (next.failed t = false → next.Writing t ∧
        (schema = layout.schema → name = layout.name → Slotted core layout kind rows)) := by
  have after := step_chunk_refined refined scalar flag taken
  obtain ⟨txn,found,live,rfl⟩ := step_chunk taken
  have hosts := refined.reads live flag
  constructor
  · refine ⟨after,rfl,fun u apart => setPending_other _ _ _ apart,fun u apart => ?_,fun u apart => ?_⟩
    · rw [writing_settleResult, if_neg apart]
    · cases sinkChunk core kind schema name rows (sys.enter t txn verdicts answers) with
      | ok count a => rfl
      | error e a => exact assign_other _ apart
  · cases ran : sinkChunk core kind schema name rows (sys.enter t txn verdicts answers) with
    | error e a => exact fun unfailed => by simp [System.settleResult] at unfailed
    | ok count a =>
      intro _
      refine ⟨?_,?_⟩
      · rw [writing_settleResult, if_pos rfl]
        exact sinkChunk_writes ran
      · rintro rfl rfl
        exact (Shows.sinkChunk hosts.toShows (scalar rfl rfl) ran).2.2

/-- The calls of a statement, one after the other. -/
theorem calls_called {width : Nat} {sink : TierDBSink width} {calls : List (SinkCall width)}
    (refined : Refined core layout lake sys store)
    (scalar : ∀ call ∈ calls, layout.ScalarImages core sink.kind (sink.rowsJson call.rows))
    (meets : Runs.Meets (step core) Uncontended sys (calls.flatMap (SinkCall.events layout t sink)))
    (ran : Runs.run (step core) sys (calls.flatMap (SinkCall.events layout t sink)) = some next) :
    ∃ after, Called core layout lake t sys next store after ∧
      after.seen (layout.slot core) t = Keyed.assignAll (layout.slot core)
        ((calls.map SinkCall.rows).flatMap (layout.steps core sink)) (store.seen (layout.slot core) t) ∧
      (next.failed t = false →
        (∀ call ∈ calls, call.rows ≠ [] → Slotted core layout sink.kind (sink.rowsJson call.rows)) ∧
          (calls.flatMap (SinkCall.events layout t sink) ≠ [] → next.Writing t)) := by
  induction calls generalizing sys store with
  | nil =>
    cases ran
    exact ⟨store,⟨refined,rfl,fun _ _ => rfl,fun _ _ => .rfl,fun _ _ => rfl⟩,rfl,
      fun _ => ⟨nofun,fun some => absurd rfl some⟩⟩
  | cons call rest ih =>
    obtain ⟨own,others⟩ := List.forall_mem_cons.mp scalar
    rw [List.map_cons, List.flatMap_cons]
    rw [List.flatMap_cons] at meets ran ⊢
    by_cases empty : call.rows = []
    · have unsent : call.events layout t sink = [] := if_pos empty
      rw [unsent, List.nil_append] at meets ran ⊢
      obtain ⟨after,called,seen,live⟩ := ih refined others meets ran
      refine ⟨after,called,?_,fun unfailed => ?_⟩
      · rw [empty, steps_nil, List.nil_append, seen]
      · obtain ⟨slotted,writing⟩ := live unfailed
        exact ⟨List.forall_mem_cons.mpr ⟨fun some => absurd empty some,slotted⟩,writing⟩
    · have sent : call.events layout t sink = [.chunk t sink.kind layout.schema layout.name
        (sink.rowsJson call.rows) call.verdicts call.answers] := if_neg empty
      rw [sent] at meets ran ⊢
      obtain ⟨middle,taken,later⟩ := Runs.run_cons.mp ran
      obtain ⟨called,first⟩ := chunk_called refined (fun _ _ => own) meets.1 taken
      obtain ⟨after,called',seen,live⟩ := ih called.refined others (meets.2 middle taken) later
      refine ⟨after,called.trans called',?_,fun unfailed => ?_⟩
      · rw [seen, seen_change, Keyed.assignAll_append]
        rfl
      · obtain ⟨writing,slotted⟩ := first (run_keeps_unfailed unfailed later)
        obtain ⟨slotted',writing'⟩ := live unfailed
        refine ⟨List.forall_mem_cons.mpr ⟨fun _ => slotted rfl rfl,slotted'⟩,fun _ => ?_⟩
        by_cases none : rest.flatMap (SinkCall.events layout t sink) = []
        · rw [none] at later
          cases later
          exact writing
        · exact writing' none

end Calls

section Relation

variable {core : Core} {layout : Layout} {lake : Lake} {sys next : System}
  {store : Store Fields Slot} {s s' : SqlTable} {virtual : VirtualColumns}
  {table : TierDBTableEntry} {rowIds : List Nat}

/-- The store holds the relation: its rows, unique by key, and what each transaction that has
not failed reads of it. -/
structure HoldsTable (core : Core) (layout : Layout) (sys : System) (store : Store Fields Slot)
    (s : SqlTable) : Prop where
  stored : store.stored.Perm s.stored
  unique : Keyed.Unique (layout.key core) s.stored
  unwritten : ∀ t, s.views t = .unwritten → sys.failed t = false → store.pending t = []
  reads : ∀ t rows, s.views t = .reads rows → sys.failed t = false →
    sys.Writing t ∧ (store.seen (layout.slot core) t).Perm rows ∧ Keyed.Unique (layout.key core) rows

theorem HoldsTable.seen (holds : HoldsTable core layout sys store s) {t : Nat} {rows : List Fields}
    (seen : s.seen t = some rows) (live : sys.failed t = false) :
    (store.seen (layout.slot core) t).Perm rows ∧ Keyed.Unique (layout.key core) rows := by
  unfold SqlTable.seen at seen
  split at seen <;> rename_i view
  · cases seen
    rw [seen_idle (holds.unwritten t view live)]
    exact ⟨holds.stored,holds.unique⟩
  · cases seen
    exact (holds.reads t _ view live).2
  · cases seen

/-- A step that changes nothing of the table for any transaction. -/
theorem HoldsTable.same (holds : HoldsTable core layout sys store s)
    (failed : ∀ u, next.failed u = false → sys.failed u = false)
    (writing : ∀ u, next.failed u = false → sys.Writing u → next.Writing u) :
    HoldsTable core layout next store s where
  stored := holds.stored
  unique := holds.unique
  unwritten u view live := holds.unwritten u view (failed u live)
  reads u rows view live := by
    obtain ⟨writes,seen⟩ := holds.reads u rows view (failed u live)
    exact ⟨writing u live writes,seen⟩

/-- The calls of `t` leave what the others have; what `t` has is given. -/
theorem HoldsTable.called (holds : HoldsTable core layout sys store s) {after : Store Fields Slot} {t : Nat}
    (called : Called core layout lake t sys next store after) {view : View}
    (written : view ≠ .unwritten)
    (own : ∀ rows, view = .reads rows → next.failed t = false → next.Writing t ∧
      (after.seen (layout.slot core) t).Perm rows ∧ Keyed.Unique (layout.key core) rows) :
    HoldsTable core layout next after (s.setView t view) where
  stored := by rw [called.stored]; exact holds.stored
  unique := holds.unique
  unwritten u here live := by
    by_cases same : u = t
    · subst same
      exact absurd ((setView_same s u view).symm.trans here) written
    · rw [called.pending u same]
      exact holds.unwritten u ((setView_other same).symm.trans here) (called.failed u same ▸ live)
  reads u rows here live := by
    by_cases same : u = t
    · subst same
      exact own rows ((setView_same s u view).symm.trans here) live
    · obtain ⟨writes,seen,unique⟩ := holds.reads u rows ((setView_other same).symm.trans here)
        (called.failed u same ▸ live)
      refine ⟨(called.writing u same).mpr writes,?_,unique⟩
      rw [Store.seen, called.pending u same, called.stored]
      exact seen

/-- After the end of `t` the others have what they had. -/
theorem HoldsTable.close (holds : HoldsTable core layout sys store s) {after : Store Fields Slot} {t : Nat}
    {ending : Ending} {a : Attached} {rows : List Fields} (stored : after.stored.Perm rows)
    (unique : Keyed.Unique (layout.key core) rows) (ended : after.pending t = [])
    (pending : ∀ u, u ≠ t → after.pending u = store.pending u)
    (others : ∀ u, u ≠ t → sys.Writing u → after.stored = store.stored) :
    HoldsTable core layout (sys.close t ending a) after
      { s.setView t .unwritten with stored := rows } where
  stored := stored
  unique := unique
  unwritten u here live := by
    by_cases same : u = t
    · subst same
      exact ended
    · rw [pending u same]
      exact holds.unwritten u ((setView_other same).symm.trans here) live
  reads u rows here live := by
    by_cases same : u = t
    · subst same
      cases (setView_same s u .unwritten).symm.trans here
    · obtain ⟨writes,seen,unique⟩ := holds.reads u rows ((setView_other same).symm.trans here) live
      refine ⟨writing_close.mpr ⟨same,writes⟩,?_,unique⟩
      rw [Store.seen, pending u same, others u same writes]
      exact seen

/-- The first call of a statement says that its transaction may write. -/
theorem calls_allowed {t width : Nat} {sink : TierDBSink width} {calls : List (SinkCall width)}
    (sends : calls.flatMap (SinkCall.events layout t sink) ≠ [])
    (meets : Runs.Meets (step core) Uncontended sys (calls.flatMap (SinkCall.events layout t sink)))
    (ran : Runs.run (step core) sys (calls.flatMap (SinkCall.events layout t sink)) = some next) :
    sys.failed t = false ∧ (sys.conn.inTxn = true → sys.Writing t) := by
  obtain ⟨event,rest,listed⟩ := List.exists_cons_of_ne_nil sends
  have member : event ∈ calls.flatMap (SinkCall.events layout t sink) := by simp [listed]
  obtain ⟨call,_,called⟩ := List.mem_flatMap.mp member
  unfold SinkCall.events at called
  split at called
  · cases called
  · obtain rfl := List.mem_singleton.mp called
    rw [listed] at meets ran
    obtain ⟨_,taken,_⟩ := Runs.run_cons.mp ran
    obtain ⟨_,_,live,_⟩ := step_chunk taken
    exact ⟨live,meets.1⟩

/-- What a transaction reads when it writes is on the sides of the cut-line. -/
theorem HoldsTable.sided (holds : HoldsTable core layout sys store s)
    (refined : Refined core layout lake sys store) {t : Nat} {rows : List Fields}
    (seen : s.seen t = some rows) (live : sys.failed t = false)
    (flag : sys.conn.inTxn = true → sys.Writing t) : Sided core layout rows := by
  have hosts := refined.reads live flag
  have same := hosts.rows.trans (holds.seen seen live).1
  intro row member
  exact merged_sided hosts.sound row (same.mem_iff.mpr member)

/-- One step of a history is what its calls do to the stores. -/
theorem sqlStep_holds (planned : layout.Planned virtual table rowIds) {events : List Event}
    (refined : Refined core layout lake sys store) (holds : HoldsTable core layout sys store s)
    (made : SqlTable.Step core layout virtual table rowIds s events s')
    (meets : Runs.Meets (step core) Uncontended sys events)
    (ran : Runs.run (step core) sys events = some next) :
    ∃ after, Refined core layout lake next after ∧ HoldsTable core layout next after s' := by
  have unfailed : ∀ u, next.failed u = false → sys.failed u = false :=
    fun u live => run_keeps_unfailed live ran
  cases made with
  | start t =>
    obtain ⟨_,taken,done⟩ := Runs.run_cons.mp ran
    cases done
    obtain ⟨free,_,rfl⟩ := step_start taken
    exact ⟨store,refined.starts free,holds.same unfailed fun u _ => (writing_starts free u).mpr⟩
  | scan t ref verdicts =>
    obtain ⟨_,taken,done⟩ := Runs.run_cons.mp ran
    cases done
    obtain ⟨_,found,live,rfl⟩ := step_scan taken
    exact ⟨store,refined.scans found live meets.1 ref verdicts,
      holds.same unfailed fun u _ => (writing_scans core found ref verdicts u).mpr⟩
  | @elsewhere t kind schema name rows verdicts answers apart =>
    obtain ⟨_,taken,done⟩ := Runs.run_cons.mp ran
    cases done
    obtain ⟨called,writing⟩ := chunk_called refined (fun s n => absurd n (apart s)) meets.1 taken
    have none : layout.changes core kind schema name rows = [] :=
      if_neg fun here => apart here.1 here.2
    rw [none, change_nil] at called
    refine ⟨store,called.refined,holds.same unfailed fun u live writes => ?_⟩
    by_cases own : u = t
    · subst own
      exact (writing live).1
    · exact (called.writing u own).mpr writes
  | @statement t width rows after sink calls seen made sends =>
    obtain ⟨live,flag⟩ := calls_allowed sends meets ran
    obtain ⟨shown,unique⟩ := holds.seen seen live
    have turns := made.turns planned unique (holds.sided refined seen live flag)
    have scalar : ∀ call ∈ calls, layout.ScalarImages core sink.kind (sink.rowsJson call.rows) :=
      fun call member => turns.scalar _ (List.mem_map_of_mem member)
    obtain ⟨store',called,assigned,writes⟩ := calls_called refined scalar meets ran
    refine ⟨store',called.refined,holds.called called nofun fun rows' same live' => ?_⟩
    cases same
    obtain ⟨slotted,writing⟩ := writes live'
    obtain ⟨turned,unique'⟩ := turns.assigns (List.forall_mem_map.mpr slotted)
    rw [assigned]
    exact ⟨writing sends,(Keyed.assignAll_perm shown).trans turned,unique'⟩
  | @breaks t width rows after sink calls chunks seen made front =>
    by_cases sends : calls.flatMap (SinkCall.events layout t sink) = []
    · rw [sends] at ran
      cases ran
      exact ⟨store,refined,holds.called ⟨refined,rfl,fun _ _ => rfl,fun _ _ => .rfl,fun _ _ => rfl⟩
        nofun nofun⟩
    · obtain ⟨live,flag⟩ := calls_allowed sends meets ran
      have turns := made.turns planned (holds.seen seen live).2 (holds.sided refined seen live flag)
      have scalar : ∀ call ∈ calls, layout.ScalarImages core sink.kind (sink.rowsJson call.rows) :=
        fun call member => turns.scalar _ (front.subset (List.mem_map_of_mem member))
      obtain ⟨store',called,_⟩ := calls_called refined scalar meets ran
      exact ⟨store',called.refined,holds.called called nofun nofun⟩
  | @commit t rows verdicts seen accepted =>
    obtain ⟨_,taken,done⟩ := Runs.run_cons.mp ran
    cases done
    obtain ⟨_,ending,found,live,rfl,_⟩ := step_commit taken
    have after := refined.ends true verdicts ending found (fun _ => live) meets.1
    simp only [endTransaction, accepted, and_self, if_true] at after
    obtain ⟨shown,unique⟩ := holds.seen seen live
    refine ⟨_,after,holds.close shown unique (setPending_same _ _ _)
      (fun u apart => setPending_other _ _ _ apart) fun u apart writes => ?_⟩
    have passive : ¬sys.Writing t := fun own => apart ((refined.inside writes).1 t own).symm
    exact seen_idle (refined.silent t passive live)
  | @refused t verdicts refused =>
    obtain ⟨_,taken,done⟩ := Runs.run_cons.mp ran
    cases done
    obtain ⟨_,ending,found,live,rfl,_⟩ := step_commit taken
    have after := refined.ends true verdicts ending found (fun _ => live) meets.1
    simp only [endTransaction, refused, and_false, if_false, if_true] at after
    exact ⟨_,after,holds.close holds.stored holds.unique (setPending_same _ _ _)
      (fun u apart => setPending_other _ _ _ apart) fun _ _ _ => rfl⟩
  | rollback t verdicts =>
    obtain ⟨_,taken,done⟩ := Runs.run_cons.mp ran
    cases done
    obtain ⟨_,found,rfl⟩ := step_rollback taken
    have after := refined.ends false verdicts .rolledBack found (by simp) meets.1
    simp only [endTransaction, Bool.false_eq_true, false_and, if_false] at after
    exact ⟨_,after,holds.close holds.stored holds.unique (setPending_same _ _ _)
      (fun u apart => setPending_other _ _ _ apart) fun _ _ _ => rfl⟩

/-- The run follows the history, step by step. -/
theorem history_holds (planned : layout.Planned virtual table rowIds) {events : List Event}
    (refined : Refined core layout lake sys store) (holds : HoldsTable core layout sys store s)
    (history : SqlTable.History core layout virtual table rowIds s events s')
    (meets : Runs.Meets (step core) Uncontended sys events)
    (ran : Runs.run (step core) sys events = some next) :
    ∃ after, Refined core layout lake next after ∧ HoldsTable core layout next after s' := by
  induction history generalizing sys store with
  | done s =>
    cases ran
    exact ⟨store,refined,holds⟩
  | step first _ ih =>
    obtain ⟨middle,front,back⟩ := Runs.run_append_some.mp ran
    obtain ⟨store',refined',holds'⟩ := sqlStep_holds planned refined holds first meets.front front
    exact ih refined' holds' (meets.back front) back

end Relation

/-- A tiered table is a relation with a primary key. In every run of any number of
transactions whose sinks and boundaries are not interrupted, and none of which calls into the
open block of another, the stored state shows at the end the rows that the history of
statements, commits and rollbacks makes of those at its start, with no key twice; and a
transaction that writes reads the rows its own statements make. -/
theorem table_is_a_relation {core : Core} {layout : Layout} {sys next : System}
    {events : List Event} {virtual : VirtualColumns} {table : TierDBTableEntry} {rowIds : List Nat}
    {s : SqlTable} (lake : Lake) (fresh : Fresh sys)
    (describes : layout.Describes core sys.durable "tiered")
    (sound : layout.Sound core sys.durable) (ownsId : layout.OwnsId sys.durable)
    (planned : layout.Planned virtual table rowIds)
    (unique : Keyed.Unique (layout.key core) (layout.merged core sys.durable lake))
    (history : SqlTable.History core layout virtual table rowIds
      { stored := layout.merged core sys.durable lake } events s)
    (uncontended : Runs.Meets (step core) Uncontended sys events)
    (ran : Runs.run (step core) sys events = some next) :
    (layout.merged core next.durable lake).Perm s.stored ∧
      Keyed.Unique (layout.key core) (layout.merged core next.durable lake) ∧
      ∀ t rows, s.views t = .reads rows → next.failed t = false →
        (layout.merged core next.conn.db lake).Perm rows ∧
          Keyed.Unique (layout.key core) rows := by
  have hosts : layout.Hosts core lake (layout.merged core sys.durable lake) sys.durable :=
    ⟨⟨describes,sound,.refl _⟩,ownsId⟩
  have passive : ∀ t, ¬sys.Writing t := by simp [System.Writing, fresh.transactions]
  have refined : Refined core layout lake sys { stored := layout.merged core sys.durable lake } :=
    ⟨hosts,.inl ⟨fresh.block,passive⟩,fun _ _ _ => rfl⟩
  have holds : HoldsTable core layout sys { stored := layout.merged core sys.durable lake }
      { stored := layout.merged core sys.durable lake } :=
    ⟨.refl _,unique,fun _ _ _ => rfl,fun t rows view => by cases view⟩
  obtain ⟨store,refined',holds'⟩ := history_holds planned refined holds history uncontended ran
  have same := refined'.durable.rows.trans holds'.stored
  refine ⟨same,holds'.unique.perm same.symm,fun t rows view live => ?_⟩
  obtain ⟨writing,seen,unique'⟩ := holds'.reads t rows view live
  exact ⟨(refined'.reads live fun _ => writing).rows.trans seen,unique'⟩

namespace Reference

def itemsData : TierDBScanBindData := itemsTable.bindData virtualColumns "" ""

theorem itemsData_bound : itemsTable.getScanFunction virtualColumns "" "" = .ok itemsData :=
  (incrementPlan.planned virtualColumns "" "").1

theorem items_planned : (items 100).Planned virtualColumns itemsTable [2^63 + 1,2^63 + 2] :=
  ⟨⟨rfl,rfl,⟨[],rfl⟩⟩,by decide,by unfold PlainKeys; decide +kernel,⟨by decide,by decide⟩,
    itemsTable_ids⟩

def itemsDelete : TierDBSink 2 := .delete itemsPlan.expressions itemsTable.keyNames

def itemsInsert : TierDBSink itemsTable.columns.length := .insert ["id","ts","v"]

/-- Each row in a chunk of its own. -/
def deleteCalls : List (SinkCall 2) :=
  oldItems.map fun p => { rows := [deletedRow itemsPlan itemsData p] }

def insertCalls : List (SinkCall itemsTable.columns.length) :=
  [{ rows := newItems.map listedSource.child },{ rows := [] }]

/-- A DELETE that commits, an INSERT that is rolled back and the same INSERT again. -/
def itemsHistory : List Event :=
  [.start 1] ++ (deleteCalls.flatMap (SinkCall.events (items 100) 1 itemsDelete) ++
    ([.commit 1 []] ++ ([.start 2] ++
      (insertCalls.flatMap (SinkCall.events (items 100) 2 itemsInsert) ++ ([.rollback 2 []] ++
        ([.start 3] ++ (insertCalls.flatMap (SinkCall.events (items 100) 3 itemsInsert) ++
          ([.commit 3 []] ++ []))))))))

end Reference

open Reference in
theorem itemsHistory_related : ∃ next,
    Runs.run (step core) (system (database "tiered" 100 [item 1 200 10,item 3 40 30]))
      itemsHistory = some next ∧
    ((items 100).merged core next.durable seamLake).Perm
      (item 2 50 20 :: newItems.map (insertedRow core (items 100) listedSource)) := by
  have ends : (Runs.run (step core) (system (database "tiered" 100 [item 1 200 10,item 3 40 30]))
      itemsHistory).isSome := by decide +kernel
  obtain ⟨next,ran⟩ := Option.isSome_iff_exists.mp ends
  have deletes : StatementOf core (items 100) virtualColumns itemsTable [2^63 + 1,2^63 + 2]
      ((items 100).merged core (system (database "tiered" 100 [item 1 200 10,item 3 40 30])).durable
        seamLake) 2 itemsDelete (deleteCalls.map SinkCall.rows) [item 2 50 20] := by
    obtain ⟨data,bound,planned,scans,_⟩ := delete_planned "" ""
      items_planned.room itemsTable_ids itemsPlan
    cases itemsData_bound.symm.trans bound
    refine .delete bound planned (by decide +kernel) oldItems_read (by decide +kernel)
      (by rw [scans]; exact List.mapM_pure) (.refl _)
  have inserts : StatementOf core (items 100) virtualColumns itemsTable [2^63 + 1,2^63 + 2]
      [item 2 50 20] itemsTable.columns.length itemsInsert (insertCalls.map SinkCall.rows)
      ([item 2 50 20] ++ newItems.map (insertedRow core (items 100) listedSource)) :=
    .insert rfl (by decide +kernel) (by decide +kernel) (.of_nodup (by decide +kernel))
      (by decide +kernel) rfl
  have unique : Keyed.Unique ((items 100).key core) ((items 100).merged core
      (system (database "tiered" 100 [item 1 200 10,item 3 40 30])).durable seamLake) :=
    .of_nodup (by decide +kernel)
  have shown := (table_is_a_relation seamLake (system_fresh _) (database_describes "tiered" 100 _)
    (database_sound "tiered" 100 _) (database_ownsId "tiered" 100 _) items_planned unique
    (.step (.start 1) (.step (.statement rfl deletes (by decide +kernel)) (.step (.commit [] rfl rfl)
      (.step (.start 2) (.step (.statement rfl inserts (by decide +kernel)) (.step (.rollback 2 [])
        (.step (.start 3) (.step (.statement rfl inserts (by decide +kernel))
          (.step (.commit [] rfl rfl) (.done _))))))))))
    (by decide +kernel) ran).1
  exact ⟨next,ran,shown⟩

end TierDb
