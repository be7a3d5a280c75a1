import TierDb.Serial
import TierDb.Relational
import TierDb.Refused

/-! Direct chunks and the rollback of their transaction. A rollback drops what the block
holds; the lake statements ran on a connection of their own and are not part of it. -/
namespace TierDb

section Refusals

/-- The answers make a statement fail for good, with so many attempts left after the
first one. -/
def givenUp : Nat → List (Option String) → Bool
  | 0, answers => answers.head?.join.isSome
  | left + 1, answers =>
    match answers.head?.join with
    | none => false
    | some error => !isConflict error || givenUp left answers.tail

/-- The lake refuses the attach of a chunk, or its first statement. -/
def lakeRefuses (attachSql : String) (answers : List (Option String)) : Bool :=
  if attachSql = "" then givenUp (maxAttempts - 1) answers
  else answers.head?.join.isSome || givenUp (maxAttempts - 1) answers.tail

theorem attemptSql_givenUp (statement : LakeStatement) {left : Nat}
    {answers : List (Option String)} (refused : givenUp left answers = true) (lake : Lake) :
    ∃ e rest, attemptSql statement left ⟨lake,answers⟩ = .error e ⟨lake,rest⟩ := by
  induction left generalizing answers with
  | zero =>
    obtain ⟨error,answer⟩ := Option.isSome_iff_exists.mp refused
    have asked : conQuery statement.effect ⟨lake,answers⟩ =
      .ok (some error) ⟨lake,answers.tail⟩ := by simp [conQuery, answer]
    exact ⟨_,_,by rw [attemptSql, Effect.bind_of_ok asked]; rfl⟩
  | succ left ih =>
    cases answer : answers.head?.join with
    | none => simp [givenUp, answer] at refused
    | some error =>
      have asked : conQuery statement.effect ⟨lake,answers⟩ =
        .ok (some error) ⟨lake,answers.tail⟩ := by simp [conQuery, answer]
      rw [attemptSql, Effect.bind_of_ok asked]
      cases conflict : isConflict error with
      | false => exact ⟨_,_,by simp [conflict]; rfl⟩
      | true =>
        have again : givenUp left answers.tail = true := by
          simpa [givenUp, answer, conflict] using refused
        obtain ⟨e,rest,failed⟩ := ih again
        exact ⟨e,rest,by simpa [conflict] using failed⟩

theorem lakeLoop_givenUp (lakeSql : List LakeStatement) {answers : List (Option String)}
    (refused : givenUp (maxAttempts - 1) answers = true) (lake : Lake) :
    (Effect.final (lakeLoop lakeSql ⟨lake,answers⟩)).lake = lake := by
  cases lakeSql with
  | nil => rfl
  | cons statement rest =>
    obtain ⟨e,left,failed⟩ := attemptSql_givenUp statement refused lake
    rw [lakeLoop, Effect.bind_of_error failed]
    rfl

theorem executeLakeDml_refused {attachSql : String} {answers : List (Option String)}
    (refused : lakeRefuses attachSql answers = true) (lakeSql : List LakeStatement)
    (lake : Lake) :
    (Effect.final (executeLakeDml attachSql lakeSql ⟨lake,answers⟩)).lake = lake := by
  unfold executeLakeDml
  cases lakeSql with
  | nil => rfl
  | cons statement rest =>
    by_cases plain : attachSql = ""
    · have refused : givenUp (maxAttempts - 1) answers = true := by
        simpa [lakeRefuses, plain] using refused
      simpa [plain] using lakeLoop_givenUp (statement :: rest) refused lake
    · cases answer : answers.head?.join with
      | some error => simp [plain, Effect.bind_apply, conQuery, answer]
      | none =>
        have refused : givenUp (maxAttempts - 1) answers.tail = true := by
          simpa [lakeRefuses, plain, answer] using refused
        simpa [plain, Effect.bind_apply, conQuery, answer] using
          lakeLoop_givenUp (statement :: rest) refused lake

end Refusals

section Routing

variable (core : Core) (ctx : ChunkContext)

/-- A removal of the row is sent to the lake. -/
def removesFromLake (row : Json) : Bool :=
  (core.tierKeyOf ctx.ts.tierKeyCol ctx.ts.tierKeyType row).any fun tierKey =>
    (ctx.mode.planDelete (routeRow core ctx.cutline tierKey)).cold = some .lake

/-- The image is written to the lake. -/
def writesToLake (image : Json) : Bool :=
  (core.tierKeyOf ctx.ts.tierKeyCol ctx.ts.tierKeyType
    (normalizeJsonColumns core.toSerdeJson image ctx.ts.columns)).any fun tierKey =>
      (ctx.mode.planInsert (routeRow core ctx.cutline tierKey)).cold = some .lake

/-- Some row of the chunk is below the cut-line of a direct table. -/
def addressesLake (kind : ChunkKind) (rows : JsonText) : Bool :=
  match chunkRows kind rows with
  | .ok (removed,written) =>
    removed.any (removesFromLake core ctx) || written.any (writesToLake core ctx)
  | .error _ => false

variable {core ctx}

theorem tierKeyOf_ok {column : String} {keyType : TierKeyType} {row : Json} {tierKey : Int}
    (found : core.tierKey column keyType row = .ok tierKey) :
    core.tierKeyOf column keyType row = some tierKey := by
  simp [SerdeJson.tierKeyOf, found, Except.toOption]

theorem planDeleteRow_spared {pkColumns : List Column} {row : Json} {tuple : Option (List Json)}
    {writes : List Write} (spared : removesFromLake core ctx row = false)
    (made : (planDeleteRow core ctx pkColumns row).Makes tuple writes) : tuple = none := by
  obtain ⟨tierKey,pkVals,front,found,_,_,cold,_⟩ := planDeleteRow_makes.mp made
  have elsewhere : (ctx.mode.planDelete (routeRow core ctx.cutline tierKey)).cold ≠
    some .lake := by simpa [removesFromLake, tierKeyOf_ok found] using spared
  match sink : (ctx.mode.planDelete (routeRow core ctx.cutline tierKey)).cold with
  | some .lake => exact absurd sink elsewhere
  | some .delta =>
    simp only [sink, planDeleteCold] at cold
    obtain ⟨_,_,rfl⟩ := Plan.bind_pure_makes.mp cold
    rfl
  | none =>
    simp only [sink, planDeleteCold] at cold
    exact (Plan.pure_makes.mp cold).1

theorem planWriteRow_spared {image : Json} {tuple : Option (List Json)} {writes : List Write}
    (spared : writesToLake core ctx image = false)
    (made : (planWriteRow core ctx image).Makes tuple writes) : tuple = none := by
  obtain ⟨tierKey,front,found,_,cold,_⟩ := planWriteRow_makes.mp made
  have elsewhere : (ctx.mode.planInsert (routeRow core ctx.cutline tierKey)).cold ≠
    some .lake := by simpa [writesToLake, tierKeyOf_ok found] using spared
  match sink : (ctx.mode.planInsert (routeRow core ctx.cutline tierKey)).cold with
  | some .lake => exact absurd sink elsewhere
  | some .delta =>
    simp only [sink, planWriteCold, Plan.lift_bind_makes] at cold
    obtain ⟨_,_,cold⟩ := cold
    obtain ⟨_,_,rfl⟩ := Plan.bind_pure_makes.mp cold
    rfl
  | none =>
    simp only [sink, planWriteCold] at cold
    exact (Plan.pure_makes.mp cold).1

theorem planLoop_spared {planRow : Json → Plan (Option (List Json))} {rows : List Json}
    {tuples : List (List Json)} {writes : List Write}
    (each : ∀ row ∈ rows, ∀ tuple writes, (planRow row).Makes tuple writes → tuple = none)
    (made : (planLoop planRow rows).Makes tuples writes) : tuples = [] := by
  induction rows generalizing tuples writes with
  | nil => exact (Plan.pure_makes.mp made).1
  | cons row rest ih =>
    obtain ⟨tuple,_,_,first,later,_⟩ := Plan.bind_makes.mp made
    obtain ⟨others,loop,rfl⟩ := Plan.bind_pure_makes.mp later
    rw [each row List.mem_cons_self tuple _ first,
      ih (fun other member => each other (List.mem_cons_of_mem _ member)) loop]
    rfl

theorem planDeleteRows_spared {rows : List Json} {lakeSql : List LakeStatement}
    {writes : List Write} (spared : ∀ row ∈ rows, removesFromLake core ctx row = false)
    (made : (planDeleteRows core ctx rows).Makes lakeSql writes) : lakeSql = [] := by
  obtain ⟨pkColumns,tuples,_,loop,sent⟩ := planDeleteRows_makes.mp made
  rwa [planLoop_spared (fun row member _ _ => planDeleteRow_spared (spared row member)) loop,
    if_pos rfl] at sent

theorem planWriteRows_spared {rows : List Json} {lakeSql : List LakeStatement}
    {writes : List Write} (spared : ∀ image ∈ rows, writesToLake core ctx image = false)
    (made : (planWriteRows core ctx rows).Makes lakeSql writes) : lakeSql = [] := by
  obtain ⟨tuples,loop,sent⟩ := planWriteRows_makes.mp made
  rwa [planLoop_spared (fun row member _ _ => planWriteRow_spared (spared row member)) loop,
    if_pos rfl] at sent

/-- A chunk that addresses no lake row has no lake statement. -/
theorem planChunk_spared {kind : ChunkKind} {rowsJson : JsonText} {outcome : ChunkOutcome}
    {writes : List Write} (spared : addressesLake core ctx kind rowsJson = false)
    (made : (planChunk core ctx kind rowsJson).Makes outcome writes) : outcome.lakeSql = [] := by
  obtain ⟨removed,written,deletes,_,upserts,_,rows,gone,wrote,rfl,_⟩ := planChunk_parts made
  simp only [addressesLake, rows, Bool.or_eq_false_iff, List.any_eq_false, Bool.not_eq_true]
    at spared
  have none : deletes = [] := by
    rcases gone with ⟨_,none,_⟩ | gone
    · exact none
    · exact planDeleteRows_spared spared.1 gone
  simp [none, planWriteRows_spared spared.2 wrote]

end Routing

section Containment

/-- The chunk is refused before its lake statements are run: no plan is made of its rows,
or the database refuses the plan's writes, or the server one of the statements. -/
def postgresRefuses (core : Core) (sys : System) (ctx : ChunkContext) (kind : ChunkKind)
    (rows : JsonText) (verdicts : List (Option String)) : Bool :=
  match (planChunk core ctx kind rows).outcome with
  | .error _ => true
  | .ok (_,writes) => (runAll core writes sys.conn.db).toOption.isNone ||
      (verdicts.take ((if sys.conn.inTxn then 0 else 1) + callStatements core ctx kind rows)).any
        Option.isSome

/-- No lake statement of the event takes effect: the chunk addresses no lake row, or it
is refused in Postgres, or the lake refuses its attach or its first statement. -/
def sparesLake (core : Core) (sys : System) : Event → Bool
  | .chunk _ kind schema table rows verdicts answers =>
    match sys.conn.db.openChunk core schema table with
    | none => true
    | some ctx => !addressesLake core ctx kind rows ||
        postgresRefuses core sys ctx kind rows verdicts ||
        lakeRefuses (ctx.attachSql.getD "") answers
  | _ => true

theorem ensureWriteTxn_error_lake {a b : Attached} {e : String}
    (refused : ensureWriteTxn a = .error e b) : b.lakeSide = a.lakeSide := by
  rw [ensureWriteTxn_apply] at refused
  split at refused
  · cases refused
  · cases sent : txnBegin a.conn <;> simp only [sent, reduceCtorEq, EStateM.Result.error.injEq]
      at refused
    exact refused.2 ▸ rfl

/-- The lake after a sink call: a call that reached its lake statements ran them. -/
theorem sinkChunk_lake (core : Core) (kind : ChunkKind) (schema table : String)
    (rows : JsonText) (a : Attached) :
    (Effect.final (sinkChunk core kind schema table rows a)).lakeSide.lake =
      match ensureWriteTxn a with
      | .error _ _ => a.lakeSide.lake
      | .ok _ b =>
        match chunkFunction core kind schema table rows b.conn with
        | .error _ _ => a.lakeSide.lake
        | .ok outcome _ => (Effect.final (executeLakeDml (outcome.attachSql.getD "")
            outcome.lakeSql a.lakeSide)).lake := by
  unfold sinkChunk
  cases begun : ensureWriteTxn a with
  | error e b =>
    rw [Effect.bind_of_error begun]
    simp [ensureWriteTxn_error_lake begun]
  | ok u b =>
    rw [Effect.bind_of_ok begun]
    have same := (ensureWriteTxn_same begun).2
    cases ran : chunkFunction core kind schema table rows b.conn with
    | error e c => simp [Effect.bind_apply, client_apply, ran, same]
    | ok outcome c =>
      cases lake : executeLakeDml (outcome.attachSql.getD "") outcome.lakeSql a.lakeSide <;>
        simp [Effect.bind_apply, Effect.map_apply, client_apply, ran, Effect.zoom, same, lake]

/-- The BEGIN of a sink is one statement, unless a block is open. -/
theorem ensureWriteTxn_spent {a b : Attached}
    (flagged : a.txn.writeActive = true → a.conn.inTxn = true)
    (begun : ensureWriteTxn a = .ok () b) :
    Spent (if a.conn.inTxn then 0 else 1) a.conn b.conn := by
  rw [ensureWriteTxn_apply, txnBegin_apply] at begun
  cases flag : a.conn.inTxn with
  | true =>
    simp only [flag, ↓reduceIte] at begun
    split at begun <;> cases begun <;> exact .none rfl
  | false =>
    have passive : a.txn.writeActive = false := by
      by_contra active
      simp [flagged (by simpa using active)] at flag
    cases sent : Sql.beginBlock a.conn.client.session with
    | error e s => simp [passive, flag, sent] at begun
    | ok u s =>
      simp only [passive, flag, sent, Bool.false_eq_true, ↓reduceIte] at begun
      cases begun
      have left := Sql.beginBlock_verdicts sent
      exact ⟨Sql.beginBlock_clear sent,by rw [← List.drop_one] at left; exact left⟩

/-- A chunk that Postgres refuses does not return. -/
theorem postgresRefuses_throws {core : Core} {sys : System} {t : Nat} {txn : TierDBTransaction}
    {kind : ChunkKind} {schema table : String} {rows : JsonText}
    {verdicts answers : List (Option String)} {ctx : ChunkContext} {outcome : ChunkOutcome}
    {b : Attached} {c : Conn} (flagged : txn.writeActive = true → sys.conn.inTxn = true)
    (opened : sys.conn.db.openChunk core schema table = some ctx)
    (begun : ensureWriteTxn (sys.enter t txn verdicts answers) = .ok () b)
    (ran : chunkFunction core kind schema table rows b.conn = .ok outcome c) :
    postgresRefuses core sys ctx kind rows verdicts = false := by
  have same : b.conn.db = sys.conn.db := (ensureWriteTxn_same begun).1
  obtain ⟨own,writes,known,made,took⟩ := chunkFunction_ok ran
  rw [same] at known
  obtain rfl : own = ctx := Option.some.inj (known.symm.trans opened)
  have done : runAll core writes sys.conn.db = .ok c.db := same ▸ took.ran
  have spent : Spent ((if sys.conn.inTxn then 0 else 1) + callStatements core own kind rows)
      (sys.enter t txn verdicts answers).conn c :=
    (ensureWriteTxn_spent flagged begun).trans (chunkFunction_spent (same ▸ opened) ran)
  rw [postgresRefuses, show (planChunk core own kind rows).outcome = .ok (outcome,writes) from made]
  simp only [done, Except.toOption, Option.isNone_some, Bool.false_or, List.any_eq_false,
    Bool.not_eq_true, Option.isSome_eq_false_iff, Option.isNone_iff_eq_none]
  exact spent.accepted

theorem sinkChunk_spares {core : Core} {sys : System} {t : Nat} {txn : TierDBTransaction}
    {kind : ChunkKind} {schema table : String} {rows : JsonText}
    {verdicts answers : List (Option String)}
    (flagged : txn.writeActive = true → sys.conn.inTxn = true)
    (spared : sparesLake core sys (.chunk t kind schema table rows verdicts answers) = true) :
    (Effect.final (sinkChunk core kind schema table rows
      (sys.enter t txn verdicts answers))).lakeSide.lake = sys.lake := by
  rw [sinkChunk_lake]
  cases begun : ensureWriteTxn (sys.enter t txn verdicts answers) with
  | error e b => rfl
  | ok u b =>
    cases ran : chunkFunction core kind schema table rows b.conn with
    | error e c => simp [ran]
    | ok outcome c =>
      simp only [ran]
      obtain ⟨ctx,writes,opened,made,_⟩ := chunkFunction_ok ran
      have opened : sys.conn.db.openChunk core schema table = some ctx :=
        (ensureWriteTxn_same begun).1 ▸ opened
      simp only [sparesLake, opened, postgresRefuses_throws flagged opened begun ran,
        Bool.or_false, Bool.or_eq_true, Bool.not_eq_true'] at spared
      rcases spared with elsewhere | refused
      · rw [planChunk_spared elsewhere made]
        rfl
      · rw [(planChunk_outcome made).2]
        exact executeLakeDml_refused refused _ _

/-- Transaction `t` has changed no durable state of Postgres since `start`, and whatever
it wrote there is in a block of its own. -/
structure Contained (start : System) (t : Nat) (sys : System) : Prop where
  durable : sys.conn.client.session.durable = start.conn.client.session.durable
  own : ∃ txn, sys.transactions t = some txn ∧ txn.pins = [] ∧
    ((txn.writeActive = false ∧ sys.conn.inTxn = false ∧
        sys.conn.client.session.block = .idle) ∨
      (txn.writeActive = true ∧ sys.conn.inTxn = true ∧ sys.conn.client.session.block ≠ .idle))

theorem Contained.start {sys next : System} {t : Nat} {core : Core}
    (clear : sys.conn.inTxn = false) (idle : sys.conn.client.session.block = .idle)
    (taken : step core sys (.start t) = some next) : Contained sys t next := by
  obtain ⟨_,_,rfl⟩ := step_start taken
  exact ⟨rfl,{},by simp,rfl,.inl ⟨rfl,clear,idle⟩⟩

theorem BlockMoves.stays {core : Core} {aborts : Prop} {author : Nat}
    {s s' : Sql.Session Snapshot Int} {new : List Write}
    (moved : BlockMoves core aborts author s s' new) (inside : s.block ≠ .idle) :
    s'.durable = s.durable ∧ s'.block ≠ .idle := by
  cases block : s.block with
  | idle => exact absurd block inside
  | aborted =>
    simp only [BlockMoves, block] at moved
    exact ⟨moved.2.1,by simp [moved.1]⟩
  | «open» w =>
    simp only [BlockMoves, block] at moved
    rcases moved.2 with ⟨w',still,_⟩ | ⟨_,aborted⟩
    · exact ⟨moved.1,by simp [still]⟩
    · exact ⟨moved.1,by simp [aborted]⟩

/-- What beginning a write leaves: nothing when it is refused, else a block. -/
theorem Contained.ensure {start sys : System} {t : Nat} {txn : TierDBTransaction}
    {verdicts answers : List (Option String)} (contained : Contained start t sys)
    (found : sys.transactions t = some txn) :
    (∃ e b, ensureWriteTxn (sys.enter t txn verdicts answers) = .error e b ∧
      b.txn = txn ∧ txn.pins = [] ∧ txn.writeActive = false ∧ b.conn.inTxn = false ∧
      b.conn.client.session.block = .idle ∧
      b.conn.client.session.durable = start.conn.client.session.durable) ∨
    ∃ b, ensureWriteTxn (sys.enter t txn verdicts answers) = .ok () b ∧ b.txn.pins = [] ∧
      b.txn.writeActive = true ∧ b.conn.inTxn = true ∧ b.conn.client.session.block ≠ .idle ∧
      b.conn.client.session.durable = start.conn.client.session.durable := by
  obtain ⟨txn',found',unpinned,place⟩ := contained.own
  obtain rfl : txn = txn' := Option.some.inj (found.symm.trans found')
  rcases place with ⟨passive,clear,idle⟩ | ⟨active,inTxn,inside⟩
  · rcases ensureWriteTxn_idle (a := sys.enter t txn verdicts answers) passive clear idle with
      ⟨e,refused⟩ | begun
    · exact .inl ⟨e,_,refused,rfl,unpinned,passive,clear,idle,contained.durable⟩
    · exact .inr ⟨_,begun,unpinned,rfl,rfl,by simp [Conn.setSession],contained.durable⟩
  · refine .inr ⟨_,by rw [ensureWriteTxn_apply, if_pos (by exact active)],unpinned,active,inTxn,
      inside,contained.durable⟩

theorem settleResult_lake {α : Type} (sys : System) (t : Nat)
    (result : EStateM.Result String Attached α) :
    (sys.settleResult t result).lake = (Effect.final result).lakeSide.lake := by
  cases result <;> rfl

/-- A chunk stays contained, returned or not. -/
theorem Contained.chunk {core : Core} {start sys next : System} {t : Nat} {call : ChunkCall}
    (contained : Contained start t sys)
    (taken : step core sys (call.event t) = some next) : Contained start t next := by
  obtain ⟨txn,found,_,rfl⟩ := step_chunk taken
  rcases sinkChunk_cases core call.kind call.schema call.table call.rows
      (sys.enter t txn call.verdicts call.answers) with ⟨e,b,begun,threw⟩ | ⟨b,begun,same,sent⟩
  · rcases contained.ensure found with ⟨e',b',refused,own,unpinned,passive,clear,idle,durable⟩ |
      ⟨b',accepted,_⟩
    · cases begun.symm.trans refused
      rw [threw]
      exact ⟨durable,b.txn,by simp,by rw [own]; exact unpinned,
        .inl ⟨by rw [own]; exact passive,clear,idle⟩⟩
    · cases begun.symm.trans accepted
  · rcases contained.ensure found with ⟨e',b',refused,_⟩ |
      ⟨b',accepted,unpinned,active,inTxn,inside,durable⟩
    · cases begun.symm.trans refused
    · cases begun.symm.trans accepted
      obtain ⟨flag,kept,still⟩ :
          (Effect.final (sinkChunk core call.kind call.schema call.table call.rows
            (sys.enter t txn call.verdicts call.answers))).conn.inTxn = b.conn.inTxn ∧ _ ∧ _ := by
        rcases sent with ⟨_,sends⟩ | ⟨_,sends⟩
        · obtain ⟨_,_,moved⟩ := sends.sent
          exact ⟨sends.inTxn,moved.stays inside⟩
        · obtain ⟨_,_,moved⟩ := sends.sent
          exact ⟨sends.inTxn,moved.stays inside⟩
      refine ⟨?_,b.txn,by simp [same],unpinned,.inr ⟨active,?_,?_⟩⟩
      · rw [settleResult_conn]
        exact kept.trans durable
      · rw [settleResult_conn]
        exact flag.trans inTxn
      · rw [settleResult_conn]
        exact still

/-- A rollback, refused or not, ends a contained transaction where it started in
Postgres, and leaves the lake alone. -/
theorem Contained.rollback {core : Core} {start sys next : System} {t : Nat}
    {verdicts : List (Option String)} (contained : Contained start t sys)
    (taken : step core sys (.rollback t verdicts) = some next) :
    next.lake = sys.lake ∧
      next.conn.client.session.durable = start.conn.client.session.durable := by
  obtain ⟨txn,found,rfl⟩ := step_rollback taken
  obtain ⟨txn',found',unpinned,place⟩ := contained.own
  obtain rfl : txn = txn' := Option.some.inj (found.symm.trans found')
  rw [rollbackTransaction_unpinned (by exact unpinned)]
  rcases place with ⟨passive,_,_⟩ | ⟨active,inTxn,_⟩
  · have skipped : rollbackWrite (sys.enter t txn verdicts []) =
        .ok () (sys.enter t txn verdicts []) := by simp [rollbackWrite_apply, passive]
    rw [skipped]
    exact ⟨rfl,contained.durable⟩
  · rw [rollbackWrite_active (by exact active) (by exact inTxn)]
    split
    · exact ⟨rfl,contained.durable⟩
    · exact ⟨rfl,contained.durable⟩

theorem Contained.chunk_lake {core : Core} {start sys next : System} {t : Nat} {call : ChunkCall}
    (contained : Contained start t sys) (spared : sparesLake core sys (call.event t) = true)
    (taken : step core sys (call.event t) = some next) : next.lake = sys.lake := by
  obtain ⟨txn,found,_,rfl⟩ := step_chunk taken
  obtain ⟨txn',found',_,place⟩ := contained.own
  obtain rfl : txn = txn' := Option.some.inj (found.symm.trans found')
  rw [settleResult_lake]
  refine sinkChunk_spares (fun active => ?_) spared
  rcases place with ⟨passive,_,_⟩ | ⟨_,inTxn,_⟩
  · simp [passive] at active
  · exact inTxn

theorem Contained.chunks {core : Core} {start sys next : System} {t : Nat}
    {calls : List ChunkCall} (contained : Contained start t sys)
    (ran : Runs.run (step core) sys (calls.map (ChunkCall.event t)) = some next) :
    Contained start t next := by
  induction calls generalizing sys with
  | nil => cases ran; exact contained
  | cons call rest ih =>
    obtain ⟨mid,taken,later⟩ := Runs.run_cons.mp ran
    exact ih (contained.chunk taken) later

/-- Chunks whose lake statements do not take effect leave the lake alone. -/
theorem Contained.chunks_lake {core : Core} {start sys next : System} {t : Nat}
    {calls : List ChunkCall} (contained : Contained start t sys)
    (spared : Runs.Meets (step core) (fun s event => sparesLake core s event = true) sys
      (calls.map (ChunkCall.event t)))
    (ran : Runs.run (step core) sys (calls.map (ChunkCall.event t)) = some next) :
    next.lake = sys.lake := by
  induction calls generalizing sys with
  | nil => cases ran; rfl
  | cons call rest ih =>
    obtain ⟨mid,taken,later⟩ := Runs.run_cons.mp ran
    exact (ih (contained.chunk taken) (spared.2 mid taken) later).trans
      (contained.chunk_lake spared.1 taken)

end Containment

/-- The calls of one transaction that ends in a rollback. -/
def rolledBack (t : Nat) (calls : List ChunkCall) (verdicts : List (Option String)) :
    List Event :=
  .start t :: (calls.map (ChunkCall.event t) ++ [.rollback t verdicts])

namespace Reference

/-- The direct table with one hot row; its cold rows are those of the lake. -/
def directSystem : System :=
  { system (database "direct" 100 [item 1 200 10]) with lake := seamLake }

def insertHot : ChunkCall :=
  ⟨.insert,"public","items",some (.array [.object (item 5 300 50)]),[],[]⟩

/-- An update of one cold row, with the outcomes of its attach, delete and upsert. -/
def updateCold (answers : List (Option String)) : ChunkCall :=
  ⟨.update,"public","items",pairs [(.object (item 2 50 20),.object (item 2 50 21))],[],answers⟩

end Reference

def ChunkCall.Direct (db : Database) (call : ChunkCall) : Prop :=
  ∀ row, db.findTable call.schema call.table = .ok (some row) → row.mode = "direct"

end TierDb
