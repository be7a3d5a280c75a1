import TierDb.Frame
import TierDb.Transaction

/-! What a chunk call writes, computed ahead of sending it. A plan is the list of
statements and the result; a returned call took exactly its plan's writes, and on a
session that refuses nothing a plan whose writes run is carried out. -/
namespace TierDb

theorem Took.catalog {core : Core} {writes : List Write} {c d : Conn} (took : Took core writes c d) :
    SameCatalog c.db d.db :=
  runAll_sameCatalog took.ran

theorem Sends.took {core : Core} {c d : Conn} (sends : Sends core False c d) :
    ∃ writes, Took core writes c d := by
  obtain ⟨writes,issued,moved⟩ := sends.sent
  exact ⟨writes,sends.inTxn,sends.dsn,sends.author,sends.sequence,sends.quiet,issued,moved⟩

/-- A session that will refuse nothing. -/
structure Conn.Quiet (c : Conn) : Prop where
  verdicts : c.client.session.verdicts = []
  live : c.client.session.block ≠ .aborted

theorem Conn.Quiet.of_idle {c : Conn} (quiet : c.client.session.verdicts = [])
    (idle : c.client.session.block = .idle) : c.Quiet :=
  ⟨quiet,by simp [idle]⟩

theorem Took.stays_quiet {core : Core} {writes : List Write} {c d : Conn}
    (took : Took core writes c d) (quiet : c.Quiet) : d.Quiet where
  verdicts := took.quiet quiet.verdicts
  live := by
    have moved := took.moved
    cases h : c.client.session.block with
    | idle => simp [BlockMoves, h] at moved; simp [moved.1]
    | «open» w =>
      simp only [BlockMoves, h, false_and, or_false] at moved
      obtain ⟨_,w',inside,_⟩ := moved
      simp [inside]
    | aborted => exact absurd h quiet.live

/-- A result with the statements that lead to it. -/
structure Plan (α : Type) where
  outcome : Except String (α × List Write)

namespace Plan

variable {α β : Type}

def Makes (plan : Plan α) (a : α) (writes : List Write) : Prop := plan.outcome = .ok (a,writes)

def bind (x : Plan α) (f : α → Plan β) : Plan β :=
  ⟨x.outcome.bind fun (a,front) => (f a).outcome.map fun (b,back) => (b,front ++ back)⟩

instance : Monad Plan where
  pure a := ⟨.ok (a,[])⟩
  bind := bind

def lift (x : Except String α) : Plan α := ⟨x.map fun a => (a,[])⟩

def send (w : Write) : Plan Unit := ⟨.ok ((),[w])⟩

@[simp] theorem pure_makes {a b : α} {writes : List Write} :
    (Pure.pure a : Plan α).Makes b writes ↔ b = a ∧ writes = [] := by
  simp [Makes, Pure.pure, eq_comm]

@[simp] theorem lift_makes {x : Except String α} {a : α} {writes : List Write} :
    (lift x).Makes a writes ↔ x = .ok a ∧ writes = [] := by
  cases x <;> simp [Makes, lift, Except.map, eq_comm]

@[simp] theorem send_makes {w : Write} {a : Unit} {writes : List Write} :
    (send w).Makes a writes ↔ writes = [w] := by
  simp [Makes, send, eq_comm]

theorem bind_makes {x : Plan α} {f : α → Plan β} {b : β} {writes : List Write} :
    (x >>= f).Makes b writes ↔
      ∃ a front back, x.Makes a front ∧ (f a).Makes b back ∧ writes = front ++ back := by
  obtain ⟨(e | ⟨a,front⟩)⟩ := x
  · simp [Makes, Bind.bind, bind, Except.bind]
  · cases second : (f a).outcome with
    | error e =>
      simp only [Makes, Bind.bind, bind, Except.bind, second, Except.map, reduceCtorEq, false_iff]
      rintro ⟨_,_,_,same,made,_⟩
      cases same
      simp [second] at made
    | ok out =>
      simp only [Makes, Bind.bind, bind, Except.bind, second, Except.map, Except.ok.injEq,
        Prod.mk.injEq]
      constructor
      · rintro ⟨rfl,rfl⟩
        exact ⟨a,front,out.2,⟨rfl,rfl⟩,second,rfl⟩
      · rintro ⟨_,_,_,⟨rfl,rfl⟩,made,rfl⟩
        cases second.symm.trans made
        exact ⟨rfl,rfl⟩

theorem lift_bind_makes {x : Except String α} {f : α → Plan β} {b : β} {writes : List Write} :
    (lift x >>= f).Makes b writes ↔ ∃ a, x = .ok a ∧ (f a).Makes b writes := by
  simp only [bind_makes, lift_makes]
  constructor
  · rintro ⟨a,_,back,⟨found,rfl⟩,made,rfl⟩
    exact ⟨a,found,made⟩
  · rintro ⟨a,found,made⟩
    exact ⟨a,[],writes,⟨found,rfl⟩,made,rfl⟩

theorem bind_pure_makes {x : Plan α} {g : α → β} {b : β} {writes : List Write} :
    (x >>= fun a => Pure.pure (g a)).Makes b writes ↔ ∃ a, x.Makes a writes ∧ b = g a := by
  simp only [bind_makes, pure_makes]
  constructor
  · rintro ⟨a,front,_,made,⟨same,rfl⟩,rfl⟩
    exact ⟨a,by simpa using made,same⟩
  · rintro ⟨a,made,same⟩
    exact ⟨a,writes,[],made,⟨same,rfl⟩,by simp⟩

theorem Makes.unique {plan : Plan α} {a b : α} {front back : List Write}
    (first : plan.Makes a front) (second : plan.Makes b back) : a = b ∧ front = back := by
  simpa using first.symm.trans second

end Plan

/-- The computation carries out the plan. -/
structure Follows {α : Type} (core : Core) (x : Pg α) (plan : Plan α) : Prop where
  ok : ∀ c a d, x c = .ok a d → ∃ writes, plan.Makes a writes ∧ Took core writes c d
  quiet : ∀ c a writes db, c.Quiet → plan.Makes a writes → runAll core writes c.db = .ok db →
    ∃ d, x c = .ok a d

section Follows

variable {core : Core} {α β : Type}

theorem Follows.pure (a : α) : Follows core (Pure.pure a : Pg α) (Pure.pure a) where
  ok c b d run := by
    cases run
    exact ⟨[],by simp,Took.refl core c⟩
  quiet c b writes db _ planned _ := by
    obtain ⟨rfl,_⟩ := Plan.pure_makes.mp planned
    exact ⟨c,rfl⟩

theorem Follows.ofExcept (x : Except String α) :
    Follows core (Effect.ofExcept x : Pg α) (Plan.lift x) where
  ok c a d run := by
    obtain ⟨ok,rfl⟩ := Effect.ofExcept_ok.mp run
    exact ⟨[],Plan.lift_makes.mpr ⟨ok,rfl⟩,Took.refl core _⟩
  quiet c a writes db _ planned _ := by
    obtain ⟨ok,_⟩ := Plan.lift_makes.mp planned
    exact ⟨c,Effect.ofExcept_ok.mpr ⟨ok,rfl⟩⟩

theorem Follows.bind {x : Pg α} {plan : Plan α} {f : α → Pg β} {next : α → Plan β}
    (first : Follows core x plan) (later : ∀ a, Follows core (f a) (next a)) :
    Follows core (x >>= f) (plan >>= next) where
  ok c b e run := by
    obtain ⟨a,d,hx,hf⟩ := Effect.bind_ok.mp run
    obtain ⟨front,planned,took⟩ := first.ok c a d hx
    obtain ⟨back,planned',took'⟩ := (later a).ok d b e hf
    exact ⟨front ++ back,Plan.bind_makes.mpr ⟨a,front,back,planned,planned',rfl⟩,took.trans took'⟩
  quiet c b writes db quiet made ran := by
    obtain ⟨a,front,back,made₁,made₂,rfl⟩ := Plan.bind_makes.mp made
    obtain ⟨middle,half,rest⟩ := runAll_append_ok.mp ran
    obtain ⟨d,returned⟩ := first.quiet c a front middle quiet made₁ half
    obtain ⟨_,made,took⟩ := first.ok c a d returned
    obtain ⟨_,rfl⟩ := made₁.unique made
    obtain rfl : middle = d.db := Except.ok.inj (half.symm.trans took.ran)
    obtain ⟨e,finished⟩ := (later a).quiet d b back db (took.stays_quiet quiet) made₂ rest
    exact ⟨e,Effect.bind_ok.mpr ⟨a,d,returned,finished⟩⟩

/-- A computation that writes nothing may come first. -/
theorem Follows.before {x : Pg Unit} {f : Unit → Pg β} {plan : Plan β}
    (first : Follows core x (Pure.pure ())) (later : Follows core (f ()) plan) :
    Follows core (x >>= f) plan := by
  have both := first.bind (fun _ : Unit => later)
  rwa [show (Pure.pure () >>= fun _ : Unit => plan) = plan by
    obtain ⟨(e | out)⟩ := plan <;> rfl] at both

theorem Follows.mapError {x : Pg α} {plan : Plan α} (follows : Follows core x plan)
    (f : String → String) : Follows core (Effect.mapError f x) plan where
  ok c a d run := follows.ok c a d (Effect.mapError_ok.mp run)
  quiet c a writes db quiet planned ran := by
    obtain ⟨d,returned⟩ := follows.quiet c a writes db quiet planned ran
    exact ⟨d,Effect.mapError_ok.mpr returned⟩

end Follows

section Reads

/-- The computation sends no write and returns what `read` computes from the database. -/
structure Reads {α : Type} (core : Core) (x : Pg α) (read : Database → Option α) : Prop where
  ok : ∀ c a d, x c = .ok a d → read c.db = some a ∧ Took core [] c d
  quiet : ∀ c a, c.Quiet → read c.db = some a → ∃ d, x c = .ok a d

variable {core : Core} {α β : Type}

theorem toOption_some {x : Except String α} {a : α} : x.toOption = some a ↔ x = .ok a := by
  cases x <;> simp [Except.toOption]

theorem Took.same_db {c d : Conn} (took : Took core [] c d) : d.db = c.db := by
  simpa [runAll, eq_comm] using took.ran

theorem Reads.pure (a : α) : Reads core (Pure.pure a : Pg α) (fun _ => some a) where
  ok c b d run := by
    cases run
    exact ⟨rfl,Took.refl core c⟩
  quiet c b _ found := by
    cases found
    exact ⟨c,rfl⟩

theorem Reads.throw (e : String) : Reads core (MonadExcept.throw e : Pg α) (fun _ => none) where
  ok c b d run := by cases run
  quiet c b _ found := by cases found

theorem Reads.ofExcept (x : Except String α) :
    Reads core (Effect.ofExcept x : Pg α) (fun _ => x.toOption) where
  ok c a d run := by
    obtain ⟨rfl,rfl⟩ := Effect.ofExcept_ok.mp run
    exact ⟨rfl,Took.refl core _⟩
  quiet c a _ found := by
    cases x with
    | error e => cases found
    | ok b => cases found; exact ⟨c,rfl⟩

theorem Reads.bind {x : Pg α} {read : Database → Option α} {f : α → Pg β}
    (first : Reads core x read) (next : α → Database → Option β)
    (later : ∀ a, Reads core (f a) (next a)) :
    Reads core (x >>= f) (fun db => (read db).bind fun a => next a db) where
  ok c b e run := by
    obtain ⟨a,d,hx,hf⟩ := Effect.bind_ok.mp run
    obtain ⟨found,took⟩ := first.ok c a d hx
    obtain ⟨found',took'⟩ := (later a).ok d b e hf
    rw [took.same_db] at found'
    exact ⟨by simp [found, found'],took.trans took'⟩
  quiet c b quiet found := by
    obtain ⟨a,found,found'⟩ := Option.bind_eq_some_iff.mp found
    obtain ⟨d,returned⟩ := first.quiet c a quiet found
    have took := (first.ok c a d returned).2
    obtain ⟨e,finished⟩ := (later a).quiet d b (took.stays_quiet quiet)
      (by rw [took.same_db]; exact found')
    exact ⟨e,Effect.bind_ok.mpr ⟨a,d,returned,finished⟩⟩

theorem Reads.congr {x : Pg α} {read other : Database → Option α} (reads : Reads core x read)
    (same : ∀ db, other db = read db) : Reads core x other := by
  rwa [show other = read from funext same]

theorem Reads.mapError {x : Pg α} {read : Database → Option α} (reads : Reads core x read)
    (f : String → String) : Reads core (Effect.mapError f x) read where
  ok c a d run := reads.ok c a d (Effect.mapError_ok.mp run)
  quiet c a quiet found := by
    obtain ⟨d,returned⟩ := reads.quiet c a quiet found
    exact ⟨d,Effect.mapError_ok.mpr returned⟩

theorem query_reads (read : Database → Except String α) :
    Reads core (query read) (fun db => (read db).toOption) where
  ok c a d run := by
    have taken : read c.db = .ok a ∧ Took core [] c d := query_took run
    exact ⟨by simp [taken.1, Except.toOption],taken.2⟩
  quiet c a quiet found := by
    cases answer : read c.db with
    | error e => simp [answer, Except.toOption] at found
    | ok b =>
      obtain rfl : b = a := by simpa [answer, Except.toOption] using found
      have sent := Sql.statement_of_quiet
        (fun snapshot : Snapshot => (read snapshot.database).map fun a => (a,snapshot))
        quiet.verdicts quiet.live
      rw [Conn.db] at answer
      simp only [answer, Except.map] at sent
      exact ⟨_,onSession_ok.mpr ⟨_,sent,rfl⟩⟩

end Reads

theorem execute_follows (core : Core) (w : Write) :
    Follows core (execute core w) (Plan.send w) where
  ok c a d run := ⟨[w],by simp,execute_took run⟩
  quiet c a writes db quiet made ran := by
    obtain rfl := Plan.send_makes.mp made
    have sent := Sql.statement_of_quiet (w.onSnapshot core c.client.author) quiet.verdicts
      quiet.live
    cases wrote : w.run core c.client.session.view.database with
    | error e => simp [Conn.db, runAll, wrote, bind, Except.bind] at ran
    | ok next =>
      simp only [Write.onSnapshot, wrote, Except.map] at sent
      have done := onSession_ok.mpr ⟨_,sent,rfl⟩
      unfold execute
      rw [Effect.bind_of_ok (Effect.get_apply c), Effect.bind_of_ok done]
      exact ⟨_,rfl⟩

theorem takeLakeLock_follows (core : Core) (tableId : Int) :
    Follows core (takeLakeLock tableId) (pure ()) := by
  refine Follows.mapError ⟨fun c a d run => ⟨[],by simp,lock_took run⟩,?_⟩ _
  intro c a writes db quiet _ _
  have sent := Sql.statement_of_quiet (fun value : Snapshot => .ok ((),value)) quiet.verdicts
    quiet.live
  simp only at sent
  exact ⟨_,onSession_ok.mpr ⟨_,by simp only [Sql.lock, sent]; rfl,rfl⟩⟩

section Chunks

variable (core : Core) (ctx : ChunkContext)

def sendIf (wanted : Bool) (w : Write) : Plan Unit := if wanted then Plan.send w else pure ()

def planWriteCold (cold : Option ColdSink) (tierKey : Int) (row : Json) :
    Plan (Option (List Json)) :=
  match cold with
  | some .delta => do
    let pkVals ← Plan.lift (core.fieldTexts row ctx.ts.primaryKeyCols)
    Plan.send (.delta ⟨ctx.ts.tableId,core.encodePk pkVals,.upsert,tierKey,row⟩)
    return none
  | some .lake => return some (core.lakeRowTuple row ctx.target.columns)
  | none => return none

def planWriteRow (image : Json) : Plan (Option (List Json)) := do
  let row := normalizeJsonColumns core.toSerdeJson image ctx.ts.columns
  let tierKey ← Plan.lift (core.tierKey ctx.ts.tierKeyCol ctx.ts.tierKeyType row)
  let plan := ctx.mode.planInsert (routeRow core ctx.cutline tierKey)
  Plan.lift (checkRetention core ctx plan.cold plan.checkRetention tierKey)
  let tuple ← planWriteCold core ctx plan.cold tierKey row
  sendIf plan.toHeap (.heapInsert ctx.ts.schemaName ctx.ts.tableName row)
  return tuple

def planLoop (planRow : Json → Plan (Option (List Json))) : List Json → Plan (List (List Json))
  | [] => return []
  | image :: rest => do
    let tuple ← planRow image
    let tuples ← planLoop planRow rest
    return tuple.toList ++ tuples

def planWriteRows (rows : List Json) : Plan (List LakeStatement) := do
  let lakeRows ← planLoop (planWriteRow core ctx) rows
  if lakeRows.isEmpty then
    return []
  let cold ← Plan.lift (liveCold ctx.target)
  Plan.lift (core.lakeUpsert ctx.target cold lakeRows)

def planDeleteCold (pkColumns : List Column) (cold : Option ColdSink) (tierKey : Int)
    (pkVals : List String) (row : Json) : Plan (Option (List Json)) :=
  match cold with
  | some .delta => do
    Plan.send (.delta ⟨ctx.ts.tableId,core.encodePk pkVals,.tombstone,tierKey,
      tombstonePayload row ctx.ts.primaryKeyCols⟩)
    return none
  | some .lake => return some (core.lakeRowTuple row pkColumns)
  | none => return none

def deleteFloor (heapFloor : Bool) : Option Floor :=
  if heapFloor then ctx.cutline.map fun t => ⟨ctx.ts.tierKeyCol,ctx.ts.tierKeyType,t⟩ else none

def planDeleteRow (pkColumns : List Column) (row : Json) : Plan (Option (List Json)) := do
  let tierKey ← Plan.lift (core.tierKey ctx.ts.tierKeyCol ctx.ts.tierKeyType row)
  let plan := ctx.mode.planDelete (routeRow core ctx.cutline tierKey)
  let pkVals ← Plan.lift (core.fieldTexts row ctx.ts.primaryKeyCols)
  Plan.lift (checkRetention core ctx plan.cold plan.checkRetention tierKey)
  let tuple ← planDeleteCold core ctx pkColumns plan.cold tierKey pkVals row
  sendIf plan.fromHeap (.heapDelete ctx.ts.schemaName ctx.ts.tableName ctx.ts.primaryKeyCols
    (deleteFloor ctx plan.heapFloor) pkVals)
  return tuple

def planDeleteRows (rows : List Json) : Plan (List LakeStatement) := do
  let pkColumns ← Plan.lift (pkColumnsOf ctx.target)
  let keyRows ← planLoop (planDeleteRow core ctx pkColumns) rows
  if keyRows.isEmpty then
    return []
  let cold ← Plan.lift (liveCold ctx.target)
  let statement ← Plan.lift (core.lakeDelete ctx.target cold keyRows ctx.cutline)
  return [statement]

def planChunk (kind : ChunkKind) (rowsJson : JsonText) : Plan ChunkOutcome :=
  match kind with
  | .insert => do
    let rows ← Plan.lift (readRows core.toSerdeJson "insert" rowsJson)
    let lakeSql ← planWriteRows core ctx rows
    return ⟨rows.length,ctx.attachSql,lakeSql⟩
  | .delete => do
    let rows ← Plan.lift (readRows core.toSerdeJson "delete" rowsJson)
    let lakeSql ← planDeleteRows core ctx rows
    return ⟨rows.length,ctx.attachSql,lakeSql⟩
  | .update => do
    let pairs ← Plan.lift (readRows core.toSerdeJson "update" rowsJson)
    let split ← Plan.lift (pairs.mapM splitPair)
    let deletes ← planDeleteRows core ctx (split.map Prod.fst)
    let upserts ← planWriteRows core ctx (split.map Prod.snd)
    return ⟨split.length,ctx.attachSql,deletes ++ upserts⟩

theorem planWriteCold_follows (cold : Option ColdSink) (tierKey : Int) (row : Json) :
    Follows core (writeCold core ctx cold tierKey row) (planWriteCold core ctx cold tierKey row) := by
  match cold with
  | some .delta =>
    refine (Follows.ofExcept _).bind fun pkVals => ?_
    exact ((execute_follows core _).mapError _).bind fun _ => .pure _
  | some .lake => exact .pure _
  | none => exact .pure _

theorem planWriteRow_follows (image : Json) :
    Follows core (writeRow core ctx image) (planWriteRow core ctx image) := by
  refine (Follows.ofExcept _).bind fun tierKey => (Follows.ofExcept _).bind fun _ => ?_
  refine (planWriteCold_follows core ctx _ _ _).bind fun tuple => ?_
  refine Follows.bind ?_ fun _ => .pure _
  unfold writeHeap sendIf
  split
  · exact (execute_follows core _).mapError _
  · exact .pure _

theorem writeLoop_follows (rows : List Json) :
    Follows core (writeLoop core ctx rows) (planLoop (planWriteRow core ctx) rows) := by
  induction rows with
  | nil => exact .pure _
  | cons image rest ih =>
    exact (planWriteRow_follows core ctx image).bind fun tuple => ih.bind fun tuples => .pure _

theorem planWriteRows_follows (rows : List Json) :
    Follows core (writeRows core ctx rows) (planWriteRows core ctx rows) := by
  refine (writeLoop_follows core ctx rows).bind fun lakeRows => ?_
  split
  · exact .pure _
  · refine (Follows.ofExcept _).bind fun cold => ?_
    exact (takeLakeLock_follows core _).before (.ofExcept _)

theorem planDeleteCold_follows (pkColumns : List Column) (cold : Option ColdSink) (tierKey : Int)
    (pkVals : List String) (row : Json) :
    Follows core (deleteCold core ctx pkColumns cold tierKey pkVals row)
      (planDeleteCold core ctx pkColumns cold tierKey pkVals row) := by
  match cold with
  | some .delta => exact ((execute_follows core _).mapError _).bind fun _ => .pure _
  | some .lake => exact .pure _
  | none => exact .pure _

theorem planDeleteRow_follows (pkColumns : List Column) (row : Json) :
    Follows core (deleteRow core ctx pkColumns row) (planDeleteRow core ctx pkColumns row) := by
  refine (Follows.ofExcept _).bind fun tierKey => (Follows.ofExcept _).bind fun pkVals => ?_
  refine (Follows.ofExcept _).bind fun _ => ?_
  refine (planDeleteCold_follows core ctx _ _ _ _ _).bind fun tuple => ?_
  refine Follows.bind ?_ fun _ => .pure _
  unfold deleteHeap sendIf deleteFloor
  split
  · exact (execute_follows core _).mapError _
  · exact .pure _

theorem deleteLoop_follows (pkColumns : List Column) (rows : List Json) :
    Follows core (deleteLoop core ctx pkColumns rows)
      (planLoop (planDeleteRow core ctx pkColumns) rows) := by
  induction rows with
  | nil => exact .pure _
  | cons row rest ih =>
    exact (planDeleteRow_follows core ctx pkColumns row).bind fun tuple =>
      ih.bind fun tuples => .pure _

theorem planDeleteRows_follows (rows : List Json) :
    Follows core (deleteRows core ctx rows) (planDeleteRows core ctx rows) := by
  refine (Follows.ofExcept _).bind fun pkColumns => ?_
  refine (deleteLoop_follows core ctx pkColumns rows).bind fun keyRows => ?_
  split
  · exact .pure _
  · refine (Follows.ofExcept _).bind fun cold => ?_
    exact (takeLakeLock_follows core _).before ((Follows.ofExcept _).bind fun _ => .pure _)

end Chunks

/-- The rows of a chunk call, once its context is read. -/
def chunkBody (core : Core) (kind : ChunkKind) (rowsJson : JsonText) (ctx : ChunkContext) :
    Pg ChunkOutcome :=
  match kind with
  | .insert => do
    let rows ← Effect.ofExcept (readRows core.toSerdeJson "insert" rowsJson)
    let lakeSql ← writeRows core ctx rows
    return ⟨rows.length,ctx.attachSql,lakeSql⟩
  | .delete => do
    let rows ← Effect.ofExcept (readRows core.toSerdeJson "delete" rowsJson)
    let lakeSql ← deleteRows core ctx rows
    return ⟨rows.length,ctx.attachSql,lakeSql⟩
  | .update => do
    let pairs ← Effect.ofExcept (readRows core.toSerdeJson "update" rowsJson)
    let split ← Effect.ofExcept (pairs.mapM splitPair)
    let deletes ← deleteRows core ctx (split.map Prod.fst)
    let upserts ← writeRows core ctx (split.map Prod.snd)
    return ⟨split.length,ctx.attachSql,deletes ++ upserts⟩

theorem chunkFunction_eq (core : Core) (kind : ChunkKind) (schema table : String)
    (rowsJson : JsonText) : chunkFunction core kind schema table rowsJson =
      openChunk core schema table >>= chunkBody core kind rowsJson := by
  cases kind <;> rfl

theorem chunkBody_follows (core : Core) (kind : ChunkKind) (rowsJson : JsonText)
    (ctx : ChunkContext) :
    Follows core (chunkBody core kind rowsJson ctx) (planChunk core ctx kind rowsJson) := by
  cases kind with
  | insert =>
    refine (Follows.ofExcept _).bind fun rows => ?_
    exact (planWriteRows_follows core ctx rows).bind fun _ => .pure _
  | delete =>
    refine (Follows.ofExcept _).bind fun rows => ?_
    exact (planDeleteRows_follows core ctx rows).bind fun _ => .pure _
  | update =>
    refine (Follows.ofExcept _).bind fun pairs => (Follows.ofExcept _).bind fun split => ?_
    refine (planDeleteRows_follows core ctx _).bind fun _ => ?_
    exact (planWriteRows_follows core ctx _).bind fun _ => .pure _

section Opening

variable (core : Core)

/-- What `tableSchema` makes of the database. -/
def Database.tableSchema (db : Database) (schema table : String) : Option TableSchema := do
  let row ← (← (db.findTable schema table).toOption)
  let keyType ← (core.tierKeyTypeFromName row.tierKeyType).toOption
  let columns := db.attributes schema table
  if columns.isEmpty then none else some (row.withColumns keyType columns)

def Database.lakeCatalog (db : Database) (ts : TableSchema) : Option (Option LakeCatalog) := do
  let profile ← db.profiles ts.storageProfile
  let config ←
    (optionalProps core profile.lakeConfig "tierdb.storage_profiles.lake_config").toOption
  (core.lakeCatalogFromProfile ts.lakeFormat ts.storageProfile profile.warehouse config).toOption

def Database.cutlineOf (db : Database) (tableId : Int) : Option (Option Cutline) :=
  match db.cutline tableId with
  | none => some none
  | some row => do
    let props ← (optionalProps core row.lakeProps "tierdb.cutline.lake_props").toOption
    some (some ⟨row.tierKeyHi,row.lakeSnapshotId,props⟩)

def Database.resolveCatalog (db : Database) (ts : TableSchema) : Option (Option LakeCatalog) := do
  let mode ← (ts.modeOf core).toOption
  if mode.isDirect then
    let catalog ← (← db.lakeCatalog core ts)
    some (some catalog)
  else some none

/-- The context a chunk call reads. -/
def Database.openChunk (db : Database) (schema table : String) : Option ChunkContext := do
  let ts ← db.tableSchema core schema table
  let mode ← (ts.modeOf core).toOption
  let cut ← db.cutlineOf core ts.tableId
  let catalog ← db.resolveCatalog core ts
  let target ← (ts.table core catalog).toOption
  some ⟨ts,mode,cut.map Cutline.tierKeyHi,
    (db.cutline ts.tableId).bind CutlineRow.retentionLine,catalog.map LakeCatalog.attachSql,target⟩

theorem heapColumns_reads (schema table : String) : Reads core (heapColumns schema table)
    fun db => if (db.attributes schema table).isEmpty then none
      else some (db.attributes schema table) := by
  refine (((query_reads _).mapError _).bind
    (fun rows _ => if rows.isEmpty then none else some rows) fun rows => ?_).congr fun db => rfl
  split
  · exact .throw _
  · exact .pure _

theorem tableSchema_reads (schema table : String) : Reads core (tableSchema core schema table)
    (Database.tableSchema core · schema table) := by
  refine ((((query_reads _).bind _ fun answer => Reads.ofExcept answer).mapError _).bind
    (fun found db => found.bind fun row =>
      (core.tierKeyTypeFromName row.tierKeyType).toOption.bind fun keyType =>
        (if (db.attributes schema table).isEmpty then none
          else some (db.attributes schema table)).bind fun columns =>
            some (row.withColumns keyType columns)) fun found => ?_).congr fun db => ?_
  · cases found with
    | none => exact .throw _
    | some row =>
      refine ((Reads.ofExcept _).mapError _).bind _ fun keyType => ?_
      exact (heapColumns_reads core schema table).bind _ fun columns => .pure _
  · unfold Database.tableSchema
    simp only [Option.bind_eq_bind]
    congr 1
    funext found
    congr 1
    funext row
    congr 1
    funext keyType
    split <;> rfl

theorem lakeCatalog_reads (ts : TableSchema) : Reads core (lakeCatalog core ts)
    (Database.lakeCatalog core · ts) := by
  refine (((query_reads _).mapError _).bind (fun found _ => found.bind fun profile =>
    (optionalProps core profile.lakeConfig "tierdb.storage_profiles.lake_config").toOption.bind
      fun config => (core.lakeCatalogFromProfile ts.lakeFormat ts.storageProfile
        profile.warehouse config).toOption) fun found => ?_).congr fun db => rfl
  cases found with
  | none => exact .throw _
  | some profile => exact (Reads.ofExcept _).bind _ fun config => .ofExcept _

theorem cutline_reads (tableId : Int) : Reads core (cutline core tableId)
    (Database.cutlineOf core · tableId) := by
  refine (((query_reads _).mapError _).bind (fun found _ => match found with
    | none => some none
    | some row => (optionalProps core row.lakeProps "tierdb.cutline.lake_props").toOption.bind
        fun props => some (some ⟨row.tierKeyHi,row.lakeSnapshotId,props⟩)) fun found => ?_).congr
    fun db => rfl
  cases found with
  | none => exact .pure _
  | some row => exact (Reads.ofExcept _).bind _ fun props => .pure _

theorem resolveCatalog_reads (ts : TableSchema) : Reads core (resolveCatalog core ts)
    (Database.resolveCatalog core · ts) := by
  refine ((Reads.ofExcept _).bind (fun mode db => if mode.isDirect then
    (db.lakeCatalog core ts).bind fun found => found.bind fun catalog => some (some catalog)
    else some none) fun mode => ?_).congr fun db => rfl
  cases mode.isDirect with
  | false => exact .pure _
  | true =>
    refine (lakeCatalog_reads core ts).bind _ fun found => ?_
    cases found with
    | none => exact .throw _
    | some catalog => exact .pure _

theorem openChunk_reads (schema table : String) : Reads core (openChunk core schema table)
    (Database.openChunk core · schema table) := by
  refine ((tableSchema_reads core schema table).bind _ fun ts =>
    (Reads.ofExcept _).bind _ fun mode => (cutline_reads core _).bind _ fun cut =>
    ((query_reads _).mapError _).bind _ fun retention =>
    (resolveCatalog_reads core ts).bind _ fun catalog =>
    (Reads.ofExcept _).bind _ fun target => .pure _).congr fun db => rfl

/-- What a context was read from. -/
structure Opened (core : Core) (db : Database) (schema table : String) (ctx : ChunkContext)
    (row : Registration) : Prop where
  found : db.findTable schema table = .ok (some row)
  keyType : core.tierKeyTypeFromName row.tierKeyType = .ok ctx.ts.tierKeyType
  columns : db.attributes schema table ≠ []
  ts : ctx.ts = row.withColumns ctx.ts.tierKeyType (db.attributes schema table)
  mode : ctx.ts.modeOf core = .ok ctx.mode
  cutline : ctx.cutline = (db.cutline ctx.ts.tableId).map CutlineRow.tierKeyHi
  retention : ctx.retention = (db.cutline ctx.ts.tableId).bind CutlineRow.retentionLine
  target : ∃ catalog, db.resolveCatalog core ctx.ts = some catalog ∧
    ctx.ts.table core catalog = .ok ctx.target ∧
    ctx.attachSql = catalog.map LakeCatalog.attachSql

theorem tableSchema_some {db : Database} {schema table : String} {ts : TableSchema}
    (found : db.tableSchema core schema table = some ts) :
    ∃ row, db.findTable schema table = .ok (some row) ∧
      core.tierKeyTypeFromName row.tierKeyType = .ok ts.tierKeyType ∧
      db.attributes schema table ≠ [] ∧
      ts = row.withColumns ts.tierKeyType (db.attributes schema table) := by
  simp only [Database.tableSchema, Option.bind_eq_bind, Option.bind_eq_some_iff] at found
  obtain ⟨answer,asked,row,rfl,keyType,typed,found⟩ := found
  split at found
  · cases found
  · rename_i some
    cases found
    exact ⟨row,toOption_some.mp asked,toOption_some.mp typed,by simpa using some,rfl⟩

theorem cutlineOf_some {db : Database} {tableId : Int} {cut : Option Cutline}
    (found : db.cutlineOf core tableId = some cut) :
    cut.map Cutline.tierKeyHi = (db.cutline tableId).map CutlineRow.tierKeyHi := by
  unfold Database.cutlineOf at found
  split at found
  · rename_i missing
    cases found
    simp [missing]
  · rename_i row present
    simp only [Option.bind_eq_bind, Option.bind_eq_some_iff] at found
    obtain ⟨props,_,made⟩ := found
    cases made
    simp [present]

theorem openChunk_some {db : Database} {schema table : String} {ctx : ChunkContext}
    (found : db.openChunk core schema table = some ctx) :
    ∃ row, Opened core db schema table ctx row := by
  simp only [Database.openChunk, Option.bind_eq_bind, Option.bind_eq_some_iff] at found
  obtain ⟨ts,read,mode,moded,cut,cutRead,catalog,resolved,target,made,same⟩ := found
  cases same
  obtain ⟨row,asked,typed,some,shape⟩ := tableSchema_some core read
  exact ⟨row,asked,typed,some,shape,toOption_some.mp moded,cutlineOf_some core cutRead,rfl,
    catalog,resolved,toOption_some.mp made,rfl⟩

/-- A context depends on the catalog alone. -/
theorem openChunk_same {db next : Database} {schema table : String} (same : SameCatalog db next) :
    next.openChunk core schema table = db.openChunk core schema table := by
  have attributes : next.attributes schema table = db.attributes schema table := by
    have shape := same.shape schema table
    unfold Database.attributes
    cases before : db.heap schema table <;> cases after : next.heap schema table <;>
      simp_all
  simp only [Database.openChunk, Database.tableSchema, Database.findTable, attributes,
    Database.cutlineOf, Database.resolveCatalog, Database.lakeCatalog, same.tables, same.cutline,
    same.profiles]

end Opening

/-- A returned chunk call opened its context and took its plan's writes. -/
theorem chunkFunction_ok {core : Core} {kind : ChunkKind} {schema table : String}
    {rowsJson : JsonText} {c d : Conn} {outcome : ChunkOutcome}
    (returned : chunkFunction core kind schema table rowsJson c = .ok outcome d) :
    ∃ ctx writes, c.db.openChunk core schema table = some ctx ∧
      (planChunk core ctx kind rowsJson).Makes outcome writes ∧ Took core writes c d := by
  rw [chunkFunction_eq] at returned
  obtain ⟨ctx,b,opened,ran⟩ := Effect.bind_ok.mp returned
  obtain ⟨found,took⟩ := (openChunk_reads core schema table).ok c ctx b opened
  obtain ⟨writes,made,took'⟩ := (chunkBody_follows core kind rowsJson ctx).ok b outcome d ran
  exact ⟨ctx,writes,found,made,took.trans took'⟩

/-- The same, of a context that is known to open. -/
theorem chunkFunction_opened {core : Core} {kind : ChunkKind} {schema table : String}
    {rowsJson : JsonText} {c d : Conn} {ctx : ChunkContext} {outcome : ChunkOutcome}
    (found : c.db.openChunk core schema table = some ctx)
    (returned : chunkFunction core kind schema table rowsJson c = .ok outcome d) :
    ∃ writes, (planChunk core ctx kind rowsJson).Makes outcome writes ∧ Took core writes c d := by
  obtain ⟨ctx',writes,found',made,took⟩ := chunkFunction_ok returned
  obtain rfl : ctx = ctx' := Option.some.inj (found.symm.trans found')
  exact ⟨writes,made,took⟩

/-- On a quiet session a chunk whose plan's writes run returns, with these writes taken. -/
theorem chunkFunction_quiet {core : Core} {kind : ChunkKind} {schema table : String}
    {rowsJson : JsonText} {c : Conn} {ctx : ChunkContext} {outcome : ChunkOutcome}
    {writes : List Write} {db : Database} (quiet : c.Quiet)
    (found : c.db.openChunk core schema table = some ctx)
    (made : (planChunk core ctx kind rowsJson).Makes outcome writes)
    (ran : runAll core writes c.db = .ok db) :
    ∃ d, chunkFunction core kind schema table rowsJson c = .ok outcome d ∧
      Took core writes c d := by
  obtain ⟨b,opened⟩ := (openChunk_reads core schema table).quiet c ctx quiet found
  have took := ((openChunk_reads core schema table).ok c ctx b opened).2
  rw [← took.same_db] at ran
  obtain ⟨d,done⟩ := (chunkBody_follows core kind rowsJson ctx).quiet b outcome writes db
    (took.stays_quiet quiet) made ran
  have returned : chunkFunction core kind schema table rowsJson c = .ok outcome d := by
    rw [chunkFunction_eq]
    exact Effect.bind_ok.mpr ⟨ctx,b,opened,done⟩
  obtain ⟨_,made',took'⟩ := chunkFunction_opened found returned
  obtain ⟨_,rfl⟩ := made.unique made'
  exact ⟨d,returned,took'⟩

section Counts

variable {core : Core} {ctx : ChunkContext}

def rowCount : JsonText → Nat
  | some (.array rows) => rows.length
  | _ => 0

theorem sendIf_makes {wanted : Bool} {w : Write} {u : Unit} {writes : List Write} :
    (sendIf wanted w).Makes u writes ↔ writes = if wanted then [w] else [] := by
  cases wanted <;> simp [sendIf]

theorem planWriteRow_makes {image : Json} {tuple : Option (List Json)} {writes : List Write} :
    (planWriteRow core ctx image).Makes tuple writes ↔
      let row := normalizeJsonColumns core.toSerdeJson image ctx.ts.columns
      ∃ tierKey front, core.tierKey ctx.ts.tierKeyCol ctx.ts.tierKeyType row = .ok tierKey ∧
        let plan := ctx.mode.planInsert (routeRow core ctx.cutline tierKey)
        checkRetention core ctx plan.cold plan.checkRetention tierKey = .ok () ∧
        (planWriteCold core ctx plan.cold tierKey row).Makes tuple front ∧
        writes = front ++
          if plan.toHeap then [.heapInsert ctx.ts.schemaName ctx.ts.tableName row] else [] := by
  simp only [planWriteRow, Plan.lift_bind_makes]
  constructor
  · rintro ⟨tierKey,found,_,checked,made⟩
    obtain ⟨_,front,_,cold,rest,rfl⟩ := Plan.bind_makes.mp made
    obtain ⟨_,sent,rfl⟩ := Plan.bind_pure_makes.mp rest
    exact ⟨tierKey,front,found,checked,cold,by rw [sendIf_makes.mp sent]⟩
  · rintro ⟨tierKey,front,found,checked,cold,rfl⟩
    exact ⟨tierKey,found,(),checked,Plan.bind_makes.mpr ⟨tuple,front,_,cold,
      Plan.bind_pure_makes.mpr ⟨(),sendIf_makes.mpr rfl,rfl⟩,rfl⟩⟩

theorem planDeleteRow_makes {pkColumns : List Column} {row : Json} {tuple : Option (List Json)}
    {writes : List Write} :
    (planDeleteRow core ctx pkColumns row).Makes tuple writes ↔
      ∃ tierKey pkVals front, core.tierKey ctx.ts.tierKeyCol ctx.ts.tierKeyType row = .ok tierKey ∧
        core.fieldTexts row ctx.ts.primaryKeyCols = .ok pkVals ∧
        let plan := ctx.mode.planDelete (routeRow core ctx.cutline tierKey)
        checkRetention core ctx plan.cold plan.checkRetention tierKey = .ok () ∧
        (planDeleteCold core ctx pkColumns plan.cold tierKey pkVals row).Makes tuple front ∧
        writes = front ++
          if plan.fromHeap then [.heapDelete ctx.ts.schemaName ctx.ts.tableName
            ctx.ts.primaryKeyCols (deleteFloor ctx plan.heapFloor) pkVals] else [] := by
  simp only [planDeleteRow, Plan.lift_bind_makes]
  constructor
  · rintro ⟨tierKey,found,pkVals,texts,_,checked,made⟩
    obtain ⟨_,front,_,cold,rest,rfl⟩ := Plan.bind_makes.mp made
    obtain ⟨_,sent,rfl⟩ := Plan.bind_pure_makes.mp rest
    exact ⟨tierKey,pkVals,front,found,texts,checked,cold,by rw [sendIf_makes.mp sent]⟩
  · rintro ⟨tierKey,pkVals,front,found,texts,checked,cold,rfl⟩
    exact ⟨tierKey,found,pkVals,texts,(),checked,Plan.bind_makes.mpr ⟨tuple,front,_,cold,
      Plan.bind_pure_makes.mpr ⟨(),sendIf_makes.mpr rfl,rfl⟩,rfl⟩⟩

/-- Under a mode that places every row, a written row is at least one statement. -/
theorem planWriteRow_writes {image : Json} {tuple : Option (List Json)} {writes : List Write}
    (places : ctx.mode.Places) (made : (planWriteRow core ctx image).Makes tuple writes) :
    writes ≠ [] := by
  obtain ⟨tierKey,front,_,_,cold,rfl⟩ := planWriteRow_makes.mp made
  rcases places.insert (routeRow core ctx.cutline tierKey) with heap | delta
  · simp [heap]
  · simp only [delta, planWriteCold, Plan.bind_makes, Plan.send_makes] at cold
    obtain ⟨_,_,_,_,⟨_,_,_,rfl,_,rfl⟩,rfl⟩ := cold
    simp

theorem planDeleteRow_writes {pkColumns : List Column} {row : Json} {tuple : Option (List Json)}
    {writes : List Write} (places : ctx.mode.Places)
    (made : (planDeleteRow core ctx pkColumns row).Makes tuple writes) : writes ≠ [] := by
  obtain ⟨tierKey,pkVals,front,_,_,_,cold,rfl⟩ := planDeleteRow_makes.mp made
  rcases places.delete (routeRow core ctx.cutline tierKey) with heap | delta
  · simp [heap]
  · simp only [delta, planDeleteCold, Plan.bind_makes, Plan.send_makes] at cold
    obtain ⟨_,_,_,rfl,_,rfl⟩ := cold
    simp

theorem planLoop_writes {planRow : Json → Plan (Option (List Json))} {rows : List Json}
    {tuples : List (List Json)} {writes : List Write}
    (each : ∀ row tuple writes, (planRow row).Makes tuple writes → writes ≠ [])
    (made : (planLoop planRow rows).Makes tuples writes) : writes = [] ↔ rows = [] := by
  cases rows with
  | nil => simp only [planLoop, Plan.pure_makes] at made; simp [made.2]
  | cons row rest =>
    simp only [planLoop, Plan.bind_makes] at made
    obtain ⟨tuple,front,_,first,_,rfl⟩ := made
    simp [each row tuple front first]

/-- What follows the loop sends no write. -/
theorem planWriteRows_makes {rows : List Json} {lakeSql : List LakeStatement}
    {writes : List Write} : (planWriteRows core ctx rows).Makes lakeSql writes ↔
      ∃ tuples, (planLoop (planWriteRow core ctx) rows).Makes tuples writes ∧
        if tuples = [] then lakeSql = [] else ∃ cold, liveCold ctx.target = .ok cold ∧
          core.lakeUpsert ctx.target cold tuples = .ok lakeSql := by
  simp only [planWriteRows, Plan.bind_makes]
  have rest : ∀ tuples back, (if tuples.isEmpty = true then pure [] else do
      let cold ← Plan.lift (liveCold ctx.target)
      Plan.lift (core.lakeUpsert ctx.target cold tuples) : Plan (List LakeStatement)).Makes
        lakeSql back ↔ back = [] ∧ if tuples = [] then lakeSql = [] else
          ∃ cold, liveCold ctx.target = .ok cold ∧
            core.lakeUpsert ctx.target cold tuples = .ok lakeSql := by
    intro tuples back
    by_cases none : tuples = []
    · simp [none, and_comm]
    · simp only [List.isEmpty_iff, none, if_false, Plan.lift_bind_makes, Plan.lift_makes]
      constructor
      · rintro ⟨cold,live,rendered,sent⟩
        exact ⟨sent,cold,live,rendered⟩
      · rintro ⟨sent,cold,live,rendered⟩
        exact ⟨cold,live,rendered,sent⟩
  constructor
  · rintro ⟨tuples,front,back,loop,later,rfl⟩
    obtain ⟨rfl,finished⟩ := (rest tuples back).mp later
    exact ⟨tuples,by simpa using loop,finished⟩
  · rintro ⟨tuples,loop,later⟩
    exact ⟨tuples,writes,[],loop,(rest tuples []).mpr ⟨rfl,later⟩,by simp⟩

theorem planDeleteRows_makes {rows : List Json} {lakeSql : List LakeStatement}
    {writes : List Write} : (planDeleteRows core ctx rows).Makes lakeSql writes ↔
      ∃ pkColumns tuples, pkColumnsOf ctx.target = .ok pkColumns ∧
        (planLoop (planDeleteRow core ctx pkColumns) rows).Makes tuples writes ∧
        if tuples = [] then lakeSql = [] else ∃ cold statement, liveCold ctx.target = .ok cold ∧
          core.lakeDelete ctx.target cold tuples ctx.cutline = .ok statement ∧
          lakeSql = [statement] := by
  simp only [planDeleteRows, Plan.lift_bind_makes, Plan.bind_makes (x := planLoop _ _)]
  have rest : ∀ tuples back, (if tuples.isEmpty = true then pure [] else do
      let cold ← Plan.lift (liveCold ctx.target)
      let statement ← Plan.lift (core.lakeDelete ctx.target cold tuples ctx.cutline)
      return [statement] : Plan (List LakeStatement)).Makes lakeSql back ↔
        back = [] ∧ if tuples = [] then lakeSql = [] else
          ∃ cold statement, liveCold ctx.target = .ok cold ∧
            core.lakeDelete ctx.target cold tuples ctx.cutline = .ok statement ∧
            lakeSql = [statement] := by
    intro tuples back
    by_cases none : tuples = []
    · simp [none, and_comm]
    · simp only [List.isEmpty_iff, none, if_false, Plan.lift_bind_makes, Plan.pure_makes]
      constructor
      · rintro ⟨cold,live,statement,rendered,same,sent⟩
        exact ⟨sent,cold,statement,live,rendered,same⟩
      · rintro ⟨sent,cold,statement,live,rendered,same⟩
        exact ⟨cold,live,statement,rendered,same,sent⟩
  constructor
  · rintro ⟨pkColumns,found,tuples,front,back,loop,later,rfl⟩
    obtain ⟨rfl,finished⟩ := (rest tuples back).mp later
    exact ⟨pkColumns,tuples,found,by simpa using loop,finished⟩
  · rintro ⟨pkColumns,tuples,found,loop,later⟩
    exact ⟨pkColumns,found,tuples,writes,[],loop,(rest tuples []).mpr ⟨rfl,later⟩,by simp⟩

theorem planWriteRows_writes {rows : List Json} {lakeSql : List LakeStatement}
    {writes : List Write} (places : ctx.mode.Places)
    (made : (planWriteRows core ctx rows).Makes lakeSql writes) : writes = [] ↔ rows = [] := by
  obtain ⟨_,loop,_⟩ := planWriteRows_makes.mp made
  exact planLoop_writes (fun _ _ _ => planWriteRow_writes places) loop

theorem planDeleteRows_writes {rows : List Json} {lakeSql : List LakeStatement}
    {writes : List Write} (places : ctx.mode.Places)
    (made : (planDeleteRows core ctx rows).Makes lakeSql writes) : writes = [] ↔ rows = [] := by
  obtain ⟨_,_,_,loop,_⟩ := planDeleteRows_makes.mp made
  exact planLoop_writes (fun _ _ _ => planDeleteRow_writes places) loop

def rowsOf : JsonText → Except String (List Json)
  | some (.array rows) => .ok rows
  | _ => .error "not a JSON array of rows"

theorem rowsOf_ok {rowsJson : JsonText} {rows : List Json} :
    rowsOf rowsJson = .ok rows ↔ rowsJson = some (.array rows) := by
  unfold rowsOf
  split <;> simp_all

theorem readRows_ok {json : SerdeJson} {what : String} {rowsJson : JsonText} {rows : List Json} :
    readRows json what rowsJson = .ok rows ↔ rowsOf rowsJson = .ok rows := by
  unfold readRows rowsOf
  split <;> simp

/-- The rows a chunk removes and the images it writes. -/
def chunkRows (kind : ChunkKind) (rowsJson : JsonText) : Except String (List Json × List Json) :=
  match kind with
  | .insert => do return ([],← rowsOf rowsJson)
  | .delete => do return (← rowsOf rowsJson,[])
  | .update => do
    let pairs ← (← rowsOf rowsJson).mapM splitPair
    return (pairs.map Prod.fst,pairs.map Prod.snd)

theorem chunkRows_insert {rowsJson : JsonText} {removed written : List Json} :
    chunkRows .insert rowsJson = .ok (removed,written) ↔
      removed = [] ∧ rowsOf rowsJson = .ok written := by
  cases read : rowsOf rowsJson <;>
    simp [chunkRows, read, bind, Except.bind, pure, Except.pure, eq_comm]

theorem chunkRows_delete {rowsJson : JsonText} {removed written : List Json} :
    chunkRows .delete rowsJson = .ok (removed,written) ↔
      rowsOf rowsJson = .ok removed ∧ written = [] := by
  cases read : rowsOf rowsJson <;>
    simp [chunkRows, read, bind, Except.bind, pure, Except.pure, eq_comm]

theorem chunkRows_update {rowsJson : JsonText} {removed written : List Json} :
    chunkRows .update rowsJson = .ok (removed,written) ↔
      ∃ pairs split, rowsOf rowsJson = .ok pairs ∧ pairs.mapM splitPair = .ok split ∧
        removed = split.map Prod.fst ∧ written = split.map Prod.snd := by
  cases read : rowsOf rowsJson with
  | error e => simp [chunkRows, read, bind, Except.bind]
  | ok pairs =>
    cases cut : pairs.mapM splitPair <;>
      simp [chunkRows, read, cut, bind, Except.bind, pure, Except.pure, eq_comm]

theorem planWriteRows_nil {lakeSql : List LakeStatement} {writes : List Write} :
    (planWriteRows core ctx []).Makes lakeSql writes ↔ lakeSql = [] ∧ writes = [] := by
  rw [planWriteRows_makes]
  simp [planLoop, and_comm]

theorem planDeleteRows_nil {pkColumns : List Column} {lakeSql : List LakeStatement}
    {writes : List Write} (pk : pkColumnsOf ctx.target = .ok pkColumns) :
    (planDeleteRows core ctx []).Makes lakeSql writes ↔ lakeSql = [] ∧ writes = [] := by
  rw [planDeleteRows_makes]
  simp [planLoop, pk, and_comm]

/-- A chunk is its removals and then its writes. -/
theorem planChunk_makes {kind : ChunkKind} {rowsJson : JsonText} {removed written : List Json}
    {pkColumns : List Column} {outcome : ChunkOutcome} {writes : List Write}
    (pk : pkColumnsOf ctx.target = .ok pkColumns)
    (rows : chunkRows kind rowsJson = .ok (removed,written)) :
    (planChunk core ctx kind rowsJson).Makes outcome writes ↔
      ∃ deletes front upserts back, (planDeleteRows core ctx removed).Makes deletes front ∧
        (planWriteRows core ctx written).Makes upserts back ∧
        outcome = ⟨rowCount rowsJson,ctx.attachSql,deletes ++ upserts⟩ ∧
        writes = front ++ back := by
  cases kind with
  | insert =>
    obtain ⟨rfl,read⟩ := chunkRows_insert.mp rows
    have sent : readRows core.toSerdeJson "insert" rowsJson = .ok written := readRows_ok.mpr read
    simp only [planChunk, sent, Plan.lift_bind_makes, Plan.bind_pure_makes, Except.ok.injEq,
      exists_eq_left', planDeleteRows_nil pk]
    simp [rowsOf_ok.mp read, rowCount, and_comm]
  | delete =>
    obtain ⟨read,rfl⟩ := chunkRows_delete.mp rows
    have sent : readRows core.toSerdeJson "delete" rowsJson = .ok removed := readRows_ok.mpr read
    simp only [planChunk, sent, Plan.lift_bind_makes, Plan.bind_pure_makes, Except.ok.injEq,
      exists_eq_left', planWriteRows_nil]
    simp [rowsOf_ok.mp read, rowCount, and_comm]
  | update =>
    obtain ⟨pairs,split,read,cut,rfl,rfl⟩ := chunkRows_update.mp rows
    have length : pairs.length = split.length := (Effect.mapM_ok.mp cut).length_eq
    have sent : readRows core.toSerdeJson "update" rowsJson = .ok pairs := readRows_ok.mpr read
    simp only [planChunk, sent, cut, Plan.lift_bind_makes, Except.ok.injEq, exists_eq_left',
      Plan.bind_makes (x := planDeleteRows _ _ _), Plan.bind_pure_makes]
    simp only [rowsOf_ok.mp read, rowCount, length]
    constructor
    · rintro ⟨deletes,front,back,gone,⟨upserts,wrote,rfl⟩,rfl⟩
      exact ⟨deletes,front,upserts,back,gone,wrote,rfl,rfl⟩
    · rintro ⟨deletes,front,upserts,back,gone,wrote,rfl,rfl⟩
      exact ⟨deletes,front,back,gone,⟨upserts,wrote,rfl⟩,rfl⟩

/-- What a planned chunk removes, its deletes and their writes, then the same of what it
writes. An insert, unlike an update of no rows, does not ask for the key columns. -/
theorem planChunk_parts {kind : ChunkKind} {rowsJson : JsonText} {outcome : ChunkOutcome}
    {writes : List Write} (made : (planChunk core ctx kind rowsJson).Makes outcome writes) :
    ∃ removed written deletes front upserts back,
      chunkRows kind rowsJson = .ok (removed,written) ∧
      (removed = [] ∧ deletes = [] ∧ front = [] ∨
        (planDeleteRows core ctx removed).Makes deletes front) ∧
      (planWriteRows core ctx written).Makes upserts back ∧
      outcome = ⟨rowCount rowsJson,ctx.attachSql,deletes ++ upserts⟩ ∧ writes = front ++ back := by
  cases kind with
  | insert =>
    obtain ⟨rows,read,made⟩ := Plan.lift_bind_makes.mp made
    obtain ⟨upserts,wrote,rfl⟩ := Plan.bind_pure_makes.mp made
    refine ⟨[],rows,[],[],upserts,writes,chunkRows_insert.mpr ⟨rfl,readRows_ok.mp read⟩,
      .inl ⟨rfl,rfl,rfl⟩,wrote,?_,rfl⟩
    simp [rowsOf_ok.mp (readRows_ok.mp read), rowCount]
  | delete =>
    obtain ⟨rows,read,made⟩ := Plan.lift_bind_makes.mp made
    obtain ⟨deletes,removed,rfl⟩ := Plan.bind_pure_makes.mp made
    refine ⟨rows,[],deletes,writes,[],[],chunkRows_delete.mpr ⟨readRows_ok.mp read,rfl⟩,.inr removed,
      planWriteRows_nil.mpr ⟨rfl,rfl⟩,?_,(List.append_nil _).symm⟩
    simp [rowsOf_ok.mp (readRows_ok.mp read), rowCount]
  | update =>
    obtain ⟨pairs,read,made⟩ := Plan.lift_bind_makes.mp made
    obtain ⟨split,cut,made⟩ := Plan.lift_bind_makes.mp made
    obtain ⟨deletes,front,back,removed,later,rfl⟩ := Plan.bind_makes.mp made
    obtain ⟨upserts,wrote,rfl⟩ := Plan.bind_pure_makes.mp later
    have length : pairs.length = split.length := (Effect.mapM_ok.mp cut).length_eq
    refine ⟨_,_,deletes,front,upserts,back,
      chunkRows_update.mpr ⟨pairs,split,readRows_ok.mp read,cut,rfl,rfl⟩,.inr removed,wrote,?_,rfl⟩
    simp [rowsOf_ok.mp (readRows_ok.mp read), rowCount, length]

theorem chunkRows_count {kind : ChunkKind} {rowsJson : JsonText} {removed written : List Json}
    (rows : chunkRows kind rowsJson = .ok (removed,written)) :
    removed = [] ∧ written = [] ↔ rowCount rowsJson = 0 := by
  cases kind with
  | insert =>
    obtain ⟨rfl,read⟩ := chunkRows_insert.mp rows
    simp [rowsOf_ok.mp read, rowCount]
  | delete =>
    obtain ⟨read,rfl⟩ := chunkRows_delete.mp rows
    simp [rowsOf_ok.mp read, rowCount]
  | update =>
    obtain ⟨pairs,split,read,cut,rfl,rfl⟩ := chunkRows_update.mp rows
    have length : pairs.length = split.length := (Effect.mapM_ok.mp cut).length_eq
    simp [rowsOf_ok.mp read, rowCount, length]

/-- The outcome counts the rows of the text and carries the attach of the context. -/
theorem planChunk_outcome {kind : ChunkKind} {rowsJson : JsonText} {outcome : ChunkOutcome}
    {writes : List Write} (made : (planChunk core ctx kind rowsJson).Makes outcome writes) :
    outcome.count = rowCount rowsJson ∧ outcome.attachSql = ctx.attachSql := by
  obtain ⟨_,_,_,_,_,_,_,_,_,rfl,_⟩ := planChunk_parts made
  exact ⟨rfl,rfl⟩

/-- A chunk writes nothing exactly when it has no rows. -/
theorem planChunk_writes {kind : ChunkKind} {rowsJson : JsonText} {outcome : ChunkOutcome}
    {writes : List Write} (places : ctx.mode.Places)
    (made : (planChunk core ctx kind rowsJson).Makes outcome writes) :
    writes = [] ↔ rowCount rowsJson = 0 := by
  obtain ⟨removed,written,_,front,_,back,rows,gone,wrote,_,rfl⟩ := planChunk_parts made
  rw [← chunkRows_count rows, List.append_eq_nil_iff, planWriteRows_writes places wrote]
  refine and_congr_left fun _ => ?_
  rcases gone with ⟨rfl,_,rfl⟩ | gone
  · simp
  · exact planDeleteRows_writes places gone

end Counts

end TierDb
