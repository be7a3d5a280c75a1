import TierDb.Acquire

/-! When Postgres refuses a chunk before any of its lake statements is run: on the outcomes
its statements will have, and on the plan of its rows. -/
namespace TierDb

/-- So many statements were sent, and none of them was refused. -/
structure Spent (n : Nat) (c d : Conn) : Prop where
  accepted : ∀ verdict ∈ c.client.session.verdicts.take n, verdict = none
  left : d.client.session.verdicts = c.client.session.verdicts.drop n

theorem Spent.none {c d : Conn} (same : d.client.session.verdicts = c.client.session.verdicts) :
    Spent 0 c d := ⟨by simp,by simpa using same⟩

theorem Spent.trans {n m : Nat} {c d e : Conn} (first : Spent n c d) (second : Spent m d e) :
    Spent (n + m) c e := by
  refine ⟨fun verdict member => ?_,by rw [second.left, first.left, List.drop_drop]⟩
  rw [List.take_add, List.mem_append] at member
  rcases member with front | back
  · exact first.accepted verdict front
  · exact second.accepted verdict (first.left ▸ back)

theorem Sql.statement_spent {α : Type} {run : Snapshot → Except String (α × Snapshot)} {c : Conn}
    {s : Sql.Session Snapshot Int} {a : α}
    (returned : Sql.statement run c.client.session = .ok a s) (d : Conn)
    (left : d.client.session.verdicts = s.verdicts) : Spent 1 c d := by
  obtain ⟨value,_,_,clear,rfl⟩ := Sql.statement_ok returned
  refine ⟨(Sql.Session.verdict_none _).mp clear,?_⟩
  rw [left, List.drop_one]
  cases block : c.client.session.block <;>
    simp [Sql.Session.write, Sql.Session.next, block]

section Pays

variable {core : Core} {α β : Type}

/-- A call that returns sent the statements of its plan and no others. -/
def Pays (x : Pg α) (plan : Plan α) : Prop :=
  ∀ c a d, x c = .ok a d → ∃ writes, plan.Makes a writes ∧ Spent writes.length c d

theorem Pays.pure (a : α) : Pays (Pure.pure a : Pg α) (Pure.pure a) := by
  intro c b d ran
  cases ran
  exact ⟨[],by simp,.none rfl⟩

theorem Pays.ofExcept (x : Except String α) : Pays (Effect.ofExcept x : Pg α) (Plan.lift x) := by
  intro c a d ran
  obtain ⟨ok,rfl⟩ := Effect.ofExcept_ok.mp ran
  exact ⟨[],Plan.lift_makes.mpr ⟨ok,rfl⟩,.none rfl⟩

theorem Pays.bind {x : Pg α} {plan : Plan α} {f : α → Pg β} {next : α → Plan β}
    (first : Pays x plan) (later : ∀ a, Pays (f a) (next a)) :
    Pays (x >>= f) (plan >>= next) := by
  intro c b e ran
  obtain ⟨a,d,called,rest⟩ := Effect.bind_ok.mp ran
  obtain ⟨front,made,spent⟩ := first c a d called
  obtain ⟨back,made',spent'⟩ := later a d b e rest
  exact ⟨front ++ back,Plan.bind_makes.mpr ⟨a,front,back,made,made',rfl⟩,
    by rw [List.length_append]; exact spent.trans spent'⟩

theorem Pays.mapError {x : Pg α} {plan : Plan α} (pays : Pays x plan) (f : String → String) :
    Pays (Effect.mapError f x) plan :=
  fun c a d ran => pays c a d (Effect.mapError_ok.mp ran)

theorem execute_pays (core : Core) (w : Write) : Pays (execute core w) (Plan.send w) := by
  intro c a d ran
  simp only [execute, Effect.bind_ok] at ran
  obtain ⟨_,_,got,_,_,sent,done⟩ := ran
  cases got
  obtain ⟨s,returned,rfl⟩ := onSession_ok.mp sent
  cases done
  exact ⟨[w],by simp,Sql.statement_spent returned _ rfl⟩

theorem takeLakeLock_spent {tableId : Int} {c d : Conn}
    (ran : takeLakeLock tableId c = .ok () d) : Spent 1 c d := by
  obtain ⟨s,locked,rfl⟩ := onSession_ok.mp (Effect.mapError_ok.mp ran)
  unfold Sql.lock at locked
  split at locked
  · rename_i t sent
    refine Sql.statement_spent sent _ ?_
    cases locked
    split <;> rfl
  · cases locked

end Pays

section Rows

variable (core : Core) (ctx : ChunkContext)

theorem writeCold_pays (cold : Option ColdSink) (tierKey : Int) (row : Json) :
    Pays (writeCold core ctx cold tierKey row) (planWriteCold core ctx cold tierKey row) := by
  match cold with
  | some .delta =>
    exact (Pays.ofExcept _).bind fun _ => ((execute_pays core _).mapError _).bind fun _ => .pure _
  | some .lake => exact .pure _
  | none => exact .pure _

theorem deleteCold_pays (pkColumns : List Column) (cold : Option ColdSink) (tierKey : Int)
    (pkVals : List String) (row : Json) :
    Pays (deleteCold core ctx pkColumns cold tierKey pkVals row)
      (planDeleteCold core ctx pkColumns cold tierKey pkVals row) := by
  match cold with
  | some .delta => exact ((execute_pays core _).mapError _).bind fun _ => .pure _
  | some .lake => exact .pure _
  | none => exact .pure _

theorem writeRow_pays (image : Json) :
    Pays (writeRow core ctx image) (planWriteRow core ctx image) := by
  refine (Pays.ofExcept _).bind fun tierKey => (Pays.ofExcept _).bind fun _ => ?_
  refine (writeCold_pays core ctx _ _ _).bind fun tuple => Pays.bind ?_ fun _ => .pure _
  unfold writeHeap sendIf
  split
  · exact (execute_pays core _).mapError _
  · exact .pure _

theorem deleteRow_pays (pkColumns : List Column) (row : Json) :
    Pays (deleteRow core ctx pkColumns row) (planDeleteRow core ctx pkColumns row) := by
  refine (Pays.ofExcept _).bind fun tierKey => (Pays.ofExcept _).bind fun pkVals =>
    (Pays.ofExcept _).bind fun _ => ?_
  refine (deleteCold_pays core ctx _ _ _ _ _).bind fun tuple => Pays.bind ?_ fun _ => .pure _
  unfold deleteHeap sendIf deleteFloor
  split
  · exact (execute_pays core _).mapError _
  · exact .pure _

theorem writeLoop_pays (rows : List Json) :
    Pays (writeLoop core ctx rows) (planLoop (planWriteRow core ctx) rows) := by
  induction rows with
  | nil => exact .pure _
  | cons image rest ih =>
    exact (writeRow_pays core ctx image).bind fun _ => ih.bind fun _ => .pure _

theorem deleteLoop_pays (pkColumns : List Column) (rows : List Json) :
    Pays (deleteLoop core ctx pkColumns rows) (planLoop (planDeleteRow core ctx pkColumns) rows) := by
  induction rows with
  | nil => exact .pure _
  | cons row rest ih =>
    exact (deleteRow_pays core ctx pkColumns row).bind fun _ => ih.bind fun _ => .pure _

/-- The statements of a loop over rows, and the lock that it takes if a row goes to the
lake. -/
def loopStatements (plan : Plan (List (List Json))) : Nat :=
  match plan.outcome with
  | .ok (tuples,writes) => writes.length + if tuples.isEmpty then 0 else 1
  | .error _ => 0

def writeStatements (rows : List Json) : Nat := loopStatements (planLoop (planWriteRow core ctx) rows)

def deleteStatements (rows : List Json) : Nat :=
  match pkColumnsOf ctx.target with
  | .ok pkColumns => loopStatements (planLoop (planDeleteRow core ctx pkColumns) rows)
  | .error _ => 0

/-- The statements a chunk sends for its rows. -/
def chunkStatements (kind : ChunkKind) (rowsJson : JsonText) : Nat :=
  match chunkRows kind rowsJson with
  | .ok (removed,written) => deleteStatements core ctx removed + writeStatements core ctx written
  | .error _ => 0

variable {core ctx}

theorem loopStatements_of {plan : Plan (List (List Json))} {tuples : List (List Json)}
    {writes : List Write} (made : plan.Makes tuples writes) :
    loopStatements plan = writes.length + if tuples.isEmpty then 0 else 1 := by
  rw [loopStatements, show plan.outcome = .ok (tuples,writes) from made]

theorem writeRows_spent {rows : List Json} {lakeSql : List LakeStatement} {c d : Conn}
    (ran : writeRows core ctx rows c = .ok lakeSql d) :
    Spent (writeStatements core ctx rows) c d := by
  unfold writeRows at ran
  obtain ⟨tuples,m,looped,rest⟩ := Effect.bind_ok.mp ran
  obtain ⟨writes,made,spent⟩ := writeLoop_pays core ctx rows c tuples m looped
  rw [writeStatements, loopStatements_of made]
  split at rest
  · rename_i none
    cases rest
    simpa [none] using spent
  · rename_i some
    obtain ⟨cold,_,ok,locks⟩ := Effect.bind_ok.mp rest
    obtain ⟨_,rfl⟩ := Effect.ofExcept_ok.mp ok
    obtain ⟨_,e,locked,done⟩ := Effect.bind_ok.mp locks
    obtain ⟨_,rfl⟩ := Effect.ofExcept_ok.mp done
    simpa [some] using spent.trans (takeLakeLock_spent locked)

theorem deleteRows_spent {rows : List Json} {lakeSql : List LakeStatement} {c d : Conn}
    (ran : deleteRows core ctx rows c = .ok lakeSql d) :
    Spent (deleteStatements core ctx rows) c d := by
  unfold deleteRows at ran
  obtain ⟨pkColumns,_,found,loops⟩ := Effect.bind_ok.mp ran
  obtain ⟨known,rfl⟩ := Effect.ofExcept_ok.mp found
  obtain ⟨tuples,m,looped,rest⟩ := Effect.bind_ok.mp loops
  obtain ⟨writes,made,spent⟩ := deleteLoop_pays core ctx pkColumns rows _ tuples m looped
  simp only [deleteStatements, known, loopStatements_of made]
  split at rest
  · rename_i none
    cases rest
    simpa [none] using spent
  · rename_i some
    obtain ⟨cold,_,ok,locks⟩ := Effect.bind_ok.mp rest
    obtain ⟨_,rfl⟩ := Effect.ofExcept_ok.mp ok
    obtain ⟨_,e,locked,renders⟩ := Effect.bind_ok.mp locks
    obtain ⟨_,_,rendered,done⟩ := Effect.bind_ok.mp renders
    obtain ⟨_,rfl⟩ := Effect.ofExcept_ok.mp rendered
    cases done
    simpa [some] using spent.trans (takeLakeLock_spent locked)

theorem chunkBody_spent {kind : ChunkKind} {rowsJson : JsonText} {outcome : ChunkOutcome}
    {c d : Conn} (ran : chunkBody core kind rowsJson ctx c = .ok outcome d) :
    Spent (chunkStatements core ctx kind rowsJson) c d := by
  have none : writeStatements core ctx [] = 0 := rfl
  have none' : deleteStatements core ctx [] = 0 := by
    unfold deleteStatements
    cases pkColumnsOf ctx.target with
    | error e => rfl
    | ok pkColumns => rfl
  cases kind with
  | insert =>
    obtain ⟨rows,_,parsed,writes⟩ := Effect.bind_ok.mp ran
    obtain ⟨read,rfl⟩ := Effect.ofExcept_ok.mp parsed
    obtain ⟨lakeSql,_,wrote,done⟩ := Effect.bind_ok.mp writes
    cases done
    simpa [chunkStatements, chunkRows_insert.mpr ⟨rfl,readRows_ok.mp read⟩, none'] using
      writeRows_spent wrote
  | delete =>
    obtain ⟨rows,_,parsed,deletes⟩ := Effect.bind_ok.mp ran
    obtain ⟨read,rfl⟩ := Effect.ofExcept_ok.mp parsed
    obtain ⟨lakeSql,_,gone,done⟩ := Effect.bind_ok.mp deletes
    cases done
    simpa [chunkStatements, chunkRows_delete.mpr ⟨readRows_ok.mp read,rfl⟩, none] using
      deleteRows_spent gone
  | update =>
    obtain ⟨pairs,_,parsed,splits⟩ := Effect.bind_ok.mp ran
    obtain ⟨read,rfl⟩ := Effect.ofExcept_ok.mp parsed
    obtain ⟨split,_,split',deletes⟩ := Effect.bind_ok.mp splits
    obtain ⟨cut,rfl⟩ := Effect.ofExcept_ok.mp split'
    obtain ⟨removed,_,gone,writes⟩ := Effect.bind_ok.mp deletes
    obtain ⟨lakeSql,_,wrote,done⟩ := Effect.bind_ok.mp writes
    cases done
    simpa [chunkStatements, chunkRows_update.mpr ⟨pairs,split,readRows_ok.mp read,cut,rfl,rfl⟩] using
      (deleteRows_spent gone).trans (writeRows_spent wrote)

end Rows

section Opening

variable {core : Core} {α : Type}

theorem Asks.spent {x : Pg α} {cost : Database → Nat} {read : Database → Option α} {c d : Conn}
    {a : α} (asks : Asks x cost read) (ran : x c = .ok a d) : Spent (cost c.db) c d := by
  by_cases accepted : c.Accepts (cost c.db)
  · cases found : read c.db with
    | none =>
      obtain ⟨e,failed⟩ := asks.missing c accepted found
      cases ran.symm.trans failed
    | some b =>
      cases ran.symm.trans (asks.found c b accepted found)
      exact ⟨accepted.2,rfl⟩
  · obtain ⟨e,n,failed⟩ := asks.refused c accepted
    cases ran.symm.trans failed

theorem retentionLine_asks (tableId : Int) : Asks (retentionLine tableId) (fun _ => 1)
    fun db => some ((db.cutline tableId).bind CutlineRow.retentionLine) :=
  (Asks.query _).mapError _

/-- The queries of `openChunk` when it finds the context: the table, its columns, the
cut-line twice, and a direct table's storage profile. -/
def openQueries (core : Core) (ctx : ChunkContext) : Nat := 4 + ctx.ts.lakeQueries core

theorem openChunk_spent {schema table : String} {ctx : ChunkContext} {c d : Conn}
    (ran : openChunk core schema table c = .ok ctx d) : Spent (openQueries core ctx) c d := by
  obtain ⟨ts,_,described,modes⟩ := Effect.bind_ok.mp ran
  have known := ((tableSchema_reads core schema table).ok _ _ _ described).1
  obtain ⟨mode,_,moded,cuts⟩ := Effect.bind_ok.mp modes
  obtain ⟨_,rfl⟩ := Effect.ofExcept_ok.mp moded
  obtain ⟨cut,_,read,retains⟩ := Effect.bind_ok.mp cuts
  obtain ⟨retention,_,retained,resolves⟩ := Effect.bind_ok.mp retains
  obtain ⟨catalog,_,resolved,targets⟩ := Effect.bind_ok.mp resolves
  obtain ⟨target,_,made,done⟩ := Effect.bind_ok.mp targets
  obtain ⟨_,rfl⟩ := Effect.ofExcept_ok.mp made
  cases done
  have two : Database.schemaQueries core c.db schema table = 2 := by
    obtain ⟨row,found,typed,_⟩ := tableSchema_some core known
    simp [Database.schemaQueries, found, typed, Except.toOption]
  have first := (tableSchema_asks core schema table).spent described
  rw [two] at first
  rw [← scanLake_resolves] at resolved
  have all := ((first.trans ((cutline_asks core ts.tableId).spent read)).trans
    ((retentionLine_asks ts.tableId).spent retained)).trans
      ((scanLake_asks core ts).spent resolved)
  exact all

/-- The statements that a chunk call sends when it returns, the BEGIN of its sink aside. -/
def callStatements (core : Core) (ctx : ChunkContext) (kind : ChunkKind) (rows : JsonText) : Nat :=
  openQueries core ctx + chunkStatements core ctx kind rows

theorem chunkFunction_spent {kind : ChunkKind} {schema table : String} {rows : JsonText}
    {ctx : ChunkContext} {outcome : ChunkOutcome} {c d : Conn}
    (opened : c.db.openChunk core schema table = some ctx)
    (ran : chunkFunction core kind schema table rows c = .ok outcome d) :
    Spent (callStatements core ctx kind rows) c d := by
  rw [chunkFunction_eq] at ran
  obtain ⟨own,m,opens,sent⟩ := Effect.bind_ok.mp ran
  have known := ((openChunk_reads core schema table).ok _ _ _ opens).1
  obtain rfl : own = ctx := Option.some.inj (known.symm.trans opened)
  exact (openChunk_spent opens).trans (chunkBody_spent sent)

end Opening

end TierDb
