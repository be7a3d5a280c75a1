import TierDb.Acquire

/-! The cut-line and the retention line of a chunk call are read by two statements. A
version of the cut-line row that is committed between them leaves the call a pair of
lines that were never stored together. -/
namespace TierDb

/-- `openChunk` with something happening elsewhere between its two reads. -/
def openChunkAcross (core : Core) (schema table : String) (elsewhere : Pg Unit) :
    Pg ChunkContext := do
  let ts ← tableSchema core schema table
  let mode ← Effect.ofExcept (ts.modeOf core)
  let cut ← cutline core ts.tableId
  elsewhere
  let retention ← retentionLine ts.tableId
  let catalog ← resolveCatalog core ts
  let target ← Effect.ofExcept (ts.table core catalog)
  return ⟨ts,mode,cut.map Cutline.tierKeyHi,retention,catalog.map LakeCatalog.attachSql,target⟩

theorem openChunkAcross_pure (core : Core) (schema table : String) :
    openChunkAcross core schema table (pure ()) = openChunk core schema table := rfl

def chunkAcross (core : Core) (kind : ChunkKind) (schema table : String) (rowsJson : JsonText)
    (elsewhere : Pg Unit) : Pg ChunkOutcome :=
  openChunkAcross core schema table elsewhere >>= chunkBody core kind rowsJson

def Database.setCutline (tableId : Int) (version : Option CutlineRow) (db : Database) : Database :=
  { db with cutline := fun id => if id = tableId then version else db.cutline id }

/-- Another session commits a version of the cut-line row. -/
def commitVersion (tableId : Int) (version : Option CutlineRow) : Pg Unit :=
  modify fun conn =>
    conn.setSession (alter (Database.setCutline tableId version) conn.client.session)

/-- No line is the lowest. -/
def LineLe (a b : Option Int) : Prop := ∀ t, a = some t → ∃ t', b = some t' ∧ t ≤ t'

section Rejections

variable {α β : Type}

/-- The row's tier key is below the retention line. -/
def Rejected (ts : TableSchema) (result : EStateM.Result String Conn α) : Prop :=
  ∃ key line c, result = .error (retentionError ts key line) c

/-- The error of a statement that the server refused. -/
def StatementError (e : String) : Prop :=
  ∃ cause, e = "delta write failed: " ++ cause ∨ e = "heap insert failed: " ++ cause ∨
    e = "delta tombstone failed: " ++ cause ∨ e = "heap delete failed: " ++ cause ∨
    e = "lake commit lock failed: " ++ cause

/-- A rejection, or a refused statement. -/
def Stopped (ts : TableSchema) (result : EStateM.Result String Conn α) : Prop :=
  Rejected ts result ∨ ∃ e c, result = .error e c ∧ StatementError e

theorem Rejected.bind {ts : TableSchema} {x : Pg α} {f : α → Pg β} {c : Conn}
    (rejected : Rejected ts (x c)) : Rejected ts ((x >>= f) c) := by
  obtain ⟨key,line,d,failed⟩ := rejected
  exact ⟨key,line,d,Effect.bind_of_error failed⟩

theorem Stopped.bind {ts : TableSchema} {x : Pg α} {f : α → Pg β} {c : Conn}
    (stopped : Stopped ts (x c)) : Stopped ts ((x >>= f) c) := by
  rcases stopped with rejected | ⟨e,d,failed,refused⟩
  · exact .inl rejected.bind
  · exact .inr ⟨e,d,Effect.bind_of_error failed,refused⟩

/-- `x` and `y` do the same, unless `P` holds and `x` rejects a row. -/
def SameUnless (P : Prop) (ts : TableSchema) (x y : Pg α) : Prop :=
  ∀ c, x c = y c ∨ (P ∧ Rejected ts (x c))

theorem SameUnless.refl {P : Prop} (ts : TableSchema) (x : Pg α) : SameUnless P ts x x :=
  fun _ => .inl rfl

theorem SameUnless.imp {P Q : Prop} {ts : TableSchema} {x y : Pg α} (same : SameUnless P ts x y)
    (weaker : P → Q) : SameUnless Q ts x y :=
  fun c => (same c).imp_right fun ⟨holds,rejected⟩ => ⟨weaker holds,rejected⟩

theorem SameUnless.bind {P : Prop} {ts : TableSchema} {x y : Pg α} {f g : α → Pg β}
    (first : SameUnless P ts x y)
    (next : ∀ a c d, x c = .ok a d → SameUnless P ts (f a) (g a)) :
    SameUnless P ts (x >>= f) (y >>= g) := by
  intro c
  rcases first c with same | ⟨holds,rejected⟩
  · cases ran : x c with
    | ok a d =>
      rw [Effect.bind_of_ok ran, Effect.bind_of_ok (same ▸ ran)]
      exact next a c d ran d
    | error e d =>
      rw [Effect.bind_of_error ran, Effect.bind_of_error (same ▸ ran)]
      exact .inl rfl
  · exact .inr ⟨holds,rejected.bind⟩

/-- A computation that returns or is stopped. -/
def Proceeds (ts : TableSchema) (x : Pg α) : Prop := ∀ c, Effect.Returned (x c) ∨ Stopped ts (x c)

theorem Proceeds.pure (ts : TableSchema) (a : α) : Proceeds ts (Pure.pure a : Pg α) :=
  fun _ => .inl trivial

theorem Proceeds.ofOk {ts : TableSchema} {x : Except String α} {a : α} (ok : x = .ok a) :
    Proceeds ts (Effect.ofExcept x : Pg α) := by
  rw [ok]
  exact .pure ts a

theorem Proceeds.bind {ts : TableSchema} {x : Pg α} {f : α → Pg β} (first : Proceeds ts x)
    (next : ∀ a c d, x c = .ok a d → Proceeds ts (f a)) : Proceeds ts (x >>= f) := by
  intro c
  rcases first c with returned | stopped
  · cases ran : x c with
    | ok a d =>
      rw [Effect.bind_of_ok ran]
      exact next a c d ran d
    | error e d => simp [ran, Effect.Returned] at returned
  · exact .inr stopped.bind

/-- What a statement reports under one of the five texts, it reports as refused. -/
theorem Proceeds.statement {ts : TableSchema} {text : String} (x : Pg α)
    (known : ∀ cause, StatementError (text ++ cause)) :
    Proceeds ts (Effect.mapError (text ++ ·) x) := by
  intro c
  cases ran : Effect.mapError (text ++ ·) x c with
  | ok a d => exact .inl trivial
  | error e d =>
    obtain ⟨cause,_,rfl⟩ := Effect.mapError_error.mp ran
    exact .inr (.inr ⟨_,d,rfl,known cause⟩)

/-- Every run of it is stopped. -/
def Stops (ts : TableSchema) (x : Pg α) : Prop := ∀ c, Stopped ts (x c)

theorem Stops.bind {ts : TableSchema} {x : Pg α} (stops : Stops ts x) (f : α → Pg β) :
    Stops ts (x >>= f) := fun c => (stops c).bind

theorem Proceeds.stops {ts : TableSchema} {x : Pg α} {f : α → Pg β} (first : Proceeds ts x)
    (next : ∀ a c d, x c = .ok a d → Stops ts (f a)) : Stops ts (x >>= f) := by
  intro c
  rcases first c with returned | stopped
  · cases ran : x c with
    | ok a d =>
      rw [Effect.bind_of_ok ran]
      exact next a c d ran d
    | error e d => simp [ran, Effect.Returned] at returned
  · exact stopped.bind

end Rejections

section Loops

/-- The row loop of a chunk. -/
def rowLoop (body : Json → Pg (Option (List Json))) : List Json → Pg (List (List Json))
  | [] => return []
  | row :: rest => do
    let tuple ← body row
    let tuples ← rowLoop body rest
    return tuple.toList ++ tuples

theorem writeLoop_eq (core : Core) (ctx : ChunkContext) :
    writeLoop core ctx = rowLoop (writeRow core ctx) := by
  funext rows
  induction rows with
  | nil => rfl
  | cons image rest ih => rw [writeLoop, rowLoop, ih]

theorem deleteLoop_eq (core : Core) (ctx : ChunkContext) (pkColumns : List Column) :
    deleteLoop core ctx pkColumns = rowLoop (deleteRow core ctx pkColumns) := by
  funext rows
  induction rows with
  | nil => rfl
  | cons row rest ih => rw [deleteLoop, rowLoop, ih]

/-- A row is refused behind rows that are fine. -/
def RefusedAt (fine refused : Json → Prop) (rows : List Json) : Prop :=
  ∃ front row back, rows = front ++ row :: back ∧ (∀ r ∈ front, fine r) ∧ refused row

variable {ts : TableSchema} {body body' : Json → Pg (Option (List Json))}
  {fine refused : Json → Prop}

theorem rowLoop_same (same : ∀ row, SameUnless (refused row) ts (body row) (body' row))
    (passed : ∀ row c a d, body row c = .ok a d → fine row) (rows : List Json) :
    SameUnless (RefusedAt fine refused rows) ts (rowLoop body rows) (rowLoop body' rows) := by
  induction rows with
  | nil => exact .refl ts _
  | cons row rest ih =>
    refine ((same row).imp fun here => ⟨[],row,rest,rfl,nofun,here⟩).bind fun tuple c d ran => ?_
    refine (ih.imp ?_).bind fun _ _ _ _ => .refl ts _
    rintro ⟨front,late,back,rfl,clear,there⟩
    exact ⟨row :: front,late,back,rfl,
      List.forall_mem_cons.mpr ⟨passed row c tuple d ran,clear⟩,there⟩

theorem rowLoop_passed (passed : ∀ row c a d, body row c = .ok a d → fine row) {rows : List Json}
    {c d : Conn} {tuples : List (List Json)} (ran : rowLoop body rows c = .ok tuples d) :
    ∀ row ∈ rows, fine row := by
  induction rows generalizing c d tuples with
  | nil => exact nofun
  | cons row rest ih =>
    obtain ⟨tuple,m,first,later⟩ := Effect.bind_ok.mp ran
    obtain ⟨_,_,others,_⟩ := Effect.bind_ok.mp later
    exact List.forall_mem_cons.mpr ⟨passed row c tuple m first,ih others⟩

theorem rowLoop_proceeds (proceeds : ∀ row, fine row → Proceeds ts (body row)) {rows : List Json}
    (all : ∀ row ∈ rows, fine row) : Proceeds ts (rowLoop body rows) := by
  induction rows with
  | nil => exact .pure ts _
  | cons row rest ih =>
    obtain ⟨here,others⟩ := List.forall_mem_cons.mp all
    exact (proceeds row here).bind fun _ _ _ _ => (ih others).bind fun _ _ _ _ => .pure ts _

/-- Behind fine rows a refused row is reached, and stops the loop. -/
theorem rowLoop_stops (proceeds : ∀ row, fine row → Proceeds ts (body row))
    (stops : ∀ row, refused row → Stops ts (body row)) {rows : List Json}
    (found : RefusedAt fine refused rows) : Stops ts (rowLoop body rows) := by
  obtain ⟨front,row,back,rfl,clear,there⟩ := found
  induction front with
  | nil => exact (stops row there).bind _
  | cons first rest ih =>
    obtain ⟨here,others⟩ := List.forall_mem_cons.mp clear
    exact (proceeds first here).stops fun _ _ _ _ => (ih others).bind _

theorem RefusedAt.imp {fine' refused' : Json → Prop} {rows : List Json}
    (passes : ∀ row ∈ rows, fine row → fine' row)
    (refuses : ∀ row ∈ rows, refused row → refused' row) (found : RefusedAt fine refused rows) :
    RefusedAt fine' refused' rows := by
  obtain ⟨front,row,back,rfl,clear,there⟩ := found
  exact ⟨front,row,back,rfl,fun r member => passes r (by simp [member]) (clear r member),
    refuses row (by simp) there⟩

end Loops

section Rows

variable (core : Core) (ctx : ChunkContext)

/-- Hot rows are not checked against the retention line. -/
structure Mode.HotUnchecked (mode : Mode) : Prop where
  insert : ((mode.planInsert .hot).cold.isSome && (mode.planInsert .hot).checkRetention) = false
  delete : ((mode.planDelete .hot).cold.isSome && (mode.planDelete .hot).checkRetention) = false

/-- The context after a later version of the retention line was read. -/
def ChunkContext.retained (line : Option Int) : ChunkContext := { ctx with retention := line }

/-- The context after a later version of both lines was read. -/
def ChunkContext.lines (cut line : Option Int) : ChunkContext :=
  { ctx with cutline := cut, retention := line }

def WriteTyped (image : Json) : Prop :=
  ∃ key, core.tierKey ctx.ts.tierKeyCol ctx.ts.tierKeyType
    (normalizeJsonColumns core.toSerdeJson image ctx.ts.columns) = .ok key

/-- The primary-key fields of the image are present and scalar. -/
def WriteKeyed (image : Json) : Prop :=
  ∃ pkVals, core.fieldTexts (normalizeJsonColumns core.toSerdeJson image ctx.ts.columns)
    ctx.ts.primaryKeyCols = .ok pkVals

def WriteRefused (image : Json) : Prop :=
  ∃ key, core.tierKey ctx.ts.tierKeyCol ctx.ts.tierKeyType
    (normalizeJsonColumns core.toSerdeJson image ctx.ts.columns) = .ok key ∧
    let plan := ctx.mode.planInsert (routeRow core ctx.cutline key)
    checkRetention core ctx plan.cold plan.checkRetention key ≠ .ok ()

def DeleteFine (row : Json) : Prop :=
  ∃ key pkVals, core.tierKey ctx.ts.tierKeyCol ctx.ts.tierKeyType row = .ok key ∧
    core.fieldTexts row ctx.ts.primaryKeyCols = .ok pkVals

def DeleteRefused (row : Json) : Prop :=
  ∃ key pkVals, core.tierKey ctx.ts.tierKeyCol ctx.ts.tierKeyType row = .ok key ∧
    core.fieldTexts row ctx.ts.primaryKeyCols = .ok pkVals ∧
    let plan := ctx.mode.planDelete (routeRow core ctx.cutline key)
    checkRetention core ctx plan.cold plan.checkRetention key ≠ .ok ()

variable {core : Core} {ctx : ChunkContext} {cut line : Option Int}

theorem checkRetention_refuses {cold : Option ColdSink} {check : Bool} {key : Int} :
    checkRetention core ctx cold check key ≠ .ok () ↔
      (cold.isSome && check) = true ∧ ∃ t, ctx.retention = some t ∧ key < t := by
  have rejects : core.retentionRejects key ctx.retention = true ↔
      ∃ t, ctx.retention = some t ∧ key < t := by
    rw [core.retention_rejects, Option.any_eq_true]
    simp
  unfold checkRetention
  rw [← rejects]
  split
  · rename_i refused
    simpa using refused
  · rename_i passed
    simpa using passed

/-- A later retention line refuses what an earlier one does. -/
theorem checkRetention_later (other : ChunkContext) (later : LineLe ctx.retention other.retention)
    {cold : Option ColdSink} {check : Bool} {key : Int}
    (refused : checkRetention core ctx cold check key ≠ .ok ()) :
    checkRetention core other cold check key ≠ .ok () := by
  obtain ⟨checked,t,read,below⟩ := checkRetention_refuses.mp refused
  obtain ⟨t',read',above⟩ := later t read
  exact checkRetention_refuses.mpr ⟨checked,t',read',lt_of_lt_of_le below above⟩

theorem checkRetention_rejected {cold : Option ColdSink} {check : Bool} {key : Int}
    (refused : checkRetention core ctx cold check key ≠ .ok ()) (c : Conn) :
    Rejected ctx.ts ((Effect.ofExcept (checkRetention core ctx cold check key) : Pg Unit) c) := by
  refine ⟨key,ctx.retention,c,?_⟩
  unfold checkRetention at refused ⊢
  split at refused
  · rename_i rejects
    rw [if_pos rejects]
    rfl
  · exact absurd rfl refused

theorem checkRetention_same (later : LineLe ctx.retention line) (cold : Option ColdSink)
    (check : Bool) (key : Int) :
    SameUnless (checkRetention core (ctx.retained line) cold check key ≠ .ok ()) ctx.ts
      (Effect.ofExcept (checkRetention core (ctx.retained line) cold check key))
      (Effect.ofExcept (checkRetention core ctx cold check key)) := by
  intro c
  by_cases refused : checkRetention core (ctx.retained line) cold check key = .ok ()
  · left
    have passed : checkRetention core ctx cold check key = .ok () := by
      by_contra now
      exact checkRetention_later (ctx.retained line) later now refused
    rw [refused, passed]
  · exact .inr ⟨refused,checkRetention_rejected refused c⟩

theorem writeRow_same (later : LineLe ctx.retention line) (image : Json) :
    SameUnless (WriteRefused core (ctx.retained line) image) ctx.ts
      (writeRow core (ctx.retained line) image) (writeRow core ctx image) := by
  refine (SameUnless.refl ctx.ts _).bind fun key c d typed => ?_
  obtain ⟨known,_⟩ := Effect.ofExcept_ok.mp typed
  exact ((checkRetention_same later _ _ _).imp fun refused => ⟨key,known,refused⟩).bind
    fun _ _ _ _ => .refl ctx.ts _

theorem writeRow_passed {image : Json} {c d : Conn} {tuple : Option (List Json)}
    (ran : writeRow core ctx image c = .ok tuple d) : WriteTyped core ctx image := by
  obtain ⟨key,_,typed,_⟩ := Effect.bind_ok.mp ran
  exact ⟨key,(Effect.ofExcept_ok.mp typed).1⟩

theorem deleteRow_same (later : LineLe ctx.retention line) (pkColumns : List Column) (row : Json) :
    SameUnless (DeleteRefused core (ctx.retained line) row) ctx.ts
      (deleteRow core (ctx.retained line) pkColumns row) (deleteRow core ctx pkColumns row) := by
  refine (SameUnless.refl ctx.ts _).bind fun key c d typed => ?_
  refine (SameUnless.refl ctx.ts _).bind fun pkVals c' d' texts => ?_
  obtain ⟨known,_⟩ := Effect.ofExcept_ok.mp typed
  obtain ⟨given,_⟩ := Effect.ofExcept_ok.mp texts
  exact ((checkRetention_same later _ _ _).imp fun refused => ⟨key,pkVals,known,given,refused⟩).bind
    fun _ _ _ _ => .refl ctx.ts _

theorem deleteRow_passed {pkColumns : List Column} {row : Json} {c d : Conn}
    {tuple : Option (List Json)} (ran : deleteRow core ctx pkColumns row c = .ok tuple d) :
    DeleteFine core ctx row := by
  obtain ⟨key,_,typed,later⟩ := Effect.bind_ok.mp ran
  obtain ⟨pkVals,_,texts,_⟩ := Effect.bind_ok.mp later
  exact ⟨key,pkVals,(Effect.ofExcept_ok.mp typed).1,(Effect.ofExcept_ok.mp texts).1⟩

theorem checkRetention_proceeds (cold : Option ColdSink) (check : Bool) (key : Int) :
    Proceeds ctx.ts (Effect.ofExcept (checkRetention core ctx cold check key)) := by
  intro c
  by_cases passed : checkRetention core ctx cold check key = .ok ()
  · rw [passed]
    exact .inl trivial
  · exact .inr (.inl (checkRetention_rejected passed c))

theorem writeRow_proceeds {image : Json}
    (fine : WriteTyped core ctx image ∧ WriteKeyed core ctx image) :
    Proceeds ctx.ts (writeRow core ctx image) := by
  obtain ⟨⟨key,typed⟩,pkVals,keyed⟩ := fine
  refine (Proceeds.ofOk typed).bind fun key _ _ _ => ?_
  refine (checkRetention_proceeds _ _ _).bind fun _ _ _ _ => .bind ?_ fun _ _ _ _ => .bind ?_
    fun _ _ _ _ => .pure ctx.ts _
  · unfold writeCold
    split
    · refine (Proceeds.ofOk keyed).bind fun _ _ _ _ => ?_
      exact (Proceeds.statement _ fun cause => ⟨cause,.inl rfl⟩).bind fun _ _ _ _ => .pure ctx.ts _
    · exact .pure ctx.ts _
    · exact .pure ctx.ts _
  · unfold writeHeap
    split
    · exact .statement _ fun cause => ⟨cause,.inr (.inl rfl)⟩
    · exact .pure ctx.ts _

theorem deleteRow_proceeds {pkColumns : List Column} {row : Json}
    (fine : DeleteFine core ctx row) : Proceeds ctx.ts (deleteRow core ctx pkColumns row) := by
  obtain ⟨key,pkVals,typed,keyed⟩ := fine
  refine (Proceeds.ofOk typed).bind fun key _ _ _ => (Proceeds.ofOk keyed).bind fun _ _ _ _ => ?_
  refine (checkRetention_proceeds _ _ _).bind fun _ _ _ _ => .bind ?_ fun _ _ _ _ => .bind ?_
    fun _ _ _ _ => .pure ctx.ts _
  · unfold deleteCold
    split
    · exact (Proceeds.statement _ fun cause => ⟨cause,.inr (.inr (.inl rfl))⟩).bind
        fun _ _ _ _ => .pure ctx.ts _
    · exact .pure ctx.ts _
    · exact .pure ctx.ts _
  · unfold deleteHeap
    split
    · exact .statement _ fun cause => ⟨cause,.inr (.inr (.inr (.inl rfl)))⟩
    · exact .pure ctx.ts _

theorem writeRow_stops {image : Json} (refused : WriteRefused core ctx image) :
    Stops ctx.ts (writeRow core ctx image) := by
  obtain ⟨key,typed,rejects⟩ := refused
  refine (Proceeds.ofOk typed).stops fun found c d ran => ?_
  obtain ⟨same,_⟩ := Effect.ofExcept_ok.mp ran
  cases typed.symm.trans same
  exact Stops.bind (fun c => .inl (checkRetention_rejected rejects c)) _

theorem deleteRow_stops {pkColumns : List Column} {row : Json}
    (refused : DeleteRefused core ctx row) : Stops ctx.ts (deleteRow core ctx pkColumns row) := by
  obtain ⟨key,pkVals,typed,keyed,rejects⟩ := refused
  refine (Proceeds.ofOk typed).stops fun found c d ran => (Proceeds.ofOk keyed).stops
    fun _ _ _ _ => ?_
  obtain ⟨same,_⟩ := Effect.ofExcept_ok.mp ran
  cases typed.symm.trans same
  exact Stops.bind (fun c => .inl (checkRetention_rejected rejects c)) _

theorem routeRow_later (later : LineLe ctx.cutline cut) {key : Int}
    (cold : routeRow core ctx.cutline key = .cold) : routeRow core cut key = .cold := by
  cases read : ctx.cutline with
  | none => simp [routeRow, read] at cold
  | some t =>
    obtain ⟨t',rfl,above⟩ := later t read
    simp only [routeRow, read, core.route_cold] at cold ⊢
    omega

/-- Of a plan that checks no hot row, a refusal is of a cold row, and a later pair of lines
refuses it too. -/
theorem rejects_later (cold : RouteTarget → Option ColdSink) (check : RouteTarget → Bool)
    (unchecked : ((cold .hot).isSome && check .hot) = false) (cuts : LineLe ctx.cutline cut)
    {key : Int}
    (rejects : checkRetention core (ctx.retained line) (cold (routeRow core ctx.cutline key))
      (check (routeRow core ctx.cutline key)) key ≠ .ok ()) :
    checkRetention core (ctx.lines cut line) (cold (routeRow core (ctx.lines cut line).cutline key))
      (check (routeRow core (ctx.lines cut line).cutline key)) key ≠ .ok () := by
  cases side : routeRow core ctx.cutline key with
  | hot =>
    have checked := (checkRetention_refuses.mp rejects).1
    rw [side, unchecked] at checked
    cases checked
  | cold =>
    have still : routeRow core (ctx.lines cut line).cutline key = .cold := routeRow_later cuts side
    rw [still]
    rw [side] at rejects
    exact rejects

theorem WriteRefused.later (unchecked : ctx.mode.HotUnchecked) (cuts : LineLe ctx.cutline cut)
    {image : Json} (refused : WriteRefused core (ctx.retained line) image) :
    WriteRefused core (ctx.lines cut line) image := by
  obtain ⟨key,typed,rejects⟩ := refused
  exact ⟨key,typed,rejects_later (fun side => (ctx.mode.planInsert side).cold)
    (fun side => (ctx.mode.planInsert side).checkRetention) unchecked.insert cuts rejects⟩

theorem DeleteRefused.later (unchecked : ctx.mode.HotUnchecked) (cuts : LineLe ctx.cutline cut)
    {row : Json} (refused : DeleteRefused core (ctx.retained line) row) :
    DeleteRefused core (ctx.lines cut line) row := by
  obtain ⟨key,pkVals,typed,keyed,rejects⟩ := refused
  exact ⟨key,pkVals,typed,keyed,rejects_later (fun side => (ctx.mode.planDelete side).cold)
    (fun side => (ctx.mode.planDelete side).checkRetention) unchecked.delete cuts rejects⟩

theorem writeRows_same (later : LineLe ctx.retention line) (rows : List Json) :
    SameUnless (RefusedAt (WriteTyped core ctx) (WriteRefused core (ctx.retained line)) rows) ctx.ts
      (writeRows core (ctx.retained line) rows) (writeRows core ctx rows) := by
  unfold writeRows
  rw [writeLoop_eq, writeLoop_eq]
  exact (rowLoop_same (writeRow_same later) (fun _ _ _ _ ran => writeRow_passed ran) rows).bind
    fun _ _ _ _ => .refl ctx.ts _

theorem deleteRows_same (later : LineLe ctx.retention line) (rows : List Json) :
    SameUnless ((∃ pkColumns, pkColumnsOf ctx.target = .ok pkColumns) ∧
        RefusedAt (DeleteFine core ctx) (DeleteRefused core (ctx.retained line)) rows) ctx.ts
      (deleteRows core (ctx.retained line) rows) (deleteRows core ctx rows) := by
  refine (SameUnless.refl ctx.ts _).bind fun pkColumns c d known => ?_
  obtain ⟨known,_⟩ := Effect.ofExcept_ok.mp known
  rw [deleteLoop_eq, deleteLoop_eq]
  exact ((rowLoop_same (deleteRow_same later pkColumns) (fun _ _ _ _ ran => deleteRow_passed ran)
    rows).imp fun refused => ⟨⟨pkColumns,known⟩,refused⟩).bind fun _ _ _ _ => .refl ctx.ts _

theorem deleteRows_passed {rows : List Json} {c d : Conn} {lakeSql : List LakeStatement}
    (ran : deleteRows core ctx rows c = .ok lakeSql d) :
    (∃ pkColumns, pkColumnsOf ctx.target = .ok pkColumns) ∧ ∀ row ∈ rows, DeleteFine core ctx row := by
  obtain ⟨pkColumns,_,known,ran⟩ := Effect.bind_ok.mp ran
  obtain ⟨tuples,_,looped,_⟩ := Effect.bind_ok.mp ran
  rw [deleteLoop_eq] at looped
  exact ⟨⟨pkColumns,(Effect.ofExcept_ok.mp known).1⟩,
    rowLoop_passed (fun _ _ _ _ ran => deleteRow_passed ran) looped⟩

theorem writeRows_stops {rows : List Json} (keyed : ∀ image ∈ rows, WriteKeyed core ctx image)
    (found : RefusedAt (WriteTyped core ctx) (WriteRefused core ctx) rows) :
    Stops ctx.ts (writeRows core ctx rows) := by
  unfold writeRows
  rw [writeLoop_eq]
  exact (rowLoop_stops (fun _ fine => writeRow_proceeds fine)
    (fun _ refused => writeRow_stops refused)
    (found.imp (fun image member typed => And.intro typed (keyed image member))
      fun _ _ refused => refused)).bind _

theorem deleteRows_stops {rows : List Json} {pkColumns : List Column}
    (known : pkColumnsOf ctx.target = .ok pkColumns)
    (found : RefusedAt (DeleteFine core ctx) (DeleteRefused core ctx) rows) :
    Stops ctx.ts (deleteRows core ctx rows) := by
  refine (Proceeds.ofOk known).stops fun _ _ _ _ => ?_
  rw [deleteLoop_eq]
  exact (rowLoop_stops (fun _ fine => deleteRow_proceeds fine)
    (fun _ refused => deleteRow_stops refused) found).bind _

/-- A row that goes to the lake can be deleted there. -/
structure LakeReady (core : Core) (ctx : ChunkContext) : Prop where
  live : ∀ side, (ctx.mode.planDelete side).cold = some .lake → ∃ cold, liveCold ctx.target = .ok cold
  renders : ∀ cold keys below, ∃ statement, core.lakeDelete ctx.target cold keys below = .ok statement

theorem deleteCold_tuple {pkColumns : List Column} {cold : Option ColdSink} {key : Int}
    {pkVals : List String} {row : Json} {c d : Conn} {tuple : List Json}
    (ran : deleteCold core ctx pkColumns cold key pkVals row c = .ok (some tuple) d) :
    cold = some .lake := by
  match cold with
  | some .delta =>
    obtain ⟨_,_,_,done⟩ := Effect.bind_ok.mp ran
    cases done
  | some .lake => rfl
  | none => cases ran

theorem deleteRow_tuple {pkColumns : List Column} {row : Json} {c d : Conn} {tuple : List Json}
    (ran : deleteRow core ctx pkColumns row c = .ok (some tuple) d) :
    ∃ side, (ctx.mode.planDelete side).cold = some .lake := by
  obtain ⟨key,_,_,ran⟩ := Effect.bind_ok.mp ran
  obtain ⟨pkVals,_,_,ran⟩ := Effect.bind_ok.mp ran
  obtain ⟨_,_,_,ran⟩ := Effect.bind_ok.mp ran
  obtain ⟨tuple',_,sunk,ran⟩ := Effect.bind_ok.mp ran
  obtain ⟨_,_,_,done⟩ := Effect.bind_ok.mp ran
  cases done
  exact ⟨routeRow core ctx.cutline key,deleteCold_tuple sunk⟩

theorem rowLoop_tuples {body : Json → Pg (Option (List Json))} {P : Prop}
    (tupled : ∀ row c d tuple, body row c = .ok (some tuple) d → P) {rows : List Json} {c d : Conn}
    {tuples : List (List Json)} (ran : rowLoop body rows c = .ok tuples d) (some : tuples ≠ []) :
    P := by
  induction rows generalizing c d tuples with
  | nil =>
    cases ran
    exact absurd rfl some
  | cons row rest ih =>
    obtain ⟨tuple,_,first,ran⟩ := Effect.bind_ok.mp ran
    obtain ⟨others,_,later,done⟩ := Effect.bind_ok.mp ran
    cases done
    cases tuple with
    | some values => exact tupled row _ _ values first
    | none => exact ih later (by simpa using some)

theorem deleteRows_proceeds (ready : LakeReady core ctx) {rows : List Json}
    {pkColumns : List Column} (known : pkColumnsOf ctx.target = .ok pkColumns)
    (fine : ∀ row ∈ rows, DeleteFine core ctx row) :
    Proceeds ctx.ts (deleteRows core ctx rows) := by
  refine (Proceeds.ofOk known).bind fun pkColumns' _ _ _ => ?_
  rw [deleteLoop_eq]
  refine (rowLoop_proceeds (fun _ fine => deleteRow_proceeds fine) fine).bind
    fun tuples c d ran => ?_
  split
  · exact .pure ctx.ts _
  · rename_i some
    obtain ⟨side,lake⟩ := rowLoop_tuples
      (P := ∃ side, (ctx.mode.planDelete side).cold = .some .lake)
      (fun _ _ _ _ ran => deleteRow_tuple ran) ran (by simpa using some)
    obtain ⟨cold,live⟩ := ready.live side lake
    refine (Proceeds.ofOk live).bind fun cold' _ _ _ => ?_
    refine (Proceeds.statement _ fun cause => ⟨cause,.inr (.inr (.inr (.inr rfl)))⟩).bind
      fun _ _ _ _ => ?_
    obtain ⟨statement,rendered⟩ := ready.renders cold' tuples ctx.cutline
    exact (Proceeds.ofOk rendered).bind fun _ _ _ _ => .pure ctx.ts _

/-- What a chunk rejects first: a removed row, or behind its removals a written one. -/
def ChunkRefused (core : Core) (ctx : ChunkContext) (kind : ChunkKind) (rowsJson : JsonText) :
    Prop :=
  ∃ removed written, chunkRows kind rowsJson = .ok (removed,written) ∧
    (kind ≠ .insert → ∃ pkColumns, pkColumnsOf ctx.target = .ok pkColumns) ∧
    (RefusedAt (DeleteFine core ctx) (DeleteRefused core ctx) removed ∨
      (∀ row ∈ removed, DeleteFine core ctx row) ∧
        RefusedAt (WriteTyped core ctx) (WriteRefused core ctx) written)

theorem chunkBody_same (later : LineLe ctx.retention line) (kind : ChunkKind)
    (rowsJson : JsonText) :
    SameUnless (ChunkRefused core (ctx.retained line) kind rowsJson) ctx.ts
      (chunkBody core kind rowsJson (ctx.retained line)) (chunkBody core kind rowsJson ctx) := by
  cases kind with
  | insert =>
    refine (SameUnless.refl ctx.ts _).bind fun rows c d read => ?_
    obtain ⟨read,_⟩ := Effect.ofExcept_ok.mp read
    refine ((writeRows_same later rows).imp fun refused => ?_).bind fun _ _ _ _ => .refl ctx.ts _
    exact ⟨[],rows,chunkRows_insert.mpr ⟨rfl,readRows_ok.mp read⟩,fun apart => absurd rfl apart,
      .inr ⟨by simp,refused⟩⟩
  | delete =>
    refine (SameUnless.refl ctx.ts _).bind fun rows c d read => ?_
    obtain ⟨read,_⟩ := Effect.ofExcept_ok.mp read
    refine ((deleteRows_same later rows).imp ?_).bind fun _ _ _ _ => .refl ctx.ts _
    rintro ⟨known,refused⟩
    exact ⟨rows,[],chunkRows_delete.mpr ⟨readRows_ok.mp read,rfl⟩,fun _ => known,.inl refused⟩
  | update =>
    refine (SameUnless.refl ctx.ts _).bind fun pairs c d read => ?_
    refine (SameUnless.refl ctx.ts _).bind fun split c' d' cut => ?_
    obtain ⟨read,_⟩ := Effect.ofExcept_ok.mp read
    obtain ⟨cut,_⟩ := Effect.ofExcept_ok.mp cut
    have rows : chunkRows .update rowsJson = .ok (split.map Prod.fst,split.map Prod.snd) :=
      chunkRows_update.mpr ⟨pairs,split,readRows_ok.mp read,cut,rfl,rfl⟩
    refine ((deleteRows_same later _).imp ?_).bind fun deletes e f removed => ?_
    · rintro ⟨known,refused⟩
      exact ⟨_,_,rows,fun _ => known,.inl refused⟩
    obtain ⟨known,fine⟩ := deleteRows_passed removed
    refine ((writeRows_same later _).imp fun refused => ?_).bind fun _ _ _ _ => .refl ctx.ts _
    exact ⟨_,_,rows,fun _ => known,.inr ⟨fine,refused⟩⟩

theorem ChunkRefused.later (unchecked : ctx.mode.HotUnchecked) (cuts : LineLe ctx.cutline cut)
    {kind : ChunkKind} {rowsJson : JsonText}
    (refused : ChunkRefused core (ctx.retained line) kind rowsJson) :
    ChunkRefused core (ctx.lines cut line) kind rowsJson := by
  obtain ⟨removed,written,rows,known,found⟩ := refused
  refine ⟨removed,written,rows,known,found.imp (fun found => ?_) fun ⟨fine,found⟩ => ⟨fine,?_⟩⟩
  · exact found.imp (fun _ _ fine => fine) fun _ _ refused => refused.later unchecked cuts
  · exact found.imp (fun _ _ typed => typed) fun _ _ refused => refused.later unchecked cuts

/-- A chunk with a refused row is stopped, whatever the connection. -/
theorem chunkBody_stops (ready : LakeReady core ctx) {kind : ChunkKind} {rowsJson : JsonText}
    (keyed : ∀ removed written, chunkRows kind rowsJson = .ok (removed,written) →
      ∀ image ∈ written, WriteKeyed core ctx image)
    (refused : ChunkRefused core ctx kind rowsJson) :
    Stops ctx.ts (chunkBody core kind rowsJson ctx) := by
  obtain ⟨removed,written,rows,known,found⟩ := refused
  have each := keyed removed written rows
  cases kind with
  | insert =>
    obtain ⟨rfl,read⟩ := chunkRows_insert.mp rows
    have sent : readRows core.toSerdeJson "insert" rowsJson = .ok written := readRows_ok.mpr read
    refine (Proceeds.ofOk sent).stops fun images' c d ran => ?_
    cases sent.symm.trans (Effect.ofExcept_ok.mp ran).1
    rcases found with ⟨_,_,_,none,_⟩ | ⟨_,found⟩
    · simp at none
    · exact (writeRows_stops each found).bind _
  | delete =>
    obtain ⟨pkColumns,known⟩ := known (by decide)
    obtain ⟨read,rfl⟩ := chunkRows_delete.mp rows
    have sent : readRows core.toSerdeJson "delete" rowsJson = .ok removed := readRows_ok.mpr read
    refine (Proceeds.ofOk sent).stops fun olds' c d ran => ?_
    cases sent.symm.trans (Effect.ofExcept_ok.mp ran).1
    rcases found with found | ⟨_,_,_,_,none,_⟩
    · exact (deleteRows_stops known found).bind _
    · simp at none
  | update =>
    obtain ⟨pkColumns,known⟩ := known (by decide)
    obtain ⟨pairs,split,read,cut,rfl,rfl⟩ := chunkRows_update.mp rows
    have sent : readRows core.toSerdeJson "update" rowsJson = .ok pairs := readRows_ok.mpr read
    refine (Proceeds.ofOk sent).stops fun pairs' _ _ ran => ?_
    cases sent.symm.trans (Effect.ofExcept_ok.mp ran).1
    refine (Proceeds.ofOk cut).stops fun split' _ _ ran => ?_
    cases cut.symm.trans (Effect.ofExcept_ok.mp ran).1
    rcases found with found | ⟨fine,found⟩
    · exact (deleteRows_stops known found).bind _
    · exact (deleteRows_proceeds ready known fine).stops fun _ _ _ _ =>
        (writeRows_stops each found).bind _

end Rows

section Reads

variable {core : Core}

theorem alter_view (change : Database → Database) (s : Sql.Session Snapshot Int) :
    (alter change s).view.database = change s.view.database := by
  cases block : s.block <;> simp [alter, Sql.Session.view, block]

theorem commitVersion_db (tableId : Int) (version : Option CutlineRow) (c : Conn) :
    ∃ d, commitVersion tableId version c = .ok () d ∧ d.db = c.db.setCutline tableId version :=
  ⟨_,rfl,alter_view _ _⟩

/-- A version of the cut-line row changes the two lines of a context only. -/
theorem openChunk_version {db : Database} {schema table : String} {version : Option CutlineRow}
    {old new : ChunkContext} (older : db.openChunk core schema table = some old)
    (newer : (db.setCutline old.ts.tableId version).openChunk core schema table = some new) :
    new = old.lines new.cutline new.retention ∧
      new.retention = version.bind CutlineRow.retentionLine := by
  simp only [Database.openChunk, Option.bind_eq_bind, Option.bind_eq_some_iff] at older newer
  obtain ⟨ts,read,mode,moded,cut,cutRead,catalog,resolved,target,made,same⟩ := older
  obtain ⟨ts',read',mode',moded',cut',cutRead',catalog',resolved',target',made',same'⟩ := newer
  cases same
  cases same'
  cases read.symm.trans read'
  cases moded.symm.trans moded'
  cases resolved.symm.trans resolved'
  cases made.symm.trans made'
  simp [ChunkContext.lines, Database.setCutline]

/-- The torn read: the cut-line is the old one, the retention line the new one. -/
theorem openChunkAcross_ok {schema table : String} {version : Option CutlineRow} {c d : Conn}
    {ctx old : ChunkContext} (older : c.db.openChunk core schema table = some old)
    (opened : openChunkAcross core schema table (commitVersion old.ts.tableId version) c =
      .ok ctx d) : ctx = old.retained (version.bind CutlineRow.retentionLine) := by
  simp only [Database.openChunk, Option.bind_eq_bind, Option.bind_eq_some_iff] at older
  obtain ⟨ts,read,mode,moded,cut,cutRead,catalog,resolved,target,made,same⟩ := older
  cases same
  obtain ⟨ts',c₁,ran,opened⟩ := Effect.bind_ok.mp opened
  obtain ⟨read',took⟩ := (tableSchema_reads core schema table).ok _ _ _ ran
  cases read.symm.trans read'
  obtain ⟨mode',c₂,ran,opened⟩ := Effect.bind_ok.mp opened
  obtain ⟨moded',rfl⟩ := Effect.ofExcept_ok.mp ran
  cases moded.symm.trans (toOption_some.mpr moded')
  obtain ⟨cut',c₃,ran,opened⟩ := Effect.bind_ok.mp opened
  obtain ⟨cutRead',took'⟩ := (cutline_reads core ts.tableId).ok _ _ _ ran
  rw [took.same_db] at cutRead'
  cases cutRead.symm.trans cutRead'
  obtain ⟨c₄,committed,db⟩ := commitVersion_db ts.tableId version c₃
  rw [Effect.bind_of_ok committed] at opened
  have db : c₄.db = c.db.setCutline ts.tableId version := by
    rw [db, took'.same_db, took.same_db]
  obtain ⟨retention,c₅,ran,opened⟩ := Effect.bind_ok.mp opened
  have reads : TierDb.Reads core (retentionLine ts.tableId) _ := (query_reads _).mapError _
  obtain ⟨line,took''⟩ := reads.ok _ _ _ ran
  obtain ⟨catalog',c₆,ran,opened⟩ := Effect.bind_ok.mp opened
  obtain ⟨resolved',_⟩ := (resolveCatalog_reads core ts).ok _ _ _ ran
  rw [took''.same_db, db] at resolved'
  cases resolved.symm.trans resolved'
  obtain ⟨target',c₇,ran,opened⟩ := Effect.bind_ok.mp opened
  cases made.symm.trans (toOption_some.mpr (Effect.ofExcept_ok.mp ran).1)
  cases opened
  rw [db] at line
  simp only [Except.toOption, Database.setCutline, if_true, Option.some.injEq] at line
  simp [ChunkContext.retained, ← line]

/-- What the claim on one chunk needs of tierdb-core beyond its laws: hot rows are not
checked, only a direct mode deletes in the lake, and such a delete renders. -/
structure Gates (core : Core) : Prop where
  hot : ∀ name keepHeap lag mode, core.modeFromCatalog name keepHeap lag = .ok mode →
    mode.HotUnchecked
  direct : ∀ name keepHeap lag mode, core.modeFromCatalog name keepHeap lag = .ok mode →
    ∀ side, (mode.planDelete side).cold = some .lake → mode.isDirect = true
  renders : ∀ table cold keys below, ∃ statement,
    core.lakeDelete table cold keys below = .ok statement

theorem Gates.ready (gates : Gates core) {db : Database} {schema table : String}
    {ctx : ChunkContext} (found : db.openChunk core schema table = some ctx) :
    LakeReady core ctx where
  renders := gates.renders ctx.target
  live side lake := by
    obtain ⟨row,opened⟩ := openChunk_some core found
    have direct := gates.direct _ _ _ _ opened.mode side lake
    obtain ⟨catalog,resolved,made,_⟩ := opened.target
    have mode := opened.mode
    simp only [Database.resolveCatalog, mode, Except.toOption, Option.bind_eq_bind,
      Option.bind_some, direct, if_true, Option.bind_eq_some_iff] at resolved
    obtain ⟨_,_,attached,_,same⟩ := resolved
    cases same
    simp only [TableSchema.table, mode, bind, Except.bind, pure, Except.pure,
      Except.ok.injEq] at made
    exact ⟨⟨attached.aliasName,ctx.ts.lakeTableRef⟩,by rw [← made]; rfl⟩

/-- A chunk call between whose reads a later version of the cut-line row is committed does
what it would with both lines old, or is rejected as it would be with both lines new. -/
theorem torn_read_harmless (core : Core) (gates : Gates core) {kind : ChunkKind}
    {schema table : String} {rowsJson : JsonText} {version : Option CutlineRow} {c d : Conn}
    {old new ctx : ChunkContext} (older : c.db.openChunk core schema table = some old)
    (newer : (c.db.setCutline old.ts.tableId version).openChunk core schema table = some new)
    (cuts : LineLe old.cutline new.cutline) (lines : LineLe old.retention new.retention)
    (opened : openChunkAcross core schema table (commitVersion old.ts.tableId version) c =
      .ok ctx d)
    (keyed : ∀ removed written, chunkRows kind rowsJson = .ok (removed,written) →
      ∀ image ∈ written, WriteKeyed core new image)
    (succeed : ∀ e f, chunkBody core kind rowsJson new d = .error e f → ¬StatementError e) :
    chunkAcross core kind schema table rowsJson (commitVersion old.ts.tableId version) c =
        chunkBody core kind rowsJson old d ∨
      (Rejected old.ts (chunkAcross core kind schema table rowsJson
          (commitVersion old.ts.tableId version) c) ∧
        Rejected old.ts (chunkBody core kind rowsJson new d)) := by
  obtain ⟨shape,read⟩ := openChunk_version older newer
  have torn := openChunkAcross_ok older opened
  rw [← read] at torn
  subst torn
  have unchecked : old.mode.HotUnchecked := by
    obtain ⟨row,known⟩ := openChunk_some core older
    exact gates.hot _ _ _ _ known.mode
  unfold chunkAcross
  rw [Effect.bind_of_ok opened]
  rcases chunkBody_same lines kind rowsJson d with same | ⟨refused,rejected⟩
  · exact .inl same
  · have later := refused.later unchecked cuts
    rw [← shape] at later
    have stopped := chunkBody_stops (gates.ready newer) keyed later d
    have ts : new.ts = old.ts := by rw [shape]; rfl
    rw [ts] at stopped
    rcases stopped with again | ⟨e,f,failed,statement⟩
    · exact .inr ⟨rejected,again⟩
    · exact absurd statement (succeed e f failed)

end Reads

theorem Reference.gates : Gates core where
  hot name keepHeap lag mode found := by
    simp only [core, modeFromCatalog] at found
    split at found
    · cases found; exact ⟨rfl,rfl⟩
    · split at found
      · cases found; exact ⟨rfl,rfl⟩
      · split at found
        · cases found; exact ⟨rfl,rfl⟩
        · cases found
  direct name keepHeap lag mode found side lake := by
    simp only [core, modeFromCatalog] at found
    split at found
    · cases found; cases side <;> simp [splitMode] at lake
    · split at found
      · cases found; rfl
      · split at found
        · cases found; cases lake
        · cases found
  renders table cold keys below := ⟨_,rfl⟩

def Reference.cutContext (row : CutlineRow) : ChunkContext where
  ts := (registration "tiered").withColumns bigint columns
  mode := splitMode false .delta
  cutline := some row.tierKeyHi
  retention := row.retentionLine
  attachSql := none
  target := { id := 1, schema := "public", name := "items",
              columns := columns.map fun (name,sqlType) => ⟨name,sqlType⟩,
              pkCols := ["id"], tierKeyCol := "ts", tierKeyType := bigint,
              mode := splitMode false .delta, lakeFormat := "iceberg",
              lakeTableRef := some "lake.items", catalog := none }

/-- The cut-line moves from 10 to 30 between the reads of an INSERT of tier key 20. -/
def Reference.torn : Pg ChunkContext :=
  openChunkAcross core "public" "items" (commitVersion 1 (some ⟨30,2,none,some 15⟩))

def Reference.insertTwenty : JsonText := some (.array [.object (item 1 20 0)])

def Reference.connected : Conn := .connect "" ⟨database "tiered" 10 [],[]⟩

/-- The row goes where the old cut-line says. -/
theorem torn_row_hot :
    chunkAcross Reference.core .insert "public" "items" Reference.insertTwenty
        (commitVersion 1 (some ⟨30,2,none,some 15⟩)) Reference.connected =
      chunkBody Reference.core .insert Reference.insertTwenty
        (Reference.cutContext ⟨10,1,none,none⟩)
        (Effect.final (Reference.torn Reference.connected)) := by
  have older : Reference.connected.db.openChunk Reference.core "public" "items" =
      some (Reference.cutContext ⟨10,1,none,none⟩) := rfl
  have newer : (Reference.connected.db.setCutline 1 (some ⟨30,2,none,some 15⟩)).openChunk
      Reference.core "public" "items" = some (Reference.cutContext ⟨30,2,none,some 15⟩) := rfl
  have cuts : LineLe (some 10) (some 30) := by
    rintro t found
    cases found
    exact ⟨30,rfl,by omega⟩
  have lines : LineLe none (some 15) := nofun
  have opened : Reference.torn Reference.connected = .ok
      ((Reference.cutContext ⟨10,1,none,none⟩).retained (some 15))
      (Effect.final (Reference.torn Reference.connected)) := rfl
  have keyed : ∀ removed written,
      chunkRows .insert Reference.insertTwenty = .ok (removed,written) → ∀ image ∈ written,
        WriteKeyed Reference.core (Reference.cutContext ⟨30,2,none,some 15⟩) image := by
    intro removed written rows image member
    cases rows
    obtain rfl := List.mem_singleton.mp member
    exact ⟨["1"],rfl⟩
  have passes : Effect.Returned (chunkBody Reference.core .insert Reference.insertTwenty
      (Reference.cutContext ⟨30,2,none,some 15⟩)
      (Effect.final (Reference.torn Reference.connected))) := trivial
  have result := torn_read_harmless Reference.core Reference.gates older newer cuts lines opened
    keyed fun e f failed => by rw [failed] at passes; exact passes.elim
  rcases result with same | ⟨⟨key,line,c,rejected⟩,_⟩
  · exact same
  · have accepted : Effect.Returned (chunkAcross Reference.core .insert "public" "items"
        Reference.insertTwenty (commitVersion 1 (some ⟨30,2,none,some 15⟩))
        Reference.connected) := trivial
    change chunkAcross Reference.core .insert "public" "items" Reference.insertTwenty
      (commitVersion 1 (some ⟨30,2,none,some 15⟩)) Reference.connected = _ at rejected
    rw [rejected] at accepted
    exact accepted.elim

end TierDb
