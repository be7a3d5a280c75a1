import TierDb.Blocks
import TierDb.Direct

/-! The lake lock of a direct table. A chunk that routes a row to the lake leaves the
table's lock with the session, and only the end of a block takes it away again. -/
namespace TierDb

def Conn.locks (c : Conn) : List Int := c.client.session.locks

section Keeping

variable {core : Core} {α : Type} {k : Int}

/-- The session holds the lock. -/
def Conn.HoldsLock (k : Int) (c : Conn) : Prop := k ∈ c.locks

theorem onSession_locks (P : List Int → Prop) {x : Sql.Exec Snapshot Int α}
    (keeps : Effect.Keeps (fun s => P s.locks) x) :
    Effect.Keeps (fun c : Conn => P c.locks) (onSession x) :=
  keeps.zoom (fun _ holds => holds) (fun _ _ _ after => after)

/-- A statement leaves the locks of its session alone. -/
theorem onStatement_locks (P : List Int → Prop)
    (run : Snapshot → Except String (α × Snapshot)) :
    Effect.Keeps (fun c : Conn => P c.locks) (onSession (Sql.statement run)) := by
  refine onSession_locks P fun s holds => ?_
  change P (Effect.final (Sql.statement run s)).locks
  rwa [Sql.statement_locks]

theorem releasePin_locks (P : List Int → Prop) (pinId : Int) :
    Effect.Keeps (fun c : Conn => P c.locks) (releasePin pinId) :=
  .mapError (onStatement_locks P _) _

theorem Sent.keepsLock {x : Pg α} (sent : Sent core x) : Effect.Keeps (Conn.HoldsLock k) x := by
  induction sent with
  | pure a => exact .pure a
  | throw e => exact .throw e
  | ofExcept x => exact .ofExcept x
  | get => exact .get
  | query read => exact onStatement_locks (k ∈ ·) _
  | execute w =>
    exact .bind .get fun c => .bind (onStatement_locks (k ∈ ·) _) fun _ =>
      .modify fun _ holds => holds
  | lock tableId => exact onSession_locks (k ∈ ·) fun _ => Sql.lock_keeps tableId
  | bind _ _ first next => exact first.bind next
  | mapError _ f keeps => exact keeps.mapError f

theorem pinAcquire_keepsLock (tableId : Int) (cut : Cutline) :
    Effect.Keeps (Conn.HoldsLock k) (pinAcquire tableId cut) :=
  .bind .get fun _ => .bind (.modify fun _ holds => holds) fun _ =>
    onStatement_locks (k ∈ ·) _

/-- Inside the write transaction a scan gives up no lock. -/
theorem acquireScan_keepsLock (core : Core) {c : Conn} (flag : c.inTxn = true)
    (schema table : String) (holds : c.HoldsLock k) :
    (Effect.final (acquireScan core schema table c)).HoldsLock k := by
  unfold acquireScan
  have kept := (tableSchema_sent core schema table).keepsLock c holds
  cases read : tableSchema core schema table c with
  | error e d =>
    rw [read, Effect.final_error] at kept
    rwa [Effect.bind_of_error read]
  | ok ts m =>
    rw [read, Effect.final_ok] at kept
    have same := (tableSchema_sent core schema table).steady.ok _ _ _ read
    have sent : Sent core (scanLake core ts) := scanLake_sent ts
    have kept' := sent.keepsLock m kept
    rw [Effect.bind_of_ok read, Effect.bind_of_ok (Effect.get_apply m)]
    cases found : scanLake core ts m with
    | error e d =>
      rw [found, Effect.final_error] at kept'
      rwa [Effect.bind_of_error found]
    | ok lake m' =>
      rw [found, Effect.final_ok] at kept'
      have same' := (scanLake_sent ts).steady.ok _ _ _ found
      have flag' : m'.inTxn = true := same'.inTxn.trans (same.inTxn.trans flag)
      rw [Effect.bind_of_ok found, Effect.bind_of_ok (Effect.get_apply m'), if_pos flag']
      exact pinAndRender_keeps (fun _ _ read => read.sent.keepsLock) pinAcquire_keepsLock ts m.dsn lake
        m' kept'

end Keeping

section Taking

variable {core : Core} {ctx : ChunkContext} {c d : Conn}

theorem takeLakeLock_held {tableId : Int} (taken : takeLakeLock tableId c = .ok () d)
    (inside : c.client.session.InBlock) : d.HoldsLock tableId := by
  obtain ⟨s,locked,rfl⟩ := onSession_ok.mp (Effect.mapError_ok.mp taken)
  exact Sql.lock_held locked inside

/-- A row that is sent to the lake yields its tuple. -/
theorem planLoop_sunk {planRow : Json → Plan (Option (List Json))} {rows : List Json}
    {tuples : List (List Json)} {writes : List Write}
    (sunk : ∃ row ∈ rows, ∀ tuple writes, (planRow row).Makes tuple writes → tuple ≠ none)
    (made : (planLoop planRow rows).Makes tuples writes) : tuples ≠ [] := by
  induction rows generalizing tuples writes with
  | nil => simp at sunk
  | cons row rest ih =>
    obtain ⟨tuple,_,_,first,later,_⟩ := Plan.bind_makes.mp made
    obtain ⟨others,loop,rfl⟩ := Plan.bind_pure_makes.mp later
    rw [List.exists_mem_cons_iff] at sunk
    rcases sunk with own | more
    · cases tuple with
      | none => exact absurd rfl (own none _ first)
      | some values => simp
    · simp [ih more loop]

theorem planWriteRow_sunk {image : Json} {tuple : Option (List Json)} {writes : List Write}
    (sunk : writesToLake core ctx image = true)
    (made : (planWriteRow core ctx image).Makes tuple writes) : tuple ≠ none := by
  obtain ⟨tierKey,front,found,_,cold,_⟩ := planWriteRow_makes.mp made
  have sink : (ctx.mode.planInsert (routeRow core ctx.cutline tierKey)).cold = some .lake := by
    simpa [writesToLake, tierKeyOf_ok found] using sunk
  rw [sink] at cold
  rw [(Plan.pure_makes.mp cold).1]
  exact Option.some_ne_none _

theorem planDeleteRow_sunk {pkColumns : List Column} {row : Json} {tuple : Option (List Json)}
    {writes : List Write} (sunk : removesFromLake core ctx row = true)
    (made : (planDeleteRow core ctx pkColumns row).Makes tuple writes) : tuple ≠ none := by
  obtain ⟨tierKey,pkVals,front,found,_,_,cold,_⟩ := planDeleteRow_makes.mp made
  have sink : (ctx.mode.planDelete (routeRow core ctx.cutline tierKey)).cold = some .lake := by
    simpa [removesFromLake, tierKeyOf_ok found] using sunk
  rw [sink] at cold
  rw [(Plan.pure_makes.mp cold).1]
  exact Option.some_ne_none _

theorem writeRows_locks {rows : List Json} {lakeSql : List LakeStatement}
    (sunk : rows.any (writesToLake core ctx) = true) (inside : c.client.session.InBlock)
    (returned : writeRows core ctx rows c = .ok lakeSql d) : d.HoldsLock ctx.ts.tableId := by
  obtain ⟨tuples,b,looped,rest⟩ := Effect.bind_ok.mp returned
  obtain ⟨_,made,_⟩ := (writeLoop_follows core ctx rows).ok c tuples b looped
  obtain ⟨image,member,sunk⟩ := List.any_eq_true.mp sunk
  have some : tuples ≠ [] := planLoop_sunk ⟨image,member,fun _ _ => planWriteRow_sunk sunk⟩ made
  have same := (writeLoop_for core ctx rows).sent.steady.ok _ _ _ looped
  rw [if_neg (by simpa using some)] at rest
  obtain ⟨cold,b',live,locking⟩ := Effect.bind_ok.mp rest
  obtain ⟨_,rfl⟩ := Effect.ofExcept_ok.mp live
  obtain ⟨_,m,locked,rendered⟩ := Effect.bind_ok.mp locking
  obtain ⟨_,rfl⟩ := Effect.ofExcept_ok.mp rendered
  exact takeLakeLock_held locked (same.blocks.inBlock.mpr inside)

theorem deleteRows_locks {rows : List Json} {lakeSql : List LakeStatement}
    (sunk : rows.any (removesFromLake core ctx) = true) (inside : c.client.session.InBlock)
    (returned : deleteRows core ctx rows c = .ok lakeSql d) : d.HoldsLock ctx.ts.tableId := by
  obtain ⟨pkColumns,a,read,rest⟩ := Effect.bind_ok.mp returned
  obtain ⟨_,rfl⟩ := Effect.ofExcept_ok.mp read
  obtain ⟨tuples,b,looped,rest⟩ := Effect.bind_ok.mp rest
  obtain ⟨_,made,_⟩ := (deleteLoop_follows core ctx pkColumns rows).ok _ tuples b looped
  obtain ⟨row,member,sunk⟩ := List.any_eq_true.mp sunk
  have some : tuples ≠ [] := planLoop_sunk ⟨row,member,fun _ _ => planDeleteRow_sunk sunk⟩ made
  have same := (deleteLoop_for core ctx pkColumns rows).sent.steady.ok _ _ _ looped
  rw [if_neg (by simpa using some)] at rest
  obtain ⟨cold,b',live,locking⟩ := Effect.bind_ok.mp rest
  obtain ⟨_,rfl⟩ := Effect.ofExcept_ok.mp live
  obtain ⟨_,m,locked,rendering⟩ := Effect.bind_ok.mp locking
  obtain ⟨statement,m',rendered,done⟩ := Effect.bind_ok.mp rendering
  obtain ⟨_,rfl⟩ := Effect.ofExcept_ok.mp rendered
  cases done
  exact takeLakeLock_held locked (same.blocks.inBlock.mpr inside)

/-- A chunk that sends a row to the lake leaves the table's lock with the block. -/
theorem chunkFunction_locks {kind : ChunkKind} {schema table : String} {rows : JsonText}
    {outcome : ChunkOutcome} (inside : c.client.session.InBlock)
    (found : c.db.openChunk core schema table = some ctx)
    (sunk : addressesLake core ctx kind rows = true)
    (returned : chunkFunction core kind schema table rows c = .ok outcome d) :
    d.HoldsLock ctx.ts.tableId := by
  rw [chunkFunction_eq] at returned
  obtain ⟨ctx',b,opened,ran⟩ := Effect.bind_ok.mp returned
  have read := ((openChunk_reads core schema table).ok c ctx' b opened).1
  obtain rfl : ctx = ctx' := Option.some.inj (found.symm.trans read)
  have inside' := ((openChunk_sent core schema table).steady.ok _ _ _ opened).blocks.inBlock.mpr
    inside
  cases kind with
  | insert =>
    obtain ⟨images,a,read,writing⟩ := Effect.bind_ok.mp ran
    obtain ⟨parsed,rfl⟩ := Effect.ofExcept_ok.mp read
    obtain ⟨lakeSql,m,wrote,done⟩ := Effect.bind_ok.mp writing
    cases done
    refine writeRows_locks ?_ inside' wrote
    simpa [addressesLake, chunkRows_insert.mpr ⟨rfl,readRows_ok.mp parsed⟩] using sunk
  | delete =>
    obtain ⟨keys,a,read,removing⟩ := Effect.bind_ok.mp ran
    obtain ⟨parsed,rfl⟩ := Effect.ofExcept_ok.mp read
    obtain ⟨lakeSql,m,removed,done⟩ := Effect.bind_ok.mp removing
    cases done
    refine deleteRows_locks ?_ inside' removed
    simpa [addressesLake, chunkRows_delete.mpr ⟨readRows_ok.mp parsed,rfl⟩] using sunk
  | update =>
    obtain ⟨pairs,a,read,splitting⟩ := Effect.bind_ok.mp ran
    obtain ⟨parsed,rfl⟩ := Effect.ofExcept_ok.mp read
    obtain ⟨split,a',cut,removing⟩ := Effect.bind_ok.mp splitting
    obtain ⟨paired,rfl⟩ := Effect.ofExcept_ok.mp cut
    obtain ⟨deletes,m,removed,writing⟩ := Effect.bind_ok.mp removing
    obtain ⟨upserts,m',wrote,done⟩ := Effect.bind_ok.mp writing
    cases done
    simp only [addressesLake, chunkRows_update.mpr ⟨pairs,split,readRows_ok.mp parsed,paired,rfl,rfl⟩,
      Bool.or_eq_true] at sunk
    rcases sunk with olds | news
    · have held := deleteRows_locks olds inside' removed
      have kept := (writeRows_for core ctx (split.map Prod.snd)).sent.keepsLock m held
      rwa [wrote] at kept
    · refine writeRows_locks news ?_ wrote
      have same := (deleteRows_for core ctx (split.map Prod.fst)).sent.steady.ok _ _ _ removed
      exact same.blocks.inBlock.mpr inside'

end Taking

end TierDb
