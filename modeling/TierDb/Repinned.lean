import TierDb.Released

/-! What a scan and a release change: pins. They begin no block that they do not end, and
in the block of a writing transaction they work on its copy. -/
namespace TierDb

/-- The snapshots differ in their pins at most. -/
def SameData (a b : Snapshot) : Prop :=
  ∃ pins, b = { a with database := { a.database with pins := pins } }

theorem SameData.refl (a : Snapshot) : SameData a a := ⟨a.database.pins,rfl⟩

theorem SameData.trans (a b c : Snapshot) (first : SameData a b) (second : SameData b c) :
    SameData a c := by
  obtain ⟨_,rfl⟩ := first
  obtain ⟨pins,rfl⟩ := second
  exact ⟨pins,rfl⟩

structure Repins (aborts : Prop) (c d : Conn) : Prop where
  inTxn : d.inTxn = c.inTxn
  working : Sql.Working SameData aborts c.client.session d.client.session

theorem Repins.refl (aborts : Prop) (c : Conn) : Repins aborts c c :=
  ⟨rfl,.refl SameData.refl aborts _⟩

theorem Repins.trans {aborts : Prop} {a b c : Conn} (first : Repins False a b)
    (second : Repins aborts b c) : Repins aborts a c :=
  ⟨second.inTxn.trans first.inTxn,first.working.trans SameData.trans second.working⟩

/-- Outside a block it changes the pins of the stored state. -/
theorem Repins.idle {aborts : Prop} {c d : Conn} (repins : Repins aborts c d)
    (idle : c.client.session.block = .idle) : d.client.session.block = .idle ∧
      SameData c.client.session.durable d.client.session.durable := by
  simpa only [Sql.Working, idle] using repins.working

/-- Inside one it changes those of the copy, or aborts the block. -/
theorem Repins.inside {aborts : Prop} {c d : Conn} {w : Snapshot} (repins : Repins aborts c d)
    (inside : c.client.session.block = .open w) :
    d.client.session.durable = c.client.session.durable ∧
      ((∃ w', d.client.session.block = .open w' ∧ SameData w w') ∨
        (aborts ∧ d.client.session.block = .aborted)) := by
  simpa only [Sql.Working, inside] using repins.working

/-- A computation that changes pins only; throwing, it may abort a block. -/
abbrev PinsOnly {α : Type} (x : Pg α) : Prop := Effect.Moves (Repins False) (Repins True) x

section PinsOnly

variable {core : Core} {α β : Type}

theorem PinsOnly.pure (a : α) : PinsOnly (Pure.pure a : Pg α) := Effect.Moves.pure (.refl _) a

theorem PinsOnly.ofExcept (x : Except String α) : PinsOnly (Effect.ofExcept x : Pg α) :=
  Effect.Moves.ofExcept (.refl _) (.refl _) x

theorem PinsOnly.bind {x : Pg α} {f : α → Pg β} (first : PinsOnly x)
    (next : ∀ a, PinsOnly (f a)) : PinsOnly (x >>= f) :=
  Effect.Moves.bind (fun _ _ _ => .trans) (fun _ _ _ => .trans) first next

theorem onSession_repins {x : Sql.Exec Snapshot Int α}
    (moves : Effect.Moves (Sql.Working SameData False) (Sql.Working SameData True) x) :
    PinsOnly (onSession x) where
  ok c a d run := by
    obtain ⟨s,ran,rfl⟩ := onSession_ok.mp run
    exact ⟨rfl,moves.ok _ _ _ ran⟩
  error c e d run := by
    obtain ⟨s,ran,rfl⟩ := onSession_error.mp run
    exact ⟨rfl,moves.error _ _ _ ran⟩

theorem query_repins (read : Database → Except String α) : PinsOnly (query read) := by
  refine onSession_repins (Sql.statement_working SameData.refl fun value a next ran => ?_)
  cases found : read value.database with
  | error e => simp [found, Except.map] at ran
  | ok b =>
    simp only [found, Except.map, Except.ok.injEq, Prod.mk.injEq] at ran
    exact ran.2 ▸ SameData.refl value

theorem lock_repins (tableId : Int) : PinsOnly (onSession (Sql.lock tableId)) := by
  have moves : Effect.Moves (Sql.Working SameData False) (Sql.Working SameData True)
      (Sql.statement (fun value => .ok ((),value)) : Sql.Exec Snapshot Int Unit) :=
    Sql.statement_working SameData.refl fun value a next ran => by cases ran; exact .refl _
  refine onSession_repins ⟨fun s a t run => ?_,fun s e t run => ?_⟩
  · unfold Sql.lock at run
    split at run
    · rename_i u sent
      have moved := moves.ok _ _ _ sent
      cases run
      split <;> exact moved
    · cases run
  · unfold Sql.lock at run
    split at run
    · cases run
    · rename_i sent
      cases run
      exact moves.error _ _ _ sent

/-- Reads and locks change no pin either. -/
theorem SentFor.repins {own : Write → Prop} {x : Pg α} (sent : SentFor core own x)
    (none : ∀ w, ¬own w) : PinsOnly x := by
  induction sent with
  | pure a => exact .pure a
  | throw e => exact Effect.Moves.throw (.refl _) e
  | ofExcept x => exact .ofExcept x
  | query read => exact query_repins read
  | execute w owned => exact absurd owned (none w)
  | lock tableId => exact lock_repins tableId
  | bind _ _ first next => exact first.bind next
  | @branch _ _ x _ _ next =>
    cases x with
    | ok a => exact next a rfl
    | error e => exact Effect.Moves.throw (.refl _) e
  | mapError _ f repins => exact Effect.Moves.mapError repins f

theorem pinAcquire_repins (tableId : Int) (cut : Cutline) : PinsOnly (pinAcquire tableId cut) := by
  have inserts (pin : Pin) : PinsOnly (onSession (Sql.statement (insertPin pin))) :=
    onSession_repins (Sql.statement_working SameData.refl
      fun value a next ran => by cases ran; exact ⟨_,rfl⟩)
  refine ⟨fun c a d run => ?_,fun c e d run => ?_⟩ <;> rw [pinAcquire_apply] at run
  · have moved := (inserts _).ok _ _ _ run
    exact ⟨moved.inTxn,moved.working⟩
  · have moved := (inserts _).error _ _ _ run
    exact ⟨moved.inTxn,moved.working⟩

theorem releasePin_repins (pinId : Int) : PinsOnly (releasePin pinId) :=
  Effect.Moves.mapError (onSession_repins (Sql.statement_working SameData.refl
    fun value a next ran => by cases ran; exact ⟨_,rfl⟩)) _

theorem pinAndRender_repins (ts : TableSchema) (dsn : String) (lake : Option LakeCatalog) :
    PinsOnly (pinAndRender core ts dsn lake) := by
  refine ((cutline_for ts.tableId).repins fun _ => id).bind fun cut => .bind ?_ fun _ =>
    .bind (.ofExcept _) fun _ => .pure _
  cases cut with
  | none => exact .pure _
  | some cut =>
    exact PinsOnly.bind (Effect.Moves.mapError (pinAcquire_repins ts.tableId cut) _)
      fun pinId => .pure _

end PinsOnly

/-- How a call that changes pins only ends, from where it was made. -/
def Repinned {α : Type} (c : Conn) : EStateM.Result String Conn α → Prop
  | .ok _ d => Repins False c d
  | .error _ d => Repins True c d

section Scans

variable {core : Core} {c : Conn}

theorem PinsOnly.repinned {α : Type} {x : Pg α} (pins : PinsOnly x) (c : Conn) :
    Repinned c (x c) := by
  cases run : x c with
  | ok a d => exact pins.ok c a d run
  | error e d => exact pins.error c e d run

theorem Repinned.after {α : Type} {b : Conn} {result : EStateM.Result String Conn α}
    (first : Repins False b c) (second : Repinned c result) : Repinned b result := by
  cases result with
  | ok a d => exact first.trans second
  | error e d => exact first.trans second

/-- An idle session that ends idle, its stored state changed in its pins at most. -/
theorem Repins.outside {aborts : Prop} {d : Conn} (idle : c.client.session.block = .idle)
    (inTxn : d.inTxn = c.inTxn) (block : d.client.session.block = .idle)
    (durable : SameData c.client.session.durable d.client.session.durable) :
    Repins aborts c d :=
  ⟨inTxn,by simpa only [Sql.Working, idle] using And.intro block durable⟩

/-- What a scan's own block did to its copy, its COMMIT does to the stored state; a failed
scan leaves that as it was. -/
theorem pinInOwnBlock_repins (core : Core) (idle : c.client.session.block = .idle)
    (ts : TableSchema) (dsn : String) (lake : Option LakeCatalog) :
    Repinned c (pinInOwnBlock core ts dsn lake c) := by
  have begun := Sql.beginBlock_idle idle
  unfold pinInOwnBlock
  cases verdict : c.client.session.verdict with
  | some e =>
    rw [verdict] at begun
    have refused := onSession_error.mpr ⟨_,begun,rfl⟩
    rw [Effect.bind_of_error (Effect.mapError_error.mpr ⟨e,refused,rfl⟩)]
    exact .outside idle rfl idle (.refl _)
  | none =>
    have opened : onSession Sql.beginBlock c = .ok () (c.setSession
        { c.client.session.next with block := .open c.client.session.durable }) :=
      onSession_ok.mpr ⟨_,by rw [begun, verdict],rfl⟩
    rw [Effect.bind_of_ok (Effect.mapError_ok.mpr opened)]
    obtain ⟨b,own⟩ : ∃ b, c.setSession { c.client.session.next with
      block := .open c.client.session.durable } = b := ⟨_,rfl⟩
    have flag : b.inTxn = c.inTxn := own ▸ rfl
    have stored : b.client.session.durable = c.client.session.durable := own ▸ rfl
    have inside : b.client.session.block = .open c.client.session.durable := own ▸ rfl
    rw [own]
    have pins := PinsOnly.repinned (x := pinAndRender core ts dsn lake) (pinAndRender_repins ts dsn lake) b
    cases ran : pinAndRender core ts dsn lake b with
    | error e m =>
      rw [ran] at pins
      have moved : Repins True b m := pins
      have durable := (moved.inside inside).1
      rw [Effect.bind_of_ok (a := .error e) (t := m) (by simp [Effect.attempt, ran]),
        endOwnBlock_error]
      exact .outside idle (moved.inTxn.trans flag) rfl (durable.trans stored ▸ .refl _)
    | ok pinned m =>
      rw [ran] at pins
      have moved : Repins False b m := pins
      obtain ⟨durable,⟨w,still,same⟩ | ⟨never,_⟩⟩ := moved.inside inside
      on_goal 2 => exact never.elim
      have view : m.client.session.view = w := by simp [Sql.Session.view, still]
      rw [Effect.bind_of_ok (a := .ok pinned) (t := m) (by simp [Effect.attempt, ran]),
        endOwnBlock_ok, view]
      split
      · exact .outside idle (moved.inTxn.trans flag) rfl (durable.trans stored ▸ .refl _)
      · exact .outside idle (moved.inTxn.trans flag) rfl same

/-- A scan changes pins only, unless it begins a block of its own inside an open one. -/
theorem acquireScan_repins (core : Core) (outside : c.inTxn = true ∨ c.client.session.block = .idle)
    (schema table : String) : Repinned c (acquireScan core schema table c) := by
  have none : ∀ w : Write, ¬(fun _ => False) w := fun _ => id
  unfold acquireScan
  have first := ((tableSchema_for schema table : SentFor core _ _).repins none).repinned c
  cases read : tableSchema core schema table c with
  | error e m =>
    rw [read] at first
    rw [Effect.bind_of_error read]
    exact first
  | ok ts m =>
    rw [read] at first
    rw [Effect.bind_of_ok read, Effect.bind_of_ok (Effect.get_apply m)]
    have second := ((scanLake_for ts : SentFor core _ _).repins none).repinned m
    cases found : scanLake core ts m with
    | error e d =>
      rw [found] at second
      rw [Effect.bind_of_error found]
      exact .after first second
    | ok lake d =>
      rw [found] at second
      have moved : Repins False c d := Repins.trans first second
      rw [Effect.bind_of_ok found, Effect.bind_of_ok (Effect.get_apply d)]
      refine .after moved ?_
      cases flag : d.inTxn with
      | true => exact (pinAndRender_repins ts m.dsn lake).repinned d
      | false =>
        have idle : c.client.session.block = .idle :=
          outside.resolve_left (by simp [← moved.inTxn, flag])
        exact pinInOwnBlock_repins core (moved.idle idle).1 ts m.dsn lake

theorem releaseEach_repins (ids : List Int) (a : Attached) :
    Repins True a.conn (Effect.final (releaseEach ids a)).conn := by
  induction ids generalizing a with
  | nil => exact .refl True _
  | cons id rest ih =>
    have pins := (releasePin_repins id).repinned a.conn
    cases ran : releasePin id a.conn with
    | error e c =>
      rw [ran] at pins
      have failed : client (releasePin id) a = .error ("tierdb: " ++ e) (a.withConn c) := by
        rw [client_apply, ran]
      rw [releaseEach, Effect.bind_of_error failed]
      exact pins
    | ok _ c =>
      rw [ran] at pins
      have released : client (releasePin id) a = .ok () (a.withConn c) := by
        rw [client_apply, ran]
      rw [releaseEach, Effect.bind_of_ok released]
      exact Repins.trans pins (ih (a.withConn c))

theorem releasePins_repins (a : Attached) :
    Repins True a.conn (Effect.final (releasePins a)).conn := by
  rw [releasePins_apply]
  exact releaseEach_repins a.txn.pins a.forget

/-- So does a scan of a transaction. -/
theorem getPinnedScan_repins (core : Core) (ref : TableRef) {a : Attached}
    (outside : a.conn.inTxn = true ∨ a.conn.client.session.block = .idle) :
    match getPinnedScan core ref a with
    | .ok _ b => Repins False a.conn b.conn
    | .error _ b => Repins True a.conn b.conn := by
  unfold getPinnedScan
  rw [Effect.bind_of_ok (Effect.get_apply a)]
  cases a.txn.scanByTable.find? (·.1 = ref.tableId) with
  | some hit => exact .refl False _
  | none =>
    have scan := acquireScan_repins core outside ref.schemaName ref.tableName
    cases ran : acquireScan core ref.schemaName ref.tableName a.conn with
    | error e c =>
      rw [ran] at scan
      simpa [acquireReadScan, Effect.bind_apply, Effect.map_apply, client_apply, ran, Repinned]
        using scan
    | ok pinned c =>
      rw [ran] at scan
      cases pin : pinned.pinId <;>
        simpa [acquireReadScan, Effect.bind_apply, Effect.map_apply, client_apply, ran, pin, onTxn,
          Repinned] using scan

/-- Before the pins are released, a writing transaction's boundary ends the block. What
was in it becomes durable by a COMMIT the server takes. -/
theorem endWrite_active {a : Attached} (active : a.txn.writeActive = true)
    (inTxn : a.conn.inTxn = true) (commits : Bool) :
    (endWrite commits a).conn.client.session.block = .idle ∧
      (endWrite commits a).conn.client.session.durable =
        if commits = true ∧ a.conn.client.session.verdict = none then a.conn.client.session.view
        else a.conn.client.session.durable := by
  cases commits <;> cases verdict : a.conn.client.session.verdict <;>
    simp [endWrite, commitWrite_active active inTxn, rollbackWrite_active active inTxn, verdict,
      Conn.setSession]

/-- The releases of a boundary. -/
theorem endTransaction_repins (commits : Bool) (a : Attached) :
    Repins True (endWrite commits a).conn (endTransaction commits a).conn := by
  cases commits with
  | true =>
    have result := commitTransaction_result a
    cases wrote : commitWrite a <;>
    · simp only [wrote] at result
      simp only [endTransaction, endWrite, if_true, wrote, result.1, Effect.final_ok,
        Effect.final_error]
      exact releasePins_repins _
  | false =>
    simp only [endTransaction, Bool.false_eq_true, if_false, rollbackTransaction_final]
    exact releasePins_repins _

end Scans

end TierDb
