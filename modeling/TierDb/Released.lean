import Mathlib.Data.List.Perm.Subperm
import TierDb.Endings

/-! The pins one transaction acquires, and the releases of its boundary. -/
namespace TierDb

variable {core : Core}

def Attached.withVerdicts (verdicts : List (Option String)) (a : Attached) : Attached :=
  a.withConn (a.conn.withVerdicts verdicts)

/-- Calls of `GetPinnedScan` in order; one that throws keeps what it had done. -/
def scanAll (core : Core) : List (TableRef × List (Option String)) → Attached → Attached
  | [], a => a
  | (ref,verdicts) :: rest, a =>
    scanAll core rest (Effect.final (getPinnedScan core ref (a.withVerdicts verdicts)))

/-- The pin a call acquires; a table scanned before is not asked for again. -/
def acquires (core : Core) (ref : TableRef) (a : Attached) : List Int :=
  match a.txn.scanByTable.find? (·.1 = ref.tableId) with
  | some _ => []
  | none =>
    match acquireScan core ref.schemaName ref.tableName a.conn with
    | .ok pinned _ => pinned.pinId.toList
    | .error _ _ => []

def acquired (core : Core) : List (TableRef × List (Option String)) → Attached → List Int
  | [], _ => []
  | (ref,verdicts) :: rest, a =>
    let b := a.withVerdicts verdicts
    acquires core ref b ++ acquired core rest (Effect.final (getPinnedScan core ref b))

/-- The state a boundary leaves. -/
def endTransaction (commits : Bool) (a : Attached) : Attached :=
  if commits then Effect.final (commitTransaction a) else Effect.final (rollbackTransaction a)

/-- What the write's boundary leaves, before the pins are released. -/
def endWrite (commits : Bool) (a : Attached) : Attached :=
  Effect.final (if commits then commitWrite a else rollbackWrite a)

theorem endWrite_quiet (commits : Bool) (a : Attached) :
    (endWrite commits a).txn.writeActive = false := by
  cases commits with
  | true => exact commitWrite_final a
  | false =>
    simp only [endWrite, Bool.false_eq_true, if_false, rollbackWrite_apply]
    split
    · split <;> simp
    · simpa using ‹¬a.txn.writeActive = true›

/-- The releases of a boundary. -/
def released (commits : Bool) (a : Attached) : List (Int × Bool) :=
  releases (endWrite commits a).txn.pins (endWrite commits a).forget

/-- Each acquired pin is passed to the client once and nothing else is; an acquired pin the
session still sees is one whose release failed. -/
structure ReleasedOnce (ids : List Int) (commits : Bool) (a : Attached) : Prop where
  once : ∀ id, ((released commits a).map Prod.fst).count id = if id ∈ ids then 1 else 0
  left : (endTransaction commits a).conn.client.session.block ≠ .aborted →
    ∀ pin ∈ (endTransaction commits a).conn.db.pins, pin.pinId ∈ ids →
      (pin.pinId,false) ∈ released commits a

theorem getPinnedScan_pins (core : Core) (ref : TableRef) (a : Attached) :
    let b := Effect.final (getPinnedScan core ref a)
    b.txn.pins = a.txn.pins ++ acquires core ref a ∧ b.txn.writeActive = a.txn.writeActive ∧
      (b.conn = a.conn ∧ acquires core ref a = [] ∨
        b.conn = Effect.final (acquireScan core ref.schemaName ref.tableName a.conn)) := by
  unfold getPinnedScan acquires
  rw [Effect.bind_of_ok (Effect.get_apply a)]
  cases cached : a.txn.scanByTable.find? (·.1 = ref.tableId) with
  | some hit => simp
  | none =>
    cases ran : acquireScan core ref.schemaName ref.tableName a.conn with
    | error e c =>
      simp [acquireReadScan, Effect.bind_apply, Effect.map_apply, client_apply, ran]
    | ok pinned c =>
      cases id : pinned.pinId <;>
        simp [acquireReadScan, Effect.bind_apply, Effect.map_apply, client_apply, ran, id, onTxn]

theorem scanAll_pins (core : Core) (calls : List (TableRef × List (Option String))) (a : Attached) :
    (scanAll core calls a).txn.pins = a.txn.pins ++ acquired core calls a ∧
      (scanAll core calls a).txn.writeActive = a.txn.writeActive := by
  induction calls generalizing a with
  | nil => simp [scanAll, acquired]
  | cons call rest ih =>
    obtain ⟨pins,active,_⟩ := getPinnedScan_pins core call.1 (a.withVerdicts call.2)
    obtain ⟨later,still⟩ := ih (Effect.final (getPinnedScan core call.1 (a.withVerdicts call.2)))
    simp only [scanAll, acquired]
    rw [later, still, pins, active, List.append_assoc]
    exact ⟨rfl,rfl⟩

theorem onSession_sequence {α : Type} (n : Int) (x : Sql.Exec Snapshot Int α) :
    Effect.Keeps (fun c : Conn => n ≤ c.client.sequence) (onSession x) := by
  have any : Effect.Keeps (fun _ => True) x := fun _ _ => trivial
  exact any.zoom (fun _ _ => trivial) fun _ _ low _ => low

theorem Sent.sequence {α : Type} {x : Pg α} (sent : Sent core x) (n : Int) :
    Effect.Keeps (fun c : Conn => n ≤ c.client.sequence) x := by
  intro c low
  cases ran : x c with
  | ok a d => exact le_of_le_of_eq low (sent.framed.ok c a d ran).sequence.symm
  | error e d => exact le_of_le_of_eq low (sent.framed.error c e d ran).sequence.symm

theorem pinAcquire_sequence (n : Int) (tableId : Int) (cut : Cutline) :
    Effect.Keeps (fun c : Conn => n ≤ c.client.sequence) (pinAcquire tableId cut) := by
  intro c low
  rw [pinAcquire_apply]
  exact onSession_sequence n _ c.draw (low.trans (Int.le_add_one (Int.le_refl _)))

/-- A scan never sets the sequence back. -/
theorem acquireScan_sequence (core : Core) (n : Int) (schema table : String) :
    Effect.Keeps (fun c : Conn => n ≤ c.client.sequence) (acquireScan core schema table) :=
  acquireScan_keeps (fun _ _ read => read.sent.sequence n) (pinAcquire_sequence n)
    (onSession_sequence n _) (onSession_sequence n _) (onSession_sequence n _) schema table

/-- A call acquires at most one pin, the next of the sequence. -/
theorem acquires_sequence (core : Core) {a : Attached} (flagged : Flagged a.conn) (ref : TableRef) :
    let b := Effect.final (getPinnedScan core ref a)
    Flagged b.conn ∧ (acquires core ref a = [] ∧ a.conn.client.sequence ≤ b.conn.client.sequence ∨
      acquires core ref a = [a.conn.client.sequence] ∧
        b.conn.client.sequence = a.conn.client.sequence + 1) := by
  obtain ⟨_,_,same,none⟩ | ⟨_,_,moved⟩ := by
    simpa only [and_or_left] using getPinnedScan_pins core ref a
  · intro b
    have kept : b.conn = a.conn := same
    rw [kept]
    exact ⟨flagged,.inl ⟨none,Int.le_refl _⟩⟩
  · intro b
    have reached : b.conn = _ := moved
    have status := acquireScan_status core flagged ref.schemaName ref.tableName
    have grows := acquireScan_sequence core a.conn.client.sequence ref.schemaName
      ref.tableName a.conn (Int.le_refl _)
    rw [reached]
    refine ⟨flagged.same status,?_⟩
    unfold acquires
    cases cached : a.txn.scanByTable.find? (·.1 = ref.tableId) with
    | some hit => exact .inl ⟨rfl,grows⟩
    | none =>
      cases ran : acquireScan core ref.schemaName ref.tableName a.conn with
      | error e c => exact .inl ⟨rfl,by simpa [ran] using grows⟩
      | ok pinned c =>
        have pins := (acquireScan_pinned flagged.idle ran).sequence
        rcases pins with ⟨none,same⟩ | ⟨some,next⟩
        · exact .inl ⟨by simp [none],same.ge⟩
        · exact .inr ⟨by simp [some],next⟩

/-- The pins a transaction acquires are distinct. -/
theorem acquired_fresh (core : Core) (calls : List (TableRef × List (Option String))) {a : Attached}
    (flagged : Flagged a.conn) :
    (acquired core calls a).Nodup ∧ ∀ id ∈ acquired core calls a, a.conn.client.sequence ≤ id := by
  induction calls generalizing a with
  | nil => exact ⟨List.nodup_nil,fun _ member => absurd member List.not_mem_nil⟩
  | cons call rest ih =>
    have ready : Flagged (a.withVerdicts call.2).conn := ⟨flagged.inTxn,flagged.nested⟩
    obtain ⟨still,moved⟩ := acquires_sequence core ready call.1
    obtain ⟨apart,later⟩ := ih still
    have start : (a.withVerdicts call.2).conn.client.sequence = a.conn.client.sequence := rfl
    rw [start] at moved
    simp only [acquired]
    rcases moved with ⟨none,grows⟩ | ⟨one,next⟩
    · rw [none, List.nil_append]
      exact ⟨apart,fun id member => grows.trans (later id member)⟩
    · rw [one, List.singleton_append]
      refine ⟨List.nodup_cons.mpr ⟨fun again => ?_,apart⟩,fun id member => ?_⟩
      · have above := later _ again
        omega
      · rcases List.mem_cons.mp member with rfl | member
        · exact Int.le_refl _
        · have above := later id member
          omega

/-- Without a write of its own a transaction's boundary is the release of its pins. -/
theorem endTransaction_final {a : Attached} (off : a.txn.writeActive = false) (commits : Bool) :
    endWrite commits a = a ∧
      endTransaction commits a = Effect.final (releaseEach a.txn.pins a.forget) := by
  have committed : commitWrite a = .ok () a := by simp [commitWrite_apply, off]
  have undone : rollbackWrite a = .ok () a := by simp [rollbackWrite_apply, off]
  cases commits with
  | true =>
    have result := commitTransaction_result a
    rw [committed] at result
    exact ⟨by simp [endWrite, committed],by simp [endTransaction, result.1, releasePins_apply]⟩
  | false =>
    refine ⟨by simp [endWrite, undone],?_⟩
    simp [endTransaction, rollbackTransaction_final, undone, releasePins_apply]

/-- Whatever came before it on the connection, a transaction that only reads passes each of
its pins to the client exactly once, if and only if no release before the last is refused. -/
theorem pins_released_once_iff (core : Core) (dsn : String) (stored : Snapshot)
    (history : List (ConnCall × List (Option String))) (lakeSide : LakeSide)
    (calls : List (TableRef × List (Option String))) (commits : Bool)
    (verdicts : List (Option String)) :
    let start : Attached := ⟨{},(Conn.connect dsn stored).calls core history,lakeSide⟩
    let a := (scanAll core calls start).withVerdicts verdicts
    ReleasedOnce (acquired core calls start) commits a ↔
      a.conn.Accepts ((acquired core calls start).length - 1) := by
  intro start a
  have flagged : Flagged start.conn := calls_flagged core (connect_flagged dsn stored) history
  obtain ⟨apart,_⟩ := acquired_fresh core calls flagged
  obtain ⟨pins,off⟩ := scanAll_pins core calls start
  have pins : a.txn.pins = acquired core calls start := pins
  obtain ⟨bare,ended⟩ := endTransaction_final (a := a) off commits
  have passed : released commits a = releases (acquired core calls start) a.forget := by
    simp only [released, bare, pins]
  have accepts := releases_all (acquired core calls start) a.forget
  rw [forget_conn] at accepts
  rw [← accepts]
  constructor
  · intro once
    have given := releases_prefix (acquired core calls start) a.forget
    refine given.eq_of_length_le
      (List.Subperm.length_le (List.Nodup.subperm apart fun id member => ?_))
    have count := once.once id
    rw [passed, if_pos member] at count
    exact List.count_pos_iff.mp (by omega)
  · intro all
    refine ⟨fun id => ?_,fun live pin left own => ?_⟩
    · rw [passed, all, apart.count]
    · rw [ended, pins] at live left
      rw [passed]
      exact releaseEach_left live all left own

def Reference.twoTables : Database :=
  let items := Reference.database "tiered" 10 []
  { items with
    tables := items.tables ++ [{ Reference.registration "tiered" with
      tableId := 2, tableName := "orders" }]
    heap := fun schema _ => items.heap schema "items"
    cutline := fun _ => items.cutline 1 }

def readBoth : List (TableRef × List (Option String)) :=
  [(readItems,[]),(⟨2,"public","orders"⟩,[])]

/-- The release of the first of two pins is refused, and the second is never passed on. -/
theorem pin_never_released : ¬∀ core dsn stored history lakeSide calls commits verdicts,
    ReleasedOnce
      (acquired core calls ⟨{},(Conn.connect dsn stored).calls core history,lakeSide⟩) commits
      ((scanAll core calls ⟨{},(Conn.connect dsn stored).calls core history,lakeSide⟩).withVerdicts
        verdicts) := by
  intro claim
  have once := (claim Reference.core "" ⟨Reference.twoTables,[]⟩ [] ⟨fun _ => [],[]⟩ readBoth true
    [some "connection lost"]).once 2
  revert once
  decide +kernel

end TierDb
