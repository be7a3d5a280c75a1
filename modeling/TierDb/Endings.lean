import TierDb.Acquire
import TierDb.Atomicity

/-! How a transaction ends: what its releases do, and the error its boundary reports. -/
namespace TierDb

variable {core : Core}

/-- What a returned scan changes: pins and the sequence, no write and no block. -/
structure Pinned (c d : Conn) (pinId : Option Int) : Prop where
  inTxn : d.inTxn = c.inTxn
  issued : d.client.issued = c.client.issued
  author : d.client.author = c.client.author
  block : match c.client.session.block with
    | .idle => d.client.session.block = .idle ∧
        d.client.session.durable.journal = c.client.session.durable.journal
    | .open w => d.client.session.durable = c.client.session.durable ∧
        ∃ w', d.client.session.block = .open w' ∧ w'.journal = w.journal
    | .aborted => d.client.session.block = .aborted ∧
        d.client.session.durable = c.client.session.durable
  sequence : (pinId = none ∧ d.client.sequence = c.client.sequence) ∨
    (pinId = some c.client.sequence ∧ d.client.sequence = c.client.sequence + 1)

theorem Pinned.refl (c : Conn) : Pinned c c none where
  inTxn := rfl
  issued := rfl
  author := rfl
  block := by cases block : c.client.session.block <;> simp
  sequence := .inl ⟨rfl,rfl⟩

theorem Took.pinned {c d : Conn} (took : Took core [] c d) : Pinned c d none where
  inTxn := took.inTxn
  issued := by simpa using took.issued
  author := took.author
  block := by
    have moved := took.moved
    cases block : c.client.session.block with
    | idle =>
      simp only [BlockMoves, block] at moved
      exact ⟨moved.1,by simpa using moved.2.journal⟩
    | «open» w =>
      simp only [BlockMoves, block, false_and, or_false] at moved
      obtain ⟨durable,w',inside,grew⟩ := moved
      exact ⟨durable,w',inside,by simpa using grew.journal⟩
    | aborted =>
      simp only [BlockMoves, block] at moved
      exact ⟨moved.1,moved.2.1⟩
  sequence := .inl ⟨rfl,took.sequence⟩

/-- A part of the scan that pins nothing may come before the one that pins. -/
theorem Pinned.after {a b c : Conn} {pinId : Option Int} (first : Pinned a b none)
    (second : Pinned b c pinId) : Pinned a c pinId where
  inTxn := second.inTxn.trans first.inTxn
  issued := second.issued.trans first.issued
  author := second.author.trans first.author
  block := by
    have front := first.block
    have back := second.block
    cases block : a.client.session.block with
    | idle =>
      simp only [block] at front
      simp only [front.1] at back
      exact ⟨back.1,back.2.trans front.2⟩
    | «open» w =>
      simp only [block] at front
      obtain ⟨durable,w',inside,same⟩ := front
      simp only [inside] at back
      obtain ⟨durable',w'',inside',same'⟩ := back
      exact ⟨durable'.trans durable,w'',inside',same'.trans same⟩
    | aborted =>
      simp only [block] at front
      simp only [front.1] at back
      exact ⟨back.1,back.2.trans front.2⟩
  sequence := by
    have front : b.client.sequence = a.client.sequence := by
      rcases first.sequence with ⟨_,same⟩ | ⟨pinned,_⟩
      · exact same
      · cases pinned
    rw [← front]
    exact second.sequence

theorem pinCut_pinned {tableId : Int} {cut : Option Cutline} {c d : Conn} {pinId : Option Int}
    (run : pinCut tableId cut c = .ok pinId d) : Pinned c d pinId := by
  cases cut with
  | none =>
    cases run
    exact .refl c
  | some cut =>
    obtain ⟨id,m,acquired,done⟩ := Effect.bind_ok.mp run
    cases done
    rw [Effect.mapError_ok, pinAcquire_apply] at acquired
    obtain ⟨s,sent,rfl⟩ := onSession_ok.mp acquired
    obtain ⟨value,inserted,live,_,rfl⟩ := Sql.statement_ok sent
    cases inserted
    refine ⟨rfl,rfl,rfl,?_,.inr ⟨rfl,rfl⟩⟩
    have live : c.client.session.block ≠ .aborted := live
    cases block : c.client.session.block with
    | aborted => exact absurd block live
    | idle => simp [Conn.setSession, Conn.draw, Sql.Session.write, Sql.Session.view, block]
    | «open» w => simp [Conn.setSession, Conn.draw, Sql.Session.write, Sql.Session.view, block]

theorem pinAndRender_pinned {ts : TableSchema} {dsn : String} {lake : Option LakeCatalog}
    {c d : Conn} {pinned : PinnedScan} (run : pinAndRender core ts dsn lake c = .ok pinned d) :
    Pinned c d pinned.pinId := by
  obtain ⟨cut,m,cutRead,run⟩ := Effect.bind_ok.mp run
  obtain ⟨pinId,m',inserted,run⟩ := Effect.bind_ok.mp run
  obtain ⟨scanSql,m'',rendered,done⟩ := Effect.bind_ok.mp run
  obtain ⟨_,rfl⟩ := Effect.ofExcept_ok.mp rendered
  cases done
  exact ((cutline_reads core ts.tableId).ok _ _ _ cutRead).2.pinned.after
    (pinCut_pinned inserted)

theorem pinInOwnBlock_pinned {ts : TableSchema} {dsn : String} {lake : Option LakeCatalog}
    {c d : Conn} {pinned : PinnedScan} (idle : c.client.session.block = .idle)
    (run : pinInOwnBlock core ts dsn lake c = .ok pinned d) : Pinned c d pinned.pinId := by
  obtain ⟨_,m,begun,run⟩ := Effect.bind_ok.mp run
  obtain ⟨s,sent,rfl⟩ := onSession_ok.mp (Effect.mapError_ok.mp begun)
  rw [Sql.beginBlock_idle idle] at sent
  cases verdict : c.client.session.verdict with
  | some e => simp [verdict] at sent
  | none =>
    simp only [verdict, EStateM.Result.ok.injEq, true_and] at sent
    subst sent
    obtain ⟨result,m,attempted,run⟩ := Effect.bind_ok.mp run
    cases rendered : pinAndRender core ts dsn lake (c.setSession
        { c.client.session.next with block := .open c.client.session.durable }) with
    | error e m' =>
      simp only [Effect.attempt, rendered, EStateM.Result.ok.injEq] at attempted
      obtain ⟨rfl,rfl⟩ := attempted
      rw [endOwnBlock_error] at run
      cases run
    | ok value m' =>
      simp only [Effect.attempt, rendered, EStateM.Result.ok.injEq] at attempted
      obtain ⟨rfl,rfl⟩ := attempted
      have inner := pinAndRender_pinned rendered
      rw [endOwnBlock_ok] at run
      split at run
      · cases run
      · cases run
        have block := inner.block
        simp only [Conn.setSession] at block
        obtain ⟨_,w',inside,journal⟩ := block
        refine ⟨inner.inTxn,inner.issued,inner.author,?_,inner.sequence⟩
        simp only [idle]
        exact ⟨rfl,by simpa [Conn.setSession, Sql.Session.view, inside] using journal⟩

theorem acquireScan_pinned {schema table : String} {c d : Conn} {pinned : PinnedScan}
    (outside : c.inTxn = false → c.client.session.block = .idle)
    (run : acquireScan core schema table c = .ok pinned d) : Pinned c d pinned.pinId := by
  obtain ⟨ts,m,read,run⟩ := Effect.bind_ok.mp run
  obtain ⟨_,_,got,run⟩ := Effect.bind_ok.mp run
  cases got
  obtain ⟨lake,m',found,run⟩ := Effect.bind_ok.mp run
  obtain ⟨_,_,got,run⟩ := Effect.bind_ok.mp run
  cases got
  have took := ((tableSchema_reads core schema table).ok _ _ _ read).2
  have took' := ((scanLake_reads core ts).ok _ _ _ found).2
  have before := (took.trans took').pinned
  apply before.after
  split at run
  · exact pinAndRender_pinned run
  · rename_i clear
    have idle := outside (before.inTxn.symm.trans (by simpa using clear))
    have block := before.block
    simp only [idle] at block
    exact pinInOwnBlock_pinned block.1 run

section Releases

def deletePin (pinId : Int) (snapshot : Snapshot) : Except String (Unit × Snapshot) :=
  .ok ((),{ snapshot with
    database := { snapshot.database with
      pins := snapshot.database.pins.filter (·.pinId ≠ pinId) } })

def Conn.released (pinId : Int) (c : Conn) : Conn :=
  c.setSession (c.client.session.next.write { c.client.session.view with
    database := { c.client.session.view.database with
      pins := c.client.session.view.database.pins.filter (·.pinId ≠ pinId) } })

theorem releasePin_apply (pinId : Int) : releasePin pinId =
    Effect.mapError ("read pin release failed: " ++ ·)
      (onSession (Sql.statement (deletePin pinId))) := rfl

theorem releasePin_accepted (pinId : Int) {c : Conn} (accepted : c.Accepts 1) :
    releasePin pinId c = .ok () (c.released pinId) := by
  rw [releasePin_apply, Effect.mapError_ok]
  exact onSession_ok.mpr ⟨_,Sql.statement_of_accepted (deletePin pinId) accepted,rfl⟩

theorem releasePin_refused (pinId : Int) {c : Conn} (refused : ¬c.Accepts 1) :
    ∃ e, releasePin pinId c = .error e (c.refuse 1) := by
  obtain ⟨e,sent⟩ := Sql.statement_of_refused (deletePin pinId) refused
  rw [Sql.next_eq_skip] at sent
  exact ⟨_,Effect.mapError_error.mpr ⟨e,onSession_error.mpr ⟨_,sent,rfl⟩,rfl⟩⟩

/-- The tape behind a release is the rest of the tape before it. -/
theorem released_accepts (pinId : Int) (c : Conn) (n : Nat) :
    (c.released pinId).Accepts n ↔ (c.skip 1).Accepts n := by
  simp only [Conn.Accepts, Sql.Session.Accepts, Conn.released, Conn.skip, Conn.setSession,
    Sql.write_verdicts, Sql.write_block, Sql.Session.skip, Sql.Session.next, List.drop_one]
  cases c.client.session.block <;> simp

theorem released_idle (pinId : Int) {c : Conn} (idle : c.client.session.block = .idle) :
    (c.released pinId).client.session.block = .idle ∧
      (c.released pinId).client.session.durable.journal = c.client.session.durable.journal ∧
      (c.released pinId).durablePins = c.durablePins.filter (·.pinId ≠ pinId) := by
  simp [Conn.released, Conn.setSession, Conn.durablePins, Sql.Session.write, Sql.Session.view, idle]

/-- The ids a release loop passes to the client, each with whether its release returned. -/
def releases : List Int → Attached → List (Int × Bool)
  | [], _ => []
  | pinId :: rest, a =>
    match client (releasePin pinId) a with
    | .ok _ b => (pinId,true) :: releases rest b
    | .error _ _ => [(pinId,false)]

/-- The loop does what the releases it makes do. -/
theorem releaseEach_final (ids : List Int) (a : Attached) :
    Effect.final (releaseEach ids a) =
      (releases ids a).foldl (fun a r => Effect.final (client (releasePin r.1) a)) a := by
  induction ids generalizing a with
  | nil => rfl
  | cons id rest ih =>
    unfold releases releaseEach
    cases sent : client (releasePin id) a with
    | ok u b =>
      rw [Effect.bind_of_ok sent, ih, List.foldl_cons, sent]
      rfl
    | error e b =>
      rw [Effect.bind_of_error sent, List.foldl_cons, sent]
      rfl

theorem client_released {pinId : Int} {a : Attached} (accepted : a.conn.Accepts 1) :
    client (releasePin pinId) a = .ok () (a.withConn (a.conn.released pinId)) := by
  rw [client_apply, releasePin_accepted pinId accepted]

theorem client_refused (pinId : Int) {a : Attached} (refused : ¬a.conn.Accepts 1) :
    ∃ e, client (releasePin pinId) a = .error e (a.withConn (a.conn.refuse 1)) := by
  obtain ⟨e,failed⟩ := releasePin_refused pinId refused
  exact ⟨_,by rw [client_apply, failed]⟩

theorem releaseEach_returns (ids : List Int) (a : Attached) :
    Effect.Returned (releaseEach ids a) ↔ a.conn.Accepts ids.length := by
  induction ids generalizing a with
  | nil => simp [releaseEach, Effect.Returned]
  | cons id rest ih =>
    rw [List.length_cons, Nat.add_comm, accepts_add, releaseEach]
    by_cases accepted : a.conn.Accepts 1
    · rw [Effect.bind_of_ok (client_released accepted), ih, withConn_conn, released_accepts]
      simp only [accepted, true_and]
    · obtain ⟨e,failed⟩ := client_refused id accepted
      rw [Effect.bind_of_error failed]
      simp [Effect.Returned, accepted]

/-- Every id is passed on exactly when no release before the last is refused. -/
theorem releases_all (ids : List Int) (a : Attached) :
    (releases ids a).map Prod.fst = ids ↔ a.conn.Accepts (ids.length - 1) := by
  induction ids generalizing a with
  | nil => simp [releases]
  | cons id rest ih =>
    unfold releases
    cases rest with
    | nil => cases client (releasePin id) a <;> simp [releases]
    | cons next later =>
      have length : (id :: next :: later).length - 1 = 1 + ((next :: later).length - 1) := by
        simp only [List.length_cons]
        omega
      rw [length, accepts_add]
      by_cases accepted : a.conn.Accepts 1
      · have rest := ih (a.withConn (a.conn.released id))
        rw [withConn_conn, released_accepts] at rest
        rw [client_released accepted]
        simp only [List.map_cons, List.cons.injEq, true_and, rest, accepted]
      · obtain ⟨e,failed⟩ := client_refused id accepted
        rw [failed]
        simp [accepted]

theorem releases_prefix (ids : List Int) (a : Attached) :
    (releases ids a).map Prod.fst <+: ids := by
  induction ids generalizing a with
  | nil => exact List.nil_prefix
  | cons id rest ih =>
    unfold releases
    cases client (releasePin id) a with
    | ok u b => exact List.cons_prefix_cons.mpr ⟨rfl,ih b⟩
    | error e b => exact List.cons_prefix_cons.mpr ⟨rfl,List.nil_prefix⟩

/-- Outside a block the loop only takes pins away. -/
structure Sheds (a b : Attached) : Prop where
  block : b.conn.client.session.block = .idle
  journal : b.conn.client.session.durable.journal = a.conn.client.session.durable.journal
  issued : b.conn.client.issued = a.conn.client.issued
  pins : ∀ pin ∈ b.conn.durablePins, pin ∈ a.conn.durablePins

theorem releaseEach_sheds (ids : List Int) {a : Attached}
    (idle : a.conn.client.session.block = .idle) : Sheds a (Effect.final (releaseEach ids a)) := by
  induction ids generalizing a with
  | nil => exact ⟨idle,rfl,rfl,fun _ member => member⟩
  | cons id rest ih =>
    rw [releaseEach]
    by_cases accepted : a.conn.Accepts 1
    · obtain ⟨idle',journal,pins⟩ := released_idle id idle
      have later := ih (a := a.withConn (a.conn.released id)) idle'
      rw [Effect.bind_of_ok (client_released accepted)]
      refine ⟨later.block,later.journal.trans journal,later.issued,fun pin member => ?_⟩
      have kept := later.pins pin member
      rw [withConn_conn, pins] at kept
      exact (List.mem_filter.mp kept).1
    · obtain ⟨e,failed⟩ := client_refused id accepted
      obtain ⟨idle',durable⟩ := refuse_idle idle 1
      rw [Effect.bind_of_error failed]
      refine ⟨idle',congrArg Snapshot.journal durable,rfl,fun pin member => ?_⟩
      simpa [Conn.durablePins, durable] using member

theorem released_pins {pinId : Int} {c : Conn} (accepted : c.Accepts 1) :
    (c.released pinId).db.pins = c.db.pins.filter (·.pinId ≠ pinId) := by
  have live : c.client.session.next.block ≠ .aborted := accepted.1 (by omega)
  simp only [Conn.db, Conn.released, Conn.setSession, Sql.write_view _ _ live]

/-- A refused release shows the same pins as long as anything is shown. -/
theorem refuse_pins {c : Conn} (live : (c.refuse 1).client.session.block ≠ .aborted) :
    (c.refuse 1).db.pins = c.db.pins := by
  have idle : c.client.session.block = .idle := by
    cases block : c.client.session.block with
    | idle => rfl
    | «open» w => simp [Conn.refuse, Conn.setSession, Sql.Session.skip, block] at live
    | aborted => simp [Conn.refuse, Conn.setSession, Sql.Session.skip, block] at live
  simp [Conn.db, Conn.refuse, Conn.setSession, Sql.Session.skip, Sql.Session.view, idle]

theorem releaseEach_pins (ids : List Int) {a : Attached}
    (live : (Effect.final (releaseEach ids a)).conn.client.session.block ≠ .aborted) :
    ∀ pin ∈ (Effect.final (releaseEach ids a)).conn.db.pins, pin ∈ a.conn.db.pins := by
  induction ids generalizing a with
  | nil => exact fun _ member => member
  | cons id rest ih =>
    intro pin member
    rw [releaseEach] at live member
    by_cases accepted : a.conn.Accepts 1
    · rw [Effect.bind_of_ok (client_released accepted)] at live member
      have kept := ih live pin member
      rw [withConn_conn, released_pins accepted] at kept
      exact (List.mem_filter.mp kept).1
    · obtain ⟨e,failed⟩ := client_refused id accepted
      rw [Effect.bind_of_error failed] at live member
      rw [← refuse_pins live]
      exact member

/-- If all ids are passed on, a pin among them that the session still sees is one whose
release failed. -/
theorem releaseEach_left {ids : List Int} {a : Attached}
    (live : (Effect.final (releaseEach ids a)).conn.client.session.block ≠ .aborted)
    (all : (releases ids a).map Prod.fst = ids) {pin : Pin}
    (left : pin ∈ (Effect.final (releaseEach ids a)).conn.db.pins) (own : pin.pinId ∈ ids) :
    (pin.pinId,false) ∈ releases ids a := by
  induction ids generalizing a with
  | nil => cases own
  | cons id rest ih =>
    rw [releaseEach] at live left
    unfold releases at all ⊢
    by_cases accepted : a.conn.Accepts 1
    · rw [Effect.bind_of_ok (client_released accepted)] at live left
      rw [client_released accepted] at all ⊢
      have still := releaseEach_pins rest live pin left
      rw [withConn_conn, released_pins accepted] at still
      have apart : pin.pinId ≠ id := by simpa using (List.mem_filter.mp still).2
      have later : pin.pinId ∈ rest := (List.mem_cons.mp own).resolve_left apart
      have all : (releases rest (a.withConn (a.conn.released id))).map Prod.fst = rest := by
        simpa using all
      exact List.mem_cons_of_mem _ (ih live all left later)
    · obtain ⟨e,failed⟩ := client_refused id accepted
      rw [failed] at all ⊢
      have last : rest = [] := by simpa using all.symm
      rw [last] at own
      simpa using own

end Releases

section Commit

/-- The catalog before transaction `t`: nobody is in a transaction, the session is outside
a block, and nothing is recorded for `t`. -/
structure Resting (sys : System) (t : Nat) : Prop where
  inTxn : sys.conn.inTxn = false
  block : sys.conn.client.session.block = .idle
  transactions : ∀ u, sys.transactions u = none
  failed : sys.failed t = false
  journal : effects sys.journal t = []
  issued : effects sys.issued t = []

/-- A scan or a chunk of `t`. -/
def Event.Calls (t : Nat) : Event → Prop
  | .scan u .. | .chunk u .. => u = t
  | _ => False

/-- A lone transaction whose calls have all returned: before its first chunk the session is
outside a block, afterwards its block holds the effects issued for it. -/
structure Solo (t : Nat) (sys : System) (txn : TierDBTransaction) : Prop where
  found : sys.transactions t = some txn
  journal : effects sys.journal t = []
  phase : (txn.writeActive = false ∧ sys.conn.inTxn = false ∧
      sys.conn.client.session.block = .idle ∧ effects sys.issued t = []) ∨
    (txn.writeActive = true ∧ sys.conn.inTxn = true ∧
      ∃ w, sys.conn.client.session.block = .open w ∧
        effects w.journal t = effects sys.issued t)

theorem Resting.start {sys next : System} {t : Nat} (resting : Resting sys t)
    (taken : step core sys (.start t) = some next) : Solo t next {} := by
  obtain ⟨_,_,rfl⟩ := step_start taken
  exact ⟨by simp,resting.journal,.inl ⟨rfl,resting.inTxn,resting.block,resting.issued⟩⟩

theorem returned_of_unfailed {α : Type} {sys : System} {t : Nat}
    {result : EStateM.Result String Attached α}
    (unfailed : (sys.settleResult t result).failed t = false) :
    ∃ a b, result = .ok a b ∧ sys.settleResult t result = sys.settle t b := by
  cases result with
  | ok a b => exact ⟨a,b,rfl,rfl⟩
  | error e b => simp [System.settleResult] at unfailed

theorem Solo.scan {t : Nat} {sys next : System} {txn : TierDBTransaction} {ref : TableRef}
    {verdicts : List (Option String)} (solo : Solo t sys txn)
    (taken : step core sys (.scan t ref verdicts) = some next)
    (unfailed : next.failed t = false) : ∃ txn', Solo t next txn' := by
  obtain ⟨txn',found,_,rfl⟩ := step_scan taken
  obtain rfl := Option.some.inj (found.symm.trans solo.found)
  obtain ⟨pinned,b,ran,settled⟩ := returned_of_unfailed unfailed
  rw [settled]
  unfold getPinnedScan at ran
  rw [Effect.bind_of_ok (Effect.get_apply _)] at ran
  cases cached : (sys.enter t txn' verdicts []).txn.scanByTable.find? (·.1 = ref.tableId) with
  | some hit =>
    simp only [cached] at ran
    cases ran
    exact ⟨txn',by simp,solo.journal,solo.phase⟩
  | none =>
    simp only [cached] at ran
    obtain ⟨scan,m,acquired,ran⟩ := Effect.bind_ok.mp ran
    obtain ⟨got,m',called,made⟩ := Effect.bind_ok.mp acquired
    cases made
    obtain ⟨c,result,rfl⟩ := client_ok called
    have outside : sys.conn.inTxn = false → sys.conn.client.session.block = .idle := by
      intro clear
      rcases solo.phase with ⟨_,_,idle,_⟩ | ⟨_,set,_⟩
      · exact idle
      · simp [clear] at set
    have effect := acquireScan_pinned (c := (sys.enter t txn' verdicts []).conn) outside result
    obtain ⟨conn,active⟩ : b.conn = c ∧ b.txn.writeActive = txn'.writeActive := by
      split at ran <;> cases ran <;> exact ⟨rfl,rfl⟩
    have block := effect.block
    refine ⟨b.txn,by simp,?_,?_⟩
    · rcases solo.phase with ⟨_,_,idle,_⟩ | ⟨_,_,w,inside,_⟩
      · simp only [enter_block, idle] at block
        rw [System.journal, settle_conn, conn, block.2]
        exact solo.journal
      · simp only [enter_block, inside] at block
        rw [System.journal, settle_conn, conn, block.1]
        exact solo.journal
    · simp only [settle_conn, conn, active, System.issued, effect.inTxn, effect.issued]
      rcases solo.phase with ⟨off,clear,idle,none⟩ | ⟨on,set,w,inside,own⟩
      · simp only [enter_block, idle] at block
        exact .inl ⟨off,clear,block.1,none⟩
      · simp only [enter_block, inside] at block
        obtain ⟨_,w',inside',same⟩ := block
        exact .inr ⟨on,set,w',inside',by rw [same]; exact own⟩

theorem Solo.chunk {t : Nat} {sys next : System} {txn : TierDBTransaction} {kind : ChunkKind}
    {schema table : String} {rows : JsonText} {verdicts answers : List (Option String)}
    (solo : Solo t sys txn)
    (taken : step core sys (.chunk t kind schema table rows verdicts answers) = some next)
    (unfailed : next.failed t = false) : ∃ txn', Solo t next txn' := by
  obtain ⟨txn',found,_,rfl⟩ := step_chunk taken
  obtain rfl := Option.some.inj (found.symm.trans solo.found)
  obtain ⟨count,d,ran,settled⟩ := returned_of_unfailed unfailed
  rw [settled]
  obtain ⟨b,ctx,writes,outcome,begun,_,_,took,txn,_⟩ := sinkChunk_ok ran
  -- after the write has begun the session is inside the transaction's own block
  obtain ⟨active,set,author,journal,w,inside,own⟩ : b.txn.writeActive = true ∧
      b.conn.inTxn = true ∧ b.conn.client.author = t ∧
      effects b.conn.client.session.durable.journal t = [] ∧
      ∃ w, b.conn.client.session.block = .open w ∧
        effects w.journal t = effects b.conn.client.issued t := by
    rcases solo.phase with ⟨off,clear,idle,none⟩ | ⟨on,set,w,inside,own⟩
    · rcases ensureWriteTxn_idle (a := sys.enter t txn' verdicts answers) off clear idle with
        ⟨e,refused⟩ | opened
      · cases refused.symm.trans begun
      · cases opened.symm.trans begun
        exact ⟨rfl,rfl,rfl,solo.journal,_,rfl,solo.journal.trans none.symm⟩
    · rw [ensureWriteTxn_apply, if_pos (by simpa using on)] at begun
      cases begun
      exact ⟨on,set,rfl,solo.journal,w,inside,own⟩
  have moved := took.moved
  simp only [BlockMoves, inside, false_and, or_false] at moved
  obtain ⟨durable,w',inside',grew⟩ := moved
  refine ⟨d.txn,by simp,?_,.inr ⟨?_,?_,w',inside',?_⟩⟩
  · rw [System.journal, settle_conn, durable]
    exact journal
  · rw [txn]
    exact active
  · rw [settle_conn, took.inTxn]
    exact set
  · rw [grew.journal, System.issued, settle_conn, took.issued, author, effects_append,
      effects_append, own]

theorem Solo.calls {t : Nat} {sys mid : System} {txn : TierDBTransaction} {calls : List Event}
    (solo : Solo t sys txn) (own : ∀ e ∈ calls, e.Calls t)
    (ran : Runs.run (step core) sys calls = some mid) (unfailed : mid.failed t = false) :
    ∃ txn', Solo t mid txn' := by
  induction calls generalizing sys txn with
  | nil => cases ran; exact ⟨txn,solo⟩
  | cons e rest ih =>
    obtain ⟨next,taken,later⟩ := Runs.run_cons.mp ran
    have live := run_keeps_unfailed unfailed later
    have mine := own e List.mem_cons_self
    obtain ⟨txn',solo'⟩ : ∃ txn', Solo t next txn' := by
      cases e with
      | scan u ref verdicts =>
        obtain rfl : u = t := mine
        exact solo.scan taken live
      | chunk u kind schema table rows verdicts answers =>
        obtain rfl : u = t := mine
        exact solo.chunk taken live
      | start u => exact absurd mine id
      | commit u verdicts => exact absurd mine id
      | rollback u verdicts => exact absurd mine id
    exact ih solo' (fun f member => own f (List.mem_cons_of_mem _ member)) later

/-- The commit can be told by its result: a refused COMMIT had something to lose, and
behind an accepted one, or without one, no release is refused. -/
def HonestCommit (sys : System) (t : Nat) (verdicts : List (Option String)) : Prop :=
  ∃ txn, sys.transactions t = some txn ∧
    if txn.writeActive then
      if verdicts.head?.join.isSome then effects sys.issued t ≠ []
      else ∀ v ∈ verdicts.tail.take txn.pins.length, v = none
    else ∀ v ∈ verdicts.take txn.pins.length, v = none

/-- The result of a commit, by the result of its write's boundary. -/
theorem commitTransaction_result (a : Attached) :
    match commitWrite a with
    | .ok _ b => Effect.final (commitTransaction a) = Effect.final (releasePins b) ∧
        ((∃ d, commitTransaction a = .ok none d) ↔ Effect.Returned (releasePins b))
    | .error _ b => Effect.final (commitTransaction a) = Effect.final (releasePins b) ∧
        ¬∃ d, commitTransaction a = .ok none d := by
  have apply := commitTransaction_apply a
  cases wrote : commitWrite a with
  | ok u b => cases released : releasePins b <;> simp [apply, wrote, released, Effect.Returned]
  | error e b => cases released : releasePins b <;> simp [apply, wrote, released]

/-- The release of a transaction's pins outside a block. -/
theorem releasePins_idle {b : Attached} (idle : b.conn.client.session.block = .idle) :
    Sheds b (Effect.final (releasePins b)) ∧ (Effect.Returned (releasePins b) ↔
      ∀ v ∈ b.conn.client.session.verdicts.take b.txn.pins.length, v = none) := by
  rw [releasePins_apply, releaseEach_returns, forget_conn, accepts_idle idle]
  obtain ⟨idle',journal,issued,pins⟩ := releaseEach_sheds b.txn.pins (a := b.forget) idle
  exact ⟨⟨idle',journal,issued,pins⟩,.rfl⟩

/-- What a transaction's boundary made durable and issued, and when it reports no error. -/
structure Reports (a : Attached) (journal : List (Nat × Write)) (cleanly : Prop) : Prop where
  journal : (Effect.final (commitTransaction a)).conn.client.session.durable.journal = journal
  issued : (Effect.final (commitTransaction a)).conn.client.issued = a.conn.client.issued
  cleanly : (∃ d, commitTransaction a = .ok none d) ↔ cleanly

theorem commit_nothing {a : Attached} (off : a.txn.writeActive = false)
    (idle : a.conn.client.session.block = .idle) :
    Reports a a.conn.client.session.durable.journal
      (∀ v ∈ a.conn.client.session.verdicts.take a.txn.pins.length, v = none) := by
  have passed : commitWrite a = .ok () a := by simp [commitWrite_apply, off]
  have result := commitTransaction_result a
  rw [passed] at result
  obtain ⟨sheds,returns⟩ := releasePins_idle idle
  exact ⟨by rw [result.1, sheds.journal],by rw [result.1, sheds.issued],result.2.trans returns⟩

theorem commit_refused {a : Attached} (on : a.txn.writeActive = true) (inTxn : a.conn.inTxn = true)
    {e : String} (refused : a.conn.client.session.verdict = some e) :
    Reports a a.conn.client.session.durable.journal False := by
  have sent := commitWrite_active on inTxn
  have result := commitTransaction_result a
  rw [refused] at sent
  rw [sent] at result
  obtain ⟨sheds,_⟩ := releasePins_idle
    (b := (a.withConn (a.conn.setSession a.conn.client.session.leave)).active false) rfl
  exact ⟨by rw [result.1, sheds.journal]; rfl,by rw [result.1, sheds.issued]; rfl,
    iff_of_false result.2 id⟩

theorem commit_accepted {a : Attached} (on : a.txn.writeActive = true)
    (inTxn : a.conn.inTxn = true) (accepted : a.conn.client.session.verdict = none) :
    Reports a a.conn.client.session.view.journal
      (∀ v ∈ a.conn.client.session.verdicts.tail.take a.txn.pins.length, v = none) := by
  have sent := commitWrite_active on inTxn
  have result := commitTransaction_result a
  rw [accepted] at sent
  rw [sent] at result
  obtain ⟨sheds,returns⟩ := releasePins_idle (b := (a.withConn
    { a.conn.setSession { a.conn.client.session.leave with
        durable := a.conn.client.session.view } with inTxn := false }).active false) rfl
  exact ⟨by rw [result.1, sheds.journal]; rfl,by rw [result.1, sheds.issued]; rfl,
    result.2.trans returns⟩

theorem Solo.commit {t : Nat} {sys final : System} {txn : TierDBTransaction}
    {verdicts : List (Option String)} (solo : Solo t sys txn)
    (taken : step core sys (.commit t verdicts) = some final) :
    (final.ended t ≠ some .committed ↔ effects final.journal t ≠ effects final.issued t) ↔
      HonestCommit sys t verdicts := by
  obtain ⟨txn',ending,found,_,rfl,told,_⟩ := step_commit taken
  obtain rfl := Option.some.inj (found.symm.trans solo.found)
  -- What a way to end leaves behind decides the comparison.
  have compare : ∀ {journal cleanly}, Reports (sys.enter t txn' verdicts []) journal cleanly →
      (((sys.close t ending (Effect.final (commitTransaction
          (sys.enter t txn' verdicts [])))).ended t ≠ some .committed ↔
        effects (sys.close t ending (Effect.final (commitTransaction
          (sys.enter t txn' verdicts [])))).journal t ≠
        effects (sys.close t ending (Effect.final (commitTransaction
          (sys.enter t txn' verdicts [])))).issued t) ↔
        (¬cleanly ↔ effects journal t ≠ effects sys.issued t)) := by
    intro journal cleanly reports
    rw [close_ended, assign_same, Ne, Option.some.injEq, told, reports.cleanly, System.journal,
      System.issued, close_conn, reports.journal, reports.issued]
    rfl
  have empty : effects sys.conn.client.session.durable.journal t = [] := solo.journal
  rcases solo.phase with ⟨off,clear,idle,none⟩ | ⟨on,set,w,inside,own⟩
  · have issued : effects sys.issued t = [] := none
    rw [compare (commit_nothing off idle)]
    simp [HonestCommit, found, off, empty, issued]
  · have honest : HonestCommit sys t verdicts ↔ if verdicts.head?.join.isSome
        then effects sys.issued t ≠ [] else ∀ v ∈ verdicts.tail.take txn'.pins.length, v = none := by
      simp [HonestCommit, found, on]
    rw [honest]
    cases refusal : verdicts.head?.join with
    | some e =>
      rw [compare (commit_refused on set refusal), not_false_eq_true, true_iff]
      change effects sys.conn.client.session.durable.journal t ≠ effects sys.issued t ↔ _
      rw [empty, ne_comm]
      rfl
    | none =>
      rw [compare (commit_accepted on set refusal)]
      have view : effects (sys.enter t txn' verdicts []).conn.client.session.view.journal t =
          effects sys.issued t := by simpa [Sql.Session.view, inside] using own
      simp [view]

/-- A lone transaction whose calls returned: its commit reports an error exactly when its
writes are not durable, if and only if the commit is honest. -/
theorem commit_reports_fate_iff (core : Core) {sys mid final : System} {t : Nat}
    {calls : List Event} {verdicts : List (Option String)} (resting : Resting sys t)
    (own : ∀ e ∈ calls, e.Calls t)
    (ran : Runs.run (step core) sys (.start t :: calls) = some mid)
    (unfailed : mid.failed t = false)
    (ended : step core mid (.commit t verdicts) = some final) :
    (final.ended t ≠ some .committed ↔ effects final.journal t ≠ effects final.issued t) ↔
      HonestCommit mid t verdicts := by
  obtain ⟨next,started,later⟩ := Runs.run_cons.mp ran
  obtain ⟨txn,solo⟩ := (resting.start started).calls own later unfailed
  exact solo.commit ended

/-- An open transaction with no failed call can be committed. -/
theorem step_commit_some (core : Core) {sys : System} {t : Nat} {txn : TierDBTransaction}
    (found : sys.transactions t = some txn) (unfailed : sys.failed t = false)
    (verdicts : List (Option String)) : ∃ next, step core sys (.commit t verdicts) = some next := by
  simp only [step, found, unfailed, Option.bind_eq_bind, Option.bind_some, Bool.false_eq_true,
    if_false]
  split <;> exact ⟨_,rfl⟩

theorem Reference.system_resting (db : Database) (t : Nat) : Resting (system db) t :=
  ⟨rfl,rfl,fun _ => rfl,rfl,rfl,rfl⟩

/-- A scan, which pins, and a chunk. -/
def readAndWrite : List Event :=
  [.scan 1 readItems [],Reference.chunk 1 .insert [.object (Reference.item 1 20 0)]]

theorem readAndWrite_calls : ∀ e ∈ readAndWrite, e.Calls 1 := by
  simp [readAndWrite, Reference.chunk, Event.Calls]

def Reference.written : Option System :=
  Runs.run (step Reference.core) (system (database "tiered" 10 [])) (.start 1 :: readAndWrite)

theorem refused_commit_reported : ∃ mid final, Reference.written = some mid ∧
    step Reference.core mid (.commit 1 [some "connection lost"]) = some final ∧
    (final.ended 1 ≠ some .committed ↔ effects final.journal 1 ≠ effects final.issued 1) := by
  obtain ⟨mid,reached⟩ := Option.isSome_iff_exists.mp
    (show Reference.written.isSome = true by decide +kernel)
  have facts : Reference.written.map (fun s => (s.failed 1,(s.transactions 1).isSome,
      (s.transactions 1).map TierDBTransaction.writeActive,(effects s.issued 1).length)) =
      some (false,true,some true,1) := by decide +kernel
  simp only [reached, Option.map_some, Option.some.injEq, Prod.mk.injEq,
    Option.map_eq_some_iff] at facts
  obtain ⟨unfailed,_,⟨txn,found,active⟩,one⟩ := facts
  obtain ⟨final,taken⟩ := step_commit_some Reference.core found unfailed
    [some "connection lost"]
  refine ⟨mid,final,reached,taken,?_⟩
  refine (commit_reports_fate_iff Reference.core (Reference.system_resting _ 1) readAndWrite_calls
    reached unfailed taken).mpr ⟨txn,found,?_⟩
  rw [if_pos active]
  exact fun none => by simp [none] at one

/-- COMMIT is accepted and the release behind it refused: an error for durable writes. -/
theorem durable_commit_reports_error : ¬∀ core sys mid final t calls verdicts, Resting sys t →
    (∀ e ∈ calls, Event.Calls t e) → Runs.run (step core) sys (.start t :: calls) = some mid →
    mid.failed t = false → step core mid (.commit t verdicts) = some final →
    (final.ended t ≠ some .committed ↔ effects final.journal t ≠ effects final.issued t) := by
  intro claim
  have reached : Reference.written.map (fun s => (s.failed 1,(s.transactions 1).map fun txn =>
      (txn.writeActive,txn.pins))) = some (false,some (true,[1])) := by decide +kernel
  obtain ⟨mid,ran,facts⟩ := Option.map_eq_some_iff.mp reached
  simp only [Prod.mk.injEq, Option.map_eq_some_iff] at facts
  obtain ⟨unfailed,txn,found,active,pins⟩ := facts
  obtain ⟨final,taken⟩ := step_commit_some Reference.core found unfailed
    [none,some "connection lost"]
  have told := claim Reference.core _ mid final 1 readAndWrite _ (Reference.system_resting _ 1)
    readAndWrite_calls ran unfailed taken
  obtain ⟨next,started,later⟩ := Runs.run_cons.mp ran
  obtain ⟨_,solo⟩ := ((Reference.system_resting _ 1).start started).calls readAndWrite_calls later
    unfailed
  obtain ⟨txn',found',honest⟩ := (solo.commit taken).mp told
  obtain rfl := Option.some.inj (found.symm.trans found')
  simp [active, pins] at honest

end Commit

end TierDb
