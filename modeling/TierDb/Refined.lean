import TierDb.Library.Transactions
import TierDb.Atomicity
import TierDb.Calls
import TierDb.Relational
import TierDb.Repinned
import TierDb.Untouched

/-! A tiered table as a transactional store. The rows its stored state shows are those of an
abstract store that takes the changes of a transaction when the server takes its COMMIT. -/
namespace TierDb

open Transactions Layout

namespace Layout

section Events

variable (core : Core) (layout : Layout)

/-- The assignments a chunk call makes to the table; on another table it makes none. -/
def changes (kind : ChunkKind) (schema table : String) (rows : JsonText) :
    List (Slot × Option Fields) :=
  if schema = layout.schema ∧ table = layout.name then
    match chunkRows kind rows with
    | .ok (removed,written) => chunkSteps core layout removed written
    | .error _ => []
  else []

/-- What a call is to the store. COMMIT is the first statement of the call that sends it. -/
def actions (c : Calls) : Call → List (Action Fields Slot)
  | .start _ | .scan .. | .sink .. => []
  | .commit t verdicts => [if verdicts.head?.join = none then .commit t else .undo t]
  | .rollback t _ => [.undo t]
  | .resume t _ _ => match c.pending t with
    | some (.chunk kind schema table rows) => [.change t (layout.changes core kind schema table rows)]
    | some (.lake ..) | some (.release ..) | none => []

/-- The images a chunk call writes. -/
def images (kind : ChunkKind) (rows : JsonText) : List Json :=
  match chunkRows kind rows with
  | .ok (_,written) => written
  | .error _ => []

/-- No primary-key value of an image is an array or an object. -/
def ScalarImages (kind : ChunkKind) (rows : JsonText) : Prop :=
  ∀ image ∈ images kind rows, layout.Scalar (normalized core layout image)

instance (row : Json) : Decidable (layout.Scalar row) :=
  inferInstanceAs (Decidable (∀ column ∈ layout.pkCols, _))

instance (kind : ChunkKind) (rows : JsonText) : Decidable (layout.ScalarImages core kind rows) :=
  inferInstanceAs (Decidable (∀ image ∈ images kind rows, _))

/-- A sink of the table is given scalar keys. -/
def ScalarCall : Call → Prop
  | .sink _ kind schema table rows _ =>
    schema = layout.schema → table = layout.name → layout.ScalarImages core kind rows
  | _ => True

instance (call : Call) : Decidable (layout.ScalarCall core call) :=
  match call with
  | .sink _ kind schema table rows _ => inferInstanceAs (Decidable
      (schema = layout.schema → table = layout.name → layout.ScalarImages core kind rows))
  | .start _ | .scan .. | .commit .. | .rollback .. | .resume .. => isTrue trivial

end Events

/-- A database with the tiered table, whose merged read returns these rows. -/
structure Shows (core : Core) (layout : Layout) (lake : Lake) (rows : List Fields)
    (db : Database) : Prop where
  describes : layout.Describes core db "tiered"
  sound : layout.Sound core db
  rows : (layout.merged core db lake).Perm rows

/-- The table is the only one with its id as well. -/
structure Hosts (core : Core) (layout : Layout) (lake : Lake) (rows : List Fields)
    (db : Database) : Prop extends layout.Shows core lake rows db where
  ownsId : layout.OwnsId db

/-- Every row that a chunk names or writes has a slot. -/
def Slotted (core : Core) (layout : Layout) (kind : ChunkKind) (rowsJson : JsonText) : Prop :=
  ∀ removed written, chunkRows kind rowsJson = .ok (removed,written) →
    (∀ row ∈ removed, (layout.slotOf core row).isSome) ∧
      ∀ image ∈ written, (layout.slot core (landed core layout image)).isSome

section Shows

variable {core : Core} {layout : Layout} {lake : Lake} {rows : List Fields}

theorem Shows.same {a b : Database} (shows : layout.Shows core lake rows a)
    (same : layout.SameTable a b) : layout.Shows core lake rows b where
  describes := same.describes shows.describes
  sound := same.sound shows.sound
  rows := by
    rw [same.merged]
    exact shows.rows

theorem Hosts.same {a b : Database} (hosts : layout.Hosts core lake rows a)
    (same : layout.SameTable a b) : layout.Hosts core lake rows b :=
  ⟨hosts.toShows.same same,same.ownsId hosts.ownsId⟩

/-- Pins are no part of a table. -/
theorem Hosts.repinned {a b : Snapshot} (hosts : layout.Hosts core lake rows a.database)
    (same : SameData a b) : layout.Hosts core lake rows b.database := by
  obtain ⟨pins,rfl⟩ := same
  exact hosts.same ⟨rfl,rfl,rfl,rfl⟩

/-- A chunk call on the table that returned changed the shown rows as its assignments say,
and has no lake statement. -/
theorem Shows.chunk {kind : ChunkKind} {rowsJson : JsonText} {c d : Conn} {outcome : ChunkOutcome}
    (shows : layout.Shows core lake rows c.db) (scalar : layout.ScalarImages core kind rowsJson)
    (returned : chunkFunction core kind layout.schema layout.name rowsJson c = .ok outcome d) :
    layout.Shows core lake (Keyed.assignAll (layout.slot core)
        (layout.changes core kind layout.schema layout.name rowsJson) rows) d.db ∧
      outcome.lakeSql = [] ∧ Slotted core layout kind rowsJson := by
  obtain ⟨ctx,writes,found,made,took⟩ := chunkFunction_ok returned
  obtain ⟨removed,written,_,_,_,_,read,_⟩ := planChunk_parts made
  have scalars : ∀ image ∈ written, layout.Scalar (normalized core layout image) := by
    simpa [ScalarImages, images, read] using scalar
  have keyed := chunk_keyed (shows.describes.tiered found) shows.describes.shaped read scalars
    made took.ran
  obtain ⟨noLake,describes,sound,removes,places,moved⟩ :=
    chunk_took shows.describes shows.sound read keyed found made took lake
  refine ⟨⟨describes,sound,?_⟩,noLake,fun removed' written' read' => ?_⟩
  · simp only [changes, and_self, if_true, read]
    exact moved.trans (Keyed.assignAll_perm shows.rows)
  · rw [read] at read'
    cases read'
    exact ⟨removes,places⟩

/-- A chunk call on any table. -/
theorem Hosts.chunk {kind : ChunkKind} {schema table : String} {rowsJson : JsonText} {c d : Conn}
    {outcome : ChunkOutcome} (hosts : layout.Hosts core lake rows c.db)
    (scalar : schema = layout.schema → table = layout.name →
      layout.ScalarImages core kind rowsJson)
    (returned : chunkFunction core kind schema table rowsJson c = .ok outcome d) :
    layout.Hosts core lake (Keyed.assignAll (layout.slot core)
      (layout.changes core kind schema table rowsJson) rows) d.db := by
  by_cases here : schema = layout.schema ∧ table = layout.name
  · obtain ⟨rfl,rfl⟩ := here
    obtain ⟨_,_,_,_,took⟩ := chunkFunction_ok returned
    refine ⟨(hosts.toShows.chunk (scalar rfl rfl) returned).1,?_⟩
    rw [OwnsId, took.catalog.tables]
    exact hosts.ownsId
  · have apart : schema = layout.schema → table ≠ layout.name := fun s t => here ⟨s,t⟩
    simp only [changes, here, if_false, Keyed.assignAll_nil]
    exact hosts.same (chunk_sameTable hosts.ownsId apart returned)

end Shows

end Layout

/-- The open block shows these rows, unless a call of its transaction has failed. -/
def OwnCopy (core : Core) (layout : Layout) (lake : Lake) (rows : List Fields) (failed : Prop)
    (s : Sql.Session Snapshot Int) : Prop :=
  (∃ w, s.block = .open w ∧ layout.Hosts core lake rows w.database) ∨ (s.InBlock ∧ failed)

/-- The stored state shows what the store has stored, and the open block of the one writing
transaction what it sees there. -/
structure Refined (core : Core) (layout : Layout) (lake : Lake) (sys : System)
    (store : Store Fields Slot) : Prop where
  durable : layout.Hosts core lake store.stored sys.durable
  block : (sys.conn.client.session.block = .idle ∧ ∀ t, ¬sys.Writing t) ∨
    (∃ t, sys.Writing t ∧ (∀ u, sys.Writing u → u = t) ∧ sys.conn.inTxn = true ∧
      OwnCopy core layout lake (store.seen (layout.slot core) t) (sys.failed t = true)
        sys.conn.client.session)
  silent : ∀ t, ¬sys.Writing t → sys.failed t = false → store.pending t = []

section Steps

variable {core : Core} {layout : Layout} {lake : Lake} {sys next : System}
  {store : Store Fields Slot} {t : Nat} {txn : TierDBTransaction}

theorem OwnCopy.inBlock {rows : List Fields} {failed : Prop} {s : Sql.Session Snapshot Int}
    (own : OwnCopy core layout lake rows failed s) : s.InBlock := by
  rcases own with ⟨w,inside,_⟩ | ⟨inside,_⟩
  · simp [Sql.Session.InBlock, inside]
  · exact inside

theorem Refined.outside (refined : Refined core layout lake sys store)
    (out : ¬sys.conn.client.session.InBlock) :
    sys.conn.client.session.block = .idle ∧ ∀ u, ¬sys.Writing u := by
  rcases refined.block with idle | ⟨u,_,_,_,own⟩
  · exact idle
  · exact absurd own.inBlock out

/-- A writing transaction with no failed call has the connection's flag and the block. -/
theorem Refined.inside (refined : Refined core layout lake sys store) (writing : sys.Writing t) :
    (∀ u, sys.Writing u → u = t) ∧ sys.conn.inTxn = true ∧
      OwnCopy core layout lake (store.seen (layout.slot core) t) (sys.failed t = true)
        sys.conn.client.session := by
  rcases refined.block with ⟨_,none⟩ | ⟨u,_,only,inTxn,own⟩
  · exact absurd writing (none t)
  · obtain rfl : t = u := only t writing
    exact ⟨only,inTxn,own⟩

/-- A transaction that starts writes nothing yet. -/
theorem writing_starts (free : sys.transactions t = none) (u : Nat) :
    System.Writing { sys with transactions := assign sys.transactions t (some {}) } u ↔
      sys.Writing u := by
  by_cases same : u = t
  · subst same
    simp [System.Writing, free]
  · exact writing_assign_other same

/-- One that scans writes no more than before. -/
theorem writing_scans (core : Core) (found : sys.transactions t = some txn) (ref : TableRef)
    (verdicts : List (Option String)) (u : Nat) :
    (sys.settleResult t (getPinnedScan core ref (sys.enter t txn verdicts []))).Writing u ↔
      sys.Writing u := by
  have flags := (getPinnedScan_pins core ref (sys.enter t txn verdicts [])).2.1
  rw [writing_settleResult]
  split
  · rename_i same
    subst same
    simp [System.Writing, found, flags]
  · rfl

theorem Refined.starts (refined : Refined core layout lake sys store)
    (free : sys.transactions t = none) : Refined core layout lake
      { sys with transactions := assign sys.transactions t (some {}) } store := by
  have writing := writing_starts free
  refine ⟨refined.durable,?_,fun u passive => refined.silent u (mt (writing u).mpr passive)⟩
  simpa only [writing] using refined.block

/-- A call of `t` keeps the invariant if it keeps the stored state and leaves the block with
its owner. -/
theorem Refined.settle {α : Type} {result : EStateM.Result String Attached α}
    {after : Store Fields Slot} (refined : Refined core layout lake sys store)
    (durable : layout.Hosts core lake after.stored
      (Effect.final result).conn.client.session.durable.database)
    (pending : ∀ u, u ≠ t → after.pending u = store.pending u)
    (silent : (Effect.final result).txn.writeActive = false →
      (sys.settleResult t result).failed t = false → after.pending t = [])
    (block : ((Effect.final result).conn.client.session.block = .idle ∧
        ∀ u, ¬(sys.settleResult t result).Writing u) ∨
      (∃ u, (sys.settleResult t result).Writing u ∧
        (∀ v, (sys.settleResult t result).Writing v → v = u) ∧
        (Effect.final result).conn.inTxn = true ∧
        OwnCopy core layout lake (after.seen (layout.slot core) u)
          ((sys.settleResult t result).failed u = true)
          (Effect.final result).conn.client.session)) :
    Refined core layout lake (sys.settleResult t result) after := by
  refine ⟨by simpa [System.durable] using durable,by simpa using block,fun u passive live => ?_⟩
  by_cases same : u = t
  · subst same
    rw [writing_settleResult] at passive
    exact silent (by simpa using passive) live
  · rw [writing_settleResult, if_neg same] at passive
    rw [pending u same]
    refine refined.silent u passive ?_
    cases before : sys.failed u with
    | false => rfl
    | true => simp [settleResult_keeps_failed before] at live

/-- What a call does without the connection, as its lake statements, keeps the invariant,
whether it throws or not. -/
theorem Refined.aside {α : Type} {a : Attached}
    (refined : Refined core layout lake (sys.settle t a) store)
    (result : EStateM.Result String Attached α) (conn : (Effect.final result).conn = a.conn)
    (same : (Effect.final result).txn = a.txn) :
    Refined core layout lake (sys.settleResult t result) store := by
  have writing (u : Nat) :
      (sys.settleResult t result).Writing u ↔ (sys.settle t a).Writing u := by
    simp [System.Writing, same]
  have failed {u : Nat} (failed : (sys.settle t a).failed u = true) :
      (sys.settleResult t result).failed u = true := settleResult_keeps_failed failed
  refine ⟨by simpa [System.durable, conn] using refined.durable,?_,fun u passive live => ?_⟩
  · rw [settleResult_conn, conn]
    refine refined.block.imp (fun idle => ⟨idle.1,fun u => mt (writing u).mp (idle.2 u)⟩) ?_
    rintro ⟨u,writes,only,inTxn,own⟩
    exact ⟨u,(writing u).mpr writes,fun v w => only v ((writing v).mp w),inTxn,
      own.imp_right fun broken => ⟨broken.1,failed broken.2⟩⟩
  · refine refined.silent u (mt (writing u).mpr passive) ?_
    by_contra thrown
    simp [failed (by simpa using thrown)] at live

theorem Refined.entered (refined : Refined core layout lake sys store)
    (found : sys.transactions t = some txn) (verdicts answers : List (Option String)) :
    Refined core layout lake (sys.settle t (sys.enter t txn verdicts answers)) store := by
  have writing (u : Nat) :
      (sys.settle t (sys.enter t txn verdicts answers)).Writing u ↔ sys.Writing u := by
    simp [System.Writing, assign_self found]
  refine ⟨refined.durable,?_,fun u passive => refined.silent u (mt (writing u).mpr passive)⟩
  refine refined.block.imp (fun idle => ⟨idle.1,fun u => mt (writing u).mp (idle.2 u)⟩) ?_
  rintro ⟨u,writes,only,inTxn,own⟩
  exact ⟨u,(writing u).mpr writes,fun v w => only v ((writing v).mp w),inTxn,own⟩

theorem Refined.scans (refined : Refined core layout lake sys store)
    (found : sys.transactions t = some txn) (live : sys.failed t = false)
    (own : sys.conn.client.session.InBlock → sys.Writing t) (ref : TableRef)
    (verdicts : List (Option String)) : Refined core layout lake
      (sys.settleResult t (getPinnedScan core ref (sys.enter t txn verdicts []))) store := by
  have writes := writing_scans core found ref verdicts
  have flags := (getPinnedScan_pins core ref (sys.enter t txn verdicts [])).2.1
  have silent (quiet : txn.writeActive = false) : store.pending t = [] := by
    refine refined.silent t ?_ live
    simp [System.Writing, found, quiet]
  have shown : ∀ {b : Snapshot}, SameData sys.conn.client.session.durable b →
      layout.Hosts core lake store.stored b.database := fun same => refined.durable.repinned same
  generalize result : getPinnedScan core ref (sys.enter t txn verdicts []) = outcome at *
  by_cases writing : sys.Writing t
  · obtain ⟨only,inTxn,block⟩ := refined.inside writing
    have scan := getPinnedScan_repins core ref (a := sys.enter t txn verdicts []) (.inl inTxn)
    simp only [OwnCopy, live, Bool.false_eq_true, and_false, or_false] at block
    obtain ⟨w,inside,shows⟩ := block
    have keeps {aborts : Prop} (moved : Repins aborts (sys.enter t txn verdicts []).conn
        (Effect.final outcome).conn) (failed : aborts → (sys.settleResult t outcome).failed t = true) :
        Refined core layout lake (sys.settleResult t outcome) store := by
      obtain ⟨durable,copy⟩ := moved.inside inside
      refine refined.settle (durable ▸ refined.durable) (fun _ _ => rfl)
        (fun quiet _ => silent (by simpa [flags] using quiet))
        (.inr ⟨t,(writes t).mpr writing,fun u w => only u ((writes u).mp w),
          moved.inTxn.trans inTxn,?_⟩)
      rcases copy with ⟨w',still,same⟩ | ⟨cause,aborted⟩
      · exact .inl ⟨w',still,shows.repinned same⟩
      · exact .inr ⟨by simp [Sql.Session.InBlock, aborted],failed cause⟩
    rw [result] at scan
    cases outcome with
    | ok pinned b => exact keeps scan False.elim
    | error e b => exact keeps scan fun _ => by simp [System.settleResult]
  · obtain ⟨idle,none⟩ := refined.outside (mt own writing)
    have scan := getPinnedScan_repins core ref (a := sys.enter t txn verdicts []) (.inr idle)
    have keeps {aborts : Prop} (moved : Repins aborts (sys.enter t txn verdicts []).conn
        (Effect.final outcome).conn) : Refined core layout lake (sys.settleResult t outcome) store := by
      obtain ⟨out,same⟩ := moved.idle idle
      exact refined.settle (shown same) (fun _ _ => rfl)
        (fun quiet _ => silent (by simpa [flags] using quiet))
        (.inl ⟨out,fun u w => none u ((writes u).mp w)⟩)
    rw [result] at scan
    cases outcome with
    | ok pinned b => exact keeps scan
    | error e b => exact keeps scan

/-- With the flag clear or its own, a sink either fails to begin and leaves the session idle,
or goes on in a block that shows what the store shows its transaction. -/
theorem Refined.begins (refined : Refined core layout lake sys store)
    (found : sys.transactions t = some txn) (live : sys.failed t = false)
    (flag : sys.conn.inTxn = true → sys.Writing t) (verdicts answers : List (Option String)) :
    Refined core layout lake
        (sys.settleResult t (ensureWriteTxn (sys.enter t txn verdicts answers))) store ∧
      ∀ b, ensureWriteTxn (sys.enter t txn verdicts answers) = .ok () b →
        b.txn.writeActive = true := by
  by_cases writing : sys.Writing t
  · obtain ⟨txn',found',active⟩ := writing
    obtain rfl : txn = txn' := Option.some.inj (found.symm.trans found')
    have skipped : ensureWriteTxn (sys.enter t txn verdicts answers) =
        .ok () (sys.enter t txn verdicts answers) := by
      rw [ensureWriteTxn_apply, if_pos (by simpa using active)]
    rw [skipped]
    exact ⟨refined.entered found verdicts answers,fun b begun => by cases begun; exact active⟩
  · have clear : sys.conn.inTxn = false := by simpa using mt flag writing
    have quiet : txn.writeActive = false := by
      simpa [System.Writing, found] using writing
    obtain ⟨idle,none⟩ : sys.conn.client.session.block = .idle ∧ ∀ u, ¬sys.Writing u := by
      rcases refined.block with idle | ⟨_,_,_,set,_⟩
      · exact idle
      · simp [clear] at set
    have begins := ensureWriteTxn_idle (a := sys.enter t txn verdicts answers) quiet clear idle
    rcases begins with ⟨e,refused⟩ | begun
    · rw [refused]
      refine ⟨refined.settle refined.durable (fun _ _ => rfl)
        (fun _ unfailed => by simp [System.settleResult] at unfailed)
        (.inl ⟨idle,fun u => ?_⟩),by simp⟩
      rw [writing_settleResult]
      split
      · simp [quiet]
      · exact none u
    · rw [begun]
      refine ⟨refined.settle refined.durable (fun _ _ => rfl) (fun quiet _ => by cases quiet)
        (.inr ⟨t,by simp [writing_settleResult],fun u writes => ?_,rfl,.inl ⟨_,rfl,?_⟩⟩),
        fun b begun => by cases begun; rfl⟩
      · rw [writing_settleResult] at writes
        split at writes
        · assumption
        · exact absurd writes (none u)
      · rw [seen_idle (refined.silent t writing live)]
        exact refined.durable

/-- The chunk function of a sink that has begun. -/
theorem Refined.sends {kind : ChunkKind} {schema table : String} {rows : JsonText}
    (refined : Refined core layout lake sys store)
    (scalar : schema = layout.schema → table = layout.name → layout.ScalarImages core kind rows)
    (found : sys.transactions t = some txn) (live : sys.failed t = false)
    (active : txn.writeActive = true) (verdicts answers : List (Option String)) :
    Refined core layout lake
      (sys.settleResult t (client (chunkFunction core kind schema table rows)
        (sys.enter t txn verdicts answers)))
      (store.act (layout.slot core) (.change t (layout.changes core kind schema table rows))) := by
  obtain ⟨only,inTxn,own⟩ := refined.inside ⟨txn,found,active⟩
  simp only [OwnCopy, live, Bool.false_eq_true, and_false, or_false] at own
  obtain ⟨w,inside,shows⟩ := own
  have pending : ∀ u, u ≠ t → (store.act (layout.slot core)
      (.change t (layout.changes core kind schema table rows))).pending u = store.pending u :=
    fun u apart => setPending_other _ _ _ apart
  have framed := (chunkFunction_sent core kind schema table rows).framed
  rw [client_apply]
  have keeps {aborts : Prop} {result : EStateM.Result String Attached ChunkOutcome}
      (same : (Effect.final result).txn = txn)
      (sends : Sends core aborts (sys.enter t txn verdicts answers).conn (Effect.final result).conn)
      (own : OwnCopy core layout lake ((store.act (layout.slot core)
          (.change t (layout.changes core kind schema table rows))).seen (layout.slot core) t)
        ((sys.settleResult t result).failed t = true)
        (Effect.final result).conn.client.session) :
      Refined core layout lake (sys.settleResult t result) (store.act (layout.slot core)
        (.change t (layout.changes core kind schema table rows))) := by
    have active' : (Effect.final result).txn.writeActive = true := by rw [same]; exact active
    have writes (u : Nat) : (sys.settleResult t result).Writing u ↔ u = t := by
      rw [writing_settleResult]
      split
      · simp [*]
      · exact ⟨only u,fun h => absurd h ‹_›⟩
    have stored := (sends.hidden inside).durable
    exact refined.settle (stored ▸ refined.durable) pending
      (fun quiet _ => by simp [active'] at quiet)
      (.inr ⟨t,(writes t).mpr rfl,fun u w => (writes u).mp w,sends.inTxn.trans inTxn,own⟩)
  cases ran : chunkFunction core kind schema table rows (sys.enter t txn verdicts answers).conn with
  | ok outcome d =>
    have sends := framed.ok _ _ _ ran
    obtain ⟨w',still,_⟩ := sends.inside inside
    have view : (sys.enter t txn verdicts answers).conn.db = w.database := by
      simp [Conn.db, Sql.Session.view, inside]
    have view' : d.db = w'.database := by simp [Conn.db, Sql.Session.view, still]
    rw [← view] at shows
    refine keeps rfl sends (.inl ⟨w',still,?_⟩)
    rw [seen_change, ← view']
    exact shows.chunk scalar ran
  | error e d =>
    have sends := framed.error _ _ _ ran
    refine keeps rfl sends (.inr ⟨?_,by simp [System.settleResult]⟩)
    obtain ⟨_,_,moved⟩ := sends.sent
    simp only [BlockMoves, enter_block, inside] at moved
    rcases moved.2 with ⟨_,still,_⟩ | ⟨_,aborted⟩
    · simp [Sql.Session.InBlock, still]
    · simp [Sql.Session.InBlock, aborted]

/-- The end of the write of `t`: a COMMIT that the server takes stores its changes, anything
else drops them. -/
theorem Refined.leaves (refined : Refined core layout lake sys store) (commits : Bool)
    (verdicts : List (Option String)) (found : sys.transactions t = some txn)
    (live : commits = true → sys.failed t = false) :
    Refined core layout lake
      (sys.settle t (endWrite commits (sys.enter t txn verdicts [])).forget)
      (store.act (layout.slot core)
        (if commits = true ∧ verdicts.head?.join = none then .commit t else .undo t)) := by
  obtain ⟨after,acted⟩ : ∃ after, store.act (layout.slot core)
    (if commits = true ∧ verdicts.head?.join = none then .commit t else .undo t) = after := ⟨_,rfl⟩
  have pending : ∀ u, u ≠ t → after.pending u = store.pending u := by
    intro u apart
    rw [← acted]
    split <;> simp [Store.act, apart]
  have ended : after.pending t = [] := by
    rw [← acted]
    split <;> simp [Store.act]
  have quiet := endWrite_quiet commits (sys.enter t txn verdicts [])
  have writes (u : Nat) :
      (sys.settle t (endWrite commits (sys.enter t txn verdicts [])).forget).Writing u ↔
        u ≠ t ∧ sys.Writing u := by
    by_cases same : u = t
    · subst same
      simp [System.Writing, Attached.forget, quiet]
    · simp [System.Writing, same]
  rw [acted]
  by_cases writing : sys.Writing t
  · obtain ⟨only,inTxn,copy⟩ := refined.inside writing
    obtain ⟨txn',found',active⟩ := writing
    obtain rfl : txn = txn' := Option.some.inj (found.symm.trans found')
    obtain ⟨idle,stored⟩ :=
      endWrite_active (a := sys.enter t txn verdicts []) active inTxn commits
    show Refined core layout lake (sys.settleResult t (.ok () _)) after
    refine refined.settle ?_ pending (fun _ _ => ended)
      (.inl ⟨idle,fun u w => ((writes u).mp w).1 (only u ((writes u).mp w).2)⟩)
    have verdict : (sys.enter t txn verdicts []).conn.client.session.verdict =
      verdicts.head?.join := rfl
    rw [Effect.final_ok, forget_conn, stored, verdict, ← acted]
    by_cases taken : commits = true ∧ verdicts.head?.join = none
    · simp only [OwnCopy, live taken.1, Bool.false_eq_true, and_false, or_false] at copy
      obtain ⟨w,inside,shows⟩ := copy
      have view : (sys.enter t txn verdicts []).conn.client.session.view = w := by
        simp [Sql.Session.view, inside]
      rw [if_pos taken, if_pos taken, view]
      exact shows
    · rw [if_neg taken, if_neg taken]
      exact refined.durable
  · have stored : after.stored = store.stored := by
      rw [← acted]
      split
      · rename_i taken
        exact seen_idle (refined.silent t writing (live taken.1))
      · rfl
    have seen : ∀ u, u ≠ t → after.seen (layout.slot core) u = store.seen (layout.slot core) u :=
      fun u apart => by simp only [Store.seen, pending u apart, stored]
    have unsent : endWrite commits (sys.enter t txn verdicts []) = sys.enter t txn verdicts [] :=
      (endTransaction_final (by simpa [System.Writing, found] using writing) commits).1
    rw [unsent] at writes ⊢
    show Refined core layout lake (sys.settleResult t (.ok () _)) after
    refine refined.settle (stored ▸ refined.durable) pending
      (fun _ _ => ended) (refined.block.imp
        (fun idle => ⟨idle.1,fun u w => idle.2 u ((writes u).mp w).2⟩) ?_)
    rintro ⟨u,writing',only,inTxn,copy⟩
    have apart : u ≠ t := fun same => writing (same ▸ writing')
    exact ⟨u,(writes u).mpr ⟨apart,writing'⟩,fun v w => only v ((writes v).mp w).2,inTxn,
      by rw [seen u apart]; exact copy⟩

/-- A release outside every block. -/
theorem Refined.releases {a : Attached} (refined : Refined core layout lake sys store)
    (idle : sys.conn.client.session.block = .idle) (found : sys.transactions t = some txn)
    (same : a.txn = txn) (moved : Repins True sys.conn a.conn) :
    Refined core layout lake (sys.settle t a) store := by
  obtain ⟨idle',shown⟩ := moved.idle idle
  have none := (refined.outside (by simp [Sql.Session.InBlock, idle])).2
  have kept : assign sys.transactions t (some a.txn) = sys.transactions :=
    assign_self (same ▸ found)
  refine ⟨refined.durable.repinned shown,.inl ⟨idle',?_⟩,?_⟩
  · simpa [System.settle, System.Writing, kept] using none
  · simpa [System.settle, System.Writing, kept] using refined.silent

/-- The return of a boundary. -/
theorem Refined.returns {a : Attached} {ending : Ending}
    (refined : Refined core layout lake sys store) (passive : ¬sys.Writing t)
    (conn : a.conn = sys.conn) : Refined core layout lake (sys.close t ending a) store := by
  have writes (u : Nat) : (sys.close t ending a).Writing u ↔ sys.Writing u :=
    writing_close.trans ⟨And.right,fun w => ⟨fun same => passive (same ▸ w),w⟩⟩
  refine ⟨by simpa [System.durable, conn] using refined.durable,?_,
    fun u quiet => refined.silent u (mt (writes u).mpr quiet)⟩
  simpa only [writes, close_conn, close_failed, conn] using refined.block

end Steps

section Calls

variable {core : Core} {layout : Layout} {lake : Lake} {c next : Calls} {store : Store Fields Slot}
  {t : Nat}

/-- No scan and no release comes while the block of another transaction is open, and a sink
begins only while the connection's write flag is clear or its own. -/
def Calls.Apart (c : Calls) : Call → Prop
  | .scan t _ _ => c.sys.conn.client.session.InBlock → c.sys.Writing t
  | .sink t .. => c.sys.conn.inTxn = true → c.sys.Writing t
  | .resume t _ _ => ∀ ending id rest, c.pending t = some (.release ending (id :: rest)) →
    ¬c.sys.conn.client.session.InBlock
  | .start _ | .commit .. | .rollback .. => True

instance (c : Calls) (call : Call) : Decidable (c.Apart call) :=
  match call with
  | .scan t _ _ =>
    inferInstanceAs (Decidable (c.sys.conn.client.session.InBlock → c.sys.Writing t))
  | .sink t .. => inferInstanceAs (Decidable (c.sys.conn.inTxn = true → c.sys.Writing t))
  | .resume t _ _ => match waits : c.pending t with
    | some (.release _ (_ :: _)) => decidable_of_iff (¬c.sys.conn.client.session.InBlock)
        (by simp [Calls.Apart, waits])
    | some (.release _ []) | some (.chunk ..) | some (.lake ..) | none =>
      isTrue (by simp [Calls.Apart, waits])
  | .start _ | .commit .. | .rollback .. => isTrue trivial

/-- A begun sink has the write of its transaction, and its rows have scalar keys; a boundary
that releases has ended it. -/
structure CallsRefined (core : Core) (layout : Layout) (lake : Lake) (c : Calls)
    (store : Store Fields Slot) : Prop where
  refined : Refined core layout lake c.sys store
  sending : ∀ t kind schema table rows, c.pending t = some (.chunk kind schema table rows) →
    c.sys.Writing t ∧ c.sys.failed t = false ∧
      (schema = layout.schema → table = layout.name → layout.ScalarImages core kind rows)
  left : ∀ t ending ids, c.pending t = some (.release ending ids) → ¬c.sys.Writing t

/-- A call of `t` leaves the other transactions where they are. -/
theorem CallsRefined.moves {after : Store Fields Slot} (calls : CallsRefined core layout lake c store)
    (refined : Refined core layout lake next.sys after)
    (pending : ∀ u, u ≠ t → next.pending u = c.pending u)
    (writing : ∀ u, u ≠ t → (next.sys.Writing u ↔ c.sys.Writing u))
    (failed : ∀ u, u ≠ t → next.sys.failed u = c.sys.failed u)
    (sending : ∀ kind schema table rows, next.pending t = some (.chunk kind schema table rows) →
      next.sys.Writing t ∧ next.sys.failed t = false ∧
        (schema = layout.schema → table = layout.name → layout.ScalarImages core kind rows))
    (left : ∀ ending ids, next.pending t = some (.release ending ids) → ¬next.sys.Writing t) :
    CallsRefined core layout lake next after where
  refined := refined
  sending u kind schema table rows waits := by
    by_cases same : u = t
    · subst same
      exact sending kind schema table rows waits
    · rw [pending u same] at waits
      obtain ⟨writes,live,scalar⟩ := calls.sending u kind schema table rows waits
      exact ⟨(writing u same).mpr writes,(failed u same).trans live,scalar⟩
  left u ending ids waits := by
    by_cases same : u = t
    · subst same
      exact left ending ids waits
    · rw [pending u same] at waits
      exact mt (writing u same).mp (calls.left u ending ids waits)

theorem CallsRefined.wait {p : Option Pending} {a : Attached} {after : Store Fields Slot}
    (calls : CallsRefined core layout lake c store)
    (refined : Refined core layout lake (c.sys.settle t a) after)
    (sending : ∀ kind schema table rows, p = some (.chunk kind schema table rows) →
      a.txn.writeActive = true ∧ c.sys.failed t = false ∧
        (schema = layout.schema → table = layout.name → layout.ScalarImages core kind rows))
    (left : ∀ ending ids, p = some (.release ending ids) → a.txn.writeActive = false) :
    CallsRefined core layout lake (c.wait t p a) after := by
  refine calls.moves refined (fun u apart => assign_other _ apart)
    (fun u apart => writing_assign_other apart) (fun _ _ => rfl)
    (fun kind schema table rows waits => ?_) fun ending ids waits => ?_ <;>
    simp only [Calls.wait, assign_same] at waits
  · exact (sending kind schema table rows waits).imp_left fun active =>
      ⟨a.txn,assign_same _ _ _,active⟩
  · simp [Calls.wait, System.Writing, left ending ids waits]

theorem CallsRefined.throws {α : Type} {e : String} {a : Attached} {after : Store Fields Slot}
    (calls : CallsRefined core layout lake c store)
    (refined : Refined core layout lake
      (c.sys.settleResult t (.error e a : EStateM.Result _ _ α)) after) :
    CallsRefined core layout lake (c.throws t a) after :=
  calls.moves refined (fun u apart => assign_other _ apart)
    (fun u apart => writing_assign_other apart) (fun u apart => assign_other _ apart)
    (by simp [Calls.throws]) (by simp [Calls.throws])

/-- The next call of what `t` has begun. -/
theorem resume_refined {verdicts answers : List (Option String)}
    (calls : CallsRefined core layout lake c store) (apart : c.Apart (.resume t verdicts answers))
    (taken : Calls.step core c (.resume t verdicts answers) = some next) :
    CallsRefined core layout lake next ((layout.actions core c (.resume t verdicts answers)).foldl
      (Store.act (layout.slot core)) store) := by
  obtain ⟨txn,pending,found,waits,rfl⟩ := calls_resume taken
  have entered := calls.refined.entered found verdicts answers
  cases pending with
  | chunk kind schema table rows =>
    obtain ⟨writing,live,scalar⟩ := calls.sending t kind schema table rows waits
    obtain ⟨txn',found',active⟩ := writing
    obtain rfl : txn = txn' := Option.some.inj (found.symm.trans found')
    have sent := calls.refined.sends scalar found live active verdicts answers
    simp only [Layout.actions, waits, Calls.resume, List.foldl_cons, List.foldl_nil]
    cases ran : client (chunkFunction core kind schema table rows)
        (c.sys.enter t txn verdicts answers) with
    | ok outcome b =>
      rw [ran] at sent
      exact calls.wait sent (by simp) (by simp)
    | error e b =>
      rw [ran] at sent
      exact calls.throws sent
  | lake attachSql lakeSql =>
    simp only [Layout.actions, waits, Calls.resume, List.foldl_nil]
    cases executeLakeDml attachSql lakeSql (c.sys.enter t txn verdicts answers).lakeSide with
    | ok u side => exact calls.wait (entered.aside (.ok () _) rfl rfl) (by simp) (by simp)
    | error e side => exact calls.throws (α := Unit) (entered.aside (.error e _) rfl rfl)
  | release ending ids =>
    simp only [Layout.actions, waits, List.foldl_nil]
    have quiet : txn.writeActive = false := by
      simpa [System.Writing, found] using calls.left t ending ids waits
    cases ids with
    | nil =>
      refine calls.moves ?_ (fun u apart => assign_other _ apart)
        (fun u apart => writing_close.trans (and_iff_right apart)) (fun _ _ => rfl)
        (by simp [Calls.resume]) (by simp [Calls.resume])
      rw [Calls.resume, ← settle_close]
      exact entered.returns (by simp [System.Writing, quiet]) rfl
    | cons id rest =>
      have idle := (calls.refined.outside (apart ending id rest waits)).1
      have pins := (releasePin_repins id).repinned (c.sys.enter t txn verdicts answers).conn
      simp only [Calls.resume, client_apply]
      cases ran : releasePin id (c.sys.enter t txn verdicts answers).conn with
      | ok u d =>
        rw [ran] at pins
        refine calls.wait ?_ (by simp) fun _ _ _ => quiet
        rw [← settle_settle]
        exact entered.releases idle (assign_same _ _ _) rfl (Repins.trans pins (.refl True d))
      | error e d =>
        rw [ran] at pins
        refine calls.wait ?_ (by simp) fun _ _ _ => quiet
        rw [← settle_settle]
        exact entered.releases idle (assign_same _ _ _) rfl pins

/-- One call is its actions on the store. -/
theorem calls_refined (c : Calls) (call : Call) (next : Calls) (store : Store Fields Slot)
    (calls : CallsRefined core layout lake c store)
    (allowed : layout.ScalarCall core call ∧ c.Apart call)
    (taken : Calls.step core c call = some next) :
    CallsRefined core layout lake next
      ((layout.actions core c call).foldl (Store.act (layout.slot core)) store) := by
  cases call with
  | start t =>
    obtain ⟨free,_,rfl⟩ := calls_start taken
    have writing := writing_starts free
    exact calls.moves (calls.refined.starts free) (fun _ _ => rfl) (fun u _ => writing u)
      (fun _ _ => rfl) (fun kind schema table rows waits =>
        (calls.sending t kind schema table rows waits).imp_left (writing t).mpr)
      fun ending ids waits => mt (writing t).mp (calls.left t ending ids waits)
  | scan t ref verdicts =>
    obtain ⟨txn,live,ready,found,rfl⟩ := calls_scan taken
    have writing := writing_scans core found ref verdicts
    refine calls.moves (t := t) (calls.refined.scans found live allowed.2 ref verdicts)
      (fun _ _ => rfl) (fun u _ => writing u) (fun u apart => ?_) (by simp [ready]) (by simp [ready])
    cases getPinnedScan core ref (c.sys.enter t txn verdicts []) with
    | ok pinned a => rfl
    | error e a => exact assign_other _ apart
  | sink t kind schema table rows verdicts =>
    obtain ⟨txn,live,ready,found,left⟩ := calls_sink taken
    obtain ⟨begun,active⟩ := calls.refined.begins found live allowed.2 verdicts []
    rcases left with ⟨b,ran,rfl⟩ | ⟨e,b,ran,rfl⟩ <;> rw [ran] at begun
    · refine calls.wait begun ?_ (by simp)
      rintro _ _ _ _ ⟨⟩
      exact ⟨active b ran,live,allowed.1⟩
    · exact calls.throws begun
  | commit t verdicts =>
    obtain ⟨txn,ending,live,ready,found,rfl⟩ := calls_commit taken
    have left := calls.refined.leaves true verdicts found fun _ => live
    refine calls.wait (by simpa [Layout.actions, endWrite] using left) (by simp) fun _ _ _ => ?_
    exact endWrite_quiet true _
  | rollback t verdicts =>
    obtain ⟨txn,ready,found,rfl⟩ := calls_rollback taken
    have left := calls.refined.leaves false verdicts found (by simp)
    refine calls.wait (by simpa [Layout.actions, endWrite] using left) (by simp) fun _ _ _ => ?_
    exact endWrite_quiet false _
  | resume t verdicts answers => exact resume_refined calls allowed.2 taken

end Calls

/-- In every run of calls none of which is sent into the open block of another transaction,
a read of a tiered table in its stored state returns the rows of the abstract store, and in
the block of a writing transaction those the store shows it. -/
theorem merged_read_transactional {core : Core} {layout : Layout} {sys : System} {next : Calls}
    {calls : List Call} (lake : Lake) (fresh : Fresh sys)
    (describes : layout.Describes core sys.durable "tiered")
    (sound : layout.Sound core sys.durable) (ownsId : layout.OwnsId sys.durable)
    (scalar : ∀ call ∈ calls, layout.ScalarCall core call)
    (apart : Runs.Meets (Calls.step core) Calls.Apart { sys } calls)
    (ran : Runs.run (Calls.step core) { sys } calls = some next) :
    let store := (Runs.trace (Calls.step core) (layout.actions core) { sys } calls).foldl
      (Store.act (layout.slot core)) { stored := layout.merged core sys.durable lake }
    (layout.merged core next.sys.durable lake).Perm store.stored ∧
      ∀ t, next.sys.Writing t → next.sys.failed t = false →
        (layout.merged core next.sys.conn.db lake).Perm (store.seen (layout.slot core) t) := by
  intro store
  have hosts : layout.Hosts core lake (layout.merged core sys.durable lake) sys.durable :=
    ⟨⟨describes,sound,.refl _⟩,ownsId⟩
  have passive : ∀ t, ¬sys.Writing t := by simp [System.Writing, fresh.transactions]
  have start : CallsRefined core layout lake { sys }
      { stored := layout.merged core sys.durable lake } :=
    ⟨⟨hosts,.inl ⟨fresh.block,passive⟩,fun _ _ _ => rfl⟩,by simp,by simp⟩
  have refined : Refined core layout lake next.sys store :=
    (Runs.run_simulates calls_refined start (apart.and_all scalar) ran).refined
  refine ⟨refined.durable.rows,fun t writing live => ?_⟩
  obtain ⟨_,_,own⟩ := refined.inside writing
  simp only [OwnCopy, live, Bool.false_eq_true, and_false, or_false] at own
  obtain ⟨w,inside,shows⟩ := own
  have view : next.sys.conn.db = w.database := by simp [Conn.db, Sql.Session.view, inside]
  rw [view]
  exact shows.rows

namespace Reference

theorem database_ownsId (mode : String) (cut : Int) (rows : List Fields) :
    (items cut).OwnsId (database mode cut rows) := by
  simp [OwnsId, database, registration, items]

def itemsRef : TableRef := ⟨1,"public","items"⟩

/-- One transaction exchanges the keys of a hot and a cold row. Between its COMMIT and the
release of its pin another one scans the table, and before its boundary returns that one
begins to write; it inserts a row and is rolled back. -/
def betweenReleases : List Call :=
  [.start 1,.start 2,.scan 1 itemsRef [],.sink 1 .update "public" "items" (pairs exchange) [],
    .resume 1 [] [],.resume 1 [] [],.commit 1 [],.scan 2 itemsRef [],.resume 1 [] [],
    .sink 2 .insert "public" "items" (some (.array [.object (item 7 300 70)])) [],
    .resume 1 [] [],.resume 2 [] [],.resume 2 [] [],.rollback 2 []]

end Reference

open Reference in
theorem betweenReleases_transactional : ∃ next,
    Runs.run (Calls.step core)
      { sys := system (database "tiered" 100 [item 1 200 10,item 3 40 30]) } betweenReleases =
        some next ∧
    ((items 100).merged core next.sys.durable seamLake).Perm
      [item 4 60 40,item 2 60 10,item 1 300 20] := by
  have ends : (Runs.run (Calls.step core)
      { sys := system (database "tiered" 100 [item 1 200 10,item 3 40 30]) }
      betweenReleases).isSome := by decide +kernel
  obtain ⟨next,ran⟩ := Option.isSome_iff_exists.mp ends
  have shown := (merged_read_transactional seamLake (system_fresh _)
    (database_describes "tiered" 100 _) (database_sound "tiered" 100 _)
    (database_ownsId "tiered" 100 _) (by decide +kernel) (by decide +kernel) ran).1
  refine ⟨next,ran,shown.trans ?_⟩
  decide +kernel

end TierDb
