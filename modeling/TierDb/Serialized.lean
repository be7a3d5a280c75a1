import Mathlib.Data.Set.Lattice
import TierDb.Cluster

/-! The lake statements of one table. Its advisory lock belongs to the Postgres session of a
catalog, which all transactions of the catalog share: it keeps other catalogs out, and
siblings only when they stay out by themselves. -/
namespace TierDb

open Cluster

variable {n : Nat}

/-- A lake statement runs only while no other transaction has taken its table's lock. -/
def alone (cl : Cluster n) : ClusterEvent n → Bool
  | .lake o =>
    match cl.pending o with
    | [] => true
    | (k,_) :: _ => cl.took.all fun entry => entry.2 = k → entry.1 = o
  | _ => true

/-- The lake locks other transactions of the same catalog have taken. -/
def Cluster.siblings (cl : Cluster n) (o : Owner n) : List Int :=
  (cl.took.filter fun entry => entry.1.1 = o.1 ∧ entry.1 ≠ o).map Prod.snd

/-- A chunk takes a lake lock only inside its catalog's write block and while no other
transaction of the catalog has taken it; a writing transaction ends only while no other one
of the catalog has taken any. -/
def orderly (core : Core) (cl : Cluster n) : ClusterEvent n → Bool
  | .chunk o kind schema table rows =>
    match (cl.conns o.1).db.openChunk core schema table with
    | none => true
    | some ctx => !addressesLake core ctx kind rows ||
        ((cl.conns o.1).inTxn && decide (ctx.ts.tableId ∉ cl.siblings o))
  | .commit o | .rollback o =>
    match cl.transactions o with
    | none => true
    | some txn => !txn.writeActive || (cl.siblings o).isEmpty
  | _ => true

section Holding

variable {core : Core} {ks : Set Int} {c : Conn}

/-- The write flag is set just when the session is in a block, and in it the session holds
these locks. -/
structure Held (ks : Set Int) (c : Conn) : Prop extends Flagged c where
  inside : c.inTxn = true → c.client.session.InBlock
  open_of : ∀ k ∈ ks, c.inTxn = true
  holds : ∀ k ∈ ks, c.HoldsLock k

theorem Held.more {js : Set Int} (held : Held ks c)
    (more : ∀ k ∈ js, k ∈ ks ∨ c.inTxn = true ∧ c.HoldsLock k) : Held js c where
  toFlagged := held.toFlagged
  inside := held.inside
  open_of k member := (more k member).elim (held.open_of k) And.left
  holds k member := (more k member).elim (held.holds k) And.right

theorem Held.mono {js : Set Int} (held : Held ks c) (fewer : js ⊆ ks) : Held js c :=
  held.more fun _ member => .inl (fewer member)

theorem Held.none (flagged : Flagged c) (inside : c.inTxn = true → c.client.session.InBlock) :
    Held ∅ c where
  toFlagged := flagged
  inside := inside
  open_of _ member := absurd member (Set.notMem_empty _)
  holds _ member := absurd member (Set.notMem_empty _)

theorem Held.same {d : Conn} (held : Held ks c) (same : SameStatus c d)
    (kept : ∀ k ∈ ks, d.HoldsLock k) : Held ks d where
  toFlagged := held.toFlagged.same same
  inside inTxn := same.blocks.inBlock.mpr (held.inside (same.inTxn ▸ inTxn))
  open_of k member := same.inTxn.trans (held.open_of k member)
  holds := kept

theorem Sent.held {α : Type} {x : Pg α} (sent : Sent core x) : Effect.Keeps (Held ks) x :=
  fun _ held => held.same (sent.steady.final _) fun k member =>
    sent.keepsLock _ (held.holds k member)

theorem releasePin_held (pinId : Int) : Effect.Keeps (Held ks) (releasePin pinId) :=
  fun c held => held.same ((releasePin_steady pinId).final c) fun k member =>
    releasePin_locks (k ∈ ·) pinId c (held.holds k member)

theorem acquireScan_held (core : Core) (schema table : String) :
    Effect.Keeps (Held ks) (acquireScan core schema table) := fun _ held =>
  held.same (acquireScan_status core held.toFlagged schema table) fun k member =>
    acquireScan_keepsLock core (held.open_of k member) schema table (held.holds k member)

theorem Held.outside (flagged : Flagged c) (clear : c.inTxn = false) : Held ∅ c :=
  .none flagged (by simp [clear])

theorem txnBegin_held {d : Conn} (held : Held ks c) (begun : txnBegin c = .ok () d) :
    Held ks d := by
  rw [txnBegin_apply] at begun
  cases flag : c.inTxn with
  | true =>
    rw [flag, if_pos rfl] at begun
    cases begun
    exact held
  | false =>
    rw [flag, if_neg nofun, Sql.beginBlock_idle (held.idle flag)] at begun
    cases verdict : c.client.session.verdict with
    | some e => simp [verdict] at begun
    | none =>
      rw [verdict] at begun
      cases begun
      refine ⟨⟨fun _ => rfl,held.nested⟩,fun _ => nofun,fun _ _ => rfl,fun k member => ?_⟩
      have set := held.open_of k member
      simp [flag] at set

theorem txnCommit_held {d : Conn} (held : Held ks c) (committed : txnCommit c = .ok () d) :
    Held ∅ d ∧ d.locks ⊆ c.locks := by
  rw [txnCommit_apply] at committed
  cases flag : c.inTxn with
  | false =>
    rw [flag, if_neg nofun] at committed
    cases committed
    exact ⟨held.mono (Set.empty_subset ks),List.Subset.refl _⟩
  | true =>
    rw [flag, if_pos rfl, Sql.commit_apply] at committed
    cases verdict : c.client.session.verdict with
    | some e => simp [verdict] at committed
    | none =>
      rw [verdict] at committed
      cases committed
      exact ⟨.outside (.of_idle rfl held.nested) rfl,List.nil_subset _⟩

theorem txnRollback_held {d : Conn} (held : Held ks c) (undone : txnRollback c = .ok () d) :
    Held ∅ d ∧ d.locks ⊆ c.locks := by
  rw [txnRollback_apply] at undone
  cases flag : c.inTxn with
  | false =>
    rw [flag, if_neg nofun] at undone
    cases undone
    exact ⟨held.mono (Set.empty_subset ks),List.Subset.refl _⟩
  | true =>
    rw [flag, if_pos rfl, Sql.rollback] at undone
    cases verdict : c.client.session.verdict with
    | some e => simp [verdict] at undone
    | none =>
      rw [verdict] at undone
      cases undone
      exact ⟨.outside (.of_idle rfl held.nested) rfl,List.nil_subset _⟩

theorem ensureWriteTxn_held {a b : Attached} (held : Held ks a.conn)
    (begun : ensureWriteTxn a = .ok () b) : Held ks b.conn := by
  rw [ensureWriteTxn_apply] at begun
  split at begun
  · cases begun
    exact held
  · cases sent : txnBegin a.conn with
    | error e d => simp [sent] at begun
    | ok u d =>
      rw [sent] at begun
      cases begun
      exact txnBegin_held held sent

/-- What the end of a transaction leaves: one that was not writing does not touch the
block. -/
structure Departs (ks : Set Int) (a b : Attached) : Prop where
  outside : Held ∅ b.conn
  kept : a.txn.writeActive = false → Held ks b.conn
  locks : b.conn.locks ⊆ a.conn.locks

theorem Departs.release {a b : Attached} (departs : Departs ks a b) :
    Departs ks a (Effect.final (releasePins b)) where
  outside := releasePins_keeps onTxn_keeps (fun id => client_keeps (releasePin_held id)) b
    departs.outside
  kept passive := releasePins_keeps onTxn_keeps (fun id => client_keeps (releasePin_held id)) b
    (departs.kept passive)
  locks := releasePins_keeps onTxn_keeps
    (fun id => client_keeps (releasePin_locks (· ⊆ a.conn.locks) id)) b departs.locks

theorem commitWrite_departs {a b : Attached} (held : Held ks a.conn)
    (wrote : commitWrite a = .ok () b) : Departs ks a b := by
  rw [commitWrite_apply] at wrote
  cases active : a.txn.writeActive with
  | false =>
    rw [active, if_neg nofun] at wrote
    cases wrote
    exact ⟨held.mono (Set.empty_subset ks),fun _ => held,List.Subset.refl _⟩
  | true =>
    cases sent : txnCommit a.conn with
    | error e d => simp [active, sent] at wrote
    | ok u d =>
      rw [active, if_pos rfl, sent] at wrote
      cases wrote
      obtain ⟨outside,locks⟩ := txnCommit_held held sent
      exact ⟨outside,by simp [active],locks⟩

theorem commitTransaction_departs {a b : Attached} (held : Held ks a.conn)
    (ended : commitTransaction a = .ok none b) : Departs ks a b := by
  rw [commitTransaction_apply] at ended
  cases wrote : commitWrite a with
  | error e d => cases released : releasePins d <;> simp [wrote, released] at ended
  | ok u d =>
    have departs := (commitWrite_departs held wrote).release
    cases released : releasePins d with
    | error e d' => simp [wrote, released] at ended
    | ok u' d' =>
      simp only [wrote, released, EStateM.Result.ok.injEq, true_and] at ended
      subst ended
      rwa [released] at departs

theorem rollbackWrite_departs {a : Attached} (quiet : a.conn.client.session.verdicts = [])
    (held : Held ks a.conn) : Departs ks a (Effect.final (rollbackWrite a)) := by
  rw [rollbackWrite_apply]
  cases active : a.txn.writeActive with
  | false => exact ⟨held.mono (Set.empty_subset ks),fun _ => held,List.Subset.refl _⟩
  | true =>
    have clear : a.conn.client.session.verdict = none := by simp [Sql.Session.verdict, quiet]
    have returns : ∃ d, txnRollback a.conn = .ok () d := by
      rw [txnRollback_apply, Sql.rollback, clear]
      split
      · exact ⟨_,rfl⟩
      · exact ⟨_,rfl⟩
    obtain ⟨d,sent⟩ := returns
    rw [if_pos rfl, sent]
    obtain ⟨outside,locks⟩ := txnRollback_held held sent
    exact ⟨outside,by simp [active],locks⟩

theorem rollbackTransaction_departs {a : Attached} (quiet : a.conn.client.session.verdicts = [])
    (held : Held ks a.conn) : Departs ks a (Effect.final (rollbackTransaction a)) := by
  rw [rollbackTransaction_final]
  exact (rollbackWrite_departs quiet held).release

end Holding

section Locking

variable {core : Core} {cl next : Cluster n}

/-- The lake locks that transactions of the catalog have taken. -/
def Cluster.tookAt (cl : Cluster n) (c : Fin n) : Set Int :=
  { k | ∃ entry ∈ cl.took, entry.1.1 = c ∧ entry.2 = k }

/-- A lake lock an open transaction took is still held by its session, no other session
holds it, and no sibling took it; who has lake statements to run has taken their lock. -/
structure Exclusive (cl : Cluster n) : Prop where
  held : ∀ c, Held (cl.tookAt c) (cl.conns c)
  apart : ∀ c, cl.Free c (cl.conns c).locks
  siblings : ∀ entry ∈ cl.took, entry.2 ∉ cl.siblings entry.1
  pending : ∀ o, ∀ item ∈ cl.pending o, (o,item.1) ∈ cl.took

theorem mem_siblings {o : Owner n} {k : Int} :
    k ∈ cl.siblings o ↔ ∃ entry ∈ cl.took, entry.1.1 = o.1 ∧ entry.1 ≠ o ∧ entry.2 = k := by
  simp [Cluster.siblings, and_assoc]

/-- Across all catalogs, a lake lock was taken by one transaction only. -/
theorem Exclusive.only (exclusive : Exclusive cl) {e f : Owner n × Int} (first : e ∈ cl.took)
    (second : f ∈ cl.took) (same : e.2 = f.2) : e.1 = f.1 := by
  by_contra other
  by_cases catalog : e.1.1 = f.1.1
  · exact exclusive.siblings f second (mem_siblings.mpr ⟨e,first,catalog,other,same⟩)
  · have mine := (exclusive.held e.1.1).holds e.2 ⟨e,first,rfl,rfl⟩
    have yours := (exclusive.held f.1.1).holds f.2 ⟨f,second,rfl,rfl⟩
    exact exclusive.apart e.1.1 f.1.1 (Ne.symm catalog) e.2 mine (same ▸ yours)

theorem Exclusive.alone (exclusive : Exclusive cl) (event : ClusterEvent n) :
    alone cl event = true := by
  cases event with
  | lake o =>
    cases queue : cl.pending o with
    | nil => simp [TierDb.alone, queue]
    | cons item rest =>
      have own := exclusive.pending o item (queue ▸ List.mem_cons_self)
      simp only [TierDb.alone, queue, List.all_eq_true, decide_eq_true_eq]
      exact fun entry member same => exclusive.only member own same
  | _ => rfl

section Changing

variable {c : Fin n} {conn : Conn}

theorem apart_update (exclusive : Exclusive cl) (free : cl.Free c conn.locks) (b d : Fin n)
    (other : d ≠ b) : ∀ k ∈ (Function.update cl.conns c conn b).locks,
      k ∉ (Function.update cl.conns c conn d).locks := by
  intro k mine yours
  by_cases own : b = c
  · subst own
    rw [Function.update_self] at mine
    rw [Function.update_of_ne other] at yours
    exact free d other k mine yours
  · rw [Function.update_of_ne own] at mine
    by_cases changed : d = c
    · subst changed
      rw [Function.update_self] at yours
      exact free b own k yours mine
    · rw [Function.update_of_ne changed] at yours
      exact exclusive.apart b d other k mine yours

theorem held_update (exclusive : Exclusive cl) {took : Fin n → Set Int} (held : Held (took c) conn)
    (fewer : ∀ b, b ≠ c → took b ⊆ cl.tookAt b) (b : Fin n) :
    Held (took b) (Function.update cl.conns c conn b) := by
  by_cases own : b = c
  · subst own
    rwa [Function.update_self]
  · rw [Function.update_of_ne own]
    exact (exclusive.held b).mono (fewer b own)

theorem Exclusive.settle (exclusive : Exclusive cl) {o : Owner n} {a : Attached}
    (held : Held (cl.tookAt o.1) a.conn) (free : cl.Free o.1 a.conn.locks) :
    Exclusive (cl.settle o a) where
  held := held_update exclusive held fun _ _ => subset_rfl
  apart b d other := apart_update exclusive free b d other
  siblings := exclusive.siblings
  pending := exclusive.pending

theorem Exclusive.elsewhere (exclusive : Exclusive cl) (change : Database → Database) :
    Exclusive { cl with
      conns := Function.update cl.conns c
        ((cl.conns c).setSession (alter change (cl.conns c).client.session)) } where
  held := held_update exclusive
    ((exclusive.held c).same ⟨rfl,alter_blocks change _⟩ (exclusive.held c).holds)
    fun _ _ => subset_rfl
  apart b d other := by
    have free : cl.Free c ((cl.conns c).setSession
      (alter change (cl.conns c).client.session)).locks := exclusive.apart c
    exact apart_update exclusive free b d other
  siblings := exclusive.siblings
  pending := exclusive.pending

/-- The end of a transaction that may have closed the block of its catalog. -/
theorem Exclusive.close (exclusive : Exclusive cl) {o : Owner n} {a : Attached}
    (held : Held ((cl.close o a).tookAt o.1) a.conn) (free : cl.Free o.1 a.conn.locks) :
    Exclusive (cl.close o a) where
  held := by
    apply held_update exclusive held
    intro b _ k
    rintro ⟨entry,member,rest⟩
    exact ⟨entry,List.mem_of_mem_filter member,rest⟩
  apart b d other := apart_update exclusive free b d other
  siblings entry member := by
    rw [mem_siblings]
    rintro ⟨f,known,rest⟩
    exact exclusive.siblings entry (List.mem_of_mem_filter member)
      (mem_siblings.mpr ⟨f,List.mem_of_mem_filter known,rest⟩)
  pending p item member := by
    by_cases own : p = o
    · simp [Cluster.close, own] at member
    · simp only [Cluster.close, Function.update_of_ne own] at member
      exact List.mem_filter.mpr ⟨exclusive.pending p item member,by simpa using own⟩

end Changing

section Preserving

variable {o : Owner n}

theorem enter_held (exclusive : Exclusive cl) (o : Owner n) (txn : TierDBTransaction) :
    Held (cl.tookAt o.1) (cl.enter o txn).conn :=
  (exclusive.held o.1).same ⟨rfl,.rfl,rfl⟩ (exclusive.held o.1).holds

theorem Exclusive.call (exclusive : Exclusive cl) {α : Type} {x : Cpp α}
    (keeps : ∀ {a b value}, Held (cl.tookAt o.1) a.conn → x a = .ok value b →
      Held (cl.tookAt o.1) b.conn) (taken : cl.call o x = some next) : Exclusive next := by
  obtain ⟨txn,value,a,_,ran,free,rfl⟩ := call_some taken
  exact exclusive.settle (keeps (enter_held exclusive o txn) ran) free

theorem Exclusive.take (exclusive : Exclusive cl) {a : Attached} {wanted : List Int}
    {queue : List (Int × LakeStatement)} (held : Held (cl.tookAt o.1) a.conn)
    (free : cl.Free o.1 a.conn.locks)
    (locked : ∀ k ∈ wanted, a.conn.inTxn = true ∧ a.conn.HoldsLock k)
    (fresh : ∀ k ∈ wanted, k ∉ cl.siblings o) (queued : ∀ item ∈ queue, item.1 ∈ wanted) :
    Exclusive (cl.enqueue o a wanted queue) where
  held := by
    refine held_update exclusive (held.more ?_) ?_
    · rintro k ⟨entry,member,catalog,rfl⟩
      rcases List.mem_append.mp member with new | old
      · obtain ⟨k,asked,rfl⟩ := List.mem_map.mp new
        exact .inr (locked k asked)
      · exact .inl ⟨entry,old,catalog,rfl⟩
    · rintro b other k ⟨entry,member,catalog,rfl⟩
      rcases List.mem_append.mp member with new | old
      · obtain ⟨k,asked,rfl⟩ := List.mem_map.mp new
        exact absurd catalog.symm other
      · exact ⟨entry,old,catalog,rfl⟩
  apart b d other := apart_update exclusive free b d other
  siblings entry member := by
    rw [mem_siblings]
    rintro ⟨f,known,catalog,other,same⟩
    rcases List.mem_append.mp member with new | old <;>
      rcases List.mem_append.mp known with new' | old'
    · obtain ⟨_,_,rfl⟩ := List.mem_map.mp new
      obtain ⟨_,_,rfl⟩ := List.mem_map.mp new'
      exact other rfl
    · obtain ⟨k,asked,rfl⟩ := List.mem_map.mp new
      exact fresh k asked (mem_siblings.mpr ⟨f,old',catalog,other,same⟩)
    · obtain ⟨k,asked,rfl⟩ := List.mem_map.mp new'
      exact fresh k asked (mem_siblings.mpr ⟨entry,old,catalog.symm,Ne.symm other,same.symm⟩)
    · exact exclusive.siblings entry old (mem_siblings.mpr ⟨f,old',catalog,other,same⟩)
  pending p item member := by
    change item ∈ Function.update cl.pending o queue p at member
    by_cases own : p = o
    · subst own
      rw [Function.update_self] at member
      exact List.mem_append_left _ (List.mem_map_of_mem (queued item member))
    · rw [Function.update_of_ne own] at member
      exact List.mem_append_right _ (exclusive.pending p item member)

/-- A chunk that takes the lock holds it from here on; one that does not has no lake
statement. -/
theorem Exclusive.sink (exclusive : Exclusive cl) {kind : ChunkKind} {schema table : String}
    {rows : JsonText} (ordered : orderly core cl (.chunk o kind schema table rows) = true)
    (taken : cl.sink core o kind schema table rows = some next) : Exclusive next := by
  obtain ⟨txn,ctx,outcome,conn,_,opened,ran,free,rfl⟩ := sink_some taken
  have ready := enter_held exclusive o txn
  have sent := chunkFunction_sent core kind schema table rows
  have held := sent.held _ ready
  rw [ran, Effect.final_ok] at held
  have asked : ∀ k ∈ lakeLock core ctx kind rows,
      addressesLake core ctx kind rows = true ∧ k = ctx.ts.tableId := by
    simp [lakeLock]
  refine exclusive.take held (fun d other k member => free d other k
    (List.mem_append_right _ member)) ?_ ?_ ?_
  · intro k wanted
    obtain ⟨sunk,rfl⟩ := asked k wanted
    have inTxn : (cl.conns o.1).inTxn = true := by
      simp only [orderly, opened, sunk] at ordered
      simpa using (Bool.and_eq_true_iff.mp ordered).1
    exact ⟨(sent.steady.ok _ _ _ ran).inTxn.trans inTxn,
      chunkFunction_locks (ready.inside inTxn) opened sunk ran⟩
  · intro k wanted
    obtain ⟨sunk,rfl⟩ := asked k wanted
    simp only [orderly, opened, sunk] at ordered
    simpa using (Bool.and_eq_true_iff.mp ordered).2
  · intro item member
    obtain ⟨statement,known,rfl⟩ := List.mem_map.mp member
    cases sunk : addressesLake core ctx kind rows with
    | true => simp [lakeLock, sunk]
    | false =>
      have found : (cl.enter o txn).conn.db.openChunk core schema table = some ctx := opened
      obtain ⟨writes,made,_⟩ := chunkFunction_opened found ran
      rw [planChunk_spared sunk made] at known
      cases known

/-- A writing transaction that no sibling shares the block with may end it. -/
theorem Exclusive.depart (exclusive : Exclusive cl) (txn : TierDBTransaction) {a : Attached}
    (ordered : txn.writeActive = true → cl.siblings o = [])
    (departs : Departs (cl.tookAt o.1) (cl.enter o txn) a) : Exclusive (cl.close o a) := by
  refine exclusive.close ?_ fun d other k member =>
    exclusive.apart o.1 d other k (departs.locks member)
  cases active : txn.writeActive with
  | false =>
    refine (departs.kept active).mono ?_
    rintro k ⟨entry,member,rest⟩
    exact ⟨entry,List.mem_of_mem_filter member,rest⟩
  | true =>
    apply departs.outside.mono
    rintro k ⟨entry,member,catalog,same⟩
    obtain ⟨known,other⟩ := List.mem_filter.mp member
    have taken : k ∈ cl.siblings o :=
      mem_siblings.mpr ⟨entry,known,catalog,by simpa using other,same⟩
    simp [ordered active] at taken

theorem Exclusive.step (exclusive : Exclusive cl) {event : ClusterEvent n}
    (ordered : orderly core cl event = true) (taken : clusterStep core cl event = some next) :
    Exclusive next := by
  cases event with
  | elsewhere c change => cases taken; exact exclusive.elsewhere change
  | start o =>
    simp only [clusterStep] at taken
    split at taken
    · cases taken
      exact ⟨exclusive.held,exclusive.apart,exclusive.siblings,exclusive.pending⟩
    · cases taken
  | scan o ref =>
    refine exclusive.call (fun {a b value} held ran => ?_) taken
    have kept := getPinnedScan_keeps onTxn_keeps
      (fun schema table => client_keeps (acquireScan_held core schema table)) ref a held
    rwa [ran] at kept
  | write o => exact exclusive.call ensureWriteTxn_held taken
  | chunk o kind schema table rows => exact exclusive.sink ordered taken
  | lake o =>
    simp only [clusterStep] at taken
    split at taken
    · cases taken
    · rename_i statement rest queue
      cases taken
      refine ⟨exclusive.held,exclusive.apart,exclusive.siblings,fun p item member => ?_⟩
      change item ∈ Function.update cl.pending o rest p at member
      by_cases own : p = o
      · subst own
        rw [Function.update_self] at member
        exact exclusive.pending p item (queue ▸ List.mem_cons_of_mem _ member)
      · rw [Function.update_of_ne own] at member
        exact exclusive.pending p item member
  | commit o =>
    obtain ⟨txn,a,found,ended,rfl⟩ := commit_some taken
    refine exclusive.depart txn ?_
      (commitTransaction_departs (enter_held exclusive o txn) ended)
    simpa [orderly, found, or_iff_not_imp_left] using ordered
  | rollback o =>
    obtain ⟨txn,found,rfl⟩ := rollback_some taken
    refine exclusive.depart txn ?_
      (rollbackTransaction_departs rfl (enter_held exclusive o txn))
    simpa [orderly, found, or_iff_not_imp_left] using ordered

theorem attach_exclusive (dsn : Fin n → String) (stored : Snapshot) (lake : Lake) :
    Exclusive (Cluster.attach dsn stored lake) where
  held c := by
    have took : (Cluster.attach dsn stored lake).tookAt c = ∅ := by
      simp [Cluster.tookAt, Cluster.attach]
    rw [took]
    exact .outside (connect_flagged (dsn c) stored) rfl
  apart _ _ _ _ member := absurd member List.not_mem_nil
  siblings _ member := absurd member List.not_mem_nil
  pending _ _ member := absurd member List.not_mem_nil

end Preserving

/-- Over any number of catalogs, in every run in which no transaction takes a lake lock a
sibling has taken, or ends the block of one that has, lake statements of one table run only
while no other transaction has taken its lock. -/
theorem lake_statements_alone (core : Core) (dsn : Fin n → String) (stored : Snapshot)
    (lake : Lake) {events : List (ClusterEvent n)}
    (ordered : Runs.Meets (clusterStep core) (fun cl event => orderly core cl event = true)
      (Cluster.attach dsn stored lake) events) :
    Runs.Meets (clusterStep core) (fun cl event => alone cl event = true)
      (Cluster.attach dsn stored lake) events :=
  ordered.of_invariant (fun _ _ _ exclusive ordered taken => exclusive.step ordered taken)
    (fun _ event exclusive _ => exclusive.alone event) (attach_exclusive dsn stored lake)

end Locking

namespace Reference

/-- Catalogs over one database with a direct table. -/
def directCluster (n : Nat) : Cluster n :=
  Cluster.attach (fun _ => "dbname=tierdb") ⟨database "direct" 100 [],[]⟩ seamLake

/-- An insert of one row below the cut-line, up to its lake statements. -/
def insertCold (o : Owner n) (id : Int) : List (ClusterEvent n) :=
  [.start o,.write o,.chunk o .insert "public" "items" (some (.array [.object (item id 50 1)]))]

/-- Two catalogs write the table, the second after the first has committed. -/
def inTurn : List (ClusterEvent 2) :=
  insertCold (0,0) 7 ++ [.lake (0,0),.commit (0,0)] ++ insertCold (1,0) 8 ++
    [.lake (1,0),.commit (1,0)]

/-- Two transactions of one catalog write the table at the same time. -/
def atOnce : List (ClusterEvent 1) := insertCold (0,0) 7 ++ insertCold (0,1) 8 ++ [.lake (0,1)]

end Reference

open Reference in
theorem inTurn_alone : (Runs.run (clusterStep core) (directCluster 2) inTurn).isSome = true ∧
    Runs.Meets (clusterStep core) (fun cl event => alone cl event = true) (directCluster 2)
      inTurn :=
  ⟨by decide +kernel,lake_statements_alone core _ _ _ (by decide +kernel)⟩

open Reference in
/-- The lock does not keep out a transaction of the session that holds it: its lake
statement runs before the first one has ended. -/
theorem atOnce_not_alone : ¬∀ core n dsn stored lake (events : List (ClusterEvent n)),
    Runs.Meets (clusterStep core) (fun cl event => alone cl event = true)
      (Cluster.attach dsn stored lake) events := by
  intro claim
  have violated : ¬Runs.Meets (clusterStep core) (fun cl event => alone cl event = true)
      (directCluster 1) atOnce := by decide +kernel
  exact violated (claim core 1 _ _ _ atOnce)

end TierDb
