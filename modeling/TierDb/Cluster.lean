import TierDb.LakeLocks

/-! Several attached catalogs over one Postgres. The lake statements of a chunk run after
its call has returned, so that calls of other transactions, of this catalog or of another,
may come between any two of them. -/
namespace TierDb

/-- A DuckDB transaction, with the catalog it writes. -/
abbrev Owner (n : Nat) := Fin n × Nat

/-- `pending` are the lake statements of the last chunk that its sink has still to run,
each with its table; what other sessions commit reaches a catalog by `elsewhere`. `took`
is auxiliary: the lake locks that open transactions took. -/
structure Cluster (n : Nat) where
  conns : Fin n → Conn
  lake : Lake
  transactions : Owner n → Option TierDBTransaction := fun _ => none
  pending : Owner n → List (Int × LakeStatement) := fun _ => []
  took : List (Owner n × Int) := []

/-- The catalogs as they are attached, with what the database stores by then. -/
def Cluster.attach {n : Nat} (dsn : Fin n → String) (stored : Snapshot) (lake : Lake) :
    Cluster n where
  conns := fun c => Conn.connect (dsn c) stored
  lake := lake

/-- `write` is the sink's `EnsureWriteTxn` and `chunk` its chunk function; `lake` is the
next query of its `TierDBExecuteLakeDml`. -/
inductive ClusterEvent (n : Nat) where
  | elsewhere (c : Fin n) (change : Database → Database)
  | start (o : Owner n)
  | scan (o : Owner n) (ref : TableRef)
  | write (o : Owner n)
  | chunk (o : Owner n) (kind : ChunkKind) (schema table : String) (rows : JsonText)
  | lake (o : Owner n)
  | commit (o : Owner n)
  | rollback (o : Owner n)

namespace Cluster

variable {n : Nat}

/-- A call of the transaction, none of whose statements is refused. -/
def enter (cl : Cluster n) (o : Owner n) (txn : TierDBTransaction) : Attached :=
  System.enter { conn := cl.conns o.1, lake := cl.lake } o.2 txn [] []

/-- No other session holds one of these locks. -/
def Free (cl : Cluster n) (c : Fin n) (locks : List Int) : Prop :=
  ∀ d, d ≠ c → ∀ k ∈ locks, k ∉ (cl.conns d).locks

instance (cl : Cluster n) (c : Fin n) (locks : List Int) : Decidable (cl.Free c locks) :=
  inferInstanceAs (Decidable (∀ d, d ≠ c → ∀ k ∈ locks, k ∉ (cl.conns d).locks))

def settle (cl : Cluster n) (o : Owner n) (a : Attached) : Cluster n :=
  { cl with conns := Function.update cl.conns o.1 a.conn
            transactions := Function.update cl.transactions o (some a.txn) }

def close (cl : Cluster n) (o : Owner n) (a : Attached) : Cluster n :=
  { cl with conns := Function.update cl.conns o.1 a.conn
            transactions := Function.update cl.transactions o none
            pending := Function.update cl.pending o []
            took := cl.took.filter fun entry => entry.1 ≠ o }

/-- A chunk that returned: its lake statements are still to run, the lock it asked for is
taken. -/
def enqueue (cl : Cluster n) (o : Owner n) (a : Attached) (wanted : List Int)
    (queue : List (Int × LakeStatement)) : Cluster n :=
  { cl with conns := Function.update cl.conns o.1 a.conn
            transactions := Function.update cl.transactions o (some a.txn)
            pending := Function.update cl.pending o queue
            took := wanted.map (fun k => (o,k)) ++ cl.took }

/-- A call that returns; it waits while another session holds one of its locks. -/
def call {α : Type} (cl : Cluster n) (o : Owner n) (x : Cpp α) : Option (Cluster n) := do
  let txn ← cl.transactions o
  match x (cl.enter o txn) with
  | .ok _ a => if cl.Free o.1 a.conn.locks then some (cl.settle o a) else none
  | .error _ _ => none

/-- The lake lock a chunk asks for. -/
def lakeLock (core : Core) (ctx : ChunkContext) (kind : ChunkKind) (rows : JsonText) :
    List Int :=
  if addressesLake core ctx kind rows then [ctx.ts.tableId] else []

def sink (core : Core) (cl : Cluster n) (o : Owner n) (kind : ChunkKind)
    (schema table : String) (rows : JsonText) : Option (Cluster n) := do
  let txn ← cl.transactions o
  let a := cl.enter o txn
  let ctx ← a.conn.db.openChunk core schema table
  match chunkFunction core kind schema table rows a.conn with
  | .ok outcome conn =>
    let wanted := lakeLock core ctx kind rows
    if txn.writeActive ∧ (cl.pending o).isEmpty ∧ cl.Free o.1 (wanted ++ conn.locks) then
      some (cl.enqueue o (a.withConn conn) wanted
        (outcome.lakeSql.map fun statement => (ctx.ts.tableId,statement)))
    else none
  | .error _ _ => none

end Cluster

open Cluster

variable {n : Nat}

def clusterStep (core : Core) (cl : Cluster n) : ClusterEvent n → Option (Cluster n)
  | .elsewhere c change => some { cl with
      conns := Function.update cl.conns c
        ((cl.conns c).setSession (alter change (cl.conns c).client.session)) }
  | .start o =>
    match cl.transactions o with
    | none => some { cl with transactions := Function.update cl.transactions o (some {}) }
    | some _ => none
  | .scan o ref => cl.call o (getPinnedScan core ref)
  | .write o => cl.call o ensureWriteTxn
  | .chunk o kind schema table rows => cl.sink core o kind schema table rows
  | .lake o =>
    match cl.pending o with
    | [] => none
    | (_,statement) :: rest => some { cl with
        lake := statement.effect cl.lake
        pending := Function.update cl.pending o rest }
  | .commit o => do
    let txn ← cl.transactions o
    match commitTransaction (cl.enter o txn) with
    | .ok none a => if (cl.pending o).isEmpty then some (cl.close o a) else none
    | _ => none
  | .rollback o => do
    let txn ← cl.transactions o
    some (cl.close o (Effect.final (rollbackTransaction (cl.enter o txn))))

section Steps

variable {core : Core} {cl next : Cluster n} {o : Owner n} {α : Type}

theorem call_some {x : Cpp α} (taken : cl.call o x = some next) :
    ∃ txn value a, cl.transactions o = some txn ∧ x (cl.enter o txn) = .ok value a ∧
      cl.Free o.1 a.conn.locks ∧ next = cl.settle o a := by
  simp only [Cluster.call, Option.bind_eq_bind, Option.bind_eq_some_iff] at taken
  obtain ⟨txn,found,taken⟩ := taken
  cases ran : x (cl.enter o txn) with
  | error e a => simp [ran] at taken
  | ok value a =>
    simp only [ran, Option.ite_none_right_eq_some, Option.some.injEq] at taken
    exact ⟨txn,value,a,found,ran,taken.1,taken.2.symm⟩

theorem sink_some {kind : ChunkKind} {schema table : String} {rows : JsonText}
    (taken : cl.sink core o kind schema table rows = some next) :
    ∃ txn ctx outcome conn, cl.transactions o = some txn ∧
      (cl.conns o.1).db.openChunk core schema table = some ctx ∧
      chunkFunction core kind schema table rows (cl.enter o txn).conn = .ok outcome conn ∧
      cl.Free o.1 (lakeLock core ctx kind rows ++ conn.locks) ∧
      next = cl.enqueue o ((cl.enter o txn).withConn conn) (lakeLock core ctx kind rows)
        (outcome.lakeSql.map fun statement => (ctx.ts.tableId,statement)) := by
  simp only [Cluster.sink, Option.bind_eq_bind, Option.bind_eq_some_iff] at taken
  obtain ⟨txn,found,ctx,opened,taken⟩ := taken
  cases ran : chunkFunction core kind schema table rows (cl.enter o txn).conn with
  | error e a => simp [ran] at taken
  | ok outcome conn =>
    simp only [ran, Option.ite_none_right_eq_some, Option.some.injEq] at taken
    exact ⟨txn,ctx,outcome,conn,found,opened,ran,taken.1.2.2,taken.2.symm⟩

theorem commit_some (taken : clusterStep core cl (.commit o) = some next) :
    ∃ txn a, cl.transactions o = some txn ∧ commitTransaction (cl.enter o txn) = .ok none a ∧
      next = cl.close o a := by
  simp only [clusterStep, Option.bind_eq_bind, Option.bind_eq_some_iff] at taken
  obtain ⟨txn,found,taken⟩ := taken
  cases ran : commitTransaction (cl.enter o txn) with
  | error e a => simp [ran] at taken
  | ok error a =>
    cases error with
    | some e => simp [ran] at taken
    | none =>
      simp only [ran, Option.ite_none_right_eq_some, Option.some.injEq] at taken
      exact ⟨txn,a,found,ran,taken.2.symm⟩

theorem rollback_some (taken : clusterStep core cl (.rollback o) = some next) :
    ∃ txn, cl.transactions o = some txn ∧
      next = cl.close o (Effect.final (rollbackTransaction (cl.enter o txn))) := by
  simp only [clusterStep, Option.bind_eq_bind, Option.bind_eq_some_iff] at taken
  obtain ⟨txn,found,taken⟩ := taken
  exact ⟨txn,found,(Option.some.inj taken).symm⟩

/-- The lake statements left run one by one. -/
theorem lakes_run (core : Core) (cl : Cluster n) (o : Owner n) :
    ∃ next, Runs.run (clusterStep core) cl (List.replicate (cl.pending o).length (.lake o)) =
        some next ∧
      next.conns = cl.conns ∧ next.transactions = cl.transactions ∧ next.pending o = [] ∧
      next.lake = ((cl.pending o).map Prod.snd).foldl (fun lake s => s.effect lake) cl.lake := by
  induction queue : cl.pending o generalizing cl with
  | nil => exact ⟨cl,rfl,rfl,rfl,queue,rfl⟩
  | cons item rest ih =>
    obtain ⟨next,ran,conns,transactions,done,lake⟩ := ih { cl with
      lake := item.2.effect cl.lake
      pending := Function.update cl.pending o rest } (Function.update_self ..)
    refine ⟨next,?_,conns,transactions,done,lake⟩
    rw [List.length_cons, List.replicate_succ, Runs.run_cons]
    exact ⟨_,by simp only [clusterStep, queue],ran⟩

/-- The next call of a transaction finds what the last one left. -/
theorem enter_settled {b : Attached} (author : b.conn.client.author = o.2)
    (quiet : b.conn.client.session.verdicts = []) (side : b.lakeSide = ⟨cl.lake,[]⟩) :
    (cl.settle o b).enter o b.txn = b := by
  have same : (cl.settle o b).conns o.1 = b.conn := Function.update_self ..
  obtain ⟨txn,⟨⟨⟨durable,block,locks,verdicts,nested⟩,sequence,_,issued⟩,dsn,inTxn⟩,_⟩ := b
  cases author
  cases quiet
  cases side
  simp only [Cluster.enter, System.enter, same]
  rfl

theorem ensureWriteTxn_settles {txn : TierDBTransaction} {b : Attached}
    (begun : ensureWriteTxn (cl.enter o txn) = .ok () b) :
    b.txn.writeActive = true ∧ (cl.settle o b).enter o b.txn = b := by
  rw [ensureWriteTxn_apply] at begun
  split at begun
  · rename_i active
    cases begun
    exact ⟨active,enter_settled rfl rfl rfl⟩
  · rw [txnBegin_apply] at begun
    cases flag : (cl.enter o txn).conn.inTxn with
    | true =>
      simp only [flag, ↓reduceIte] at begun
      cases begun
      exact ⟨rfl,enter_settled rfl rfl rfl⟩
    | false =>
      cases sent : Sql.beginBlock (cl.enter o txn).conn.client.session with
      | error e s => simp [flag, sent] at begun
      | ok u s =>
        have quiet : s.verdicts = [] := Sql.beginBlock_verdicts sent
        simp only [flag, sent, Bool.false_eq_true, ↓reduceIte] at begun
        cases begun
        exact ⟨rfl,enter_settled rfl quiet rfl⟩

theorem free_settle {a : Attached} {locks : List Int} (free : cl.Free o.1 locks) :
    (cl.settle o a).Free o.1 locks := fun d other k member held =>
  free d other k member (by simpa [Cluster.settle, Function.update_of_ne other] using held)

/-- A sink call is its write, its chunk and its lake statements one after the other. -/
theorem sinkChunk_run {txn : TierDBTransaction} {kind : ChunkKind} {schema table : String}
    {rows : JsonText} {count : Int} {a : Attached} (found : cl.transactions o = some txn)
    (ready : cl.pending o = []) (free : ∀ locks, cl.Free o.1 locks)
    (sunk : sinkChunk core kind schema table rows (cl.enter o txn) = .ok count a) :
    ∃ statements next, Runs.run (clusterStep core) cl
        (.write o :: .chunk o kind schema table rows :: List.replicate statements (.lake o)) =
          some next ∧
      next.conns = Function.update cl.conns o.1 a.conn ∧
      next.transactions = Function.update cl.transactions o (some a.txn) ∧
      next.pending o = [] ∧ next.lake = a.lakeSide.lake := by
  obtain ⟨b,outcome,c,lakeSide,begun,chunked,sent,rfl,rfl⟩ := sinkChunk_returned sunk
  obtain ⟨active,same⟩ := ensureWriteTxn_settles begun
  have side := (ensureWriteTxn_same begun).2
  obtain ⟨ctx,_,opened,_,_⟩ := chunkFunction_ok chunked
  have writes : clusterStep core cl (.write o) = some (cl.settle o b) := by
    simp [clusterStep, Cluster.call, found, begun, free]
  have own : (cl.settle o b).transactions o = some b.txn := Function.update_self ..
  have waits : ((cl.settle o b).pending o).isEmpty = true := by simp [Cluster.settle, ready]
  have free' : (cl.settle o b).Free o.1 (lakeLock core ctx kind rows ++ c.locks) :=
    free_settle (free _)
  have chunks : clusterStep core (cl.settle o b) (.chunk o kind schema table rows) =
      some ((cl.settle o b).enqueue o (b.withConn c) (lakeLock core ctx kind rows)
        (outcome.lakeSql.map fun statement => (ctx.ts.tableId,statement))) := by
    simp [clusterStep, Cluster.sink, own, same, opened, chunked, active, waits, free']
  obtain ⟨next,ran,conns,transactions,done,lake⟩ := lakes_run core
    ((cl.settle o b).enqueue o (b.withConn c) (lakeLock core ctx kind rows)
      (outcome.lakeSql.map fun statement => (ctx.ts.tableId,statement))) o
  have executed := executeLakeDml_succeeds (outcome.attachSql.getD "") outcome.lakeSql cl.lake
  have fresh : (cl.enter o txn).lakeSide = ⟨cl.lake,[]⟩ := rfl
  rw [side, fresh, executed] at sent
  cases sent
  refine ⟨_,next,Runs.run_cons.mpr ⟨_,writes,Runs.run_cons.mpr ⟨_,chunks,ran⟩⟩,?_,?_,done,?_⟩
  · rw [conns]
    exact Function.update_idem ..
  · rw [transactions]
    exact Function.update_idem ..
  · rw [lake]
    have queued : ((cl.settle o b).enqueue o (b.withConn c) (lakeLock core ctx kind rows)
        (outcome.lakeSql.map fun statement => (ctx.ts.tableId,statement))).pending o =
          outcome.lakeSql.map fun statement => (ctx.ts.tableId,statement) :=
      Function.update_self ..
    rw [queued, List.map_map]
    exact congrArg (List.foldl _ _) (List.map_id _)

end Steps

end TierDb
