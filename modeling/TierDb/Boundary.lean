import TierDb.Plan
import TierDb.System

/-! What each transaction call does to the flags and the session: one lemma for each
function, with every outcome of the statement it may send. -/
namespace TierDb

def Attached.active (a : Attached) (value : Bool) : Attached :=
  { a with txn := { a.txn with writeActive := value } }

def Attached.withConn (a : Attached) (conn : Conn) : Attached := { a with conn := conn }

def Attached.forget (a : Attached) : Attached :=
  { a with txn := { a.txn with pins := [], scanByTable := [] } }

@[simp] theorem forget_conn (a : Attached) : a.forget.conn = a.conn := rfl
@[simp] theorem active_conn (a : Attached) (value : Bool) : (a.active value).conn = a.conn := rfl
@[simp] theorem active_lakeSide (a : Attached) (value : Bool) :
    (a.active value).lakeSide = a.lakeSide := rfl
@[simp] theorem active_pins (a : Attached) (value : Bool) : (a.active value).txn.pins = a.txn.pins :=
  rfl
@[simp] theorem active_writeActive (a : Attached) (value : Bool) :
    (a.active value).txn.writeActive = value := rfl
@[simp] theorem withConn_txn (a : Attached) (conn : Conn) : (a.withConn conn).txn = a.txn := rfl
@[simp] theorem withConn_conn (a : Attached) (conn : Conn) : (a.withConn conn).conn = conn := rfl
@[simp] theorem withConn_lakeSide (a : Attached) (conn : Conn) :
    (a.withConn conn).lakeSide = a.lakeSide := rfl

theorem client_apply {α : Type} (x : Pg α) (a : Attached) :
    client x a = match x a.conn with
      | .ok value c => .ok value (a.withConn c)
      | .error e c => .error ("tierdb: " ++ e) (a.withConn c) := by
  cases h : x a.conn <;> simp [client, Effect.zoom, Effect.mapError, h, Attached.withConn]

theorem client_ok {α : Type} {x : Pg α} {a b : Attached} {value : α}
    (called : client x a = .ok value b) : ∃ c, x a.conn = .ok value c ∧ b = a.withConn c := by
  rw [client_apply] at called
  cases sent : x a.conn with
  | error e c => simp [sent] at called
  | ok got c =>
    simp only [sent, EStateM.Result.ok.injEq] at called
    exact ⟨c,by rw [called.1],called.2.symm⟩

theorem client_txn {α : Type} (x : Pg α) (a : Attached) :
    (Effect.final (client x a)).txn = a.txn := by
  rw [client_apply]
  cases x a.conn <;> rfl

theorem txnBegin_apply (c : Conn) :
    txnBegin c = if c.inTxn then .ok () c
      else match Sql.beginBlock c.client.session with
        | .ok _ s => .ok () { c.setSession s with inTxn := true }
        | .error e s => .error ("BEGIN failed: " ++ e) (c.setSession s) := by
  unfold txnBegin
  rw [Effect.bind_of_ok (Effect.get_apply c)]
  cases flag : c.inTxn with
  | true => rfl
  | false =>
    cases sent : Sql.beginBlock c.client.session <;>
      simp [Effect.bind_apply, Effect.mapError, onSession, Effect.zoom, sent, setInTxn]

theorem txnCommit_apply (c : Conn) :
    txnCommit c = if c.inTxn then
        match Sql.commit c.client.session with
        | .ok _ s => .ok () { c.setSession s with inTxn := false }
        | .error e s => .error ("COMMIT failed: " ++ e) (c.setSession s)
      else .ok () c := by
  unfold txnCommit
  rw [Effect.bind_of_ok (Effect.get_apply c)]
  cases flag : c.inTxn with
  | false => rfl
  | true =>
    cases sent : Sql.commit c.client.session <;>
      simp [Effect.bind_apply, Effect.mapError, onSession, Effect.zoom, sent, setInTxn]

theorem txnRollback_apply (c : Conn) :
    txnRollback c = if c.inTxn then
        match Sql.rollback c.client.session with
        | .ok _ s => .ok () { c.setSession s with inTxn := false }
        | .error e s => .error ("ROLLBACK failed: " ++ e) (c.setSession s)
      else .ok () c := by
  unfold txnRollback
  rw [Effect.bind_of_ok (Effect.get_apply c)]
  cases flag : c.inTxn with
  | false => rfl
  | true =>
    cases sent : Sql.rollback c.client.session <;>
      simp [Effect.bind_apply, Effect.mapError, onSession, Effect.zoom, sent, setInTxn]

theorem ensureWriteTxn_apply (a : Attached) :
    ensureWriteTxn a = if a.txn.writeActive then .ok () a
      else match txnBegin a.conn with
        | .ok _ c => .ok () ((a.withConn c).active true)
        | .error e c => .error ("tierdb: " ++ e) (a.withConn c) := by
  unfold ensureWriteTxn
  rw [Effect.bind_of_ok (Effect.get_apply a)]
  cases flag : a.txn.writeActive with
  | true => rfl
  | false =>
    cases sent : txnBegin a.conn <;>
      simp [Effect.bind_apply, client_apply, sent, setWriteActive, onTxn, Attached.active]

theorem txnBegin_db {c d : Conn} (begun : txnBegin c = .ok () d) : d.db = c.db := by
  rw [txnBegin_apply] at begun
  split at begun
  · cases begun; rfl
  · cases sent : Sql.beginBlock c.client.session with
    | error e s => simp [sent] at begun
    | ok u s =>
      rw [sent] at begun
      cases begun
      exact congrArg Snapshot.database (Sql.beginBlock_view sent)

/-- Beginning a write changes neither what the session reads nor the lake. -/
theorem ensureWriteTxn_same {a b : Attached} (begun : ensureWriteTxn a = .ok () b) :
    b.conn.db = a.conn.db ∧ b.lakeSide = a.lakeSide := by
  rw [ensureWriteTxn_apply] at begun
  split at begun
  · cases begun; exact ⟨rfl,rfl⟩
  · cases sent : txnBegin a.conn with
    | error e c => simp [sent] at begun
    | ok u c =>
      simp only [sent, EStateM.Result.ok.injEq, true_and] at begun
      subst begun
      exact ⟨txnBegin_db sent,rfl⟩

/-- With both flags clear and an idle session, BEGIN is refused or opens a block. -/
theorem ensureWriteTxn_idle {a : Attached} (quiet : a.txn.writeActive = false)
    (clear : a.conn.inTxn = false) (idle : a.conn.client.session.block = .idle) :
    (∃ e, ensureWriteTxn a = .error e (a.withConn (a.conn.setSession a.conn.client.session.next))) ∨
    ensureWriteTxn a = .ok () ((a.withConn { a.conn.setSession
      { a.conn.client.session.next with block := .open a.conn.client.session.durable } with
        inTxn := true }).active true) := by
  rw [ensureWriteTxn_apply, txnBegin_apply, Sql.beginBlock_idle idle]
  cases verdict : a.conn.client.session.verdict with
  | some e => exact .inl ⟨_,by simp [quiet, clear]; rfl⟩
  | none => exact .inr (by simp [quiet, clear])

theorem commitWrite_apply (a : Attached) :
    commitWrite a = if a.txn.writeActive then
        match txnCommit a.conn with
        | .ok _ c => .ok () ((a.withConn c).active false)
        | .error e c => .error ("tierdb: " ++ e) ((a.withConn c).active false)
      else .ok () a := by
  unfold commitWrite
  rw [Effect.bind_of_ok (Effect.get_apply a)]
  cases flag : a.txn.writeActive with
  | false => rfl
  | true =>
    cases sent : txnCommit a.conn <;>
      simp [Effect.bind_apply, client_apply, sent, setWriteActive, onTxn, Attached.active,
        Attached.withConn]

theorem rollbackWrite_apply (a : Attached) :
    rollbackWrite a = if a.txn.writeActive then
        match txnRollback a.conn with
        | .ok _ c => .ok () ((a.withConn c).active false)
        | .error e c => .error ("tierdb: " ++ e) ((a.withConn c).active false)
      else .ok () a := by
  unfold rollbackWrite
  rw [Effect.bind_of_ok (Effect.get_apply a)]
  cases flag : a.txn.writeActive with
  | false => rfl
  | true =>
    cases sent : txnRollback a.conn <;>
      simp [Effect.bind_apply, client_apply, sent, setWriteActive, onTxn, Attached.active,
        Attached.withConn]

/-- With both flags set, COMMIT is refused or makes durable what the session reads. -/
theorem commitWrite_active {a : Attached} (active : a.txn.writeActive = true)
    (inTxn : a.conn.inTxn = true) :
    commitWrite a = match a.conn.client.session.verdict with
      | some e => .error ("tierdb: COMMIT failed: " ++ e)
          ((a.withConn (a.conn.setSession a.conn.client.session.leave)).active false)
      | none => .ok () ((a.withConn { a.conn.setSession
          { a.conn.client.session.leave with durable := a.conn.client.session.view } with
            inTxn := false }).active false) := by
  rw [commitWrite_apply, txnCommit_apply, Sql.commit_apply]
  cases verdict : a.conn.client.session.verdict <;> simp [active, inTxn]
  rfl

/-- With both flags set, ROLLBACK ends the block and drops what it held, refused or not;
only a refused one leaves the connection's flag. -/
theorem rollbackWrite_active {a : Attached} (active : a.txn.writeActive = true)
    (inTxn : a.conn.inTxn = true) :
    rollbackWrite a = match a.conn.client.session.verdict with
      | some e => .error ("tierdb: ROLLBACK failed: " ++ e)
          ((a.withConn (a.conn.setSession a.conn.client.session.leave)).active false)
      | none => .ok () ((a.withConn { a.conn.setSession a.conn.client.session.leave with
          inTxn := false }).active false) := by
  rw [rollbackWrite_apply, txnRollback_apply]
  cases verdict : a.conn.client.session.verdict <;> simp [Sql.rollback, verdict, active, inTxn]
  rfl

/-- Either boundary leaves the write flag clear. -/
theorem commitWrite_final (a : Attached) :
    (Effect.final (commitWrite a)).txn.writeActive = false := by
  rw [commitWrite_apply]
  split
  · split <;> simp
  · simpa using ‹¬a.txn.writeActive = true›

/-- The catch block of a failed commit finds the write flag already cleared, so it
sends nothing. -/
theorem commitTransaction_apply (a : Attached) :
    commitTransaction a = match commitWrite a with
      | .ok _ b => (match releasePins b with
        | .ok _ d => .ok none d
        | .error e d => .ok (some e) d)
      | .error e b => (match releasePins b with
        | .ok _ d => .ok (some e) d
        | .error _ d => .ok (some e) d) := by
  unfold commitTransaction
  cases wrote : commitWrite a with
  | ok u b =>
    cases released : releasePins b <;>
      simp [Effect.bind_apply, Effect.attempt, wrote, released]
  | error e b =>
    have cleared : b.txn.writeActive = false := by
      simpa [wrote] using commitWrite_final a
    have skipped : rollbackWrite b = .ok () b := by simp [rollbackWrite_apply, cleared]
    cases released : releasePins b <;>
      simp [Effect.bind_apply, Effect.attempt, wrote, released, skipped]

theorem rollbackTransaction_final (a : Attached) :
    Effect.final (rollbackTransaction a) =
      Effect.final (releasePins (Effect.final (rollbackWrite a))) := by
  unfold rollbackTransaction
  cases undone : rollbackWrite a with
  | ok u b =>
    cases released : releasePins b <;>
      simp [Effect.bind_apply, Effect.map_apply, Effect.attempt, undone, released]
  | error e b =>
    cases released : releasePins b <;>
      simp [Effect.bind_apply, Effect.map_apply, Effect.attempt, undone, released]

theorem releasePins_apply (a : Attached) :
    releasePins a = releaseEach a.txn.pins a.forget := rfl

theorem commitWrite_pins (a : Attached) :
    (Effect.final (commitWrite a)).txn.pins = a.txn.pins := by
  rw [commitWrite_apply]
  split
  · split <;> simp
  · simp

theorem rollbackWrite_pins (a : Attached) :
    (Effect.final (rollbackWrite a)).txn.pins = a.txn.pins := by
  rw [rollbackWrite_apply]
  split
  · split <;> simp
  · simp

/-- Without pins the boundary is the write's boundary. -/
theorem commitTransaction_unpinned {a : Attached} (unpinned : a.txn.pins = []) :
    commitTransaction a = match commitWrite a with
      | .ok _ b => .ok none b.forget
      | .error e b => .ok (some e) b.forget := by
  rw [commitTransaction_apply]
  have pins := commitWrite_pins a
  cases wrote : commitWrite a with
  | ok u b =>
    have none : b.txn.pins = [] := by simpa [wrote, unpinned] using pins
    simp [releasePins_apply, none, releaseEach]
  | error e b =>
    have none : b.txn.pins = [] := by simpa [wrote, unpinned] using pins
    simp [releasePins_apply, none, releaseEach]

theorem rollbackTransaction_unpinned {a : Attached} (unpinned : a.txn.pins = []) :
    Effect.final (rollbackTransaction a) = (Effect.final (rollbackWrite a)).forget := by
  have none : (Effect.final (rollbackWrite a)).txn.pins = [] :=
    (rollbackWrite_pins a).trans unpinned
  simp [rollbackTransaction_final, releasePins_apply, none, releaseEach]

/-- A scan and a chunk resolve the catalog of a direct table alike. -/
theorem scanLake_resolves (core : Core) (ts : TableSchema) :
    scanLake core ts = resolveCatalog core ts := by
  have text : s!"direct table \"{ts.schemaName}\".\"{ts.tableName}\" needs a live " ++
      s!"catalog endpoint, but storage profile '{ts.storageProfile}' does not configure one" =
      s!"direct table \"{ts.schemaName}\".\"{ts.tableName}\" needs a live catalog " ++
      s!"endpoint, but storage profile '{ts.storageProfile}' does not configure one" := by
    apply String.toList_injective
    simp [String.toList_append, toString]
  unfold scanLake resolveCatalog
  exact text ▸ rfl

theorem scanLake_for {core : Core} {own : Write → Prop} (ts : TableSchema) :
    SentFor core own (scanLake core ts) := by
  rw [scanLake_resolves]
  exact resolveCatalog_for ts

theorem scanLake_sent {core : Core} (ts : TableSchema) : Sent core (scanLake core ts) :=
  have read : Queried core (scanLake core ts) := scanLake_for ts
  read.sent

theorem endOwnBlock_ok (pinned : PinnedScan) (m : Conn) :
    endOwnBlock (.ok pinned) m = match m.client.session.verdict with
      | some e => .error ("read pin COMMIT failed: " ++ e)
          (m.setSession m.client.session.leave)
      | none => .ok pinned (m.setSession
          { m.client.session.leave with durable := m.client.session.view }) := by
  have sent := Sql.commit_apply m.client.session
  cases verdict : m.client.session.verdict <;>
    simp [endOwnBlock, Effect.map_apply, Effect.mapError, onSession, Effect.zoom, sent, verdict]

theorem endOwnBlock_error (e : String) (m : Conn) :
    endOwnBlock (.error e) m = .error e (m.setSession m.client.session.leave) := by
  cases verdict : m.client.session.verdict <;>
    simp [endOwnBlock, Effect.bind_apply, Effect.attempt, onSession, Effect.zoom, Sql.rollback,
      verdict]

section Keeping

variable {core : Core} {inv : Conn → Prop}

/-- What every read and every pin inserted keeps, pinning and rendering keeps. -/
theorem pinAndRender_keeps (reads : ∀ (α : Type) (x : Pg α), Queried core x → Effect.Keeps inv x)
    (pin : ∀ tableId cut, Effect.Keeps inv (pinAcquire tableId cut)) (ts : TableSchema)
    (dsn : String) (lake : Option LakeCatalog) :
    Effect.Keeps inv (pinAndRender core ts dsn lake) := by
  refine .bind (reads _ _ (cutline_for ts.tableId)) fun cut => .bind ?_ fun _ =>
    .bind (.ofExcept _) fun _ => .pure _
  cases cut with
  | none => exact .pure _
  | some cut => exact .bind (.mapError (pin ts.tableId cut) _) fun _ => .pure _

/-- The scan keeps what its reads, its pin and the bounds of its own block keep. -/
theorem acquireScan_keeps (reads : ∀ (α : Type) (x : Pg α), Queried core x → Effect.Keeps inv x)
    (pin : ∀ tableId cut, Effect.Keeps inv (pinAcquire tableId cut))
    (begins : Effect.Keeps inv (onSession Sql.beginBlock))
    (commits : Effect.Keeps inv (onSession Sql.commit))
    (undoes : Effect.Keeps inv (onSession Sql.rollback)) (schema table : String) :
    Effect.Keeps inv (acquireScan core schema table) := by
  refine .bind (reads _ _ (tableSchema_for schema table)) fun ts => .bind .get fun c =>
    .bind (reads _ _ (scanLake_for ts)) fun lake => .bind .get fun _ => ?_
  have renders := pinAndRender_keeps reads pin ts c.dsn lake
  split
  · exact renders
  · refine .bind (.mapError begins _) fun _ => .bind (.attempt renders) fun result => ?_
    cases result with
    | ok pinned => exact .bind (.mapError commits _) fun _ => .pure _
    | error e => exact .bind (.attempt undoes) fun _ => .throw e

theorem client_keeps {α : Type} {x : Pg α} (keeps : Effect.Keeps inv x) :
    Effect.Keeps (fun a : Attached => inv a.conn) (client x) :=
  (keeps.mapError _).zoom (fun _ holds => holds) (fun _ _ _ after => after)

theorem onTxn_keeps (f : TierDBTransaction → TierDBTransaction) :
    Effect.Keeps (fun a : Attached => inv a.conn) (onTxn f) := .modify fun _ holds => holds

end Keeping

section Sessions

variable {core : Core} {inv : Attached → Prop}

/-- A pinned scan keeps what its scan and the changes of the transaction keep. -/
theorem getPinnedScan_keeps (txn : ∀ f, Effect.Keeps inv (onTxn f))
    (scan : ∀ schema table, Effect.Keeps inv (client (acquireScan core schema table)))
    (ref : TableRef) : Effect.Keeps inv (getPinnedScan core ref) := by
  refine .bind .get fun a => ?_
  split
  · exact .pure _
  · refine .bind (.bind (scan _ _) fun _ => .pure _) fun pinned => ?_
    split
    · exact .bind (txn _) fun _ => .bind (txn _) fun _ => .pure _
    · exact .bind (txn _) fun _ => .pure _

theorem releasePins_keeps (txn : ∀ f, Effect.Keeps inv (onTxn f))
    (release : ∀ pinId, Effect.Keeps inv (client (releasePin pinId))) :
    Effect.Keeps inv releasePins := by
  have each : ∀ ids, Effect.Keeps inv (releaseEach ids) := by
    intro ids
    induction ids with
    | nil => exact .pure _
    | cons id rest ih => exact .bind (release id) fun _ => ih
  exact .bind .get fun a => .bind (txn _) fun _ => each _

end Sessions

/-- Once its context is read, a chunk call writes to the table of the context only. -/
theorem chunkBody_for (core : Core) (kind : ChunkKind) (rows : JsonText) (ctx : ChunkContext) :
    SentFor core (ctx.Owns core) (chunkBody core kind rows ctx) := by
  cases kind with
  | insert =>
    refine (SentFor.ofExcept _).bind fun images => ?_
    exact (writeRows_for core ctx images).bind fun lakeSql => .pure _
  | delete =>
    refine (SentFor.ofExcept _).bind fun keys => ?_
    exact (deleteRows_for core ctx keys).bind fun lakeSql => .pure _
  | update =>
    refine (SentFor.ofExcept _).bind fun pairs => ?_
    refine (SentFor.ofExcept _).bind fun split => ?_
    refine (deleteRows_for core ctx _).bind fun deletes => ?_
    exact (writeRows_for core ctx _).bind fun upserts => .pure _

theorem chunkFunction_sent (core : Core) (kind : ChunkKind) (schema table : String)
    (rows : JsonText) : Sent core (chunkFunction core kind schema table rows) := by
  rw [chunkFunction_eq]
  exact (openChunk_sent core schema table).bind fun ctx => (chunkBody_for core kind rows ctx).sent

/-- Everything a sink call can do to transaction and connection: fail to begin, or
begin and then send statements. Only a call that returns leaves an open block open. -/
theorem sinkChunk_cases (core : Core) (kind : ChunkKind) (schema table : String)
    (rows : JsonText) (a : Attached) :
    (∃ e b, ensureWriteTxn a = .error e b ∧
      sinkChunk core kind schema table rows a = .error e b) ∨
    (∃ b, ensureWriteTxn a = .ok () b ∧
      let d := Effect.final (sinkChunk core kind schema table rows a)
      d.txn = b.txn ∧
      ((Effect.Returned (sinkChunk core kind schema table rows a) ∧ Sends core False b.conn d.conn) ∨
        (¬Effect.Returned (sinkChunk core kind schema table rows a) ∧
          Sends core True b.conn d.conn))) := by
  unfold sinkChunk
  cases begun : ensureWriteTxn a with
  | error e b => exact .inl ⟨e,b,rfl,Effect.bind_of_error begun⟩
  | ok u b =>
    refine .inr ⟨b,rfl,?_⟩
    rw [Effect.bind_of_ok begun]
    have framed := (chunkFunction_sent core kind schema table rows).framed
    cases ran : chunkFunction core kind schema table rows b.conn with
    | error e c =>
      have sends := framed.error _ _ _ ran
      simp [Effect.bind_apply, client_apply, ran, Effect.Returned, sends]
    | ok outcome c =>
      have sends := framed.ok _ _ _ ran
      have weak : Sends core True b.conn c := sends.trans (.refl core True c)
      cases lake : executeLakeDml (outcome.attachSql.getD "") outcome.lakeSql b.lakeSide <;>
        simp [Effect.bind_apply, Effect.map_apply, client_apply, ran, Effect.zoom, lake,
          Effect.Returned, sends, weak]

/-- A returned sink call is its write, its chunk and its lake statements. -/
theorem sinkChunk_returned {core : Core} {kind : ChunkKind} {schema table : String}
    {rows : JsonText} {a d : Attached} {count : Int}
    (returned : sinkChunk core kind schema table rows a = .ok count d) :
    ∃ b outcome c side, ensureWriteTxn a = .ok () b ∧
      chunkFunction core kind schema table rows b.conn = .ok outcome c ∧
      executeLakeDml (outcome.attachSql.getD "") outcome.lakeSql b.lakeSide = .ok () side ∧
      d = { b with conn := c, lakeSide := side } ∧ count = outcome.count := by
  obtain ⟨_,b,begun,ran⟩ := Effect.bind_ok.mp returned
  obtain ⟨outcome,mid,called,rest⟩ := Effect.bind_ok.mp ran
  obtain ⟨_,last,sent,done⟩ := Effect.bind_ok.mp rest
  obtain ⟨c,chunked,rfl⟩ := client_ok called
  cases lake : executeLakeDml (outcome.attachSql.getD "") outcome.lakeSql b.lakeSide with
  | error e side => simp [Effect.zoom, lake] at sent
  | ok u side =>
    simp only [Effect.zoom, withConn_lakeSide, lake, EStateM.Result.ok.injEq, true_and] at sent
    subst sent
    cases done
    exact ⟨b,outcome,c,side,begun,chunked,lake,rfl,rfl⟩

/-- A returned sink call has an active write and took the plan of its chunk. -/
theorem sinkChunk_ok {core : Core} {kind : ChunkKind} {schema table : String} {rows : JsonText}
    {a d : Attached} {count : Int} (returned : sinkChunk core kind schema table rows a = .ok count d) :
    ∃ b ctx writes outcome, ensureWriteTxn a = .ok () b ∧
      b.conn.db.openChunk core schema table = some ctx ∧
      (planChunk core ctx kind rows).Makes outcome writes ∧ Took core writes b.conn d.conn ∧
      d.txn = b.txn ∧ count = outcome.count := by
  obtain ⟨b,outcome,c,side,begun,chunked,_,rfl,counted⟩ := sinkChunk_returned returned
  obtain ⟨ctx,writes,opened,made,took⟩ := chunkFunction_ok chunked
  exact ⟨b,ctx,writes,outcome,begun,opened,made,took,rfl,counted⟩

end TierDb
