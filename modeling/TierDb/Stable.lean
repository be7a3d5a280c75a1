import TierDb.Boundary

/-! What no call of the extension changes: a property of the database that data writes and
pin changes keep holds in the durable state and in an open block through every call. -/
namespace TierDb

structure Stable (core : Core) (P : Database → Prop) : Prop where
  write : ∀ w db next, Write.run core w db = .ok next → P db → P next
  pins : ∀ db pins, P db → P { db with pins := pins }

/-- `P` holds of all that a session stores. -/
def Holds (P : Database → Prop) (session : Sql.Session Snapshot Int) : Prop :=
  P session.durable.database ∧ ∀ w, session.block = .open w → P w.database

theorem Holds.view {P : Database → Prop} {s : Sql.Session Snapshot Int} (holds : Holds P s) :
    P s.view.database :=
  Sql.Session.All.view (P := fun snapshot : Snapshot => P snapshot.database) holds

def Conn.Holds (P : Database → Prop) (c : Conn) : Prop := TierDb.Holds P c.client.session

/-- `P` holds of every stored snapshot while calls are made for `author`. -/
def Conn.Stores (author : Nat) (P : Snapshot → Prop) (c : Conn) : Prop :=
  c.client.author = author ∧ c.client.session.All P

section Stores

variable {core : Core} {author : Nat} {P : Snapshot → Prop} {α : Type}

theorem onSession_stores {x : Sql.Exec Snapshot Int α}
    (keeps : Effect.Keeps (Sql.Session.All P) x) :
    Effect.Keeps (Conn.Stores author P) (onSession x) :=
  keeps.zoom (fun _ stores => stores.2) (fun _ _ stores after => ⟨stores.1,after⟩)

theorem query_stores (read : Database → Except String α) :
    Effect.Keeps (Conn.Stores author P) (query read) := by
  refine onSession_stores (Sql.statement_keeps ?_)
  intro snapshot a next ran stored
  cases answer : read snapshot.database with
  | error e => simp [answer, Except.map] at ran
  | ok b =>
    simp only [answer, Except.map, Except.ok.injEq, Prod.mk.injEq] at ran
    exact ran.2 ▸ stored

/-- A write the server took is run on what is stored and journaled for its author. -/
theorem execute_stores {w : Write} (write : ∀ snapshot next,
      w.run core snapshot.database = .ok next → P snapshot →
      P ⟨next,snapshot.journal ++ [(author,w)]⟩) :
    Effect.Keeps (Conn.Stores author P) (execute core w) := by
  intro c stores
  have sent : Effect.Keeps (Conn.Stores author P) (do
      onSession (Sql.statement (w.onSnapshot core c.client.author))
      modify fun conn => { conn with client := { conn.client with
        issued := conn.client.issued ++ [(c.client.author,w)] } }) := by
    refine .bind (onSession_stores (Sql.statement_keeps ?_)) fun _ => .modify fun _ kept => kept
    rintro snapshot ⟨⟩ next ran stored
    cases wrote : w.run core snapshot.database with
    | error e => simp [Write.onSnapshot, wrote, Except.map] at ran
    | ok db =>
      simp only [Write.onSnapshot, wrote, Except.map, Except.ok.injEq, Prod.mk.injEq,
        true_and] at ran
      rw [← ran, stores.1]
      exact write _ _ wrote stored
  exact sent c stores

theorem lock_stores (tableId : Int) :
    Effect.Keeps (Conn.Stores author P) (onSession (Sql.lock tableId)) := by
  refine onSession_stores fun s all => ?_
  have sent : Effect.Keeps (Sql.Session.All P)
      (Sql.statement fun value : Snapshot => .ok ((),value) : Sql.Exec Snapshot Int Unit) :=
    Sql.statement_keeps fun _ _ _ ran stored => by cases ran; exact stored
  have kept := sent s all
  unfold Sql.lock
  cases ran : Sql.statement (fun value : Snapshot => Except.ok ((),value)) s with
  | error e t => simpa [ran] using kept
  | ok a t =>
    simp only [ran, Effect.final_ok] at kept ⊢
    split <;> exact kept

/-- What every write in `own` keeps of a snapshot, the computation keeps of the session. -/
theorem SentFor.stores {own : Write → Prop} {x : Pg α} (sent : SentFor core own x)
    (write : ∀ w, own w → ∀ snapshot next, w.run core snapshot.database = .ok next → P snapshot →
      P ⟨next,snapshot.journal ++ [(author,w)]⟩) : Effect.Keeps (Conn.Stores author P) x := by
  induction sent with
  | pure a => exact .pure a
  | throw e => exact .throw e
  | ofExcept x => exact .ofExcept x
  | query read => exact query_stores read
  | execute w owned => exact execute_stores (write w owned)
  | lock tableId => exact lock_stores tableId
  | bind _ _ first next => exact first.bind next
  | @branch _ _ x f _ next =>
    cases x with
    | error e => exact .throw e
    | ok a => exact next a rfl
  | mapError _ f keeps => exact keeps.mapError f

theorem queried_stores {x : Pg α} (read : Queried core x) :
    Effect.Keeps (Conn.Stores author P) x :=
  SentFor.stores read fun _ impossible => impossible.elim

end Stores

/-- What the calls other than the chunk functions keep. -/
structure CallsKeep (core : Core) (inv : Conn → Prop) : Prop where
  begins : Effect.Keeps inv txnBegin
  commits : Effect.Keeps inv txnCommit
  undoes : Effect.Keeps inv txnRollback
  scans : ∀ schema table, Effect.Keeps inv (acquireScan core schema table)
  releases : ∀ pinId, Effect.Keeps inv (releasePin pinId)

section Calls

variable {core : Core} {author : Nat} {P : Snapshot → Prop}

theorem pinAcquire_stores (ignored : ∀ snapshot pins, P snapshot →
      P { snapshot with database := { snapshot.database with pins := pins } })
    (tableId : Int) (cut : Cutline) :
    Effect.Keeps (Conn.Stores author P) (pinAcquire tableId cut) := by
  refine .bind .get fun c => .bind (.modify ?_) fun _ => onSession_stores (Sql.statement_keeps ?_)
  · exact fun _ stores => stores
  · rintro snapshot _ _ ran stored
    cases ran
    exact ignored _ _ stored

theorem releasePin_stores (ignored : ∀ snapshot pins, P snapshot →
      P { snapshot with database := { snapshot.database with pins := pins } }) (pinId : Int) :
    Effect.Keeps (Conn.Stores author P) (releasePin pinId) := by
  refine .mapError (onSession_stores (Sql.statement_keeps ?_)) _
  rintro snapshot _ _ ran stored
  cases ran
  exact ignored _ _ stored

theorem setInTxn_stores (value : Bool) : Effect.Keeps (Conn.Stores author P) (setInTxn value) :=
  .modify fun _ stores => stores

theorem txnBegin_stores : Effect.Keeps (Conn.Stores author P) txnBegin := by
  refine .bind .get fun c => ?_
  split
  · exact .pure _
  · exact .bind (.mapError (onSession_stores Sql.beginBlock_keeps) _) fun _ => setInTxn_stores true

theorem txnCommit_stores : Effect.Keeps (Conn.Stores author P) txnCommit := by
  refine .bind .get fun c => ?_
  split
  · exact .pure _
  · exact .bind (.mapError (onSession_stores Sql.commit_keeps) _) fun _ => setInTxn_stores false

theorem txnRollback_stores : Effect.Keeps (Conn.Stores author P) txnRollback := by
  refine .bind .get fun c => ?_
  split
  · exact .pure _
  · exact .bind (.mapError (onSession_stores Sql.rollback_keeps) _) fun _ => setInTxn_stores false

/-- Transaction calls, scans and releases keep what does not depend on the pins. -/
theorem stores_callsKeep (ignored : ∀ snapshot pins, P snapshot →
      P { snapshot with database := { snapshot.database with pins := pins } }) :
    CallsKeep core (Conn.Stores author P) where
  begins := txnBegin_stores
  commits := txnCommit_stores
  undoes := txnRollback_stores
  scans := acquireScan_keeps (fun _ _ => queried_stores) (pinAcquire_stores ignored)
    (onSession_stores Sql.beginBlock_keeps) (onSession_stores Sql.commit_keeps)
    (onSession_stores Sql.rollback_keeps)
  releases := releasePin_stores ignored

/-- What a chunk call keeps: it opens a context on what is stored, and its writes are those
of the context. -/
theorem chunkFunction_stores (kind : ChunkKind) {schema table : String} (rows : JsonText)
    (write : ∀ stored, P stored → ∀ ctx row,
      Opened core stored.database schema table ctx row → ∀ w, ctx.Owns core w →
      ∀ snapshot next, w.run core snapshot.database = .ok next → P snapshot →
      P ⟨next,snapshot.journal ++ [(author,w)]⟩) :
    Effect.Keeps (Conn.Stores author P) (chunkFunction core kind schema table rows) := by
  intro c stores
  rw [chunkFunction_eq]
  have opening : Queried core (openChunk core schema table) := openChunk_for schema table
  have kept := queried_stores opening c stores
  cases opened : openChunk core schema table c with
  | error e d =>
    rw [Effect.bind_of_error opened]
    simpa [opened] using kept
  | ok ctx m =>
    rw [Effect.bind_of_ok opened]
    obtain ⟨row,read⟩ := openChunk_some core ((openChunk_reads core schema table).ok _ _ _ opened).1
    exact (chunkBody_for core kind rows ctx).stores (write _ stores.2.view ctx row read) m
      (by simpa [opened] using kept)

/-- A property of the stored databases that does not depend on the author. -/
theorem holds_of_stores {P : Database → Prop} {α : Type} {x : Pg α}
    (keeps : ∀ author, Effect.Keeps (Conn.Stores author fun s => P s.database) x) :
    Effect.Keeps (Conn.Holds P) x := fun c holds => (keeps c.client.author c ⟨rfl,holds⟩).2

theorem holds_callsKeep {P : Database → Prop}
    (ignored : ∀ db pins, P db → P { db with pins := pins }) :
    CallsKeep core (Conn.Holds P) :=
  have keep (author : Nat) : CallsKeep core (Conn.Stores author fun s => P s.database) :=
    stores_callsKeep fun snapshot => ignored snapshot.database
  { begins := holds_of_stores fun author => (keep author).begins
    commits := holds_of_stores fun author => (keep author).commits
    undoes := holds_of_stores fun author => (keep author).undoes
    scans schema table := holds_of_stores fun author => (keep author).scans schema table
    releases pinId := holds_of_stores fun author => (keep author).releases pinId }

theorem queried_holds {P : Database → Prop} {α : Type} {x : Pg α} (read : Queried core x) :
    Effect.Keeps (Conn.Holds P) x := holds_of_stores fun _ => queried_stores read

theorem chunkFunction_holds {P : Database → Prop} (kind : ChunkKind) {schema table : String}
    (rows : JsonText)
    (write : ∀ stored, P stored → ∀ ctx row, Opened core stored schema table ctx row →
      ∀ w, ctx.Owns core w → ∀ db next, w.run core db = .ok next → P db → P next) :
    Effect.Keeps (Conn.Holds P) (chunkFunction core kind schema table rows) :=
  holds_of_stores fun _ => chunkFunction_stores kind rows fun _ stored ctx row read w owned _ next
    ran before => write _ stored ctx row read w owned _ next ran before

end Calls

/-- What the calls of a transaction other than its chunks keep. -/
structure BoundaryKeeps (core : Core) (inv : Attached → Prop) : Prop where
  txn : ∀ f, Effect.Keeps inv (onTxn f)
  begins : Effect.Keeps inv (client txnBegin)
  commits : Effect.Keeps inv (client txnCommit)
  undoes : Effect.Keeps inv (client txnRollback)
  scans : ∀ schema table, Effect.Keeps inv (client (acquireScan core schema table))
  releases : ∀ pinId, Effect.Keeps inv (client (releasePin pinId))

theorem CallsKeep.boundary {core : Core} {inv : Conn → Prop} (keep : CallsKeep core inv) :
    BoundaryKeeps core fun a => inv a.conn where
  txn := onTxn_keeps
  begins := client_keeps keep.begins
  commits := client_keeps keep.commits
  undoes := client_keeps keep.undoes
  scans schema table := client_keeps (keep.scans schema table)
  releases pinId := client_keeps (keep.releases pinId)

theorem client_lakeSide (side : LakeSide) {α : Type} (x : Pg α) :
    Effect.Keeps (fun a : Attached => a.lakeSide = side) (client x) := by
  intro a same
  rw [client_apply]
  cases x a.conn <;> exact same

/-- Only a chunk reaches the lake. -/
theorem lakeSide_boundary (core : Core) (side : LakeSide) :
    BoundaryKeeps core fun a => a.lakeSide = side where
  txn _ := .modify fun _ same => same
  begins := client_lakeSide side _
  commits := client_lakeSide side _
  undoes := client_lakeSide side _
  scans _ _ := client_lakeSide side _
  releases _ := client_lakeSide side _

section Boundary

variable {core : Core} {inv : Attached → Prop}

theorem ensureWriteTxn_keeps (keep : BoundaryKeeps core inv) :
    Effect.Keeps inv ensureWriteTxn := by
  refine .bind .get fun a => ?_
  split
  · exact .pure _
  · exact .bind keep.begins fun _ => keep.txn _

theorem commitWrite_keeps (keep : BoundaryKeeps core inv) : Effect.Keeps inv commitWrite := by
  refine .bind .get fun a => ?_
  split
  · exact .pure _
  · exact .bind (keep.txn _) fun _ => keep.commits

theorem rollbackWrite_keeps (keep : BoundaryKeeps core inv) : Effect.Keeps inv rollbackWrite := by
  refine .bind .get fun a => ?_
  split
  · exact .pure _
  · exact .bind (keep.txn _) fun _ => keep.undoes

theorem commitTransaction_keeps (keep : BoundaryKeeps core inv) :
    Effect.Keeps inv commitTransaction := by
  intro a holds
  rw [commitTransaction_apply]
  have wrote := commitWrite_keeps keep a holds
  have released := releasePins_keeps keep.txn keep.releases _ wrote
  cases first : commitWrite a with
  | ok u b => cases second : releasePins b <;> simpa [first, second] using released
  | error e b => cases second : releasePins b <;> simpa [first, second] using released

theorem rollbackTransaction_keeps (keep : BoundaryKeeps core inv) :
    Effect.Keeps inv rollbackTransaction :=
  .bind (.attempt (rollbackWrite_keeps keep)) fun _ =>
    .bind (.attempt (releasePins_keeps keep.txn keep.releases)) fun _ => .pure _

theorem sinkChunk_keeps {inv : Conn → Prop} (keep : CallsKeep core inv) {kind : ChunkKind}
    {schema table : String} {rows : JsonText}
    (chunk : Effect.Keeps inv (chunkFunction core kind schema table rows)) :
    Effect.Keeps (fun a : Attached => inv a.conn) (sinkChunk core kind schema table rows) := by
  refine .bind (ensureWriteTxn_keeps keep.boundary) fun _ => .bind (client_keeps chunk)
    fun outcome => .bind ?_ fun _ => .pure _
  have lake : Effect.Keeps (fun _ => True)
      (executeLakeDml (outcome.attachSql.getD "") outcome.lakeSql) := fun _ _ => trivial
  exact lake.zoom (fun _ _ => trivial) fun _ _ holds _ => holds

end Boundary

section Step

variable {core : Core} {sys next : System} {event : Event}

/-- One call keeps a property of the stored databases that its chunk function keeps. -/
theorem step_keeps {P : Database → Prop} (keep : CallsKeep core (Conn.Holds P))
    (chunk : ∀ t kind schema table rows verdicts answers,
      event = .chunk t kind schema table rows verdicts answers →
      Effect.Keeps (Conn.Holds P) (chunkFunction core kind schema table rows))
    (holds : sys.conn.Holds P) (taken : step core sys event = some next) : next.conn.Holds P := by
  cases event with
  | start t => obtain ⟨_,_,rfl⟩ := step_start taken; exact holds
  | scan t ref verdicts =>
    obtain ⟨txn,_,_,rfl⟩ := step_scan taken
    rw [settleResult_conn]
    exact getPinnedScan_keeps keep.boundary.txn keep.boundary.scans ref
      (sys.enter t txn verdicts []) holds
  | chunk t kind schema table rows verdicts answers =>
    obtain ⟨txn,_,_,rfl⟩ := step_chunk taken
    rw [settleResult_conn]
    exact sinkChunk_keeps keep (chunk t kind schema table rows verdicts answers rfl)
      (sys.enter t txn verdicts answers) holds
  | commit t verdicts =>
    obtain ⟨txn,_,_,_,rfl,_,_⟩ := step_commit taken
    exact commitTransaction_keeps keep.boundary (sys.enter t txn verdicts []) holds
  | rollback t verdicts =>
    obtain ⟨txn,_,rfl⟩ := step_rollback taken
    exact rollbackTransaction_keeps keep.boundary (sys.enter t txn verdicts []) holds

/-- One call keeps a stable property of the stored state. -/
theorem step_holds {P : Database → Prop} (stable : Stable core P) (holds : sys.conn.Holds P)
    (taken : step core sys event = some next) : next.conn.Holds P :=
  step_keeps (holds_callsKeep stable.pins) (fun _ kind _ _ rows _ _ _ =>
    chunkFunction_holds kind rows fun _ _ _ _ _ w _ db next ran before =>
      stable.write w db next ran before) holds taken

end Step

end TierDb
