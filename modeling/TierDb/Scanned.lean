import TierDb.Resolution

/-! Which table a scan reads. A transaction keeps its scans by the table id of the catalog
entry they were made for, and an entry outlives the registration it was built from. -/
namespace TierDb

def TierDBTableSchema.ref (entry : TierDBTableSchema) : TableRef :=
  ⟨entry.tableId,entry.schemaName,entry.tableName⟩

def TableRef.names (ref : TableRef) : String × String := (ref.schemaName,ref.tableName)

/-- A catalog with a record of its scans: the entries each transaction asked with, what
`AcquireReadScan` produced for which names, and what was returned for which entry. -/
structure ScanHistory where
  catalog : TierDBCatalog
  asked : List (Nat × TableRef) := []
  produced : List (Nat × (String × String) × TierDBPinnedScan) := []
  returned : List (Nat × TableRef × TierDBPinnedScan) := []

/-- The scan a call has `AcquireReadScan` produce. -/
def produces (core : Core) (ref : TableRef) (a : Attached) : Option TierDBPinnedScan :=
  match a.txn.scanByTable.find? (·.1 = ref.tableId) with
  | some _ => none
  | none =>
    match acquireReadScan core ref.schemaName ref.tableName a with
    | .ok pinned _ => some pinned
    | .error _ _ => none

def returns (core : Core) (ref : TableRef) (a : Attached) : Option TierDBPinnedScan :=
  match getPinnedScan core ref a with
  | .ok pinned _ => some pinned
  | .error _ _ => none

def Database.UsesId (db : Database) (tableId : Int) : Prop := ∃ row ∈ db.tables, row.tableId = tableId

instance (db : Database) (tableId : Int) : Decidable (db.UsesId tableId) :=
  inferInstanceAs (Decidable (∃ row ∈ db.tables, _))

def Database.unregister (schema table : String) (db : Database) : Database :=
  { db with tables := db.tables.filter fun row =>
      ¬(row.schemaName = schema ∧ row.tableName = table) }

def TierDBCatalog.unregister (schema table : String) (c : TierDBCatalog) : TierDBCatalog :=
  { c with toCatalog :=
    c.toCatalog.withSession (alter (Database.unregister schema table) c.session) }

/-- Registrations come and go, the catalog is called, transactions run, and they scan entries
that the catalog holds. -/
inductive ScanEvent where
  | register (row : Registration)
  | unregister (schema table : String)
  | catalog (call : CatalogCall)
  | call (event : Event)
  | scan (t : Nat) (entry : TierDBTableSchema) (verdicts : List (Option String))

def Event.isScan : Event → Bool
  | .scan .. => true
  | _ => false

def ScanHistory.recordScan (core : Core) (s : ScanHistory) (t : Nat) (ref : TableRef)
    (a : Attached) (sys : System) : ScanHistory where
  catalog := { s.catalog with sys := sys }
  asked := s.asked ++ [(t,ref)]
  produced := s.produced ++ (produces core ref a).toList.map fun pinned => (t,ref.names,pinned)
  returned := s.returned ++ (returns core ref a).toList.map fun pinned => (t,ref,pinned)

def scanStep (core : Core) (le : String → String → Bool) (s : ScanHistory) :
    ScanEvent → Option ScanHistory
  | .register row =>
    if s.catalog.session.durable.database.UsesId row.tableId then none
    else (callStep core le s.catalog (.register row)).map fun c => { s with catalog := c }
  | .unregister schema table =>
    some { s with catalog := s.catalog.unregister schema table }
  | .catalog call =>
    if call.isRegister then none
    else (callStep core le s.catalog call).map fun c => { s with catalog := c }
  | .call event =>
    if event.isScan then none
    else (step core s.catalog.sys event).map fun sys =>
      { s with catalog := { s.catalog with sys := sys } }
  | .scan t entry verdicts => do
    if ∃ e ∈ s.catalog.tables, e.2 = entry then
      let txn ← s.catalog.sys.transactions t
      let sys ← step core s.catalog.sys (.scan t entry.ref verdicts)
      some (s.recordScan core t entry.ref (s.catalog.sys.enter t txn verdicts []) sys)
    else none

/-- Every scan returned for an entry is one produced for the entry's own names. -/
def OwnScans (s : ScanHistory) : Prop :=
  ∀ t ref pinned, (t,ref,pinned) ∈ s.returned → (t,ref.names,pinned) ∈ s.produced

/-- A transaction scans no entry whose table id it has scanned under other names. -/
def OwnIds (s : ScanHistory) : ScanEvent → Prop
  | .scan t entry _ => ∀ ref, (t,ref) ∈ s.asked → ref.tableId = entry.tableId →
      ref.names = entry.ref.names
  | _ => True

section Scans

variable {core : Core} {le : String → String → Bool}

theorem acquireReadScan_txn (core : Core) (schema table : String) (a : Attached) :
    (Effect.final (acquireReadScan core schema table a)).txn = a.txn := by
  unfold acquireReadScan
  cases ran : acquireScan core schema table a.conn <;>
    simp [Effect.bind_apply, client_apply, ran]

/-- A call scans from the transaction's cache, or has a scan produced and keeps it. -/
theorem getPinnedScan_cases (core : Core) (ref : TableRef) (a : Attached) :
    let b := Effect.final (getPinnedScan core ref a)
    (∃ hit ∈ a.txn.scanByTable, hit.1 = ref.tableId ∧ returns core ref a = some hit.2 ∧
      b.txn.scanByTable = a.txn.scanByTable) ∨
    (returns core ref a = none ∧ b.txn.scanByTable = a.txn.scanByTable) ∨
    (∃ pinned, produces core ref a = some pinned ∧ returns core ref a = some pinned ∧
      b.txn.scanByTable = a.txn.scanByTable ++ [(ref.tableId,pinned)]) := by
  unfold returns produces getPinnedScan
  rw [Effect.bind_of_ok (Effect.get_apply a)]
  cases cached : a.txn.scanByTable.find? (·.1 = ref.tableId) with
  | some hit =>
    exact .inl ⟨hit,List.mem_of_find?_eq_some cached,by simpa using List.find?_some cached,rfl,rfl⟩
  | none =>
    cases ran : acquireReadScan core ref.schemaName ref.tableName a with
    | error e b =>
      refine .inr (.inl ?_)
      have same : b.txn = a.txn := by
        simpa [ran] using acquireReadScan_txn core ref.schemaName ref.tableName a
      simp [Effect.bind_apply, ran, same]
    | ok pinned b =>
      refine .inr (.inr ⟨pinned,?_⟩)
      have same : b.txn = a.txn := by
        simpa [ran] using acquireReadScan_txn core ref.schemaName ref.tableName a
      cases pin : pinned.hasPin <;>
        simp [Effect.bind_apply, Effect.map_apply, ran, pin, onTxn, same]

theorem ensureWriteTxn_scans (a : Attached) :
    (Effect.final (ensureWriteTxn a)).txn.scanByTable = a.txn.scanByTable := by
  rw [ensureWriteTxn_apply]
  split
  · rfl
  · cases txnBegin a.conn <;> rfl

theorem sinkChunk_scans (kind : ChunkKind) (schema table : String) (rows : JsonText)
    (a : Attached) : (Effect.final (sinkChunk core kind schema table rows a)).txn.scanByTable =
      a.txn.scanByTable := by
  have begun := ensureWriteTxn_scans a
  rcases sinkChunk_cases core kind schema table rows a with ⟨e,b,failed,ran⟩ | ⟨b,returned,txn,_⟩
  · rw [ran]
    simpa [failed] using begun
  · rw [txn]
    simpa [returned] using begun

/-- Calls other than scans leave every transaction's scans alone. -/
theorem step_scans {sys next : System} {event : Event} (taken : step core sys event = some next)
    (calls : event.isScan = false) {t : Nat} {txn : TierDBTransaction}
    (found : next.transactions t = some txn) {hit : Int × TierDBPinnedScan}
    (member : hit ∈ txn.scanByTable) :
    ∃ txn', sys.transactions t = some txn' ∧ hit ∈ txn'.scanByTable := by
  cases event with
  | start u =>
    obtain ⟨_,_,rfl⟩ := step_start taken
    by_cases same : t = u
    · subst same
      simp only [assign_same, Option.some.injEq] at found
      simp [← found] at member
    · simp only [assign_other _ same] at found
      exact ⟨txn,found,member⟩
  | scan u ref verdicts => cases calls
  | chunk u kind schema table rows verdicts answers =>
    obtain ⟨txn',known,_,rfl⟩ := step_chunk taken
    rw [settleResult_transactions] at found
    by_cases same : t = u
    · subst same
      rw [assign_same, Option.some.injEq] at found
      rw [← found, sinkChunk_scans] at member
      exact ⟨txn',known,member⟩
    · rw [assign_other _ same] at found
      exact ⟨txn,found,member⟩
  | commit u verdicts =>
    obtain ⟨_,_,_,_,rfl,_,_⟩ := step_commit taken
    rw [close_transactions] at found
    by_cases same : t = u
    · simp [same] at found
    · rw [assign_other _ same] at found
      exact ⟨txn,found,member⟩
  | rollback u verdicts =>
    obtain ⟨_,_,rfl⟩ := step_rollback taken
    rw [close_transactions] at found
    by_cases same : t = u
    · simp [same] at found
    · rw [assign_other _ same] at found
      exact ⟨txn,found,member⟩

/-- Calls on the catalog leave the transactions alone. -/
theorem transactions_kept (core : Core) (le : String → String → Bool)
    (txns : Nat → Option TierDBTransaction) :
    Kept core le (fun c => c.sys.transactions = txns) where
  entry schema table := by
    have looked : Effect.Keeps (fun catalog : Catalog => catalog.sys.transactions = txns)
        (lookupEntry core schema table) := by
      intro catalog same
      unfold lookupEntry
      rw [Effect.bind_of_ok (Effect.get_apply catalog)]
      cases cached : catalog.cached schema table with
      | some hit => exact same
      | none =>
        cases asked : tryGetTableSchema core schema table catalog.sys.conn with
        | error e c => simpa [Effect.bind_apply, Effect.zoom, asked, Catalog.setConn] using same
        | ok found c =>
          cases found <;>
            simpa [Effect.bind_apply, Effect.map_apply, Effect.zoom, asked, Catalog.setConn] using
              same
    exact looked.zoom (fun _ same => same) fun _ _ _ same => same
  listing := by
    intro c same
    cases asked : listTables le c.sys.conn <;>
      simpa [onClient, onCatalog, Effect.zoom, Effect.mapError, asked, Catalog.setConn] using same
  load _ _ same := same
  verdicts _ _ same := same

/-- Every cached scan was asked for under its id, and produced for the names asked with. -/
structure Tracked (s : ScanHistory) : Prop where
  cached : ∀ t txn, s.catalog.sys.transactions t = some txn → ∀ hit ∈ txn.scanByTable,
    ∃ ref, (t,ref) ∈ s.asked ∧ ref.tableId = hit.1 ∧ (t,ref.names,hit.2) ∈ s.produced
  own : OwnScans s

theorem Tracked.quiet {s : ScanHistory} (tracked : Tracked s) {c : TierDBCatalog}
    (scans : ∀ t txn, c.sys.transactions t = some txn → ∀ hit ∈ txn.scanByTable,
      ∃ txn', s.catalog.sys.transactions t = some txn' ∧ hit ∈ txn'.scanByTable) :
    Tracked { s with catalog := c } where
  cached t txn found hit member := by
    obtain ⟨txn',known,kept⟩ := scans t txn found hit member
    exact tracked.cached t txn' known hit kept
  own := tracked.own

theorem Tracked.calls {s : ScanHistory} (tracked : Tracked s) {c : TierDBCatalog}
    (same : c.sys.transactions = s.catalog.sys.transactions) : Tracked { s with catalog := c } :=
  tracked.quiet fun _ txn found _ member => ⟨txn,same ▸ found,member⟩

/-- A scan keeps the record if the transaction's own ids are apart. -/
theorem Tracked.scan {s : ScanHistory} (tracked : Tracked s) {t : Nat} {ref : TableRef}
    {verdicts : List (Option String)} {sys : System} {txn : TierDBTransaction}
    (known : s.catalog.sys.transactions t = some txn)
    (apart : ∀ other, (t,other) ∈ s.asked → other.tableId = ref.tableId → other.names = ref.names)
    (taken : step core s.catalog.sys (.scan t ref verdicts) = some sys) :
    Tracked (s.recordScan core t ref (s.catalog.sys.enter t txn verdicts []) sys) := by
  obtain ⟨txn',found,_,rfl⟩ := step_scan taken
  obtain rfl := Option.some.inj (found.symm.trans known)
  have cases := getPinnedScan_cases core ref (s.catalog.sys.enter t txn' verdicts [])
  simp only [enter_txn] at cases
  have older : ∀ u txn, s.catalog.sys.transactions u = some txn → ∀ hit ∈ txn.scanByTable,
      ∃ other, (u,other) ∈ s.asked ++ [(t,ref)] ∧ other.tableId = hit.1 ∧
        (u,other.names,hit.2) ∈ s.produced ++ (produces core ref
          (s.catalog.sys.enter t txn' verdicts [])).toList.map fun pinned =>
            (t,ref.names,pinned) := by
    intro u txn known hit member
    obtain ⟨other,asked,id,made⟩ := tracked.cached u txn known hit member
    exact ⟨other,List.mem_append_left _ asked,id,List.mem_append_left _ made⟩
  refine ⟨fun u txn known hit member => ?_,fun u other pinned member => ?_⟩
  · simp only [ScanHistory.recordScan, settleResult_transactions] at known ⊢
    by_cases same : u = t
    · subst same
      rw [assign_same, Option.some.injEq] at known
      subst known
      rcases cases with ⟨_,_,_,_,kept⟩ | ⟨_,kept⟩ | ⟨pinned,made,_,grown⟩
      · exact older u txn' found hit (kept ▸ member)
      · exact older u txn' found hit (kept ▸ member)
      · rw [grown] at member
        rcases List.mem_append.mp member with old | new
        · exact older u txn' found hit old
        · obtain rfl := List.mem_singleton.mp new
          exact ⟨ref,by simp,rfl,by simp [made]⟩
    · rw [assign_other _ same] at known
      exact older u txn known hit member
  · simp only [ScanHistory.recordScan] at member ⊢
    rcases List.mem_append.mp member with old | new
    · exact List.mem_append_left _ (tracked.own u other pinned old)
    · rcases cases with ⟨hit,mine,id,answer,_⟩ | ⟨none,_⟩ | ⟨made,produced,answer,_⟩
      · simp only [answer, Option.toList_some, List.map_cons, List.map_nil,
          List.mem_singleton, Prod.mk.injEq] at new
        obtain ⟨rfl,rfl,rfl⟩ := new
        obtain ⟨earlier,asked,known,given⟩ := tracked.cached u txn' found hit mine
        rw [apart earlier asked (known.trans id)] at given
        exact List.mem_append_left _ given
      · simp [none] at new
      · simp only [answer, Option.toList_some, List.map_cons, List.map_nil,
          List.mem_singleton, Prod.mk.injEq] at new
        obtain ⟨rfl,rfl,rfl⟩ := new
        simp [produced]

theorem scanStep_tracked {s next : ScanHistory} {event : ScanEvent} (tracked : Tracked s)
    (own : OwnIds s event) (taken : scanStep core le s event = some next) : Tracked next := by
  cases event with
  | register row =>
    simp only [scanStep, callStep] at taken
    split at taken
    · cases taken
    · split at taken
      · cases taken
      · cases taken
        exact tracked.calls rfl
  | unregister schema table =>
    cases taken
    exact tracked.calls rfl
  | catalog call =>
    simp only [scanStep] at taken
    split at taken
    · cases taken
    · rename_i looks
      obtain ⟨c,called,rfl⟩ := Option.map_eq_some_iff.mp taken
      exact tracked.calls ((transactions_kept core le s.catalog.sys.transactions).call rfl called
        (by simpa using looks))
  | call event =>
    simp only [scanStep] at taken
    split at taken
    · cases taken
    · rename_i calls
      obtain ⟨sys,stepped,rfl⟩ := Option.map_eq_some_iff.mp taken
      exact tracked.quiet fun t txn found hit member =>
        step_scans stepped (by simpa using calls) found member
  | scan t entry verdicts =>
    simp only [scanStep] at taken
    split at taken
    · simp only [Option.bind_eq_bind, Option.bind_eq_some_iff] at taken
      obtain ⟨txn,known,sys,stepped,recorded⟩ := taken
      cases recorded
      exact tracked.scan known (fun other asked same => own other asked same) stepped
    · cases taken

/-- In every run whose transactions scan no entry under a table id they have scanned under
other names, every scan returned is one produced for the entry's own names. -/
theorem scans_of_own_table (core : Core) (le : String → String → Bool) {dsn : String}
    {stored : Snapshot} {events : List ScanEvent} {s : ScanHistory}
    (own : Runs.Meets (scanStep core le) OwnIds ⟨.attach dsn stored,[],[],[]⟩ events)
    (ran : Runs.run (scanStep core le) ⟨.attach dsn stored,[],[],[]⟩ events = some s) :
    OwnScans s := by
  have start : Tracked ⟨.attach dsn stored,[],[],[]⟩ := by
    refine ⟨fun t txn found => ?_,fun t ref pinned member => absurd member List.not_mem_nil⟩
    cases found
  exact (Runs.run_invariant (fun _ _ _ tracked own taken => scanStep_tracked tracked own taken)
    start own ran).own

end Scans

def Reference.entry (row : Registration) : TierDBTableSchema :=
  (row.withColumns bigint columns).entry core

def Reference.orders (tableId : Int) : Registration :=
  { registration "tiered" with tableId := tableId, tableName := "orders" }

/-- Two tables under ids of their own, scanned in one transaction. -/
def scanBoth : List ScanEvent :=
  [.register (Reference.orders 2),.catalog (.lookupSchema "public" []),
    .catalog (.lookupEntry "public" "items" []),.catalog (.lookupEntry "public" "orders" []),
    .call (.start 1),.scan 1 (Reference.entry (Reference.registration "tiered")) [],
    .scan 1 (Reference.entry (Reference.orders 2)) []]

instance (s : ScanHistory) (event : ScanEvent) : Decidable (OwnIds s event) :=
  match event with
  | .scan t entry _ => decidable_of_iff
      (∀ given ∈ s.asked, given.1 = t → given.2.tableId = entry.tableId →
        given.2.names = entry.ref.names)
      ⟨fun all ref asked => all (t,ref) asked rfl,fun all given asked same => by
        subst same
        exact all given.2 asked⟩
  | .register _ | .unregister .. | .catalog _ | .call _ => isTrue trivial

theorem scanBoth_own : ∃ s, Runs.run (scanStep Reference.core Reference.ordered)
      ⟨.attach "" Reference.beforeSales,[],[],[]⟩ scanBoth = some s ∧
    s.returned.length = 2 ∧ OwnScans s := by
  have ends : (Runs.run (scanStep Reference.core Reference.ordered)
      ⟨.attach "" Reference.beforeSales,[],[],[]⟩ scanBoth).map (fun s => s.returned.length) =
        some 2 := by decide +kernel
  obtain ⟨s,ran,two⟩ := Option.map_eq_some_iff.mp ends
  exact ⟨s,ran,two,scans_of_own_table Reference.core Reference.ordered (by decide +kernel) ran⟩

/-- `items` is registered anew and `orders` takes over its id, which the entry of `items`
still has. -/
def scanReused : List ScanEvent :=
  [.catalog (.lookupSchema "public" []),.catalog (.lookupEntry "public" "items" []),
    .unregister "public" "items",
    .register { Reference.registration "tiered" with tableId := 2 },
    .register (Reference.orders 1),.catalog (.lookupEntry "public" "orders" []),.call (.start 1),
    .scan 1 (Reference.entry (Reference.registration "tiered")) [],
    .scan 1 (Reference.entry (Reference.orders 1)) []]

/-- The scan of `orders` gets the one produced for `items`. -/
theorem reused_id_scans_other : ¬∀ core le dsn stored events s,
    Runs.run (scanStep core le) ⟨.attach dsn stored,[],[],[]⟩ events = some s → OwnScans s := by
  intro claim
  have ran : (Runs.run (scanStep Reference.core Reference.ordered)
      ⟨.attach "" Reference.beforeSales,[],[],[]⟩ scanReused).map (fun s =>
        s.returned.all fun r => decide ((r.1,r.2.1.names,r.2.2) ∈ s.produced)) = some false := by
    decide +kernel
  obtain ⟨s,reached,strange⟩ := Option.map_eq_some_iff.mp ran
  have own := claim _ _ _ _ _ s reached
  have fine : (s.returned.all fun r => decide ((r.1,r.2.1.names,r.2.2) ∈ s.produced)) = true :=
    List.all_eq_true.mpr fun r member => decide_eq_true (own r.1 r.2.1 r.2.2 member)
  rw [fine] at strange
  cases strange

end TierDb
