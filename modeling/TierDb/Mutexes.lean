import TierDb.Library.Locks

/-! The mutexes of one attached catalog. Every entry point is modelled by the guards it takes
and by the calls and exceptions that can occur under each. -/
namespace TierDb.Mutexes

open Locks

/-- `table_lock` belongs to a schema entry, `pin_lock` to a transaction and `lock` to the
global sink state of a statement. -/
inductive Mutex where
  | schemaLock
  | tableLock (schema : String)
  | pinLock (transaction : Nat)
  | transactionLock
  | connLock
  | lock (statement : Nat)
  deriving DecidableEq

/-- The calls into the Rust library that use the connection. -/
inductive FfiCall where
  | listTables
  | tableSchema
  | acquireReadScan
  | releaseReadPin
  | txnBegin
  | txnCommit
  | txnRollback
  | insertChunk
  | deleteChunk
  | updateChunk
  deriving DecidableEq

/-- An FFI call, or work on the data a mutex guards or on the thread's own. -/
inductive Action where
  | ffi (call : FfiCall)
  | guardedWork (mutex : Mutex)
  | work

abbrev CallCode := Code Mutex Action

/-- The connection is used, and shared data is read or written, under its mutex. -/
def needs : Action → Mutex → Prop
  | .ffi _, m => m = .connLock
  | .guardedWork guard, m => m = guard
  | .work, _ => False

def rank : Mutex → Nat
  | .schemaLock => 0
  | .tableLock _ => 1
  | .pinLock _ => 2
  | .transactionLock | .connLock | .lock _ => 3

/-- Code of DuckDB that runs where mutexes of ranks below `floor` may be held: a callback, or a
query on a fresh connection, which may come back to the catalog. -/
structure Foreign (floor : Nat) where
  code : CallCode
  above : code.Above rank floor
  covered : code.Covered needs fun _ => False

/-- A method of `TierDBClient`: the call under `conn_lock`, then its reply or error. -/
def client (call : FfiCall) : CallCode :=
  .seq (.guarded .connLock (.act (.ffi call))) (.act .work)

def loadSchemas : CallCode :=
  .branch (.act (.guardedWork .schemaLock))
    (.seq (client .listTables) (.loop (.act (.guardedWork .schemaLock))))

def scanSchemas (callback : Foreign 1) : CallCode :=
  .guarded .schemaLock (.seq loadSchemas
    (.loop (.seq (.act (.guardedWork .schemaLock)) callback.code)))

def lookupSchema : CallCode :=
  .guarded .schemaLock (.seq loadSchemas (.act (.guardedWork .schemaLock)))

/-- A cached entry, or one made from the schema that the client finds. -/
def lookupEntry (schema : String) : CallCode :=
  .branch .skip (.guarded (.tableLock schema) (.seq (.act (.guardedWork (.tableLock schema)))
    (.branch .skip (.seq (client .tableSchema)
      (.branch .skip (.act (.guardedWork (.tableLock schema))))))))

/-- `TierDBSchemaEntry::Scan` with a client context; a table of another schema, or one that is
no longer registered, is passed over. -/
def scan (schema : String) (callback : Foreign 2) : CallCode :=
  .branch .skip (.seq (client .listTables) (.guarded (.tableLock schema) (.loop
    (.branch .skip (.seq (.act (.guardedWork (.tableLock schema)))
      (.branch (client .tableSchema) (.seq
        (.branch .skip (.seq (client .tableSchema) (.act (.guardedWork (.tableLock schema)))))
        callback.code)))))))

/-- `TierDBSchemaEntry::Scan` of what is cached. -/
def scanCached (schema : String) (callback : Foreign 2) : CallCode :=
  .branch .skip (.guarded (.tableLock schema)
    (.loop (.seq (.act (.guardedWork (.tableLock schema))) callback.code)))

/-- The pin is acquired under `pin_lock`, so that a table is pinned once. -/
def getPinnedScan (t : Nat) : CallCode :=
  .guarded (.pinLock t) (.seq (.act (.guardedWork (.pinLock t)))
    (.branch .skip (.seq (client .acquireReadScan) (.act (.guardedWork (.pinLock t))))))

def getScanFunction (t : Nat) : CallCode := .seq (getPinnedScan t) (.act .work)

/-- `TierDBScanInitGlobal`: the lake attachment and the merged read, on a connection of their
own. -/
def scanInitGlobal (attach read : Foreign 0) : CallCode :=
  .seq (.branch .skip (.seq attach.code (.act .work))) (.seq read.code (.act .work))

def releasePins (t : Nat) : CallCode :=
  .seq (.guarded (.pinLock t) (.act (.guardedWork (.pinLock t)))) (.loop (client .releaseReadPin))

def ensureWriteTxn : CallCode := .branch .skip (client .txnBegin)
def commitWrite : CallCode := .branch .skip (client .txnCommit)
def rollbackWrite : CallCode := .branch .skip (client .txnRollback)

def startTransaction : CallCode :=
  .seq (.act .work) (.guarded .transactionLock (.act (.guardedWork .transactionLock)))

/-- The errors of the three steps are caught; the transaction is erased in any case. -/
def commitTransaction (t : Nat) : CallCode :=
  .seq (.attempt commitWrite (.attempt rollbackWrite .skip))
    (.seq (.attempt (releasePins t) .skip)
      (.guarded .transactionLock (.act (.guardedWork .transactionLock))))

def rollbackTransaction (t : Nat) : CallCode :=
  .seq (.attempt rollbackWrite .skip)
    (.seq (.attempt (releasePins t) .skip)
      (.guarded .transactionLock (.act (.guardedWork .transactionLock))))

/-- `TierDBExecuteLakeDml`: each lake statement is tried up to three times. -/
def executeLakeDml (attach lake : Foreign 0) : CallCode :=
  .branch .skip (.seq (.branch .skip (.seq attach.code (.act .work)))
    (.loop (.loop (.seq lake.code (.act .work)))))

/-- The three sinks; the count is added under the statement's own mutex. -/
def sink (call : FfiCall) (statement : Nat) (attach lake : Foreign 0) : CallCode :=
  .branch .skip (.seq (.act .work) (.seq ensureWriteTxn (.seq (client call)
    (.seq (executeLakeDml attach lake)
      (.guarded (.lock statement) (.act (.guardedWork (.lock statement))))))))

/-- What DuckDB calls. -/
inductive Call where
  | scanSchemas (callback : Foreign 1)
  | lookupSchema
  | lookupEntry (schema : String)
  | scan (schema : String) (callback : Foreign 2)
  | scanCached (schema : String) (callback : Foreign 2)
  | getScanFunction (t : Nat)
  | scanInitGlobal (attach read : Foreign 0)
  | insert (statement : Nat) (attach lake : Foreign 0)
  | delete (statement : Nat) (attach lake : Foreign 0)
  | update (statement : Nat) (attach lake : Foreign 0)
  | startTransaction
  | commitTransaction (t : Nat)
  | rollbackTransaction (t : Nat)

def Call.code : Call → CallCode
  | .scanSchemas callback => Mutexes.scanSchemas callback
  | .lookupSchema => Mutexes.lookupSchema
  | .lookupEntry schema => Mutexes.lookupEntry schema
  | .scan schema callback => Mutexes.scan schema callback
  | .scanCached schema callback => Mutexes.scanCached schema callback
  | .getScanFunction t => Mutexes.getScanFunction t
  | .scanInitGlobal attach read => Mutexes.scanInitGlobal attach read
  | .insert statement attach lake => sink .insertChunk statement attach lake
  | .delete statement attach lake => sink .deleteChunk statement attach lake
  | .update statement attach lake => sink .updateChunk statement attach lake
  | .startTransaction => Mutexes.startTransaction
  | .commitTransaction t => Mutexes.commitTransaction t
  | .rollbackTransaction t => Mutexes.rollbackTransaction t

/-- The calls of one thread; DuckDB goes on after one that throws. -/
def threadCode (calls : List Call) : CallCode :=
  calls.foldr (fun call rest => .seq (.attempt call.code .skip) rest) .skip

/-- Every call takes its mutexes in the order of their ranks. -/
theorem code_above (call : Call) : call.code.Above rank 0 := by
  cases call with
  | scanSchemas callback =>
    simpa [Call.code, scanSchemas, loadSchemas, client, Code.Above, rank] using callback.above
  | scan schema callback =>
    simpa [Call.code, scan, client, Code.Above, rank] using callback.above
  | scanCached schema callback =>
    simpa [Call.code, scanCached, Code.Above, rank] using callback.above
  | scanInitGlobal attach read =>
    simpa [Call.code, scanInitGlobal, Code.Above] using ⟨attach.above,read.above⟩
  | insert statement attach lake | delete statement attach lake | update statement attach lake =>
    simpa [Call.code, sink, ensureWriteTxn, executeLakeDml, client, Code.Above, rank]
      using ⟨attach.above,lake.above⟩
  | lookupSchema => simp [Call.code, lookupSchema, loadSchemas, client, Code.Above, rank]
  | lookupEntry schema => simp [Call.code, lookupEntry, client, Code.Above, rank]
  | getScanFunction t =>
    simp [Call.code, getScanFunction, getPinnedScan, client, Code.Above, rank]
  | startTransaction => simp [Call.code, startTransaction, Code.Above, rank]
  | commitTransaction t | rollbackTransaction t =>
    simp [Call.code, commitTransaction, rollbackTransaction, commitWrite, rollbackWrite,
      releasePins, client, Code.Above, rank]

theorem Foreign.covers {floor : Nat} (foreign : Foreign floor) (held : Mutex → Prop) :
    foreign.code.Covered needs held := foreign.covered.more fun _ => False.elim

/-- The connection and all shared data are used under their mutexes. -/
theorem code_covered (call : Call) : call.code.Covered needs fun _ => False := by
  cases call <;>
    simp [Call.code, scanSchemas, loadSchemas, lookupSchema, lookupEntry, scan, scanCached,
      getScanFunction, getPinnedScan, scanInitGlobal, sink, ensureWriteTxn, executeLakeDml,
      startTransaction, commitTransaction, rollbackTransaction, commitWrite, rollbackWrite,
      releasePins, client, Code.Covered, needs, Foreign.covers]

theorem threadCode_above (calls : List Call) : (threadCode calls).Above rank 0 := by
  induction calls with
  | nil => trivial
  | cons call rest ih => exact ⟨⟨code_above call,trivial⟩,ih⟩

theorem threadCode_covered (calls : List Call) :
    (threadCode calls).Covered needs fun _ => False := by
  induction calls with
  | nil => trivial
  | cons call rest ih => exact ⟨⟨code_covered call,trivial⟩,ih⟩

/-- In every run of any number of threads, each making any calls, no two threads use the
connection or the same shared data at once, no thread asks for a mutex it holds, some thread
can go on as long as one is not done, and all of them can still be done, with every mutex
free. -/
theorem calls_never_deadlock {ι : Type} [Fintype ι] [DecidableEq ι] (calls : ι → List Call)
    {moves : List (ι × Bool)} {pool : Pool ι Mutex Action}
    (ran : Runs.run Locks.step (Pool.start fun i => threadCode (calls i)) moves = some pool) :
    (∀ i j a b m, (pool.threads i).At a → (pool.threads j).At b → needs a m → needs b m →
      i = j) ∧
    (∀ i m p rest, (pool.threads i).frames = .run (.guarded m p) :: rest →
      ¬(pool.threads i).Holds m) ∧
    (∀ i, ¬(pool.threads i).Finished → ∃ j, ∀ bit, ∃ next, Locks.step pool (j,bit) = some next) ∧
    ∃ more last, Runs.run Locks.step pool more = some last ∧
      (∀ i, (last.threads i).Finished) ∧ ∀ m, last.locked m = false := by
  have stays (s : Pool ι Mutex Action) (move : ι × Bool) (u : Pool ι Mutex Action)
      (sound : Sound rank needs s) (taken : Locks.step s move = some u) : Sound rank needs u :=
    sound.step taken
  have sound : Sound rank needs pool := Runs.run_preserves stays
    (start_sound (fun i => threadCode_above (calls i)) fun i => threadCode_covered (calls i)) ran
  refine ⟨fun i j a b m => sound.exclusive,?_,fun i => sound.progress,?_⟩
  · intro i m p rest frames held
    have ranked := sound.ranked i
    rw [Thread.Holds, frames] at held
    rw [frames] at ranked
    have deeper : Frame.unlock m ∈ rest := by simpa using held
    exact absurd (ranked.2.below deeper) (not_lt.mpr ranked.1.1)
  · obtain ⟨more,last,later,finished⟩ := sound.finishes
    exact ⟨more,last,later,finished,(Runs.run_preserves stays sound later).free finished⟩

/-- DuckDB's callback has the table of an entry pinned. -/
def pinning : Foreign 2 where
  code := getPinnedScan 7
  above := by simp [getPinnedScan, client, Code.Above, rank]
  covered := by simp [getPinnedScan, client, Code.Covered, needs]

/-- A query on a fresh connection looks a schema up. -/
def resolving : Foreign 0 where
  code := lookupSchema
  above := by simp [lookupSchema, loadSchemas, client, Code.Above, rank]
  covered := by simp [lookupSchema, loadSchemas, client, Code.Covered, needs]

/-- One thread scans a schema, another inserts into a direct table. -/
def twoThreads : Bool → List Call
  | false => [.scanCached "public" pinning]
  | true => [.insert 3 resolving resolving]

/-- The insert's fresh connection is about to list the tables; the callback of the scan waits
for the catalog's connection. -/
def contended : List (Bool × Bool) :=
  [true,true,false,true,true,true,true,true,true,true,true,true,true,true,true,false,true,true,
    true,true,true,true,true,true,false,true,true,true].map (Prod.mk true) ++
  [true,true,false,true,true,true,true,true,true,true,false,true,true].map (Prod.mk false)

theorem contended_goes_on : ∃ pool,
    Runs.run Locks.step (Pool.start fun i => threadCode (twoThreads i)) contended = some pool ∧
      (pool.locked .schemaLock && pool.locked (.tableLock "public") && pool.locked (.pinLock 7) &&
        pool.locked .connLock) = true ∧
      Locks.step pool (false,true) = none ∧
      ∃ more last, Runs.run Locks.step pool more = some last ∧
        (∀ i, (last.threads i).Finished) ∧ ∀ m, last.locked m = false := by
  have reached : ((Runs.run Locks.step (Pool.start fun i => threadCode (twoThreads i))
      contended).map fun pool => (pool.locked .schemaLock && pool.locked (.tableLock "public") &&
        pool.locked (.pinLock 7) && pool.locked .connLock,
          (Locks.step pool (false,true)).isNone)) = some (true,true) := by rfl
  obtain ⟨pool,ran,seen⟩ := Option.map_eq_some_iff.mp reached
  obtain ⟨locked,waits⟩ := Prod.mk.inj seen
  exact ⟨pool,ran,locked,Option.isNone_iff_eq_none.mp waits,
    (calls_never_deadlock twoThreads ran).2.2.2⟩

end TierDb.Mutexes
