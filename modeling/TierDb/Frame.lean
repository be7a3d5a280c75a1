import TierDb.Write

/-! What a chunk function may do to the connection: send statements. It never begins
or ends a block, never touches the write flag, and whatever it wrote is in the journal
of the copy it worked on. -/
namespace TierDb

def tagged (author : Nat) (writes : List Write) : List (Nat × Write) :=
  writes.map fun w => (author,w)

@[simp] theorem tagged_append (author : Nat) (a b : List Write) :
    tagged author (a ++ b) = tagged author a ++ tagged author b := by simp [tagged]

@[simp] theorem tagged_nil (author : Nat) : tagged author [] = [] := rfl

/-- A snapshot after `new` took effect on it. -/
structure Grew (core : Core) (author : Nat) (a b : Snapshot) (new : List Write) : Prop where
  journal : b.journal = a.journal ++ tagged author new
  ran : runAll core new a.database = .ok b.database

theorem Grew.refl (core : Core) (author : Nat) (a : Snapshot) : Grew core author a a [] :=
  ⟨by simp,rfl⟩

theorem Grew.trans {core : Core} {author : Nat} {a b c : Snapshot} {front back : List Write}
    (first : Grew core author a b front) (second : Grew core author b c back) :
    Grew core author a c (front ++ back) where
  journal := by simp [second.journal, first.journal]
  ran := by rw [runAll_append, first.ran]; exact second.ran

theorem map_snd_tagged (author : Nat) (writes : List Write) :
    (tagged author writes).map Prod.snd = writes := by
  simp [tagged, Function.comp_def]

/-- A journal that makes the first snapshot makes the second one, grown by `new`. -/
theorem Grew.replayed {core : Core} {author : Nat} {a b : Snapshot} {new : List Write}
    {base : Database} (grew : Grew core author a b new)
    (before : runAll core (a.journal.map Prod.snd) base = .ok a.database) :
    runAll core (b.journal.map Prod.snd) base = .ok b.database := by
  rw [grew.journal, List.map_append, map_snd_tagged, runAll_append, before]
  exact grew.ran

theorem Grew.catalog {core : Core} {author : Nat} {a b : Snapshot} {new : List Write}
    (grew : Grew core author a b new) : SameCatalog a.database b.database :=
  runAll_sameCatalog grew.ran

/-- Outside a block the durable state grows, inside one the working copy does; an
error may abort the block. -/
def BlockMoves (core : Core) (aborts : Prop) (author : Nat) (s t : Sql.Session Snapshot Int)
    (new : List Write) : Prop :=
  match s.block with
  | .idle => t.block = .idle ∧ Grew core author s.durable t.durable new
  | .open w => t.durable = s.durable ∧
      ((∃ w', t.block = .open w' ∧ Grew core author w w' new) ∨ (aborts ∧ t.block = .aborted))
  | .aborted => t.block = .aborted ∧ t.durable = s.durable ∧ new = []

/-- The frame of a computation made of statements. -/
structure Sends (core : Core) (aborts : Prop) (c d : Conn) : Prop where
  inTxn : d.inTxn = c.inTxn
  dsn : d.dsn = c.dsn
  author : d.client.author = c.client.author
  sequence : d.client.sequence = c.client.sequence
  quiet : c.client.session.verdicts = [] → d.client.session.verdicts = []
  sent : ∃ new, d.client.issued = c.client.issued ++ tagged c.client.author new ∧
    BlockMoves core aborts c.client.author c.client.session d.client.session new

/-- The connection after `writes` were acknowledged in order. -/
structure Took (core : Core) (writes : List Write) (c d : Conn) : Prop where
  inTxn : d.inTxn = c.inTxn
  dsn : d.dsn = c.dsn
  author : d.client.author = c.client.author
  sequence : d.client.sequence = c.client.sequence
  quiet : c.client.session.verdicts = [] → d.client.session.verdicts = []
  issued : d.client.issued = c.client.issued ++ tagged c.client.author writes
  moved : BlockMoves core False c.client.author c.client.session d.client.session writes

theorem BlockMoves.refl (core : Core) (aborts : Prop) (author : Nat)
    (s : Sql.Session Snapshot Int) : BlockMoves core aborts author s s [] := by
  cases h : s.block with
  | idle => simpa [BlockMoves, h] using Grew.refl core _ _
  | «open» w => simpa [BlockMoves, h] using Grew.refl core _ w
  | aborted => simp [BlockMoves, h]

theorem Sends.refl (core : Core) (aborts : Prop) (c : Conn) : Sends core aborts c c :=
  ⟨rfl,rfl,rfl,rfl,id,[],by simp,.refl core aborts _ _⟩

theorem Took.refl (core : Core) (c : Conn) : Took core [] c c :=
  ⟨rfl,rfl,rfl,rfl,id,by simp,.refl core False _ _⟩

theorem Took.sends {core : Core} {writes : List Write} {c d : Conn} (took : Took core writes c d) :
    Sends core False c d :=
  ⟨took.inTxn,took.dsn,took.author,took.sequence,took.quiet,writes,took.issued,took.moved⟩

theorem BlockMoves.trans {core : Core} {aborts : Prop} {author : Nat}
    {s t u : Sql.Session Snapshot Int} {front back : List Write}
    (first : BlockMoves core False author s t front)
    (second : BlockMoves core aborts author t u back) :
    BlockMoves core aborts author s u (front ++ back) := by
  cases h : s.block with
  | idle =>
    simp only [BlockMoves, h] at first ⊢
    simp only [BlockMoves, first.1] at second
    exact ⟨second.1,first.2.trans second.2⟩
  | «open» w =>
    simp only [BlockMoves, h, false_and, or_false] at first ⊢
    obtain ⟨durable,w',middle,grew⟩ := first
    simp only [BlockMoves, middle] at second
    refine ⟨second.1.trans durable,?_⟩
    rcases second.2 with ⟨w'',last,more⟩ | aborted
    · exact .inl ⟨w'',last,grew.trans more⟩
    · exact .inr aborted
  | aborted =>
    simp only [BlockMoves, h] at first ⊢
    obtain ⟨middle,durable,rfl⟩ := first
    simp only [BlockMoves, middle] at second
    exact ⟨second.1,second.2.1.trans durable,second.2.2⟩

theorem Sends.trans {core : Core} {aborts : Prop} {a b c : Conn}
    (first : Sends core False a b) (second : Sends core aborts b c) : Sends core aborts a c := by
  obtain ⟨front,issued,moved⟩ := first.sent
  obtain ⟨back,issued',moved'⟩ := second.sent
  refine ⟨second.inTxn.trans first.inTxn,second.dsn.trans first.dsn,
    second.author.trans first.author,second.sequence.trans first.sequence,
    fun quiet => second.quiet (first.quiet quiet),front ++ back,?_,?_⟩
  · simp [issued', issued, first.author]
  · rw [first.author] at moved'
    exact moved.trans moved'

theorem Took.trans {core : Core} {a b c : Conn} {front back : List Write}
    (first : Took core front a b) (second : Took core back b c) :
    Took core (front ++ back) a c where
  inTxn := second.inTxn.trans first.inTxn
  dsn := second.dsn.trans first.dsn
  author := second.author.trans first.author
  sequence := second.sequence.trans first.sequence
  quiet quiet := second.quiet (first.quiet quiet)
  issued := by simp [second.issued, first.issued, first.author]
  moved := first.moved.trans (first.author ▸ second.moved)

/-- What the connection reads afterwards is what the writes made of it. -/
theorem Took.ran {core : Core} {writes : List Write} {c d : Conn} (took : Took core writes c d) :
    runAll core writes c.db = .ok d.db := by
  have moved := took.moved
  cases h : c.client.session.block with
  | idle =>
    simp only [BlockMoves, h] at moved
    simpa [Conn.db, Sql.Session.view, h, moved.1] using moved.2.ran
  | «open» w =>
    simp only [BlockMoves, h, false_and, or_false] at moved
    obtain ⟨_,w',inside,grew⟩ := moved
    simpa [Conn.db, Sql.Session.view, h, inside] using grew.ran
  | aborted =>
    simp only [BlockMoves, h] at moved
    obtain ⟨dead,durable,rfl⟩ := moved
    simp [Conn.db, Sql.Session.view, h, dead, durable, runAll]

/-- A computation of statements: returning, it leaves an open block open. -/
abbrev Framed {α : Type} (core : Core) (x : Pg α) : Prop :=
  Effect.Moves (Sends core False) (Sends core True) x

section Framed

variable {core : Core} {α β : Type}

theorem Framed.pure (a : α) : Framed core (Pure.pure a : Pg α) :=
  Effect.Moves.pure (Sends.refl core _) a

theorem Framed.throw (e : String) : Framed core (MonadExcept.throw e : Pg α) :=
  Effect.Moves.throw (Sends.refl core _) e

theorem Framed.ofExcept (x : Except String α) : Framed core (Effect.ofExcept x : Pg α) :=
  Effect.Moves.ofExcept (Sends.refl core _) (Sends.refl core _) x

theorem Framed.get : Framed core (MonadState.get : Pg Conn) :=
  Effect.Moves.get (Sends.refl core _)

theorem Framed.bind {x : Pg α} {f : α → Pg β} (first : Framed core x)
    (next : ∀ a, Framed core (f a)) : Framed core (x >>= f) :=
  Effect.Moves.bind (fun _ _ _ front back => front.trans back)
    (fun _ _ _ front back => front.trans back) first next

theorem Framed.mapError {x : Pg α} (framed : Framed core x) (f : String → String) :
    Framed core (Effect.mapError f x) :=
  Effect.Moves.mapError framed f

end Framed

/-- How a statement that writes `new` moves the session's block. -/
theorem write_blockMoves {core : Core} {author : Nat} {s : Sql.Session Snapshot Int}
    {value : Snapshot} {new : List Write} (live : s.block ≠ .aborted)
    (grew : Grew core author s.view value new) :
    BlockMoves core False author s (s.next.write value) new := by
  cases h : s.block with
  | aborted => exact absurd h live
  | idle =>
    have view : s.view = s.durable := by simp [Sql.Session.view, h]
    rw [view] at grew
    simpa [BlockMoves, h, Sql.write_block, Sql.write_durable] using grew
  | «open» w =>
    have view : s.view = w := by simp [Sql.Session.view, h]
    rw [view] at grew
    simpa [BlockMoves, h, Sql.write_block, Sql.write_durable] using grew

theorem fail_blockMoves (core : Core) (author : Nat) (s : Sql.Session Snapshot Int) :
    BlockMoves core True author s s.next.fail [] := by
  cases h : s.block with
  | idle => simpa [BlockMoves, h] using Grew.refl core author s.durable
  | «open» w => simp [BlockMoves, h]
  | aborted => simp [BlockMoves, h]

theorem fail_verdicts (s : Sql.Session Snapshot Int) : s.fail.verdicts = s.verdicts := by
  cases h : s.block <;> simp [Sql.Session.fail, h]

/-- A statement that returned and wrote `value` took the writes it stands for. -/
theorem took_of_write {core : Core} {c : Conn} {value : Snapshot} {new : List Write}
    {issued : List (Nat × Write)} (live : c.client.session.block ≠ .aborted)
    (grew : Grew core c.client.author c.client.session.view value new)
    (acknowledged : issued = c.client.issued ++ tagged c.client.author new) :
    Took core new c { c with client := { c.client with
      session := c.client.session.next.write value, issued := issued } } where
  inTxn := rfl
  dsn := rfl
  author := rfl
  sequence := rfl
  quiet quiet := by simp [Sql.Session.next, quiet]
  issued := acknowledged
  moved := write_blockMoves live grew

theorem sends_of_fail (core : Core) (c : Conn) :
    Sends core True c (c.setSession c.client.session.next.fail) where
  inTxn := rfl
  dsn := rfl
  author := rfl
  sequence := rfl
  quiet quiet := by simp [Conn.setSession, fail_verdicts, Sql.Session.next, quiet]
  sent := ⟨[],by simp [Conn.setSession],fail_blockMoves core _ _⟩

theorem onSession_ok {α : Type} {x : Sql.Exec Snapshot Int α} {c d : Conn} {a : α} :
    onSession x c = .ok a d ↔ ∃ s, x c.client.session = .ok a s ∧ d = c.setSession s := by
  cases h : x c.client.session <;> simp [onSession, Effect.zoom, h, eq_comm]

theorem onSession_error {α : Type} {x : Sql.Exec Snapshot Int α} {c d : Conn} {e : String} :
    onSession x c = .error e d ↔ ∃ s, x c.client.session = .error e s ∧ d = c.setSession s := by
  cases h : x c.client.session <;> simp [onSession, Effect.zoom, h, eq_comm]

theorem query_took {core : Core} {α : Type} {read : Database → Except String α} {c d : Conn}
    {a : α} (run : query read c = .ok a d) : read c.db = .ok a ∧ Took core [] c d := by
  obtain ⟨s,ran,rfl⟩ := onSession_ok.mp run
  obtain ⟨found,live,rfl⟩ := Sql.query_ok ran
  exact ⟨found,took_of_write live (Grew.refl core _ _) (by simp)⟩

theorem query_framed {core : Core} {α : Type} (read : Database → Except String α) :
    Framed core (query read) where
  ok c a d run := (query_took run).2.sends
  error c e d run := by
    obtain ⟨s,ran,rfl⟩ := onSession_error.mp run
    rw [Sql.statement_error ran]
    exact sends_of_fail core c

/-- An acknowledged write took effect on what the session reads, and is recorded. -/
theorem execute_ok {core : Core} {w : Write} {c d : Conn} (run : execute core w c = .ok () d) :
    ∃ value, w.run core c.db = .ok value ∧ c.client.session.block ≠ .aborted ∧
      d = { c with client := { c.client with
        session := c.client.session.next.write
          ⟨value,c.client.session.view.journal ++ [(c.client.author,w)]⟩,
        issued := c.client.issued ++ [(c.client.author,w)] } } := by
  simp only [execute, Effect.bind_ok] at run
  obtain ⟨_,_,got,_,_,sent,done⟩ := run
  cases got
  obtain ⟨s,ran,rfl⟩ := onSession_ok.mp sent
  obtain ⟨value,wrote,live,_,rfl⟩ := Sql.statement_ok ran
  cases h : w.run core c.client.session.view.database with
  | error e => simp [Write.onSnapshot, h, Except.map] at wrote
  | ok db =>
    simp only [Write.onSnapshot, h, Except.map, Except.ok.injEq, Prod.mk.injEq, true_and] at wrote
    subst wrote
    cases done
    exact ⟨db,h,live,rfl⟩

theorem execute_took {core : Core} {w : Write} {c d : Conn} (run : execute core w c = .ok () d) :
    Took core [w] c d := by
  obtain ⟨value,ran,live,rfl⟩ := execute_ok run
  have alone : runAll core [w] c.client.session.view.database = .ok value := by
    rw [Conn.db] at ran
    exact runAll_singleton.mpr ran
  exact took_of_write live ⟨rfl,alone⟩ rfl

theorem execute_framed {core : Core} (w : Write) : Framed core (execute core w) where
  ok c a d run := (execute_took run).sends
  error c e d run := by
    simp only [execute, Effect.bind_error] at run
    rcases run with got | ⟨_,_,got,sent⟩
    · cases got
    cases got
    rcases sent with sent | ⟨_,_,_,done⟩
    · obtain ⟨s,ran,rfl⟩ := onSession_error.mp sent
      rw [Sql.statement_error ran]
      exact sends_of_fail core c
    · cases done

theorem lock_took {core : Core} {tableId : Int} {c d : Conn}
    (run : onSession (Sql.lock tableId) c = .ok () d) : Took core [] c d := by
  obtain ⟨s,ran,rfl⟩ := onSession_ok.mp run
  unfold Sql.lock at ran
  split at ran
  · rename_i t locked
    obtain ⟨value,same,live,_,rfl⟩ := Sql.statement_ok locked
    simp only [Except.ok.injEq, Prod.mk.injEq, true_and] at same
    subst same
    cases ran
    have took : Took core [] c (c.setSession (c.client.session.next.write
        c.client.session.view)) := took_of_write live (Grew.refl core _ _) (by simp)
    split
    · exact ⟨took.inTxn,took.dsn,took.author,took.sequence,took.quiet,took.issued,took.moved⟩
    · exact took
  · cases ran

theorem lock_framed {core : Core} (tableId : Int) :
    Framed core (onSession (Sql.lock tableId)) where
  ok c a d run := (lock_took run).sends
  error c e d run := by
    obtain ⟨s,ran,rfl⟩ := onSession_error.mp run
    unfold Sql.lock at ran
    split at ran
    · cases ran
    · rename_i failed
      cases ran
      rw [Sql.statement_error failed]
      exact sends_of_fail core c

/-- A computation made of reads, data writes and locks: it sends no BEGIN, COMMIT or
ROLLBACK and changes no pin. -/
inductive Sent (core : Core) : {α : Type} → Pg α → Prop where
  | pure {α : Type} (a : α) : Sent core (Pure.pure a : Pg α)
  | throw {α : Type} (e : String) : Sent core (MonadExcept.throw e : Pg α)
  | ofExcept {α : Type} (x : Except String α) : Sent core (Effect.ofExcept x : Pg α)
  | get : Sent core (MonadState.get : Pg Conn)
  | query {α : Type} (read : Database → Except String α) : Sent core (TierDb.query read)
  | execute (w : Write) : Sent core (TierDb.execute core w)
  | lock (tableId : Int) : Sent core (onSession (Sql.lock tableId))
  | bind {α β : Type} {x : Pg α} {f : α → Pg β} (first : Sent core x)
      (next : ∀ a, Sent core (f a)) : Sent core (x >>= f)
  | mapError {α : Type} {x : Pg α} (sent : Sent core x) (f : String → String) :
      Sent core (Effect.mapError f x)

theorem Sent.framed {core : Core} {α : Type} {x : Pg α} (sent : Sent core x) : Framed core x := by
  induction sent with
  | pure a => exact .pure a
  | throw e => exact .throw e
  | ofExcept x => exact .ofExcept x
  | get => exact .get
  | query read => exact query_framed read
  | execute w => exact execute_framed w
  | lock tableId => exact lock_framed tableId
  | bind _ _ first next => exact first.bind next
  | mapError _ f framed => exact framed.mapError f

/-- A computation of statements each of whose writes is in `own`. After `branch` the
rest may use what the check has found. -/
inductive SentFor (core : Core) (own : Write → Prop) : {α : Type} → Pg α → Prop where
  | pure {α : Type} (a : α) : SentFor core own (Pure.pure a : Pg α)
  | throw {α : Type} (e : String) : SentFor core own (MonadExcept.throw e : Pg α)
  | ofExcept {α : Type} (x : Except String α) : SentFor core own (Effect.ofExcept x : Pg α)
  | query {α : Type} (read : Database → Except String α) : SentFor core own (TierDb.query read)
  | execute (w : Write) (owned : own w) : SentFor core own (TierDb.execute core w)
  | lock (tableId : Int) : SentFor core own (onSession (Sql.lock tableId))
  | bind {α β : Type} {x : Pg α} {f : α → Pg β} (first : SentFor core own x)
      (next : ∀ a, SentFor core own (f a)) : SentFor core own (x >>= f)
  | branch {α β : Type} {x : Except String α} {f : α → Pg β}
      (next : ∀ a, x = .ok a → SentFor core own (f a)) :
      SentFor core own (Effect.ofExcept x >>= f)
  | mapError {α : Type} {x : Pg α} (sent : SentFor core own x) (f : String → String) :
      SentFor core own (Effect.mapError f x)

theorem SentFor.sent {core : Core} {own : Write → Prop} {α : Type} {x : Pg α}
    (sent : SentFor core own x) : Sent core x := by
  induction sent with
  | pure a => exact .pure a
  | throw e => exact .throw e
  | ofExcept x => exact .ofExcept x
  | query read => exact .query read
  | execute w _ => exact .execute w
  | lock tableId => exact .lock tableId
  | bind _ _ first next => exact first.bind next
  | @branch _ _ x f _ next =>
    cases x with
    | error e => exact .throw e
    | ok a => exact next a rfl
  | mapError _ f sent => exact sent.mapError f

/-- A computation that returned took writes of its own. -/
theorem SentFor.took {core : Core} {own : Write → Prop} {α : Type} {x : Pg α}
    (sent : SentFor core own x) {c d : Conn} {a : α} (run : x c = .ok a d) :
    ∃ writes, Took core writes c d ∧ ∀ w ∈ writes, own w := by
  induction sent generalizing c d with
  | pure _ => cases run; exact ⟨[],.refl core c,by simp⟩
  | throw e => cases run
  | ofExcept x => obtain ⟨_,rfl⟩ := Effect.ofExcept_ok.mp run; exact ⟨[],.refl core d,by simp⟩
  | query read => exact ⟨[],(query_took run).2,by simp⟩
  | execute w owned => exact ⟨[w],execute_took run,by simpa using owned⟩
  | lock tableId => exact ⟨[],lock_took run,by simp⟩
  | bind _ _ first next =>
    obtain ⟨b,m,ran,later⟩ := Effect.bind_ok.mp run
    obtain ⟨front,took,owned⟩ := first ran
    obtain ⟨back,took',owned'⟩ := next b later
    refine ⟨front ++ back,took.trans took',fun w member => ?_⟩
    exact (List.mem_append.mp member).elim (owned w) (owned' w)
  | branch _ next =>
    obtain ⟨b,m,ran,later⟩ := Effect.bind_ok.mp run
    obtain ⟨known,rfl⟩ := Effect.ofExcept_ok.mp ran
    exact next b known later
  | mapError _ f ih => exact ih (Effect.mapError_ok.mp run)

/-- A computation of reads and locks, which writes nothing. -/
abbrev Queried (core : Core) {α : Type} (x : Pg α) : Prop := SentFor core (fun _ => False) x

/-- The writes of a chunk call: to its own relation, and to the delta under its own table
id. An upsert there has all its primary-key values. -/
def ChunkContext.Owns (core : Core) (ctx : ChunkContext) : Write → Prop
  | .heapInsert schema table _ => schema = ctx.ts.schemaName ∧ table = ctx.ts.tableName
  | .heapDelete schema table _ _ _ => schema = ctx.ts.schemaName ∧ table = ctx.ts.tableName
  | .delta entry => entry.tableId = ctx.ts.tableId ∧
      (entry.op = .upsert → ∃ key, core.keyOf ctx.ts.primaryKeyCols entry.payload = some key)

section Chunks

variable {core : Core} {own : Write → Prop}

theorem takeLakeLock_for (tableId : Int) : SentFor core own (takeLakeLock tableId) :=
  (SentFor.lock tableId).mapError _

theorem heapColumns_for (schema table : String) : SentFor core own (heapColumns schema table) := by
  refine (SentFor.query _).mapError _ |>.bind fun rows => ?_
  split
  · exact .throw _
  · exact .pure _

theorem tableSchema_for (schema table : String) :
    SentFor core own (tableSchema core schema table) := by
  refine ((SentFor.query _).bind fun answer => .ofExcept answer).mapError _ |>.bind fun found => ?_
  cases found with
  | none => exact .throw _
  | some row =>
    refine (SentFor.ofExcept _).mapError _ |>.bind fun keyType => ?_
    exact (heapColumns_for schema table).bind fun columns => .pure _

theorem lakeCatalog_for (ts : TableSchema) : SentFor core own (lakeCatalog core ts) := by
  refine (SentFor.query _).mapError _ |>.bind fun found => ?_
  cases found with
  | none => exact .throw _
  | some profile =>
    exact (SentFor.ofExcept _).bind fun config => .ofExcept _

theorem cutline_for (tableId : Int) : SentFor core own (cutline core tableId) := by
  refine (SentFor.query _).mapError _ |>.bind fun found => ?_
  cases found with
  | none => exact .pure _
  | some row =>
    exact (SentFor.ofExcept _).bind fun props => .pure _

theorem retentionLine_for (tableId : Int) : SentFor core own (retentionLine tableId) :=
  (SentFor.query _).mapError _

theorem resolveCatalog_for (ts : TableSchema) : SentFor core own (resolveCatalog core ts) := by
  refine (SentFor.ofExcept _).bind fun mode => ?_
  split
  · exact .pure _
  · refine (lakeCatalog_for ts).bind fun found => ?_
    cases found with
    | none => exact .throw _
    | some catalog => exact .pure _

theorem openChunk_for (schema table : String) :
    SentFor core own (openChunk core schema table) := by
  refine (tableSchema_for schema table).bind fun ts => ?_
  refine (SentFor.ofExcept _).bind fun mode => ?_
  refine (cutline_for _).bind fun cut => ?_
  refine (retentionLine_for _).bind fun retention => ?_
  refine (resolveCatalog_for ts).bind fun catalog => ?_
  exact (SentFor.ofExcept _).bind fun target => .pure _

variable (core)

theorem writeCold_for (ctx : ChunkContext) (cold : Option ColdSink) (tierKey : Int) (row : Json) :
    SentFor core (ctx.Owns core) (writeCold core ctx cold tierKey row) := by
  unfold writeCold
  split
  · refine .branch fun pkVals keyed => ?_
    have key : core.keyOf ctx.ts.primaryKeyCols row = some pkVals := by
      simp [SerdeJson.keyOf, keyed, Except.toOption]
    exact ((SentFor.execute _ ⟨rfl,fun _ => ⟨pkVals,key⟩⟩).mapError _).bind fun _ => .pure _
  · exact .pure _
  · exact .pure _

theorem writeHeap_for (ctx : ChunkContext) (toHeap : Bool) (row : Json) :
    SentFor core (ctx.Owns core) (writeHeap core ctx toHeap row) := by
  unfold writeHeap
  split
  · exact (SentFor.execute _ ⟨rfl,rfl⟩).mapError _
  · exact .pure _

theorem writeRow_for (ctx : ChunkContext) (image : Json) :
    SentFor core (ctx.Owns core) (writeRow core ctx image) := by
  refine (SentFor.ofExcept _).bind fun tierKey => ?_
  refine (SentFor.ofExcept _).bind fun _ => ?_
  refine (writeCold_for core ctx _ _ _).bind fun tuple => ?_
  exact (writeHeap_for core ctx _ _).bind fun _ => .pure _

theorem writeLoop_for (ctx : ChunkContext) (rows : List Json) :
    SentFor core (ctx.Owns core) (writeLoop core ctx rows) := by
  induction rows with
  | nil => exact .pure _
  | cons image rest ih =>
    exact (writeRow_for core ctx image).bind fun tuple => ih.bind fun tuples => .pure _

theorem writeRows_for (ctx : ChunkContext) (rows : List Json) :
    SentFor core (ctx.Owns core) (writeRows core ctx rows) := by
  refine (writeLoop_for core ctx rows).bind fun lakeRows => ?_
  split
  · exact .pure _
  · refine (SentFor.ofExcept _).bind fun cold => ?_
    exact (takeLakeLock_for _).bind fun _ => .ofExcept _

theorem deleteCold_for (ctx : ChunkContext) (pkColumns : List Column)
    (cold : Option ColdSink) (tierKey : Int) (pkVals : List String) (row : Json) :
    SentFor core (ctx.Owns core) (deleteCold core ctx pkColumns cold tierKey pkVals row) := by
  unfold deleteCold
  split
  · exact ((SentFor.execute _ ⟨rfl,by simp⟩).mapError _).bind fun _ => .pure _
  · exact .pure _
  · exact .pure _

theorem deleteHeap_for (ctx : ChunkContext) (fromHeap heapFloor : Bool) (pkVals : List String) :
    SentFor core (ctx.Owns core) (deleteHeap core ctx fromHeap heapFloor pkVals) := by
  unfold deleteHeap
  split
  · exact (SentFor.execute _ ⟨rfl,rfl⟩).mapError _
  · exact .pure _

theorem deleteRow_for (ctx : ChunkContext) (pkColumns : List Column) (row : Json) :
    SentFor core (ctx.Owns core) (deleteRow core ctx pkColumns row) := by
  refine (SentFor.ofExcept _).bind fun tierKey => ?_
  refine (SentFor.ofExcept _).bind fun pkVals => ?_
  refine (SentFor.ofExcept _).bind fun _ => ?_
  refine (deleteCold_for core ctx _ _ _ _ _).bind fun tuple => ?_
  exact (deleteHeap_for core ctx _ _ _).bind fun _ => .pure _

theorem deleteLoop_for (ctx : ChunkContext) (pkColumns : List Column) (rows : List Json) :
    SentFor core (ctx.Owns core) (deleteLoop core ctx pkColumns rows) := by
  induction rows with
  | nil => exact .pure _
  | cons row rest ih =>
    exact (deleteRow_for core ctx pkColumns row).bind fun tuple =>
      ih.bind fun tuples => .pure _

theorem deleteRows_for (ctx : ChunkContext) (rows : List Json) :
    SentFor core (ctx.Owns core) (deleteRows core ctx rows) := by
  refine (SentFor.ofExcept _).bind fun pkColumns => ?_
  refine (deleteLoop_for core ctx pkColumns rows).bind fun keyRows => ?_
  split
  · exact .pure _
  · refine (SentFor.ofExcept _).bind fun cold => ?_
    refine (takeLakeLock_for _).bind fun _ => ?_
    exact (SentFor.ofExcept _).bind fun statement => .pure _

theorem tableSchema_sent (schema table : String) : Sent core (tableSchema core schema table) :=
  have read : Queried core (tableSchema core schema table) := tableSchema_for schema table
  read.sent

theorem cutline_sent (tableId : Int) : Sent core (cutline core tableId) :=
  have read : Queried core (cutline core tableId) := cutline_for tableId
  read.sent

theorem openChunk_sent (schema table : String) : Sent core (openChunk core schema table) :=
  have read : Queried core (openChunk core schema table) := openChunk_for schema table
  read.sent

end Chunks

end TierDb
