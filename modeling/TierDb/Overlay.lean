import Mathlib.Data.List.Basic
import TierDb.Blocks
import TierDb.Reference

/-! The delta overlay of a table. The chunk calls write it under the id the catalog holds;
the merged read selects it by the low 32 bits of that id. -/
namespace TierDb

/-- The table a chunk call is made on. -/
def ConnCall.target : ConnCall → Option (String × String)
  | .chunk _ schema table _ => some (schema,table)
  | _ => none

/-- A call of this connection, or a change from elsewhere that leaves registrations and delta
alone. -/
def ConnCall.KeepsOverlay : ConnCall → Prop
  | .elsewhere change => ∀ db, (change db).tables = db.tables ∧ (change db).delta = db.delta
  | _ => True

def Conn.madeFor (author : Nat) (conn : Conn) : Conn :=
  { conn with client := { conn.client with author := author } }

/-- Calls in order, each made under its number, which the journal keeps with its writes. -/
def Conn.numbered (core : Core) (conn : Conn) :
    List ((ConnCall × List (Option String)) × Nat) → Conn
  | [] => conn
  | ((call,verdicts),number) :: rest =>
    (Effect.final (connCall core call ((conn.withVerdicts verdicts).madeFor number))).numbered
      core rest

/-- The calls on a new connection to the stored database. -/
def runNumbered (core : Core) (dsn : String) (start : Database)
    (calls : List (ConnCall × List (Option String))) : Conn :=
  (Conn.connect dsn ⟨start,[]⟩).numbered core calls.zipIdx

def Write.entry : Write → Option DeltaEntry
  | .delta entry => some entry
  | _ => none

/-- The delta entries of a journal. -/
def deltaWrites (journal : List (Nat × Write)) : List DeltaEntry :=
  journal.filterMap fun made => made.2.entry

def replayDelta (core : Core) (writes entries : List DeltaEntry) : List DeltaEntry :=
  writes.foldl (fun entries entry => core.deltaWrite entry entries) entries

/-- The table a journaled write was made on, by the number of its call. -/
def tableOf (calls : List (ConnCall × List (Option String))) (made : Nat × Write) :
    Option (String × String) :=
  (calls[made.1]?).bind fun step => step.1.target

/-- What the chunk calls on the table have made of the entries it started with. -/
def overlay (core : Core) (calls : List (ConnCall × List (Option String))) (start : Database)
    (row : Registration) (stored : Snapshot) : List DeltaEntry :=
  replayDelta core (deltaWrites (stored.journal.filter fun made =>
      tableOf calls made = some (row.schemaName,row.tableName)))
    (start.delta.filter fun entry => entry.tableId = row.tableId)

section Replay

variable {core : Core}

theorem replayDelta_append (front back entries : List DeltaEntry) :
    replayDelta core (front ++ back) entries =
      replayDelta core back (replayDelta core front entries) := by
  simp [replayDelta]

theorem deltaWrites_append (front back : List (Nat × Write)) :
    deltaWrites (front ++ back) = deltaWrites front ++ deltaWrites back := by
  simp [deltaWrites]

/-- Choosing among the writes is choosing among their entries. -/
theorem deltaWrites_filter {journal : List (Nat × Write)} {p : Nat × Write → Bool}
    {q : DeltaEntry → Bool} (same : ∀ made ∈ journal, ∀ entry, made.2 = .delta entry →
      p made = q entry) :
    deltaWrites (journal.filter p) = (deltaWrites journal).filter q := by
  rw [deltaWrites, deltaWrites, List.filterMap_filter, List.filter_filterMap]
  refine List.filterMap_congr fun made member => ?_
  obtain ⟨number,w⟩ := made
  cases w with
  | delta entry =>
    rw [same _ member entry rfl]
    cases chosen : q entry <;> simp [Write.entry, Option.filter, chosen]
  | heapInsert schema table image => simp [Write.entry]
  | heapDelete schema table pkCols floor key => simp [Write.entry]

/-- The entries of one id are made by the writes under that id. -/
theorem replayDelta_filter (id : Int) (writes entries : List DeltaEntry) :
    (replayDelta core writes entries).filter (fun entry => entry.tableId = id) =
      replayDelta core (writes.filter fun entry => entry.tableId = id)
        (entries.filter fun entry => entry.tableId = id) := by
  induction writes generalizing entries with
  | nil => rfl
  | cons write rest ih =>
    have later := ih (core.deltaWrite write entries)
    simp only [replayDelta, List.foldl_cons] at later ⊢
    rw [later]
    by_cases same : write.tableId = id
    · simp only [same, decide_true, List.filter_cons_of_pos, List.foldl_cons]
      congr 1
      simp [core.deltaWrite_entries, List.filter_append, List.filter_filter, same, Bool.and_comm]
    · have kept : (core.deltaWrite write entries).filter (fun entry => entry.tableId = id) =
          entries.filter fun entry => entry.tableId = id := by
        rw [core.deltaWrite_entries, List.filter_append, List.filter_filter]
        simp only [same, decide_false, Bool.false_eq_true, not_false_eq_true,
          List.filter_cons_of_neg, List.filter_nil, List.append_nil]
        refine List.filter_congr fun entry _ => ?_
        by_cases here : entry.tableId = id
        · have apart : ¬id = write.tableId := fun h => same h.symm
          simp [here, apart]
        · simp [here]
      simp only [same, decide_false, Bool.false_eq_true, not_false_eq_true,
        List.filter_cons_of_neg]
      rw [kept]

theorem run_delta {w : Write} {db next : Database} (ran : w.run core db = .ok next) :
    next.delta = replayDelta core w.entry.toList db.delta := by
  cases w with
  | delta entry =>
    cases ran
    rfl
  | heapInsert schema table image =>
    obtain ⟨_,_,_,_,rfl⟩ := heapInsert_ran ran
    rfl
  | heapDelete schema table pkCols floor key =>
    obtain ⟨_,_,rfl⟩ := heapDelete_ran ran
    rfl

end Replay

/-- The delta is what the journal made of it, and every entry of the journal carries the id
of the table its call was made on. -/
structure Overlaid (core : Core) (calls : List (ConnCall × List (Option String)))
    (start : Database) (snapshot : Snapshot) : Prop where
  tables : snapshot.database.tables = start.tables
  delta : snapshot.database.delta = replayDelta core (deltaWrites snapshot.journal) start.delta
  made : ∀ number entry, (number,Write.delta entry) ∈ snapshot.journal →
    ∃ schema table row, tableOf calls (number,.delta entry) = some (schema,table) ∧
      start.findTable schema table = .ok (some row) ∧ entry.tableId = row.tableId

section Overlaid

variable {core : Core} {calls : List (ConnCall × List (Option String))} {start : Database}

theorem overlaid_start : Overlaid core calls start ⟨start,[]⟩ :=
  ⟨rfl,rfl,by simp⟩

/-- The entries a table's own calls wrote are those under its id, when no other table has
that id. -/
theorem Overlaid.own {snapshot : Snapshot} (overlaid : Overlaid core calls start snapshot)
    {row : Registration} {schema table : String}
    (registered : start.findTable schema table = .ok (some row))
    (distinct : ∀ other ∈ start.tables, other.tableId = row.tableId → other = row) :
    overlay core calls start row snapshot =
      snapshot.database.delta.filter fun entry => entry.tableId = row.tableId := by
  obtain ⟨_,rfl,rfl⟩ := findTable_some registered
  rw [overlaid.delta, replayDelta_filter, overlay]
  congr 1
  refine deltaWrites_filter ?_
  rintro ⟨number,_⟩ member entry rfl
  obtain ⟨schema,table,other,target,found,id⟩ := overlaid.made number entry member
  obtain ⟨listed,rfl,rfl⟩ := findTable_some found
  rw [target, decide_eq_decide]
  constructor
  · intro same
    obtain ⟨schema,table⟩ := Prod.mk.inj (Option.some.inj same)
    rw [schema, table] at found
    obtain rfl : other = row := registered_unique found registered
    exact id
  · intro same
    rw [distinct other listed (id.symm.trans same)]

/-- A write of a chunk call, journaled under the number of the call. -/
theorem Overlaid.write {number : Nat} {kind : ChunkKind} {schema table : String} {rows : JsonText}
    {verdicts : List (Option String)}
    (call : calls[number]? = some (.chunk kind schema table rows,verdicts))
    {stored snapshot : Snapshot} (overlaid : Overlaid core calls start snapshot)
    (before : Overlaid core calls start stored) {ctx : ChunkContext} {row : Registration}
    (opened : Opened core stored.database schema table ctx row) {w : Write}
    (owned : ctx.Owns core w) {next : Database} (ran : w.run core snapshot.database = .ok next) :
    Overlaid core calls start ⟨next,snapshot.journal ++ [(number,w)]⟩ where
  tables := (run_sameCatalog ran).tables.trans overlaid.tables
  delta := by
    have made : deltaWrites [(number,w)] = w.entry.toList := by cases w <;> rfl
    rw [deltaWrites_append, replayDelta_append, made, ← overlaid.delta]
    exact run_delta ran
  made author entry member := by
    rcases List.mem_append.mp member with old | new
    · exact overlaid.made author entry old
    · obtain ⟨rfl,rfl⟩ := Prod.mk.inj (List.mem_singleton.mp new)
      refine ⟨schema,table,row,by simp [tableOf, call, ConnCall.target],?_,?_⟩
      · rw [← findTable_congr before.tables]
        exact opened.found
      · have id : ctx.ts.tableId = row.tableId := by rw [opened.ts]; rfl
        exact owned.1.trans id

theorem Overlaid.altered {change : Database → Database}
    (kept : ∀ db, (change db).tables = db.tables ∧ (change db).delta = db.delta)
    {snapshot : Snapshot} (overlaid : Overlaid core calls start snapshot) :
    Overlaid core calls start { snapshot with database := change snapshot.database } :=
  ⟨(kept _).1.trans overlaid.tables,(kept _).2.trans overlaid.delta,overlaid.made⟩

theorem alter_all {P : Snapshot → Prop} {change : Database → Database}
    {session : Sql.Session Snapshot Int}
    (kept : ∀ snapshot, P snapshot → P { snapshot with database := change snapshot.database })
    (all : session.All P) : (alter change session).All P := by
  refine ⟨kept _ all.1,fun w inside => ?_⟩
  cases block : session.block with
  | «open» w' =>
    simp only [alter, block, Sql.Block.open.injEq] at inside
    exact inside ▸ kept _ (all.2 w' block)
  | idle => simp [alter, block] at inside
  | aborted => simp [alter, block] at inside

/-- Whatever is called, under its own number, keeps what is stored overlaid. -/
theorem connCall_overlaid {number : Nat} {call : ConnCall} {verdicts : List (Option String)}
    (numbered : calls[number]? = some (call,verdicts)) (kept : call.KeepsOverlay) :
    Effect.Keeps (Conn.Stores number (Overlaid core calls start)) (connCall core call) := by
  have keep : CallsKeep core (Conn.Stores number (Overlaid core calls start)) :=
    stores_callsKeep fun _ _ overlaid => ⟨overlaid.tables,overlaid.delta,overlaid.made⟩
  cases call with
  | begin => exact keep.begins
  | commit => exact keep.commits
  | rollback => exact keep.undoes
  | acquire schema table => exact .bind (keep.scans schema table) fun _ => .pure _
  | release pinId => exact keep.releases pinId
  | chunk kind schema table rows =>
    refine .bind (chunkFunction_stores kind rows ?_) fun _ => .pure _
    exact fun stored before ctx row opened w owned snapshot next ran overlaid =>
      overlaid.write numbered before opened owned ran
  | elsewhere change =>
    exact .modify fun c stores => ⟨stores.1,alter_all (fun _ => .altered kept) stores.2⟩

theorem numbered_overlaid {conn : Conn} {steps : List ((ConnCall × List (Option String)) × Nat)}
    (listed : ∀ step ∈ steps, calls[step.2]? = some step.1 ∧ step.1.1.KeepsOverlay)
    (all : conn.client.session.All (Overlaid core calls start)) :
    (conn.numbered core steps).client.session.All (Overlaid core calls start) := by
  induction steps generalizing conn with
  | nil => exact all
  | cons step rest ih =>
    obtain ⟨⟨call,verdicts⟩,number⟩ := step
    obtain ⟨numbered,kept⟩ := listed _ List.mem_cons_self
    have keeps : Effect.Keeps (Conn.Stores number (Overlaid core calls start))
        (connCall core call) := connCall_overlaid numbered kept
    have stores := keeps ((conn.withVerdicts verdicts).madeFor number) ⟨rfl,all⟩
    exact ih (fun s member => listed s (List.mem_cons_of_mem _ member)) stores.2

end Overlaid

section Reading

variable {core : Core}

theorem table_id {ts : TableSchema} {catalog : Option LakeCatalog} {target : Table}
    (made : ts.table core catalog = .ok target) : (target.id : Int) = ts.tableId % 2^32 := by
  obtain ⟨mode,_,made⟩ := Effect.except_bind_ok.mp made
  cases made
  exact Int.toNat_of_nonneg (Int.emod_nonneg _ (by decide))

/-- The text was rendered for a table with the low bits of the id. -/
def RenderedFor (core : Core) (id : Int) (text : String) : Prop :=
  ∃ target read dsn, core.renderScan target read dsn = .ok text ∧ (target.id : Int) = id % 2^32

theorem pinAndRender_rendered {ts : TableSchema} {dsn : String} {lake : Option LakeCatalog}
    {c d : Conn} {pinned : PinnedScan} (ran : pinAndRender core ts dsn lake c = .ok pinned d) :
    RenderedFor core ts.tableId pinned.scanSql := by
  obtain ⟨cut,m,_,ran⟩ := Effect.bind_ok.mp ran
  obtain ⟨pinId,m',_,ran⟩ := Effect.bind_ok.mp ran
  obtain ⟨scanSql,m'',rendered,done⟩ := Effect.bind_ok.mp ran
  cases done
  obtain ⟨target,made,rendered⟩ := Effect.except_bind_ok.mp (Effect.ofExcept_ok.mp rendered).1
  obtain ⟨read,_,rendered⟩ := Effect.except_bind_ok.mp rendered
  exact ⟨target,read,dsn,rendered,table_id made⟩

theorem pinInOwnBlock_rendered {ts : TableSchema} {dsn : String} {lake : Option LakeCatalog}
    {c d : Conn} {pinned : PinnedScan} (ran : pinInOwnBlock core ts dsn lake c = .ok pinned d) :
    RenderedFor core ts.tableId pinned.scanSql := by
  obtain ⟨_,m,_,ran⟩ := Effect.bind_ok.mp ran
  obtain ⟨result,m',attempted,ended⟩ := Effect.bind_ok.mp ran
  cases result with
  | error e => simp [endOwnBlock_error] at ended
  | ok found =>
    rw [endOwnBlock_ok] at ended
    have same : found = pinned := by split at ended <;> cases ended; rfl
    subst same
    cases first : pinAndRender core ts dsn lake m with
    | error e n => simp [Effect.attempt, first] at attempted
    | ok found' n =>
      simp only [Effect.attempt, first, EStateM.Result.ok.injEq, Except.ok.injEq] at attempted
      exact attempted.1 ▸ pinAndRender_rendered first

/-- The text of a scan is rendered for the low bits of the registered id. -/
theorem acquireScan_rendered {schema table : String} {c d : Conn} {pinned : PinnedScan}
    (ran : acquireScan core schema table c = .ok pinned d) :
    ∃ row, c.db.findTable schema table = .ok (some row) ∧
      RenderedFor core row.tableId pinned.scanSql := by
  obtain ⟨ts,m,read,ran⟩ := Effect.bind_ok.mp ran
  obtain ⟨row,found,_,_,shape⟩ :=
    tableSchema_some core ((tableSchema_reads core schema table).ok _ _ _ read).1
  have id : ts.tableId = row.tableId := by rw [shape]; rfl
  refine ⟨row,found,id ▸ ?_⟩
  obtain ⟨_,_,_,ran⟩ := Effect.bind_ok.mp ran
  obtain ⟨lake,_,_,ran⟩ := Effect.bind_ok.mp ran
  obtain ⟨_,_,_,ran⟩ := Effect.bind_ok.mp ran
  split at ran
  · exact pinAndRender_rendered ran
  · exact pinInOwnBlock_rendered ran

/-- Two ids select the same entries when they are one id, or select none. -/
theorem filter_id_iff (entries : List DeltaEntry) (a b : Int) :
    (entries.filter (fun entry => entry.tableId = a) =
        entries.filter fun entry => entry.tableId = b) ↔
      a = b ∨ ∀ entry ∈ entries, entry.tableId ≠ b ∧ entry.tableId ≠ a := by
  constructor
  · intro same
    by_cases one : a = b
    · exact .inl one
    · refine .inr fun entry member => ⟨fun under => ?_,fun under => ?_⟩
      · have selected : entry ∈ entries.filter fun entry => entry.tableId = a := by
          rw [same]
          simp [member, under]
        have also : entry.tableId = a := by simpa using (List.mem_filter.mp selected).2
        exact one (also.symm.trans under)
      · have selected : entry ∈ entries.filter fun entry => entry.tableId = b := by
          rw [← same]
          simp [member, under]
        have also : entry.tableId = b := by simpa using (List.mem_filter.mp selected).2
        exact one (under.symm.trans also)
  · rintro (rfl | none)
    · rfl
    · have nothing : ∀ id, (id = a ∨ id = b) →
          entries.filter (fun entry => entry.tableId = id) = [] := by
        rintro id (rfl | rfl)
        · simpa using fun entry member => (none entry member).2
        · simpa using fun entry member => (none entry member).1
      rw [nothing a (.inl rfl), nothing b (.inr rfl)]

/-- What a rendered text selects of the delta: the entries under the numeric id of the table
it was rendered for. -/
def FiltersById (core : Core) (selects : String → List DeltaEntry → List DeltaEntry) : Prop :=
  ∀ target read dsn text, core.renderScan target read dsn = .ok text →
    ∀ entries, selects text entries = entries.filter fun entry => entry.tableId = (target.id : Int)

/-- In every run a scan of the table selects exactly what the calls on that table wrote when
its id fits in 32 bits or when the delta has nothing under the id and nothing under its low
32 bits, and only then. -/
theorem overlay_selected_iff (core : Core) (selects : String → List DeltaEntry → List DeltaEntry)
    (renders : FiltersById core selects) (dsn : String) (start : Database)
    (calls : List (ConnCall × List (Option String)))
    (kept : ∀ step ∈ calls, step.1.KeepsOverlay) {schema table : String} {row : Registration}
    (registered : start.findTable schema table = .ok (some row))
    (distinct : ∀ other ∈ start.tables, other.tableId = row.tableId → other = row)
    (verdicts : List (Option String)) {pinned : PinnedScan} {after : Conn}
    (scanned : acquireScan core schema table
      ((runNumbered core dsn start calls).withVerdicts verdicts) = .ok pinned after)
    {stored : Snapshot} (seen : stored = (runNumbered core dsn start calls).client.session.durable ∨
      stored = (runNumbered core dsn start calls).client.session.view) :
    selects pinned.scanSql stored.database.delta = overlay core calls start row stored ↔
      (0 ≤ row.tableId ∧ row.tableId < 2^32) ∨
        ∀ entry ∈ stored.database.delta,
          entry.tableId ≠ row.tableId ∧ entry.tableId ≠ row.tableId % 2^32 := by
  have all : (runNumbered core dsn start calls).client.session.All
      (Overlaid core calls start) := by
    refine numbered_overlaid (fun step member => ?_) ⟨overlaid_start,by simp [Conn.connect]⟩
    have listed := List.mk_mem_zipIdx_iff_getElem?.mp member
    exact ⟨listed,kept _ (List.mem_of_getElem? listed)⟩
  have overlaid : Overlaid core calls start stored := by
    rcases seen with rfl | rfl
    · exact all.1
    · exact all.view
  obtain ⟨row',found,target,read,dsn',rendered,low⟩ := acquireScan_rendered scanned
  have same := (findTable_congr all.view.tables schema table).symm.trans found
  obtain rfl : row = row' := registered_unique registered same
  rw [renders target read dsn' _ rendered, overlaid.own registered distinct, low, filter_id_iff]
  have fits : row.tableId % 2^32 = row.tableId ↔ 0 ≤ row.tableId ∧ row.tableId < 2^32 := by omega
  rw [fits]

end Reading

namespace Reference

def scanText (id : Nat) : String :=
  String.ofList ("SELECT * FROM tierdb.delta WHERE table_id = ".toList ++ Nat.toDigits 10 id)

/-- The reference core with a merged read that names the id it filters by. -/
def scanningCore : Core :=
  { core with renderScan := fun target _ _ => .ok (scanText target.id) }

def selected (text : String) (entries : List DeltaEntry) : List DeltaEntry :=
  entries.filter fun entry => 0 ≤ entry.tableId ∧ text = scanText entry.tableId.toNat

theorem scanText_injective {a b : Nat} (same : scanText a = scanText b) : a = b := by
  have digits : Nat.toDigits 10 a = Nat.toDigits 10 b :=
    List.append_cancel_left (String.ofList_injective same)
  rw [← Nat.ofDigitChars_ten_toDigits (n := a), digits, Nat.ofDigitChars_ten_toDigits]

theorem selected_filters : FiltersById scanningCore selected := by
  intro target read dsn text rendered entries
  cases rendered
  refine List.filter_congr fun entry _ => ?_
  rw [decide_eq_decide]
  constructor
  · rintro ⟨low,same⟩
    have id := scanText_injective same
    omega
  · intro same
    rw [same]
    exact ⟨Int.natCast_nonneg _,rfl⟩

/-- A table of the shape of `items`. -/
def others (id : Int) : Registration :=
  { registration "tiered" with tableId := id, tableName := "others" }

/-- `items` under id 1 and `others` under the given id. -/
def siblings (id : Int) : Database :=
  { database "tiered" 100 [] with
    tables := [registration "tiered",others id]
    heap := fun schema table =>
      if schema = "public" ∧ (table = "items" ∨ table = "others") then some ⟨columns,["id"],[]⟩
      else none
    cutline := fun _ => some ⟨100,1,none,none⟩ }

def coldInsert (table : String) (id : Int) : ConnCall × List (Option String) :=
  (.chunk .insert "public" table (some (.array [.object (item id 50 7)])),[])

/-- The ids of the delta entries that a scan of the table selects. -/
def selectedIds (table : String) (conn : Conn) : List Int :=
  match acquireScan scanningCore "public" table (conn.withVerdicts []) with
  | .ok pinned _ => (selected pinned.scanSql conn.db.delta).map DeltaEntry.tableId
  | .error _ _ => []

end Reference

example : Reference.selectedIds "items" (runNumbered Reference.scanningCore ""
    (Reference.siblings 2) [Reference.coldInsert "items" 1,Reference.coldInsert "others" 5]) =
      [1] := by decide +kernel

/-- Two tables with small ids: each scan selects its own entry. -/
theorem small_ids_selected :
    let calls := [Reference.coldInsert "items" 1,Reference.coldInsert "others" 5]
    let conn := runNumbered Reference.scanningCore "" (Reference.siblings 2) calls
    ∃ pinned after, acquireScan Reference.scanningCore "public" "others" (conn.withVerdicts []) =
        .ok pinned after ∧
      Reference.selected pinned.scanSql conn.client.session.durable.database.delta =
        overlay Reference.scanningCore calls (Reference.siblings 2)
          (Reference.others 2) conn.client.session.durable := by
  intro calls conn
  have returned : Effect.returns (acquireScan Reference.scanningCore "public" "others"
      (conn.withVerdicts [])) = true := by decide +kernel
  obtain ⟨pinned,after,scanned⟩ := Effect.returns_iff.mp returned
  have registered : (Reference.siblings 2).findTable "public" "others" =
      .ok (some (Reference.others 2)) := by decide
  have selected := overlay_selected_iff Reference.scanningCore Reference.selected
    Reference.selected_filters "" (Reference.siblings 2) calls
    (by simp [calls, Reference.coldInsert, ConnCall.KeepsOverlay]) registered (by decide) []
    scanned (.inl rfl)
  exact ⟨pinned,after,scanned,selected.mpr (.inl (by decide))⟩

/-- The entry that `items`, with id 1, wrote is selected for `others`, whose id is 1 in its
low 32 bits. -/
theorem wide_id_selects_other : ¬∀ (core : Core) selects, FiltersById core selects →
    ∀ dsn start calls, (∀ step ∈ calls, step.1.KeepsOverlay) → ∀ schema table row,
    start.findTable schema table = .ok (some row) →
    (∀ other ∈ start.tables, other.tableId = row.tableId → other = row) →
    ∀ verdicts pinned after, acquireScan core schema table
      ((runNumbered core dsn start calls).withVerdicts verdicts) = .ok pinned after →
    ∀ stored, stored = (runNumbered core dsn start calls).client.session.durable ∨
      stored = (runNumbered core dsn start calls).client.session.view →
    selects pinned.scanSql stored.database.delta = overlay core calls start row stored := by
  intro claim
  have returned : Effect.returns (acquireScan Reference.scanningCore "public" "others"
      ((runNumbered Reference.scanningCore "" (Reference.siblings 4294967297)
        [Reference.coldInsert "items" 1]).withVerdicts [])) = true := by decide +kernel
  obtain ⟨pinned,after,scanned⟩ := Effect.returns_iff.mp returned
  have other : Reference.selectedIds "others" (runNumbered Reference.scanningCore ""
      (Reference.siblings 4294967297) [Reference.coldInsert "items" 1]) = [1] := by decide +kernel
  have own := claim Reference.scanningCore Reference.selected Reference.selected_filters ""
    (Reference.siblings 4294967297) [Reference.coldInsert "items" 1]
    (by simp [Reference.coldInsert, ConnCall.KeepsOverlay]) "public" "others"
    (Reference.others 4294967297) (by decide) (by decide) [] pinned after scanned _ (.inr rfl)
  have none : (overlay Reference.scanningCore [Reference.coldInsert "items" 1]
      (Reference.siblings 4294967297) (Reference.others 4294967297)
      (runNumbered Reference.scanningCore "" (Reference.siblings 4294967297)
        [Reference.coldInsert "items" 1]).client.session.view).length = 0 := by decide +kernel
  simp only [Reference.selectedIds, scanned, Conn.db] at other
  rw [own, List.eq_nil_of_length_eq_zero none] at other
  cases other

end TierDb
