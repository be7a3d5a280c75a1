import TierDb.Boundary
import TierDb.Tiered

/-! What the statements of other tables leave alone: the registration, the heap relation and
the delta entries of a table, and so what a read of it returns. -/
namespace TierDb.Layout

/-- No other registered table has the table's id. -/
def OwnsId (layout : Layout) (db : Database) : Prop :=
  ∀ row ∈ db.tables, row.tableId = layout.tableId →
    row.schemaName = layout.schema ∧ row.tableName = layout.name

/-- The two databases hold the same of the table. -/
structure SameTable (layout : Layout) (a b : Database) : Prop where
  tables : b.tables = a.tables
  cutline : b.cutline layout.tableId = a.cutline layout.tableId
  heap : b.heap layout.schema layout.name = a.heap layout.schema layout.name
  entries : layout.entries b = layout.entries a

section Reads

variable {core : Core} {layout : Layout} {a b c : Database}

theorem SameTable.refl (layout : Layout) (a : Database) : layout.SameTable a a :=
  ⟨rfl,rfl,rfl,rfl⟩

theorem SameTable.trans (first : layout.SameTable a b) (second : layout.SameTable b c) :
    layout.SameTable a c :=
  ⟨second.tables.trans first.tables,second.cutline.trans first.cutline,
    second.heap.trans first.heap,second.entries.trans first.entries⟩

theorem SameTable.heapRows (same : layout.SameTable a b) :
    layout.heapRows b = layout.heapRows a := by
  rw [Layout.heapRows, Layout.heapRows, same.heap]

theorem SameTable.merged (same : layout.SameTable a b) (core : Core) (lake : Lake) :
    layout.merged core b lake = layout.merged core a lake := by
  simp only [Layout.merged, hotRows, coldRows, same.heapRows, same.entries]

theorem SameTable.sound (same : layout.SameTable a b) (sound : layout.Sound core a) :
    layout.Sound core b := by
  rw [Sound, same.entries]
  exact sound

theorem SameTable.describes {mode : String} (same : layout.SameTable a b)
    (describes : layout.Describes core a mode) : layout.Describes core b mode where
  row := by
    rw [findTable_congr same.tables]
    exact describes.row
  cutline := by
    rw [same.cutline]
    exact describes.cutline
  shaped := by
    rw [Shaped, same.heap]
    exact describes.shaped

theorem SameTable.ownsId (same : layout.SameTable a b) (own : layout.OwnsId a) :
    layout.OwnsId b := by
  rw [OwnsId, same.tables]
  exact own

end Reads

section Writes

variable {core : Core} {layout : Layout} {ctx : ChunkContext} {a b : Database}

/-- The context of a table with another name and another id. -/
structure Elsewhere (layout : Layout) (ctx : ChunkContext) : Prop where
  name : ctx.ts.schemaName = layout.schema → ctx.ts.tableName ≠ layout.name
  id : ctx.ts.tableId ≠ layout.tableId

theorem setRows_sameTable {schema name : String} (rows : List Fields)
    (apart : schema = layout.schema → name ≠ layout.name) :
    layout.SameTable a (a.setRows schema name rows) where
  tables := rfl
  cutline := rfl
  heap := by
    have other : ¬(layout.schema = schema ∧ layout.name = name) :=
      fun same => apart same.1.symm same.2.symm
    simp only [Database.setRows, other, if_false]
  entries := rfl

/-- A statement sent for another table. -/
theorem run_sameTable {w : Write} (elsewhere : layout.Elsewhere ctx) (owned : ctx.Owns core w)
    (ran : w.run core a = .ok b) : layout.SameTable a b := by
  cases w with
  | heapInsert schema table image =>
    obtain ⟨rfl,rfl⟩ := owned
    obtain ⟨_,rows,_,_,rfl⟩ := heapInsert_ran ran
    exact setRows_sameTable rows elsewhere.name
  | heapDelete schema table pkCols floor key =>
    obtain ⟨rfl,rfl⟩ := owned
    obtain ⟨_,_,rfl⟩ := heapDelete_ran ran
    exact setRows_sameTable _ elsewhere.name
  | delta entry =>
    have other : entry.tableId ≠ layout.tableId := owned.1 ▸ elsewhere.id
    simp only [Write.run, Except.ok.injEq] at ran
    subst ran
    refine ⟨rfl,rfl,rfl,?_⟩
    simp only [entries, core.deltaWrite_entries, List.filter_append, List.filter_filter]
    rw [List.filter_cons_of_neg (by simpa using other), List.filter_nil, List.append_nil]
    apply List.filter_congr
    intro e _
    by_cases mine : e.tableId = layout.tableId
    · simp [mine, other.symm]
    · simp [mine]

theorem runAll_sameTable {writes : List Write} (elsewhere : layout.Elsewhere ctx)
    (owned : ∀ w ∈ writes, ctx.Owns core w) (ran : runAll core writes a = .ok b) :
    layout.SameTable a b := by
  induction writes generalizing a with
  | nil => cases ran; exact .refl layout _
  | cons w rest ih =>
    obtain ⟨middle,first,later⟩ := runAll_cons.mp ran
    exact (run_sameTable elsewhere (owned w List.mem_cons_self) first).trans
      (ih (fun w member => owned w (List.mem_cons_of_mem _ member)) later)

/-- A chunk call under another name has a context elsewhere. -/
theorem OwnsId.elsewhere {schema table : String} (own : layout.OwnsId a)
    (found : a.openChunk core schema table = some ctx)
    (apart : schema = layout.schema → table ≠ layout.name) : layout.Elsewhere ctx := by
  obtain ⟨row,opened⟩ := openChunk_some core found
  obtain ⟨member,rfl,rfl⟩ := findTable_some opened.found
  have schemaName : ctx.ts.schemaName = row.schemaName := by rw [opened.ts]; rfl
  have tableName : ctx.ts.tableName = row.tableName := by rw [opened.ts]; rfl
  have tableId : ctx.ts.tableId = row.tableId := by rw [opened.ts]; rfl
  refine ⟨?_,fun same => ?_⟩
  · rw [schemaName, tableName]
    exact apart
  · have mine := own row member (tableId.symm.trans same)
    exact apart mine.1 mine.2

/-- A chunk call on another table that returned. -/
theorem chunk_sameTable {kind : ChunkKind} {schema table : String} {rows : JsonText} {c d : Conn}
    {outcome : ChunkOutcome} (own : layout.OwnsId c.db)
    (apart : schema = layout.schema → table ≠ layout.name)
    (returned : chunkFunction core kind schema table rows c = .ok outcome d) :
    layout.SameTable c.db d.db := by
  rw [chunkFunction_eq] at returned
  obtain ⟨ctx,b,opened,ran⟩ := Effect.bind_ok.mp returned
  obtain ⟨found,read⟩ := (openChunk_reads core schema table).ok c ctx b opened
  obtain ⟨writes,took,owned⟩ := (chunkBody_for core kind rows ctx).took ran
  have moved := runAll_sameTable (own.elsewhere found apart) owned took.ran
  rwa [read.same_db] at moved

end Writes

end TierDb.Layout
