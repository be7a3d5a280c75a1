import TierDb.Core

/-! The Postgres database behind one catalog: the tierdb tables the extension reads,
the heap relations, the delta and the read pins, with the statements that write to
heap and delta. -/
namespace TierDb

/-- A row of `tierdb.tables`. -/
structure Registration where
  tableId : Int
  schemaName : String
  tableName : String
  lakeFormat : String
  lakeTableRef : String
  tierKeyCol : String
  tierKeyType : String
  primaryKeyCols : List String
  mode : String
  keepHeap : Bool
  heapRetentionLag : Option Int
  lakeRetentionLag : Option Int
  storageProfile : String
  deriving DecidableEq, Repr

/-- A row of `tierdb.cutline`. -/
structure CutlineRow where
  tierKeyHi : Int
  lakeSnapshotId : Int
  lakeProps : Option JsonText
  retentionLine : Option Int

/-- A row of `tierdb.storage_profiles`. -/
structure StorageProfile where
  warehouse : String
  lakeConfig : Option JsonText

structure Pin where
  pinId : Int
  tableId : Int
  lakeSnapshotId : Int
  tierKeyHi : Int
  deriving DecidableEq, Repr

structure Database where
  tables : List Registration
  heap : String → String → Option Relation
  cutline : Int → Option CutlineRow
  profiles : String → Option StorageProfile
  delta : List DeltaEntry
  pins : List Pin

/-- The statements of the write path, as tierdb-core renders them. -/
inductive Write where
  | heapInsert (schema table : String) (image : Json)
  | heapDelete (schema table : String) (pkCols : List String) (floor : Option Floor)
      (key : List String)
  | delta (entry : DeltaEntry)

def Database.setRows (db : Database) (schema table : String) (rows : List Fields) : Database :=
  { db with heap := fun s t =>
      if s = schema ∧ t = table then
        (db.heap s t).map fun rel => { rel with rows := rows }
      else db.heap s t }

def Write.run (core : Core) (w : Write) (db : Database) : Except String Database :=
  match w with
  | .heapInsert schema table image =>
    match db.heap schema table with
    | none => .error s!"relation {schema}.{table} does not exist"
    | some rel => (core.heapInsert rel image).map (db.setRows schema table)
  | .heapDelete schema table pkCols floor key =>
    match db.heap schema table with
    | none => .error s!"relation {schema}.{table} does not exist"
    | some rel => .ok (db.setRows schema table (core.heapDelete rel pkCols floor key))
  | .delta entry => .ok { db with delta := core.deltaWrite entry db.delta }

/-- Statements in order, up to the first that fails. -/
def runAll (core : Core) : List Write → Database → Except String Database
  | [], db => .ok db
  | w :: rest, db => do runAll core rest (← w.run core db)

/-- The stored state: the database, and the writes that made it, each with the
DuckDB transaction it was sent for. The journal is an auxiliary record; no query
reads it. -/
structure Snapshot where
  database : Database
  journal : List (Nat × Write) := []

theorem runAll_append (core : Core) (front back : List Write) (db : Database) :
    runAll core (front ++ back) db = (runAll core front db).bind (runAll core back) := by
  induction front generalizing db with
  | nil => rfl
  | cons w rest ih =>
    cases first : w.run core db with
    | error e => simp [runAll, first, bind, Except.bind]
    | ok next => simp [runAll, first, bind, Except.bind, ih]

theorem runAll_cons {core : Core} {w : Write} {rest : List Write} {db next : Database} :
    runAll core (w :: rest) db = .ok next ↔
      ∃ middle, w.run core db = .ok middle ∧ runAll core rest middle = .ok next := by
  cases ran : w.run core db <;> simp [runAll, ran, bind, Except.bind]

theorem runAll_singleton {core : Core} {w : Write} {a b : Database} :
    runAll core [w] a = .ok b ↔ w.run core a = .ok b := by
  rw [runAll_cons]
  simp [runAll]

theorem runAll_append_ok {core : Core} {front back : List Write} {a c : Database} :
    runAll core (front ++ back) a = .ok c ↔
      ∃ b, runAll core front a = .ok b ∧ runAll core back b = .ok c := by
  rw [runAll_append]
  cases ran : runAll core front a <;> simp [Except.bind]

/-- What an insert that the server took did. -/
theorem heapInsert_ran {core : Core} {schema table : String} {image : Json} {db next : Database}
    (ran : (Write.heapInsert schema table image).run core db = .ok next) :
    ∃ rel rows, db.heap schema table = some rel ∧ core.heapInsert rel image = .ok rows ∧
      next = db.setRows schema table rows := by
  simp only [Write.run] at ran
  split at ran
  · cases ran
  · rename_i rel present
    cases inserted : core.heapInsert rel image with
    | error e => simp [inserted, Except.map] at ran
    | ok rows =>
      simp only [inserted, Except.map, Except.ok.injEq] at ran
      exact ⟨rel,rows,present,inserted,ran.symm⟩

theorem heapDelete_ran {core : Core} {schema table : String} {pkCols key : List String}
    {floor : Option Floor} {db next : Database}
    (ran : (Write.heapDelete schema table pkCols floor key).run core db = .ok next) :
    ∃ rel, db.heap schema table = some rel ∧
      next = db.setRows schema table (core.heapDelete rel pkCols floor key) := by
  simp only [Write.run] at ran
  split at ran
  · cases ran
  · rename_i rel present
    exact ⟨rel,present,(Except.ok.inj ran).symm⟩

/-- Data writes leave the tierdb catalog tables, the pins and every relation's
columns and primary key alone. -/
structure SameCatalog (a b : Database) : Prop where
  tables : b.tables = a.tables
  cutline : b.cutline = a.cutline
  profiles : b.profiles = a.profiles
  pins : b.pins = a.pins
  shape : ∀ s t, (b.heap s t).map (fun rel => (rel.columns,rel.primaryKey)) =
    (a.heap s t).map fun rel => (rel.columns,rel.primaryKey)

theorem SameCatalog.refl (db : Database) : SameCatalog db db :=
  ⟨rfl,rfl,rfl,rfl,fun _ _ => rfl⟩

theorem SameCatalog.trans {a b c : Database} (first : SameCatalog a b) (second : SameCatalog b c) :
    SameCatalog a c :=
  ⟨second.tables.trans first.tables,second.cutline.trans first.cutline,
    second.profiles.trans first.profiles,second.pins.trans first.pins,
    fun s t => (second.shape s t).trans (first.shape s t)⟩

theorem setRows_sameCatalog (db : Database) (schema table : String) (rows : List Fields) :
    SameCatalog db (db.setRows schema table rows) := by
  refine ⟨rfl,rfl,rfl,rfl,fun s t => ?_⟩
  simp only [Database.setRows]
  split
  · cases db.heap s t <;> rfl
  · rfl

theorem run_sameCatalog {core : Core} {w : Write} {db next : Database}
    (ran : w.run core db = .ok next) : SameCatalog db next := by
  cases w with
  | heapInsert schema table image =>
    obtain ⟨_,rows,_,_,rfl⟩ := heapInsert_ran ran
    exact setRows_sameCatalog db schema table rows
  | heapDelete schema table pkCols floor key =>
    obtain ⟨_,_,rfl⟩ := heapDelete_ran ran
    exact setRows_sameCatalog db schema table _
  | delta entry =>
    simp only [Write.run, Except.ok.injEq] at ran
    exact ran ▸ ⟨rfl,rfl,rfl,rfl,fun _ _ => rfl⟩

theorem runAll_sameCatalog {core : Core} {writes : List Write} {db next : Database}
    (ran : runAll core writes db = .ok next) : SameCatalog db next := by
  induction writes generalizing db with
  | nil => cases ran; exact .refl _
  | cons w rest ih =>
    obtain ⟨middle,first,later⟩ := runAll_cons.mp ran
    exact (run_sameCatalog first).trans (ih later)

end TierDb
