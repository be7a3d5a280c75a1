import TierDb.Library.Keyed
import TierDb.Plan

/-! The merged read of a table at its cut-line: the heap from the cut-line on, and below
it the lake overlaid by the delta. Every data write is one assignment of it. -/
namespace TierDb

/-- A registered table, as its merged read sees it. -/
structure Layout where
  schema : String
  name : String
  tableId : Int
  lakeRef : String
  columns : List (String × String)
  pkCols : List String
  tierKeyCol : String
  tierKeyType : TierKeyType
  cut : Int
  pk_columns : ∀ column ∈ pkCols, column ∈ columns.map Prod.fst
  tier_column : tierKeyCol ∈ columns.map Prod.fst

/-- A side of the cut-line with a primary key. -/
abbrev Slot := RouteTarget × List String

namespace Layout

variable (core : Core) (layout : Layout)

def names : List String := layout.columns.map Prod.fst

def keyOf (row : Json) : Option (List String) := core.keyOf layout.pkCols row

def tierOf (row : Json) : Option Int :=
  core.tierKeyOf layout.tierKeyCol layout.tierKeyType row

def sideOf (tierKey : Int) : RouteTarget := if tierKey < layout.cut then .cold else .hot

def slotOf (row : Json) : Option Slot := do
  return (layout.sideOf (← layout.tierOf core row),← layout.keyOf core row)

/-- The key of a stored row. -/
def key (row : Fields) : Option (List String) := layout.keyOf core (.object row)

def slot (row : Fields) : Option Slot := layout.slotOf core (.object row)

def isHot (row : Fields) : Bool := (layout.tierOf core (.object row)).any (layout.cut ≤ ·)

def isCold (row : Fields) : Bool := (layout.tierOf core (.object row)).any (· < layout.cut)

def heapRows (db : Database) : List Fields :=
  ((db.heap layout.schema layout.name).map Relation.rows).getD []

def hotRows (db : Database) : List Fields := (layout.heapRows db).filter (layout.isHot core)

def entries (db : Database) : List DeltaEntry := db.delta.filter (·.tableId = layout.tableId)

/-- Whether the delta has an entry for the row's key. -/
def overridden (entries : List DeltaEntry) (row : Fields) : Bool :=
  (layout.key core row).any fun k => entries.any (·.pk = core.encodePk k)

def baseRows (entries : List DeltaEntry) (lakeRows : List Fields) : List Fields :=
  lakeRows.filter fun row => layout.isCold core row && !layout.overridden core entries row

def overlayRow (entry : DeltaEntry) : Option Fields :=
  if entry.op = .upsert ∧ entry.tierKey < layout.cut then
    some (project layout.names entry.payload)
  else none

def overlayRows (entries : List DeltaEntry) : List Fields := entries.filterMap layout.overlayRow

def coldRows (db : Database) (lake : Lake) : List Fields :=
  layout.baseRows core (layout.entries db) (lake layout.lakeRef) ++
    layout.overlayRows (layout.entries db)

/-- The rows a read of the table returns. -/
def merged (db : Database) (lake : Lake) : List Fields :=
  layout.hotRows core db ++ layout.coldRows core db lake

/-- Every upsert is filed under the key and the tier key of its payload. -/
def Sound (db : Database) : Prop := ∀ e ∈ layout.entries db, e.op = .upsert →
  ∃ k, layout.keyOf core e.payload = some k ∧ e.pk = core.encodePk k ∧
    layout.tierOf core e.payload = some e.tierKey

/-- The heap relation has the layout's columns and primary key. -/
def Shaped (db : Database) : Prop :=
  (db.heap layout.schema layout.name).map (fun rel => (rel.columns,rel.primaryKey)) =
    some (layout.columns,layout.pkCols)

/-- The database registers the table under `mode`. -/
structure Describes (db : Database) (mode : String) : Prop where
  row : ∃ row, db.findTable layout.schema layout.name = .ok (some row) ∧
    row.tableId = layout.tableId ∧ row.mode = mode ∧ row.keepHeap = false ∧
    row.primaryKeyCols = layout.pkCols ∧ row.tierKeyCol = layout.tierKeyCol ∧
    row.lakeTableRef = layout.lakeRef ∧
    core.tierKeyTypeFromName row.tierKeyType = .ok layout.tierKeyType
  cutline : (db.cutline layout.tableId).map CutlineRow.tierKeyHi = some layout.cut
  shaped : layout.Shaped db

section Slots

variable {core : Core} {layout : Layout}

theorem keyOf_project (row : Json) :
    layout.keyOf core (.object (project layout.names row)) = layout.keyOf core row := by
  simp only [keyOf, SerdeJson.keyOf,
    core.fieldTexts_project layout.names row layout.pkCols layout.pk_columns]

theorem tierOf_project (row : Json) :
    layout.tierOf core (.object (project layout.names row)) = layout.tierOf core row := by
  simp only [tierOf, SerdeJson.tierKeyOf, SerdeJson.tierKey,
    core.fieldText_project layout.names row layout.tierKeyCol layout.tier_column]

theorem slotOf_project (row : Json) :
    layout.slotOf core (.object (project layout.names row)) = layout.slotOf core row := by
  simp only [slotOf, keyOf_project, tierOf_project]

theorem slotOf_some {row : Json} {side : RouteTarget} {k : List String} :
    layout.slotOf core row = some (side,k) ↔
      ∃ tierKey, layout.tierOf core row = some tierKey ∧ layout.sideOf tierKey = side ∧
        layout.keyOf core row = some k := by
  simp only [slotOf, Option.bind_eq_bind, Option.pure_def, Option.bind_eq_some_iff,
    Option.some.injEq, Prod.mk.injEq]
  constructor
  · rintro ⟨t,tier,k',found,rfl,rfl⟩
    exact ⟨t,tier,rfl,found⟩
  · rintro ⟨t,tier,rfl,found⟩
    exact ⟨t,tier,k,found,rfl,rfl⟩

theorem sideOf_hot {t : Int} (hot : layout.sideOf t = .hot) : layout.cut ≤ t := by
  unfold sideOf at hot
  split at hot
  · cases hot
  · omega

theorem sideOf_cold {t : Int} (cold : layout.sideOf t = .cold) : t < layout.cut := by
  unfold sideOf at cold
  split at cold
  · assumption
  · cases cold

theorem slot_hot {row : Fields} {k : List String} (hot : layout.isHot core row = true) (side) :
    layout.slot core row = some (side,k) ↔ side = .hot ∧ layout.key core row = some k := by
  simp only [isHot, Option.any_eq_true, decide_eq_true_eq] at hot
  obtain ⟨t,tier,above⟩ := hot
  have side' : layout.sideOf t = .hot := if_neg (by omega)
  simp only [slot, slotOf_some, tier, key, Option.some.injEq]
  constructor
  · rintro ⟨_,rfl,rfl,found⟩
    exact ⟨side',found⟩
  · rintro ⟨rfl,found⟩
    exact ⟨t,rfl,side',found⟩

theorem slot_cold {row : Fields} {k : List String} (cold : layout.isCold core row = true) (side) :
    layout.slot core row = some (side,k) ↔ side = .cold ∧ layout.key core row = some k := by
  simp only [isCold, Option.any_eq_true, decide_eq_true_eq] at cold
  obtain ⟨t,tier,below⟩ := cold
  have side' : layout.sideOf t = .cold := if_pos below
  simp only [slot, slotOf_some, tier, key, Option.some.injEq]
  constructor
  · rintro ⟨_,rfl,rfl,found⟩
    exact ⟨side',found⟩
  · rintro ⟨rfl,found⟩
    exact ⟨t,rfl,side',found⟩

end Slots

section Assignments

variable {core : Core} {layout : Layout} {db next : Database}

theorem Shaped.relation (shaped : layout.Shaped db) :
    ∃ rel, db.heap layout.schema layout.name = some rel ∧ rel.columns = layout.columns ∧
      rel.primaryKey = layout.pkCols ∧ layout.heapRows db = rel.rows := by
  simp only [Shaped, Option.map_eq_some_iff, Prod.mk.injEq] at shaped
  obtain ⟨rel,present,columns,pk⟩ := shaped
  exact ⟨rel,present,columns,pk,by simp [heapRows, present]⟩

theorem Shaped.same (shaped : layout.Shaped db) (same : SameCatalog db next) :
    layout.Shaped next :=
  (same.shape _ _).trans shaped

theorem heapRows_setRows {rows : List Fields} (shaped : layout.Shaped db) :
    layout.heapRows (db.setRows layout.schema layout.name rows) = rows := by
  obtain ⟨rel,present,_⟩ := shaped.relation
  simp [heapRows, Database.setRows, present]

theorem hasKey_iff {row : Fields} {k : List String} :
    core.hasKey layout.pkCols k row = true ↔ layout.key core row = some k := by
  simp [SerdeJson.hasKey, key, keyOf]

theorem isHot_of_mem {row : Fields} (member : row ∈ layout.hotRows core db) :
    layout.isHot core row = true := (List.mem_filter.mp member).2

theorem isCold_of_mem {row : Fields} {lake : Lake} (sound : layout.Sound core db)
    (member : row ∈ layout.coldRows core db lake) : layout.isCold core row = true := by
  rcases List.mem_append.mp member with base | overlay
  · exact (Bool.and_eq_true _ _ ▸ (List.mem_filter.mp base).2).1
  · obtain ⟨e,known,made⟩ := List.mem_filterMap.mp overlay
    unfold overlayRow at made
    split at made
    · rename_i upsert
      cases made
      obtain ⟨k,_,_,tier⟩ := sound e known upsert.1
      simp [isCold, tierOf_project, tier, upsert.2]
    · cases made

/-- An assignment to a hot slot touches the hot rows alone. -/
theorem assign_hot {hot cold : List Fields} {k : List String} {value : Option Fields}
    (hots : ∀ row ∈ hot, layout.isHot core row = true)
    (colds : ∀ row ∈ cold, layout.isCold core row = true) :
    (Keyed.assign (layout.key core) k value hot ++ cold).Perm
      (Keyed.assign (layout.slot core) (.hot,k) value (hot ++ cold)) := by
  have front : Keyed.erase (layout.slot core) (.hot,k) hot = Keyed.erase (layout.key core) k hot :=
    List.filter_congr fun row member => by simp [slot_hot (hots row member)]
  have back : Keyed.erase (layout.slot core) (.hot,k) cold = cold :=
    Keyed.erase_of_empty fun row member => by simp [slot_cold (colds row member)]
  simp only [Keyed.assign, Keyed.erase_append, front, back, List.append_assoc]
  exact (List.perm_append_comm).append_left _

theorem assign_cold {hot cold : List Fields} {k : List String} {value : Option Fields}
    (hots : ∀ row ∈ hot, layout.isHot core row = true)
    (colds : ∀ row ∈ cold, layout.isCold core row = true) :
    hot ++ Keyed.assign (layout.key core) k value cold =
      Keyed.assign (layout.slot core) (.cold,k) value (hot ++ cold) := by
  have front : Keyed.erase (layout.slot core) (.cold,k) hot = hot :=
    Keyed.erase_of_empty fun row member => by simp [slot_hot (hots row member)]
  have back : Keyed.erase (layout.slot core) (.cold,k) cold =
      Keyed.erase (layout.key core) k cold :=
    List.filter_congr fun row member => by simp [slot_cold (colds row member)]
  simp only [Keyed.assign, Keyed.erase_append, front, back, List.append_assoc]

end Assignments

section Effects

variable {core : Core} {layout : Layout} {db next : Database}

theorem keyOf_length {row : Json} {k : List String} (found : layout.keyOf core row = some k) :
    k.length = layout.pkCols.length :=
  (Effect.mapM_ok.mp (toOption_some.mp found)).length_eq.symm

theorem encodePk_iff {a b : Json} {j k : List String} (first : layout.keyOf core a = some j)
    (second : layout.keyOf core b = some k) : core.encodePk j = core.encodePk k ↔ j = k :=
  ⟨core.encodePk_injective j k ((keyOf_length first).trans (keyOf_length second).symm),
    congrArg _⟩

def floor : Option Floor := some ⟨layout.tierKeyCol,layout.tierKeyType,layout.cut⟩

/-- An insert that the heap took, in terms of the relation it was made on. -/
theorem Shaped.inserted {image : Json} (shaped : layout.Shaped db)
    (ran : (Write.heapInsert layout.schema layout.name image).run core db = .ok next) :
    ∃ rel stored, rel.columns = layout.columns ∧ rel.primaryKey = layout.pkCols ∧
      layout.heapRows db = rel.rows ∧ core.heapInsert rel image = .ok stored ∧
      next = db.setRows layout.schema layout.name stored := by
  obtain ⟨rel,present,columns,pk,rows⟩ := shaped.relation
  obtain ⟨rel',stored,same,took,done⟩ := heapInsert_ran ran
  obtain rfl : rel = rel' := Option.some.inj (present.symm.trans same)
  exact ⟨rel,stored,columns,pk,rows,took,done⟩

theorem Shaped.removed {pkCols key : List String} {floor : Option Floor}
    (shaped : layout.Shaped db)
    (ran : (Write.heapDelete layout.schema layout.name pkCols floor key).run core db = .ok next) :
    ∃ rel, layout.heapRows db = rel.rows ∧
      next = db.setRows layout.schema layout.name (core.heapDelete rel pkCols floor key) := by
  obtain ⟨rel,present,_,_,rows⟩ := shaped.relation
  obtain ⟨rel',same,done⟩ := heapDelete_ran ran
  obtain rfl : rel = rel' := Option.some.inj (present.symm.trans same)
  exact ⟨rel,rows,done⟩

theorem heapDelete_run {k : List String} (shaped : layout.Shaped db)
    (ran : (Write.heapDelete layout.schema layout.name layout.pkCols layout.floor k).run core db =
      .ok next) :
    next.delta = db.delta ∧ layout.heapRows next = (layout.heapRows db).filter fun row =>
      !(core.hasKey layout.pkCols k row && layout.isHot core row) := by
  obtain ⟨rel,rows,rfl⟩ := shaped.removed ran
  rw [heapRows_setRows shaped, core.heapDelete_rows, rows]
  exact ⟨rfl,rfl⟩

theorem mem_heapRows_delete {k : List String} (shaped : layout.Shaped db)
    (ran : (Write.heapDelete layout.schema layout.name layout.pkCols layout.floor k).run core db =
      .ok next) (row : Fields) :
    row ∈ layout.heapRows next ↔
      row ∈ layout.heapRows db ∧ layout.slot core row ≠ some (.hot,k) := by
  rw [(heapDelete_run shaped ran).2, List.mem_filter, and_congr_right_iff]
  intro _
  cases hot : layout.isHot core row with
  | true => simp [slot_hot hot, ← hasKey_iff]
  | false =>
    simp only [Bool.and_false, Bool.not_false, true_iff]
    intro here
    obtain ⟨t,tier,side,_⟩ := slotOf_some.mp here
    simp [isHot, tier, sideOf_hot side] at hot

theorem heapDelete_hotRows {k : List String} (shaped : layout.Shaped db)
    (ran : (Write.heapDelete layout.schema layout.name layout.pkCols layout.floor k).run core db =
      .ok next) :
    layout.hotRows core next = Keyed.assign (layout.key core) k none (layout.hotRows core db) := by
  rw [hotRows, (heapDelete_run shaped ran).2, hotRows, Keyed.assign, Option.toList_none,
    List.append_nil, Keyed.erase, List.filter_filter, List.filter_filter]
  apply List.filter_congr
  intro row _
  rw [Bool.eq_iff_iff]
  cases hot : layout.isHot core row <;> simp [← hasKey_iff]

/-- An accepted image replaces what its key held. -/
theorem heapInsert_ok {rel : Relation} {image : Json} {k : List String} {rows : List Fields}
    (keyed : core.keyOf rel.primaryKey image = some k)
    (inserted : core.heapInsert rel image = .ok rows) :
    rows = rel.rows.filter (fun row => !core.hasKey rel.primaryKey k row) ++
      [project (rel.columns.map Prod.fst) image] := by
  cases refused : core.imageError rel.columns rel.primaryKey image with
  | some e => simp [core.heapInsert_refused rel image e refused] at inserted
  | none =>
    by_cases duplicate : ∃ row ∈ rel.rows, core.hasKey rel.primaryKey k row = true
    · have outcome := core.heapInsert_duplicate rel image k refused keyed duplicate
      split at outcome
      · exact Except.ok.inj (inserted.symm.trans outcome)
      · obtain ⟨e,failed⟩ := outcome
        cases failed.symm.trans inserted
    · have fresh : ∀ row ∈ rel.rows, core.hasKey rel.primaryKey k row = false := by
        simpa using duplicate
      have kept : rel.rows.filter (fun row => !core.hasKey rel.primaryKey k row) = rel.rows := by
        simpa [List.filter_eq_self] using fresh
      rw [kept]
      exact Except.ok.inj (inserted.symm.trans
        (core.heapInsert_fresh rel image k refused keyed fresh))

theorem heapInsert_run {image : Json} {k : List String} (shaped : layout.Shaped db)
    (keyed : layout.keyOf core image = some k)
    (ran : (Write.heapInsert layout.schema layout.name image).run core db = .ok next) :
    next.delta = db.delta ∧ layout.heapRows next =
      (layout.heapRows db).filter (fun row => !core.hasKey layout.pkCols k row) ++
        [project layout.names image] := by
  obtain ⟨rel,stored,columns,pk,rows,inserted,rfl⟩ := shaped.inserted ran
  have keyed' : core.keyOf rel.primaryKey image = some k := by rw [pk]; exact keyed
  have outcome := heapInsert_ok keyed' inserted
  rw [pk, columns] at outcome
  rw [heapRows_setRows shaped, outcome, rows]
  exact ⟨rfl,rfl⟩

/-- Which images the heap takes. -/
theorem heapInsert_runs {row : Json} {k : List String} (shaped : layout.Shaped db)
    (keyed : layout.keyOf core row = some k) :
    (∃ next, (Write.heapInsert layout.schema layout.name row).run core db = .ok next) ↔
      core.imageError layout.columns layout.pkCols row = none ∧ (core.replacesDuplicate = true ∨
        ∀ r ∈ layout.heapRows db, layout.key core r ≠ some k) := by
  obtain ⟨rel,present,columns,pk,rows⟩ := shaped.relation
  rw [rows, ← columns, ← pk]
  have keyed' : core.keyOf rel.primaryKey row = some k := by rw [pk]; exact keyed
  have ran : (∃ next, (Write.heapInsert layout.schema layout.name row).run core db = .ok next) ↔
      ∃ stored, core.heapInsert rel row = .ok stored := by
    cases inserted : core.heapInsert rel row <;> simp [Write.run, present, inserted, Except.map]
  rw [ran]
  have held : ∀ r : Fields, layout.key core r = some k ↔
      core.hasKey rel.primaryKey k r = true := fun r => by rw [pk]; exact hasKey_iff.symm
  cases refused : core.imageError rel.columns rel.primaryKey row with
  | some e => simp [core.heapInsert_refused rel row e refused]
  | none =>
    by_cases duplicate : ∃ r ∈ rel.rows, core.hasKey rel.primaryKey k r = true
    · have outcome := core.heapInsert_duplicate rel row k refused keyed' duplicate
      obtain ⟨r,member,same⟩ := duplicate
      split at outcome
      · rename_i replaces
        simp [outcome, replaces]
      · rename_i fails
        obtain ⟨e,failed⟩ := outcome
        simp only [failed, reduceCtorEq, exists_false, true_and, false_iff, not_or, fails,
          not_false_eq_true, Bool.false_eq_true]
        exact fun fresh => fresh r member ((held r).mpr same)
    · have fresh : ∀ r ∈ rel.rows, core.hasKey rel.primaryKey k r = false := by
        simpa using duplicate
      simp only [core.heapInsert_fresh rel row k refused keyed' fresh, Except.ok.injEq,
        exists_eq', true_and, true_iff]
      refine .inr fun r member same => ?_
      have clear := fresh r member
      rw [(held r).mp same] at clear
      cases clear

theorem heapInsert_hotRows {image : Json} {k : List String} (shaped : layout.Shaped db)
    (placed : layout.slotOf core image = some (.hot,k))
    (ran : (Write.heapInsert layout.schema layout.name image).run core db = .ok next) :
    layout.hotRows core next = Keyed.assign (layout.key core) k
      (some (project layout.names image)) (layout.hotRows core db) := by
  obtain ⟨t,tier,side,keyed⟩ := slotOf_some.mp placed
  have hot : layout.isHot core (project layout.names image) = true := by
    have above : ¬ t < layout.cut := fun below => by simp [sideOf, below] at side
    simp only [isHot, tierOf_project, tier, Option.any_some, decide_eq_true_eq]
    omega
  rw [hotRows, (heapInsert_run shaped keyed ran).2, List.filter_append]
  simp only [hotRows, Keyed.assign, Keyed.erase, List.filter_filter, Option.toList_some,
    List.filter_cons_of_pos hot, List.filter_nil]
  congr 1
  apply List.filter_congr
  intro row _
  rw [Bool.eq_iff_iff]
  simp [← hasKey_iff, and_comm]

theorem heap_coldRows {lake : Lake} (same : next.delta = db.delta) :
    layout.coldRows core next lake = layout.coldRows core db lake := by
  simp only [coldRows, entries, same]

theorem delta_run {entry : DeltaEntry} (own : entry.tableId = layout.tableId)
    (ran : (Write.delta entry).run core db = .ok next) :
    next.heap = db.heap ∧
      layout.entries next = (layout.entries db).filter (·.pk ≠ entry.pk) ++ [entry] := by
  simp only [Write.run, Except.ok.injEq] at ran
  subst ran
  refine ⟨rfl,?_⟩
  simp only [entries, core.deltaWrite_entries, List.filter_append, List.filter_filter]
  congr 1
  · apply List.filter_congr
    intro e _
    rw [Bool.eq_iff_iff]
    by_cases table : e.tableId = layout.tableId <;> simp [table, own]
  · simp [own]

theorem baseRows_put {entries : List DeltaEntry} {entry : DeltaEntry} {image : Json}
    {k : List String} {rows : List Fields} (keyed : layout.keyOf core image = some k)
    (filed : entry.pk = core.encodePk k) :
    layout.baseRows core (entries.filter (·.pk ≠ entry.pk) ++ [entry]) rows =
      Keyed.erase (layout.key core) k (layout.baseRows core entries rows) := by
  simp only [baseRows, Keyed.erase, List.filter_filter]
  apply List.filter_congr
  intro row _
  rw [Bool.eq_iff_iff]
  cases found : layout.key core row with
  | none => simp [overridden, found]
  | some j =>
    have same : core.encodePk k = core.encodePk j ↔ k = j := encodePk_iff keyed found
    by_cases equal : j = k
    · subst equal
      simp [overridden, found, filed]
    · have apart : core.encodePk j ≠ core.encodePk k := fun h => equal (same.mp h.symm).symm
      have others : (entries.filter (·.pk ≠ entry.pk)).any (·.pk = core.encodePk j) =
          entries.any (·.pk = core.encodePk j) := by
        rw [List.any_filter]
        congr 1
        funext e
        by_cases here : e.pk = core.encodePk j <;> simp [here, filed, apart]
      simp only [overridden, found, Option.any_some, List.any_append, others]
      simp [equal, filed, Ne.symm apart]

theorem overlayRows_put {entries : List DeltaEntry} {entry : DeltaEntry} {image : Json}
    {k : List String} (keyed : layout.keyOf core image = some k)
    (filed : entry.pk = core.encodePk k)
    (sound : ∀ e ∈ entries, e.op = .upsert → ∃ k, layout.keyOf core e.payload = some k ∧
      e.pk = core.encodePk k ∧ layout.tierOf core e.payload = some e.tierKey) :
    layout.overlayRows (entries.filter (·.pk ≠ entry.pk) ++ [entry]) =
      Keyed.assign (layout.key core) k (layout.overlayRow entry) (layout.overlayRows entries) := by
  simp only [overlayRows, List.filterMap_append, Keyed.assign, Keyed.erase]
  congr 1
  · rw [List.filterMap_filter, List.filter_filterMap]
    apply List.filterMap_congr
    intro e member
    unfold overlayRow
    by_cases upsert : e.op = .upsert ∧ e.tierKey < layout.cut
    · obtain ⟨j,found,pk,_⟩ := sound e member upsert.1
      have same := encodePk_iff found keyed
      have stored : layout.key core (project layout.names e.payload) = some j :=
        (keyOf_project _).trans found
      by_cases equal : j = k
      · simp [upsert, filed, pk, equal, stored, Option.filter]
      · simp [upsert, filed, pk, same, equal, stored, Option.filter]
    · simp [upsert]

end Effects

end Layout

end TierDb
