import TierDb.Merged

/-! Chunks on a tiered table. Every row a chunk removes or writes is one statement, and
that statement is one assignment of the merged read; so is the whole chunk, in order. -/
namespace TierDb.Layout

section Statements

variable {core : Core} {layout : Layout}

/-- On every database the statement is this assignment of the merged read. -/
def Assigns (core : Core) (layout : Layout) (w : Write) (step : Slot × Option Fields) : Prop :=
  ∀ db next lake, layout.Shaped db → layout.Sound core db → w.run core db = .ok next →
    layout.Sound core next ∧ (layout.merged core next lake).Perm
      (Keyed.assign (layout.slot core) step.1 step.2 (layout.merged core db lake))

theorem heap_sound {db next : Database} (sound : layout.Sound core db)
    (same : next.delta = db.delta) : layout.Sound core next := by
  simpa only [Sound, entries, same] using sound

theorem delete_assigns (k : List String) :
    layout.Assigns core (.heapDelete layout.schema layout.name layout.pkCols layout.floor k)
      ((.hot,k),none) := by
  intro db next lake shaped sound ran
  have same := (heapDelete_run shaped ran).1
  refine ⟨heap_sound sound same,?_⟩
  rw [merged, heapDelete_hotRows shaped ran, heap_coldRows same]
  exact assign_hot (fun _ => isHot_of_mem) fun _ => isCold_of_mem sound

theorem insert_assigns {image : Json} {k : List String}
    (placed : layout.slotOf core image = some (.hot,k)) :
    layout.Assigns core (.heapInsert layout.schema layout.name image)
      ((.hot,k),some (project layout.names image)) := by
  intro db next lake shaped sound ran
  obtain ⟨_,_,_,keyed⟩ := slotOf_some.mp placed
  have same := (heapInsert_run shaped keyed ran).1
  refine ⟨heap_sound sound same,?_⟩
  rw [merged, heapInsert_hotRows shaped placed ran, heap_coldRows same]
  exact assign_hot (fun _ => isHot_of_mem) fun _ => isCold_of_mem sound

/-- A delta statement filed under a key assigns that key among the cold rows. -/
theorem delta_coldRows {db next : Database} {entry : DeltaEntry} {row : Json} {k : List String}
    (own : entry.tableId = layout.tableId) (keyed : layout.keyOf core row = some k)
    (filed : entry.pk = core.encodePk k)
    (payload : entry.op = .upsert → layout.keyOf core entry.payload = some k ∧
      layout.tierOf core entry.payload = some entry.tierKey)
    (sound : layout.Sound core db) (ran : (Write.delta entry).run core db = .ok next) :
    next.heap = db.heap ∧ layout.Sound core next ∧ ∀ lake, layout.coldRows core next lake =
      Keyed.assign (layout.key core) k (layout.overlayRow entry)
        (layout.coldRows core db lake) := by
  obtain ⟨heap,entries⟩ := delta_run own ran
  refine ⟨heap,fun e member upsert => ?_,fun lake => ?_⟩
  · rw [entries] at member
    rcases List.mem_append.mp member with old | new
    · exact sound e (List.mem_filter.mp old).1 upsert
    · obtain rfl := List.mem_singleton.mp new
      obtain ⟨keyed',tier⟩ := payload upsert
      exact ⟨k,keyed',filed,tier⟩
  · rw [coldRows, entries, baseRows_put keyed filed, overlayRows_put keyed filed sound, coldRows]
    simp only [Keyed.assign, Keyed.erase_append, List.append_assoc]

theorem delta_assigns {entry : DeltaEntry} {row : Json} {k : List String}
    (own : entry.tableId = layout.tableId) (keyed : layout.keyOf core row = some k)
    (filed : entry.pk = core.encodePk k)
    (payload : entry.op = .upsert → layout.keyOf core entry.payload = some k ∧
      layout.tierOf core entry.payload = some entry.tierKey) :
    layout.Assigns core (.delta entry) ((.cold,k),layout.overlayRow entry) := by
  intro db next lake shaped sound ran
  obtain ⟨heap,sound',cold⟩ := delta_coldRows own keyed filed payload sound ran
  have hot : layout.hotRows core next = layout.hotRows core db := by
    simp only [hotRows, heapRows, heap]
  refine ⟨sound',?_⟩
  rw [merged, hot, cold, assign_cold (fun _ => isHot_of_mem) fun _ => isCold_of_mem sound]
  exact .refl _

theorem tombstone_assigns {row : Json} {k : List String} (t : Int) (payload : Json)
    (keyed : layout.keyOf core row = some k) :
    layout.Assigns core (.delta ⟨layout.tableId,core.encodePk k,.tombstone,t,payload⟩)
      ((.cold,k),none) :=
  delta_assigns rfl keyed rfl nofun

theorem upsert_assigns {image : Json} {k : List String} {t : Int}
    (keyed : layout.keyOf core image = some k) (tier : layout.tierOf core image = some t)
    (below : t < layout.cut) :
    layout.Assigns core (.delta ⟨layout.tableId,core.encodePk k,.upsert,t,image⟩)
      ((.cold,k),some (project layout.names image)) := by
  have shown : layout.overlayRow ⟨layout.tableId,core.encodePk k,.upsert,t,image⟩ =
      some (project layout.names image) := if_pos ⟨rfl,below⟩
  rw [← shown]
  exact delta_assigns rfl keyed rfl fun _ => ⟨keyed,tier⟩

/-- Statements that run one after the other are their assignments in order. -/
theorem runAll_assigns {writes : List Write} {steps : List (Slot × Option Fields)}
    {db next : Database} (each : List.Forall₂ (layout.Assigns core) writes steps)
    (shaped : layout.Shaped db) (sound : layout.Sound core db)
    (ran : runAll core writes db = .ok next) (lake : Lake) :
    layout.Sound core next ∧ (layout.merged core next lake).Perm
      (Keyed.assignAll (layout.slot core) steps (layout.merged core db lake)) := by
  induction each generalizing db with
  | nil => cases ran; exact ⟨sound,.refl _⟩
  | @cons w step ws rest first _ ih =>
    obtain ⟨middle,half,later⟩ := runAll_cons.mp ran
    obtain ⟨sound',moved⟩ := first db middle lake shaped sound half
    obtain ⟨sound'',moved'⟩ := ih (shaped.same (run_sameCatalog half)) sound' later
    exact ⟨sound'',moved'.trans (Keyed.assignAll_perm moved)⟩

end Statements

section Contexts

/-- The context a chunk call reads for the layout's table under a mode that sends cold
rows to `sink`. -/
structure Fits (layout : Layout) (ctx : ChunkContext) (sink : ColdSink) : Prop where
  tableId : ctx.ts.tableId = layout.tableId
  schemaName : ctx.ts.schemaName = layout.schema
  tableName : ctx.ts.tableName = layout.name
  columns : ctx.ts.columns = layout.columns
  pkCols : ctx.ts.primaryKeyCols = layout.pkCols
  tierKeyCol : ctx.ts.tierKeyCol = layout.tierKeyCol
  tierKeyType : ctx.ts.tierKeyType = layout.tierKeyType
  cutline : ctx.cutline = some layout.cut
  splits : ctx.mode.Splits sink
  target : ctx.target.columns = layout.columns.map (fun (name,sqlType) => ⟨name,sqlType⟩) ∧
    ctx.target.pkCols = layout.pkCols ∧ ctx.target.tierKeyCol = layout.tierKeyCol ∧
    ctx.target.tierKeyType = layout.tierKeyType ∧ ctx.target.lakeTableRef = some layout.lakeRef

variable {core : Core} {layout : Layout} {ctx : ChunkContext}

theorem routeRow_side (t : Int) : routeRow core (some layout.cut) t = layout.sideOf t := by
  show core.route t layout.cut = layout.sideOf t
  unfold sideOf
  split
  · rename_i below
    exact (core.route_cold t layout.cut).mpr below
  · rename_i above
    cases side : core.route t layout.cut with
    | hot => rfl
    | cold => exact absurd ((core.route_cold t layout.cut).mp side) above

theorem pkColumn_name {target : Table} {pk : String} {column : Column}
    (found : pkColumn target pk = .ok column) : column.name = pk := by
  unfold pkColumn at found
  split at found
  · rename_i holds
    cases found
    simpa using List.find?_some holds
  · cases found

theorem Fits.pkColumns {sink : ColdSink} (fits : layout.Fits ctx sink) :
    ∃ pkColumns, pkColumnsOf ctx.target = .ok pkColumns ∧
      pkColumns.map Column.name = layout.pkCols := by
  have each : ∀ pk ∈ layout.pkCols, ∃ column, pkColumn ctx.target pk = .ok column := by
    intro pk member
    obtain ⟨c,known,same⟩ := List.mem_map.mp (layout.pk_columns pk member)
    have present : (ctx.target.columns.find? (·.name = pk)).isSome := by
      rw [List.find?_isSome, fits.target.1]
      exact ⟨⟨c.1,c.2⟩,List.mem_map.mpr ⟨c,known,rfl⟩,by simpa using same⟩
    obtain ⟨column,found⟩ := Option.isSome_iff_exists.mp present
    exact ⟨column,by simp [pkColumn, found]⟩
  rw [pkColumnsOf, fits.target.2.1]
  obtain ⟨pkColumns,found⟩ := Effect.mapM_returns each
  refine ⟨pkColumns,found,?_⟩
  have named := Effect.mapM_ok.mp found
  clear found each
  generalize layout.pkCols = pks at named
  induction named with
  | nil => rfl
  | cons first _ ih => rw [List.map_cons, ih, pkColumn_name first]

theorem Fits.floor {sink : ColdSink} (fits : layout.Fits ctx sink) :
    deleteFloor ctx true = layout.floor := by
  simp [deleteFloor, fits.cutline, Layout.floor, fits.tierKeyCol, fits.tierKeyType]

/-- A row below the cut-line is not below the retention line. -/
def retained (core : Core) (layout : Layout) (ctx : ChunkContext) (t : Int) : Prop :=
  layout.sideOf t = .cold → core.retentionRejects t ctx.retention = false

theorem checkRetention_ok {cold : Option ColdSink} {check : Bool} {t : Int}
    (hot : layout.sideOf t = .hot → cold = none)
    (sunk : layout.sideOf t = .cold → cold.isSome = true ∧ check = true) :
    checkRetention core ctx cold check t = .ok () ↔ retained core layout ctx t := by
  unfold checkRetention retained
  cases side : layout.sideOf t with
  | hot => simp [hot side]
  | cold => simp [sunk side]

/-- What a removed row comes to: a lake key tuple, or one statement. -/
def removal (core : Core) (layout : Layout) (sink : ColdSink) (pkColumns : List Column) (t : Int)
    (k : List String) (row : Json) : Option (List Json) × List Write :=
  match layout.sideOf t, sink with
  | .hot, _ => (none,[.heapDelete layout.schema layout.name layout.pkCols layout.floor k])
  | .cold, .delta => (none,[.delta ⟨layout.tableId,core.encodePk k,.tombstone,t,
      tombstonePayload row layout.pkCols⟩])
  | .cold, .lake => (some (core.lakeRowTuple row pkColumns),[])

/-- What a written row comes to: a lake tuple, or one statement. -/
def placement (core : Core) (layout : Layout) (sink : ColdSink) (columns : List Column) (t : Int)
    (k : List String) (row : Json) : Option (List Json) × List Write :=
  match layout.sideOf t, sink with
  | .hot, _ => (none,[.heapInsert layout.schema layout.name row])
  | .cold, .delta => (none,[.delta ⟨layout.tableId,core.encodePk k,.upsert,t,row⟩])
  | .cold, .lake => (some (core.lakeRowTuple row columns),[])

theorem planDeleteRow_fits {sink : ColdSink} {pkColumns : List Column} {row : Json}
    {tuple : Option (List Json)} {writes : List Write} (fits : layout.Fits ctx sink) :
    (planDeleteRow core ctx pkColumns row).Makes tuple writes ↔
      ∃ t k, layout.tierOf core row = some t ∧ layout.keyOf core row = some k ∧
        retained core layout ctx t ∧
        (tuple,writes) = removal core layout sink pkColumns t k row := by
  rw [planDeleteRow_makes]
  simp only [fits.tierKeyCol, fits.tierKeyType, fits.pkCols, fits.cutline, routeRow_side,
    tierOf, keyOf, SerdeJson.tierKeyOf, SerdeJson.keyOf, toOption_some]
  have each : ∀ t k, (∃ front,
      checkRetention core ctx (ctx.mode.planDelete (layout.sideOf t)).cold
        (ctx.mode.planDelete (layout.sideOf t)).checkRetention t = .ok () ∧
      (planDeleteCold core ctx pkColumns (ctx.mode.planDelete (layout.sideOf t)).cold t k
        row).Makes tuple front ∧
      writes = front ++ if (ctx.mode.planDelete (layout.sideOf t)).fromHeap then
        [.heapDelete ctx.ts.schemaName ctx.ts.tableName layout.pkCols
          (deleteFloor ctx (ctx.mode.planDelete (layout.sideOf t)).heapFloor) k] else []) ↔
      retained core layout ctx t ∧ (tuple,writes) = removal core layout sink pkColumns t k row := by
    intro t k
    obtain ⟨fromHeap,none,heapFloor⟩ := fits.splits.deleteHot
    obtain ⟨cold,sunk,check⟩ := fits.splits.deleteCold
    rw [checkRetention_ok (fun side => by rw [side]; exact none)
      fun side => by rw [side, sunk]; exact ⟨rfl,check⟩]
    cases side : layout.sideOf t with
    | hot =>
      simp [removal, side, none, fromHeap, heapFloor, planDeleteCold, fits.schemaName,
        fits.tableName, fits.floor]
    | cold =>
      cases sink <;> simp [removal, side, sunk, cold, planDeleteCold, fits.tableId, fits.pkCols,
        Plan.bind_makes]
  constructor
  · rintro ⟨t,k,front,tier,keyed,rest⟩
    exact ⟨t,k,tier,keyed,(each t k).mp ⟨front,rest⟩⟩
  · rintro ⟨t,k,tier,keyed,rest⟩
    obtain ⟨front,rest⟩ := (each t k).mpr rest
    exact ⟨t,k,front,tier,keyed,rest⟩

/-- The image as the row loop sends it. -/
def normalized (core : Core) (layout : Layout) (image : Json) : Json :=
  normalizeJsonColumns core.toSerdeJson image layout.columns

/-- The row a written image becomes. -/
def landed (core : Core) (layout : Layout) (image : Json) : Fields :=
  project layout.names (normalized core layout image)

theorem planWriteRow_fits {sink : ColdSink} {image : Json} {tuple : Option (List Json)}
    {writes : List Write} {k : List String} (fits : layout.Fits ctx sink)
    (keyed : layout.keyOf core (normalized core layout image) = some k) :
    (planWriteRow core ctx image).Makes tuple writes ↔
      ∃ t, layout.tierOf core (normalized core layout image) = some t ∧
        retained core layout ctx t ∧ (tuple,writes) =
          placement core layout sink ctx.target.columns t k (normalized core layout image) := by
  rw [planWriteRow_makes]
  simp only [normalized, fits.columns] at keyed ⊢
  generalize normalizeJsonColumns core.toSerdeJson image layout.columns = row at keyed ⊢
  have texts : core.fieldTexts row layout.pkCols = .ok k := toOption_some.mp keyed
  simp only [fits.tierKeyCol, fits.tierKeyType, fits.cutline, routeRow_side, tierOf,
    SerdeJson.tierKeyOf, toOption_some]
  have each : ∀ t, (∃ front,
      checkRetention core ctx (ctx.mode.planInsert (layout.sideOf t)).cold
        (ctx.mode.planInsert (layout.sideOf t)).checkRetention t = .ok () ∧
      (planWriteCold core ctx (ctx.mode.planInsert (layout.sideOf t)).cold t row).Makes tuple
        front ∧
      writes = front ++ if (ctx.mode.planInsert (layout.sideOf t)).toHeap then
        [.heapInsert ctx.ts.schemaName ctx.ts.tableName row] else []) ↔
      retained core layout ctx t ∧
        (tuple,writes) = placement core layout sink ctx.target.columns t k row := by
    intro t
    obtain ⟨toHeap,none⟩ := fits.splits.insertHot
    have cold := fits.splits.insertCold
    rw [checkRetention_ok (fun side => by rw [side]; exact none)
      fun side => by rw [side, cold]; exact ⟨rfl,rfl⟩]
    cases side : layout.sideOf t with
    | hot => simp [placement, side, none, toHeap, planWriteCold, fits.schemaName, fits.tableName]
    | cold =>
      cases sink <;> simp [placement, side, cold, planWriteCold, fits.tableId, fits.pkCols, texts,
        Plan.bind_makes]
  constructor
  · rintro ⟨t,front,tier,rest⟩
    exact ⟨t,tier,(each t).mp ⟨front,rest⟩⟩
  · rintro ⟨t,tier,rest⟩
    obtain ⟨front,rest⟩ := (each t).mpr rest
    exact ⟨t,front,tier,rest⟩

end Contexts

section Loops

variable {core : Core} {layout : Layout} {ctx : ChunkContext}

/-- The statement that removes an old row. -/
def Removes (core : Core) (layout : Layout) (ctx : ChunkContext) (row : Json) (w : Write) : Prop :=
  ∃ t k, layout.tierOf core row = some t ∧ layout.keyOf core row = some k ∧
    retained core layout ctx t ∧ (none,[w]) = removal core layout .delta [] t k row

/-- The statement that writes a new image. -/
def Places (core : Core) (layout : Layout) (ctx : ChunkContext) (image : Json) (w : Write) : Prop :=
  ∃ t k, layout.tierOf core (normalized core layout image) = some t ∧
    layout.keyOf core (normalized core layout image) = some k ∧ retained core layout ctx t ∧
    (none,[w]) = placement core layout .delta [] t k (normalized core layout image)

theorem slot_landed (image : Json) : layout.slot core (landed core layout image) =
    layout.slotOf core (normalized core layout image) := slotOf_project _

theorem key_landed (image : Json) : layout.key core (landed core layout image) =
    layout.keyOf core (normalized core layout image) := keyOf_project _

theorem Removes.assigns {row : Json} {w : Write} (removes : Removes core layout ctx row w) :
    ∃ s, layout.slotOf core row = some s ∧ layout.Assigns core w (s,none) := by
  obtain ⟨t,k,tier,keyed,_,made⟩ := removes
  refine ⟨(layout.sideOf t,k),slotOf_some.mpr ⟨t,tier,rfl,keyed⟩,?_⟩
  cases side : layout.sideOf t with
  | hot =>
    simp only [removal, side, Prod.mk.injEq, List.cons.injEq, true_and, and_true] at made
    exact made ▸ delete_assigns k
  | cold =>
    simp only [removal, side, Prod.mk.injEq, List.cons.injEq, true_and, and_true] at made
    exact made ▸ tombstone_assigns t _ keyed

theorem Places.assigns {image : Json} {w : Write} (places : Places core layout ctx image w) :
    ∃ s, layout.slot core (landed core layout image) = some s ∧
      layout.Assigns core w (s,some (landed core layout image)) := by
  obtain ⟨t,k,tier,keyed,_,made⟩ := places
  have placed : layout.slotOf core (normalized core layout image) = some (layout.sideOf t,k) :=
    slotOf_some.mpr ⟨t,tier,rfl,keyed⟩
  refine ⟨(layout.sideOf t,k),(slot_landed image).trans placed,?_⟩
  cases side : layout.sideOf t with
  | hot =>
    simp only [placement, side, Prod.mk.injEq, List.cons.injEq, true_and, and_true] at made placed
    exact made ▸ insert_assigns placed
  | cold =>
    simp only [placement, side, Prod.mk.injEq, List.cons.injEq, true_and, and_true] at made
    exact made ▸ upsert_assigns keyed tier (sideOf_cold side)

theorem planLoop_cons {planRow : Json → Plan (Option (List Json))} {row : Json}
    {rest : List Json} {tuples : List (List Json)} {writes : List Write} :
    (planLoop planRow (row :: rest)).Makes tuples writes ↔
      ∃ tuple front later back, (planRow row).Makes tuple front ∧
        (planLoop planRow rest).Makes later back ∧ tuples = tuple.toList ++ later ∧
        writes = front ++ back := by
  rw [planLoop, Plan.bind_makes]
  constructor
  · rintro ⟨tuple,front,back,first,made,rfl⟩
    obtain ⟨later,looped,rfl⟩ := Plan.bind_pure_makes.mp made
    exact ⟨tuple,front,later,back,first,looped,rfl,rfl⟩
  · rintro ⟨tuple,front,later,back,first,made,rfl,rfl⟩
    exact ⟨tuple,front,back,first,Plan.bind_pure_makes.mpr ⟨later,made,rfl⟩,rfl⟩

/-- A loop whose rows are one statement each. -/
theorem planLoop_statements {planRow : Json → Plan (Option (List Json))}
    {Sends : Json → Write → Prop} {rows : List Json} {tuples : List (List Json)}
    {writes : List Write} (each : ∀ row ∈ rows, ∀ tuple writes,
      (planRow row).Makes tuple writes ↔ tuple = none ∧ ∃ w, Sends row w ∧ writes = [w]) :
    (planLoop planRow rows).Makes tuples writes ↔
      tuples = [] ∧ List.Forall₂ Sends rows writes := by
  induction rows generalizing tuples writes with
  | nil => simp [planLoop]
  | cons row rest ih =>
    have first := each row List.mem_cons_self
    have later : ∀ tuples writes, (planLoop planRow rest).Makes tuples writes ↔
        tuples = [] ∧ List.Forall₂ Sends rest writes := fun _ _ =>
      ih fun r member => each r (List.mem_cons_of_mem _ member)
    rw [planLoop_cons]
    simp only [first, later, List.forall₂_cons_left_iff]
    constructor
    · rintro ⟨_,_,_,ws,⟨rfl,w,sent,rfl⟩,⟨rfl,sents⟩,rfl,rfl⟩
      exact ⟨rfl,w,ws,sent,sents,rfl⟩
    · rintro ⟨rfl,w,ws,sent,sents,rfl⟩
      exact ⟨none,[w],[],ws,⟨rfl,w,sent,rfl⟩,⟨rfl,sents⟩,rfl,rfl⟩

theorem deleteLoop_tiered {pkColumns : List Column} {rows : List Json}
    {tuples : List (List Json)} {writes : List Write} (fits : layout.Fits ctx .delta) :
    (planLoop (planDeleteRow core ctx pkColumns) rows).Makes tuples writes ↔
      tuples = [] ∧ List.Forall₂ (Removes core layout ctx) rows writes := by
  apply planLoop_statements
  intro row _ tuple writes
  rw [planDeleteRow_fits fits]
  constructor
  · rintro ⟨t,k,tier,keyed,kept,made⟩
    cases side : layout.sideOf t <;> simp only [removal, side, Prod.mk.injEq] at made
    all_goals
      obtain ⟨rfl,rfl⟩ := made
      exact ⟨rfl,_,⟨t,k,tier,keyed,kept,by simp only [removal, side]⟩,rfl⟩
  · rintro ⟨rfl,w,⟨t,k,tier,keyed,kept,made⟩,rfl⟩
    refine ⟨t,k,tier,keyed,kept,made.trans ?_⟩
    cases side : layout.sideOf t <;> simp only [removal, side]

theorem writeLoop_tiered {images : List Json} {tuples : List (List Json)} {writes : List Write}
    (fits : layout.Fits ctx .delta)
    (keyed : ∀ image ∈ images, (layout.key core (landed core layout image)).isSome) :
    (planLoop (planWriteRow core ctx) images).Makes tuples writes ↔
      tuples = [] ∧ List.Forall₂ (Places core layout ctx) images writes := by
  apply planLoop_statements
  intro image member tuple writes
  obtain ⟨k,found⟩ := Option.isSome_iff_exists.mp (keyed image member)
  rw [key_landed] at found
  rw [planWriteRow_fits fits found]
  constructor
  · rintro ⟨t,tier,kept,made⟩
    cases side : layout.sideOf t <;> simp only [placement, side, Prod.mk.injEq] at made
    all_goals
      obtain ⟨rfl,rfl⟩ := made
      exact ⟨rfl,_,⟨t,k,tier,found,kept,by simp only [placement, side]⟩,rfl⟩
  · rintro ⟨rfl,w,⟨t,j,tier,found',kept,made⟩,rfl⟩
    obtain rfl : j = k := Option.some.inj (found'.symm.trans found)
    refine ⟨t,tier,kept,made.trans ?_⟩
    cases side : layout.sideOf t <;> simp only [placement, side]

theorem removes_assigns {rows : List Json} {writes : List Write}
    (sent : List.Forall₂ (Removes core layout ctx) rows writes) :
    (∀ row ∈ rows, (layout.slotOf core row).isSome) ∧
      List.Forall₂ (layout.Assigns core) writes
        (Keyed.erasures (rows.filterMap (layout.slotOf core))) := by
  induction sent with
  | nil => exact ⟨nofun,.nil⟩
  | cons removes _ ih =>
    obtain ⟨s,slot,assigns⟩ := removes.assigns
    simp only [List.forall_mem_cons, slot, Option.isSome_some, true_and,
      List.filterMap_cons_some slot]
    exact ⟨ih.1,.cons assigns ih.2⟩

theorem places_assigns {images : List Json} {writes : List Write}
    (sent : List.Forall₂ (Places core layout ctx) images writes) :
    (∀ image ∈ images, (layout.slot core (landed core layout image)).isSome) ∧
      List.Forall₂ (layout.Assigns core) writes
        (Keyed.writes (layout.slot core) (images.map (landed core layout))) := by
  induction sent with
  | nil => exact ⟨nofun,.nil⟩
  | cons places _ ih =>
    obtain ⟨s,slot,assigns⟩ := places.assigns
    simp only [List.forall_mem_cons, slot, Option.isSome_some, true_and, List.map_cons,
      Keyed.writes, List.filterMap_cons, Option.map_some]
    exact ⟨ih.1,.cons assigns ih.2⟩

end Loops

section Chunks

variable {core : Core} {layout : Layout}

theorem Describes.mode {db : Database} {mode : String} {ctx : ChunkContext}
    (describes : layout.Describes core db mode)
    (found : db.openChunk core layout.schema layout.name = some ctx) :
    ∃ lag, core.modeFromCatalog mode false lag = .ok ctx.mode := by
  obtain ⟨row,opened⟩ := openChunk_some core found
  obtain ⟨row',found',_,rowMode,keepHeap,_⟩ := describes.row
  obtain rfl : row = row' := by
    have same := opened.found.symm.trans found'
    simpa using same
  have read := opened.mode
  rw [TableSchema.modeOf, opened.ts] at read
  simp only [Registration.withColumns, rowMode, keepHeap] at read
  exact ⟨_,read⟩

/-- The context read under a mode that sends cold rows to `sink`. -/
theorem Describes.fits {db : Database} {mode : String} {ctx : ChunkContext} {sink : ColdSink}
    (describes : layout.Describes core db mode)
    (splits : ∀ lag m, core.modeFromCatalog mode false lag = .ok m → m.Splits sink)
    (found : db.openChunk core layout.schema layout.name = some ctx) : layout.Fits ctx sink := by
  obtain ⟨row,opened⟩ := openChunk_some core found
  obtain ⟨row',found',tableId,_,_,pkCols,tierKeyCol,lakeRef,keyType⟩ := describes.row
  obtain rfl : row = row' := by
    have same := opened.found.symm.trans found'
    simpa using same
  obtain ⟨_,schemaName,tableName⟩ := findTable_some found'
  obtain ⟨rel,present,columns,_⟩ := describes.shaped.relation
  have attributes : db.attributes layout.schema layout.name = layout.columns := by
    simp [Database.attributes, present, columns]
  have ts := opened.ts
  rw [attributes] at ts
  have typed : ctx.ts.tierKeyType = layout.tierKeyType :=
    Except.ok.inj (opened.keyType.symm.trans keyType)
  have id : ctx.ts.tableId = layout.tableId := by rw [ts]; exact tableId
  refine ⟨id,by rw [ts]; exact schemaName,by rw [ts]; exact tableName,by rw [ts]; rfl,
    by rw [ts]; exact pkCols,by rw [ts]; exact tierKeyCol,typed,?_,?_,?_⟩
  · rw [opened.cutline, id]
    exact describes.cutline
  · obtain ⟨lag,read⟩ := describes.mode found
    exact splits lag _ read
  · obtain ⟨catalog,_,made,_⟩ := opened.target
    obtain ⟨m,_,target⟩ := Effect.except_bind_ok.mp made
    rw [← Except.ok.inj target, ts]
    exact ⟨rfl,pkCols,tierKeyCol,typed,congrArg some lakeRef⟩

theorem Describes.same {db next : Database} {mode : String}
    (describes : layout.Describes core db mode) (same : SameCatalog db next) :
    layout.Describes core next mode where
  row := by simpa only [Database.findTable, same.tables] using describes.row
  cutline := by rw [same.cutline]; exact describes.cutline
  shaped := describes.shaped.same same

theorem Describes.tiered {db : Database} {ctx : ChunkContext}
    (describes : layout.Describes core db "tiered")
    (found : db.openChunk core layout.schema layout.name = some ctx) : layout.Fits ctx .delta :=
  describes.fits (fun lag m read => (core.tiered_splits lag m read).2) found

theorem planWriteRows_tiered {ctx : ChunkContext} {images : List Json}
    {lakeSql : List LakeStatement} {writes : List Write} (fits : layout.Fits ctx .delta)
    (keyed : ∀ image ∈ images, (layout.key core (landed core layout image)).isSome) :
    (planWriteRows core ctx images).Makes lakeSql writes ↔
      lakeSql = [] ∧ List.Forall₂ (Places core layout ctx) images writes := by
  rw [planWriteRows_makes]
  simp only [writeLoop_tiered fits keyed]
  constructor
  · rintro ⟨_,⟨rfl,sent⟩,none⟩
    exact ⟨by simpa using none,sent⟩
  · rintro ⟨rfl,sent⟩
    exact ⟨[],⟨rfl,sent⟩,by simp⟩

theorem planDeleteRows_tiered {ctx : ChunkContext} {rows : List Json}
    {lakeSql : List LakeStatement} {writes : List Write} (fits : layout.Fits ctx .delta) :
    (planDeleteRows core ctx rows).Makes lakeSql writes ↔
      lakeSql = [] ∧ List.Forall₂ (Removes core layout ctx) rows writes := by
  obtain ⟨pkColumns,pk,_⟩ := fits.pkColumns
  rw [planDeleteRows_makes]
  simp only [deleteLoop_tiered fits]
  constructor
  · rintro ⟨_,_,_,⟨rfl,sent⟩,none⟩
    exact ⟨by simpa using none,sent⟩
  · rintro ⟨rfl,sent⟩
    exact ⟨pkColumns,[],pk,⟨rfl,sent⟩,by simp⟩

theorem planChunk_tiered {ctx : ChunkContext} {kind : ChunkKind} {rowsJson : JsonText}
    {removed written : List Json} {outcome : ChunkOutcome} {writes : List Write}
    (fits : layout.Fits ctx .delta) (rows : chunkRows kind rowsJson = .ok (removed,written))
    (keyed : ∀ image ∈ written, (layout.key core (landed core layout image)).isSome) :
    (planChunk core ctx kind rowsJson).Makes outcome writes ↔
      outcome = ⟨rowCount rowsJson,ctx.attachSql,[]⟩ ∧ ∃ front back,
        List.Forall₂ (Removes core layout ctx) removed front ∧
        List.Forall₂ (Places core layout ctx) written back ∧ writes = front ++ back := by
  obtain ⟨pkColumns,pk,_⟩ := fits.pkColumns
  simp only [planChunk_makes pk rows, planDeleteRows_tiered fits, planWriteRows_tiered fits keyed]
  constructor
  · rintro ⟨_,front,_,back,⟨rfl,removes⟩,⟨rfl,places⟩,rfl,rfl⟩
    exact ⟨rfl,front,back,removes,places,rfl⟩
  · rintro ⟨rfl,front,back,removes,places,rfl⟩
    exact ⟨[],front,[],back,⟨rfl,removes⟩,⟨rfl,places⟩,rfl,rfl⟩

/-- The assignments of a chunk: its removals, then its writes. -/
def chunkSteps (core : Core) (layout : Layout) (removed written : List Json) :
    List (Slot × Option Fields) :=
  Keyed.erasures (removed.filterMap (layout.slotOf core)) ++
    Keyed.writes (layout.slot core) (written.map (landed core layout))

theorem chunkSteps_addressed (removed written : List Json) :
    Keyed.Addressed (layout.slot core) (chunkSteps core layout removed written) :=
  (Keyed.erasures_addressed _).append (Keyed.writes_addressed _)

theorem chunkSteps_assigns {ctx : ChunkContext} {removed written : List Json}
    {front back : List Write} (removes : List.Forall₂ (Removes core layout ctx) removed front)
    (places : List.Forall₂ (Places core layout ctx) written back) :
    List.Forall₂ (layout.Assigns core) (front ++ back) (chunkSteps core layout removed written) :=
  List.rel_append (removes_assigns removes).2 (places_assigns places).2

/-- The plan of a chunk, taken by the connection, is its removals and then its writes, as
assignments of the merged read; it leaves no lake statement to run. -/
theorem chunk_took {kind : ChunkKind} {rowsJson : JsonText} {removed written : List Json}
    {c d : Conn} {ctx : ChunkContext} {outcome : ChunkOutcome} {writes : List Write}
    (describes : layout.Describes core c.db "tiered") (sound : layout.Sound core c.db)
    (rows : chunkRows kind rowsJson = .ok (removed,written))
    (keyed : ∀ image ∈ written, (layout.key core (landed core layout image)).isSome)
    (found : c.db.openChunk core layout.schema layout.name = some ctx)
    (made : (planChunk core ctx kind rowsJson).Makes outcome writes) (took : Took core writes c d)
    (lake : Lake) :
    outcome.lakeSql = [] ∧ layout.Describes core d.db "tiered" ∧ layout.Sound core d.db ∧
      (∀ row ∈ removed, (layout.slotOf core row).isSome) ∧
      (∀ image ∈ written, (layout.slot core (landed core layout image)).isSome) ∧
      (layout.merged core d.db lake).Perm (Keyed.assignAll (layout.slot core)
        (chunkSteps core layout removed written) (layout.merged core c.db lake)) := by
  obtain ⟨rfl,front,back,removes,places,rfl⟩ :=
    (planChunk_tiered (describes.tiered found) rows keyed).mp made
  obtain ⟨sound',moved⟩ := runAll_assigns (chunkSteps_assigns removes places) describes.shaped
    sound took.ran lake
  exact ⟨rfl,describes.same took.catalog,sound',(removes_assigns removes).1,
    (places_assigns places).1,moved⟩

theorem chunk_merged {kind : ChunkKind} {rowsJson : JsonText} {removed written : List Json}
    {c d : Conn} {outcome : ChunkOutcome} (describes : layout.Describes core c.db "tiered")
    (sound : layout.Sound core c.db) (rows : chunkRows kind rowsJson = .ok (removed,written))
    (keyed : ∀ image ∈ written, (layout.key core (landed core layout image)).isSome)
    (returned : chunkFunction core kind layout.schema layout.name rowsJson c = .ok outcome d)
    (lake : Lake) :
    outcome.lakeSql = [] ∧ layout.Describes core d.db "tiered" ∧ layout.Sound core d.db ∧
      (∀ row ∈ removed, (layout.slotOf core row).isSome) ∧
      (∀ image ∈ written, (layout.slot core (landed core layout image)).isSome) ∧
      (layout.merged core d.db lake).Perm (Keyed.assignAll (layout.slot core)
        (chunkSteps core layout removed written) (layout.merged core c.db lake)) := by
  obtain ⟨ctx,writes,found,made,took⟩ := chunkFunction_ok returned
  exact chunk_took describes sound rows keyed found made took lake

end Chunks

end TierDb.Layout
