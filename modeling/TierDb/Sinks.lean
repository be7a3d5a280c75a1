import TierDb.Relational

/-! The two cold sinks. A tiered table keeps its cold rows as a delta over the lake, a
direct table in the lake itself; a chunk on either leaves the same heap and cold rows. -/
namespace TierDb.Layout

section Routed

/-- A row with the tier key and the key it is routed by. -/
structure Routed where
  tierKey : Int
  key : List String
  row : Json

variable {core : Core} {layout : Layout} {ctx : ChunkContext} {sink : ColdSink}

structure Routes (core : Core) (layout : Layout) (ctx : ChunkContext) (source : Json)
    (r : Routed) : Prop where
  same : r.row = source
  tier : layout.tierOf core source = some r.tierKey
  keyed : layout.keyOf core source = some r.key
  retained : retained core layout ctx r.tierKey

def removalOf (core : Core) (layout : Layout) (sink : ColdSink) (pkColumns : List Column)
    (r : Routed) : Option (List Json) × List Write :=
  removal core layout sink pkColumns r.tierKey r.key r.row

def placementOf (core : Core) (layout : Layout) (sink : ColdSink) (columns : List Column)
    (r : Routed) : Option (List Json) × List Write :=
  placement core layout sink columns r.tierKey r.key r.row

/-- A loop whose rows come to `out` of what they are routed as. -/
theorem planLoop_routes {planRow : Json → Plan (Option (List Json))}
    {Route : Json → Routed → Prop} {out : Routed → Option (List Json) × List Write}
    {rows : List Json} {tuples : List (List Json)} {writes : List Write}
    (each : ∀ row ∈ rows, ∀ tuple writes, (planRow row).Makes tuple writes ↔
      ∃ r, Route row r ∧ (tuple,writes) = out r) :
    (planLoop planRow rows).Makes tuples writes ↔ ∃ rs, List.Forall₂ Route rows rs ∧
      tuples = rs.flatMap (fun r => (out r).1.toList) ∧
      writes = rs.flatMap fun r => (out r).2 := by
  induction rows generalizing tuples writes with
  | nil => simp [planLoop]
  | cons row rest ih =>
    have first := each row List.mem_cons_self
    have later : ∀ tuples writes, (planLoop planRow rest).Makes tuples writes ↔ _ := fun _ _ =>
      ih fun r member => each r (List.mem_cons_of_mem _ member)
    rw [planLoop_cons]
    constructor
    · rintro ⟨tuple,front,tuples',back,made,loop,rfl,rfl⟩
      obtain ⟨r,route,same⟩ := (first tuple front).mp made
      obtain ⟨rs,routes,rfl,rfl⟩ := (later tuples' back).mp loop
      refine ⟨r :: rs,.cons route routes,?_⟩
      simp [← same]
    · rintro ⟨_,all,rfl,rfl⟩
      cases all with
      | @cons _ r _ rs route routes =>
        exact ⟨(out r).1,(out r).2,_,_,(first _ _).mpr ⟨r,route,rfl⟩,
          (later _ _).mpr ⟨rs,routes,rfl,rfl⟩,by simp,by simp⟩

theorem deleteLoop_routes {pkColumns : List Column} {rows : List Json}
    {tuples : List (List Json)} {writes : List Write} (fits : layout.Fits ctx sink) :
    (planLoop (planDeleteRow core ctx pkColumns) rows).Makes tuples writes ↔
      ∃ rs, List.Forall₂ (Routes core layout ctx) rows rs ∧
        tuples = rs.flatMap (fun r => (removalOf core layout sink pkColumns r).1.toList) ∧
        writes = rs.flatMap fun r => (removalOf core layout sink pkColumns r).2 := by
  apply planLoop_routes
  intro row _ tuple writes
  rw [planDeleteRow_fits fits]
  constructor
  · rintro ⟨t,k,tier,keyed,kept,made⟩
    exact ⟨⟨t,k,row⟩,⟨rfl,tier,keyed,kept⟩,made⟩
  · rintro ⟨r,⟨rfl,tier,keyed,kept⟩,made⟩
    exact ⟨r.tierKey,r.key,tier,keyed,kept,made⟩

theorem writeLoop_routes {images : List Json} {tuples : List (List Json)} {writes : List Write}
    (fits : layout.Fits ctx sink)
    (keyed : ∀ image ∈ images, (layout.key core (landed core layout image)).isSome) :
    (planLoop (planWriteRow core ctx) images).Makes tuples writes ↔
      ∃ rs, List.Forall₂ (fun image => Routes core layout ctx (normalized core layout image))
          images rs ∧
        tuples = rs.flatMap
          (fun r => (placementOf core layout sink ctx.target.columns r).1.toList) ∧
        writes = rs.flatMap fun r => (placementOf core layout sink ctx.target.columns r).2 := by
  apply planLoop_routes
  intro image member tuple writes
  obtain ⟨k,found⟩ := Option.isSome_iff_exists.mp (keyed image member)
  rw [key_landed] at found
  rw [planWriteRow_fits fits found]
  constructor
  · rintro ⟨t,tier,kept,made⟩
    exact ⟨⟨t,k,_⟩,⟨rfl,tier,found,kept⟩,made⟩
  · rintro ⟨⟨t,j,row⟩,⟨rfl,tier,found',kept⟩,made⟩
    obtain rfl : j = k := Option.some.inj (found'.symm.trans found)
    exact ⟨t,tier,kept,made⟩

/-- The rows below the cut-line. -/
def colds (layout : Layout) (rs : List Routed) : List Routed :=
  rs.filter fun r => layout.sideOf r.tierKey = .cold

theorem colds_hot {r : Routed} (side : layout.sideOf r.tierKey = .hot) : layout.colds [r] = [] := by
  simp [colds, side]

theorem colds_cold {r : Routed} (side : layout.sideOf r.tierKey = .cold) :
    layout.colds [r] = [r] := by
  simp [colds, side]

theorem removal_tuples (pkColumns : List Column) (rs : List Routed) :
    rs.flatMap (fun r => (removalOf core layout .lake pkColumns r).1.toList) =
      (layout.colds rs).map fun r => core.lakeRowTuple r.row pkColumns := by
  induction rs with
  | nil => rfl
  | cons r rest ih =>
    cases side : layout.sideOf r.tierKey <;>
      simp [colds, removalOf, removal, side] at ih ⊢ <;> exact ih

theorem placement_tuples (columns : List Column) (rs : List Routed) :
    rs.flatMap (fun r => (placementOf core layout .lake columns r).1.toList) =
      (layout.colds rs).map fun r => core.lakeRowTuple r.row columns := by
  induction rs with
  | nil => rfl
  | cons r rest ih =>
    cases side : layout.sideOf r.tierKey <;>
      simp [colds, placementOf, placement, side] at ih ⊢ <;> exact ih

end Routed

section Twins

/-- The same table under another name, id and lake relation. -/
def renamed (layout : Layout) (schema name : String) (tableId : Int) (lakeRef : String) : Layout :=
  { layout with schema := schema, name := name, tableId := tableId, lakeRef := lakeRef }

variable {core : Core} {layout : Layout} {schema name : String} {tableId : Int} {lakeRef : String}

/-- The heaps of the two tables hold the same rows. -/
structure Alike (core : Core) (layout other : Layout) (a b : Database) : Prop where
  tiered : layout.Shaped a
  direct : other.Shaped b
  rows : layout.heapRows a = other.heapRows b
  sound : layout.Sound core a

/-- Statements of the tiered table beside those of the direct one: on alike heaps both run
or neither does, the heaps stay alike, and the tiered ones assign `steps` to the cold rows. -/
structure Twin (core : Core) (layout other : Layout) (ws ws' : List Write)
    (steps : List (List String × Option Fields)) : Prop where
  runs : ∀ a b, Alike core layout other a b →
    ((∃ next, runAll core ws a = .ok next) ↔ ∃ next, runAll core ws' b = .ok next)
  moves : ∀ a b a' b', Alike core layout other a b →
    runAll core ws a = .ok a' → runAll core ws' b = .ok b' →
    Alike core layout other a' b' ∧ ∀ lake, layout.coldRows core a' lake =
      Keyed.assignAll (layout.key core) steps (layout.coldRows core a lake)

/-- Statements on the two heaps that leave the delta and the same rows. -/
theorem Alike.heap {other : Layout} {w w' : Write} {a b a' b' : Database}
    (alike : Alike core layout other a b) (ran : w.run core a = .ok a')
    (ran' : w'.run core b = .ok b') (delta : a'.delta = a.delta)
    (rows : layout.heapRows a' = other.heapRows b') :
    Alike core layout other a' b' ∧
      ∀ lake, layout.coldRows core a' lake = layout.coldRows core a lake :=
  ⟨⟨alike.tiered.same (run_sameCatalog ran),alike.direct.same (run_sameCatalog ran'),rows,
    heap_sound alike.sound delta⟩,fun _ => heap_coldRows delta⟩

theorem Twin.nil (other : Layout) : Twin core layout other [] [] [] where
  runs a b _ := by simp [runAll]
  moves a b a' b' alike ran ran' := by
    cases ran
    cases ran'
    exact ⟨alike,fun _ => rfl⟩

theorem Twin.append {other : Layout} {front front' back back' : List Write}
    {steps later : List (List String × Option Fields)}
    (first : Twin core layout other front front' steps)
    (second : Twin core layout other back back' later) :
    Twin core layout other (front ++ back) (front' ++ back') (steps ++ later) where
  runs a b alike := by
    simp only [runAll_append_ok]
    constructor
    · rintro ⟨next,middle,half,rest⟩
      obtain ⟨middle',half'⟩ := (first.runs a b alike).mp ⟨middle,half⟩
      obtain ⟨next',rest'⟩ := (second.runs _ _ (first.moves a b _ _ alike half half').1).mp
        ⟨next,rest⟩
      exact ⟨next',middle',half',rest'⟩
    · rintro ⟨next',middle',half',rest'⟩
      obtain ⟨middle,half⟩ := (first.runs a b alike).mpr ⟨middle',half'⟩
      obtain ⟨next,rest⟩ := (second.runs _ _ (first.moves a b _ _ alike half half').1).mpr
        ⟨next',rest'⟩
      exact ⟨next,middle,half,rest⟩
  moves a b a' b' alike ran ran' := by
    obtain ⟨middle,half,rest⟩ := runAll_append_ok.mp ran
    obtain ⟨middle',half',rest'⟩ := runAll_append_ok.mp ran'
    obtain ⟨alike',cold⟩ := first.moves a b _ _ alike half half'
    obtain ⟨alike'',cold'⟩ := second.moves _ _ a' b' alike' rest rest'
    refine ⟨alike'',fun lake => ?_⟩
    rw [cold', cold, Keyed.assignAll_append]

theorem Twin.flatMap {other : Layout} {rs : List Routed} {front back : Routed → List Write}
    {steps : Routed → List (List String × Option Fields)}
    (each : ∀ r ∈ rs, Twin core layout other (front r) (back r) (steps r)) :
    Twin core layout other (rs.flatMap front) (rs.flatMap back) (rs.flatMap steps) := by
  induction rs with
  | nil => exact .nil other
  | cons r rest ih =>
    rw [List.forall_mem_cons] at each
    exact each.1.append (ih each.2)

variable {other : Layout}

/-- A hot removal. -/
theorem Twin.heapDelete (k : List String) :
    Twin core layout (layout.renamed schema name tableId lakeRef)
      [.heapDelete layout.schema layout.name layout.pkCols layout.floor k]
      [.heapDelete schema name layout.pkCols layout.floor k] [] where
  runs a b alike := by
    obtain ⟨rel,present,_⟩ := alike.tiered.relation
    obtain ⟨rel',present',_⟩ := alike.direct.relation
    have present' : b.heap schema name = some rel' := present'
    simp [runAll, Write.run, present, present', bind, Except.bind]
  moves a b a' b' alike ran ran' := by
    rw [runAll_singleton] at ran ran'
    have left := heapDelete_run alike.tiered ran
    have right : b'.delta = b.delta ∧ _ := heapDelete_run alike.direct ran'
    refine alike.heap ran ran' left.1 ?_
    rw [left.2, right.2, alike.rows]
    rfl

/-- A hot write. -/
theorem Twin.heapInsert {row : Json} {k : List String} (keyed : layout.keyOf core row = some k) :
    Twin core layout (layout.renamed schema name tableId lakeRef)
      [.heapInsert layout.schema layout.name row] [.heapInsert schema name row] [] where
  runs a b alike := by
    simp only [runAll_singleton]
    have right := heapInsert_runs alike.direct keyed
    rw [heapInsert_runs alike.tiered keyed, alike.rows]
    exact right.symm
  moves a b a' b' alike ran ran' := by
    rw [runAll_singleton] at ran ran'
    have left := heapInsert_run alike.tiered keyed ran
    have right := heapInsert_run alike.direct keyed ran'
    refine alike.heap ran ran' left.1 ?_
    rw [left.2, right.2, alike.rows]
    rfl

/-- A cold row: a delta statement on one side, nothing yet on the other. -/
theorem Twin.delta {entry : DeltaEntry} {row : Json} {k : List String}
    (own : entry.tableId = layout.tableId) (keyed : layout.keyOf core row = some k)
    (filed : entry.pk = core.encodePk k)
    (payload : entry.op = .upsert → layout.keyOf core entry.payload = some k ∧
      layout.tierOf core entry.payload = some entry.tierKey) :
    Twin core layout other [.delta entry] [] [(k,layout.overlayRow entry)] where
  runs a b _ := by simp [runAll, Write.run, bind, Except.bind]
  moves a b a' b' alike ran ran' := by
    rw [runAll_singleton] at ran
    cases ran'
    obtain ⟨heap,sound,cold⟩ := delta_coldRows own keyed filed payload alike.sound ran
    have rows : layout.heapRows a' = layout.heapRows a := by simp only [heapRows, heap]
    exact ⟨⟨alike.tiered.same (run_sameCatalog ran),alike.direct,rows.trans alike.rows,sound⟩,cold⟩

/-- The removal of a row on the two tables. -/
theorem Routes.removal_twin {ctx : ChunkContext} {source : Json} {r : Routed}
    {pkColumns pkColumns' : List Column} (routes : Routes core layout ctx source r) :
    Twin core layout (layout.renamed schema name tableId lakeRef)
      (removalOf core layout .delta pkColumns r).2
      (removalOf core (layout.renamed schema name tableId lakeRef) .lake pkColumns' r).2
      (Keyed.erasures ((layout.colds [r]).map Routed.key)) := by
  obtain ⟨rfl,tier,keyed,_⟩ := routes
  have side' : (layout.renamed schema name tableId lakeRef).sideOf r.tierKey =
    layout.sideOf r.tierKey := rfl
  unfold removalOf removal
  rw [side']
  cases side : layout.sideOf r.tierKey with
  | hot =>
    rw [colds_hot side]
    exact .heapDelete r.key
  | cold =>
    rw [colds_cold side]
    exact .delta rfl keyed rfl nofun

/-- The writing of a row on the two tables. -/
theorem Routes.placement_twin {ctx : ChunkContext} {source : Json} {r : Routed}
    {columns columns' : List Column} (routes : Routes core layout ctx source r) :
    Twin core layout (layout.renamed schema name tableId lakeRef)
      (placementOf core layout .delta columns r).2
      (placementOf core (layout.renamed schema name tableId lakeRef) .lake columns' r).2
      (Keyed.writes (layout.key core)
        ((layout.colds [r]).map fun r => project layout.names r.row)) := by
  obtain ⟨rfl,tier,keyed,_⟩ := routes
  have side' : (layout.renamed schema name tableId lakeRef).sideOf r.tierKey =
    layout.sideOf r.tierKey := rfl
  unfold placementOf placement
  rw [side']
  cases side : layout.sideOf r.tierKey with
  | hot =>
    rw [colds_hot side]
    exact .heapInsert keyed
  | cold =>
    have stored : layout.key core (project layout.names r.row) = some r.key :=
      (keyOf_project _).trans keyed
    have shown : layout.overlayRow ⟨layout.tableId,core.encodePk r.key,.upsert,r.tierKey,r.row⟩ =
        some (project layout.names r.row) := if_pos ⟨rfl,sideOf_cold side⟩
    have twin : Twin core layout (layout.renamed schema name tableId lakeRef)
        [.delta ⟨layout.tableId,core.encodePk r.key,.upsert,r.tierKey,r.row⟩] []
        [(r.key,layout.overlayRow ⟨layout.tableId,core.encodePk r.key,.upsert,r.tierKey,r.row⟩)] :=
      .delta rfl keyed rfl fun _ => ⟨keyed,tier⟩
    rw [shown] at twin
    simpa [colds_cold side, Keyed.writes, stored] using twin

end Twins

section Lake

variable {core : Core} {layout : Layout} {ctx : ChunkContext}

theorem lakeRow_tuple (row : Json) (columns : List Column) :
    lakeRow (columns.map Column.name) (core.lakeRowTuple row columns) =
      project (columns.map Column.name) row := by
  rw [lakeRow, core.lakeRowTuple_values]
  induction columns with
  | nil => rfl
  | cons column rest ih => simpa [project] using ih

theorem keyOf_pk (row : Json) :
    core.keyOf layout.pkCols (.object (project layout.pkCols row)) = layout.keyOf core row := by
  simp only [keyOf, SerdeJson.keyOf,
    core.fieldTexts_project layout.pkCols row layout.pkCols fun _ member => member]

/-- Under the cut-line, the rendered delete erases the keys of its tuples. -/
theorem lakeDelete_erases {rs : List Routed} {pkColumns : List Column} {cold : Cold}
    {statement : LakeStatement} {lake : Lake} (fits : layout.Fits ctx .lake)
    (names : pkColumns.map Column.name = layout.pkCols) (ref : cold.tableRef = layout.lakeRef)
    (keyed : ∀ r ∈ rs, layout.keyOf core r.row = some r.key)
    (rendered : core.lakeDelete ctx.target cold
      (rs.map fun r => core.lakeRowTuple r.row pkColumns) ctx.cutline = .ok statement)
    (below : ∀ row ∈ lake layout.lakeRef, layout.isCold core row = true) :
    statement.effect lake layout.lakeRef =
      Keyed.assignAll (layout.key core) (Keyed.erasures (rs.map Routed.key))
        (lake layout.lakeRef) := by
  obtain ⟨_,pkCols,tierKeyCol,tierKeyType,_⟩ := fits.target
  rw [core.lakeDelete_effect _ _ _ _ _ rendered, Keyed.assignAll_erasures]
  simp only [ref, if_true]
  apply List.filter_congr
  intro row member
  have bound : core.underBound ctx.target ctx.cutline row = true := by
    rw [fits.cutline, SerdeJson.underBound, tierKeyCol, tierKeyType]
    exact below row member
  rw [bound, Bool.and_true, Bool.eq_iff_iff, Bool.not_eq_true', List.any_map,
    decide_eq_true_eq, List.any_eq_false]
  simp only [Function.comp_apply, pkCols, ← names, lakeRow_tuple]
  simp only [names, keyOf_pk, List.forall_mem_map]
  apply forall₂_congr
  intro r inside
  rw [keyed r inside, Option.any_some, hasKey_iff]

/-- The rendered upsert writes its rows. -/
theorem lakeUpsert_writes {rs : List Routed} {cold : Cold} {statements : List LakeStatement}
    {lake : Lake} (fits : layout.Fits ctx .lake) (ref : cold.tableRef = layout.lakeRef)
    (keyed : ∀ r ∈ rs, layout.keyOf core r.row = some r.key)
    (rendered : core.lakeUpsert ctx.target cold
      (rs.map fun r => core.lakeRowTuple r.row ctx.target.columns) = .ok statements)
    (unique : Keyed.Unique (layout.key core) (rs.map fun r => project layout.names r.row)) :
    (statements.foldl (fun l s => s.effect l) lake layout.lakeRef).Perm
      (Keyed.assignAll (layout.key core)
        (Keyed.writes (layout.key core) (rs.map fun r => project layout.names r.row))
        (lake layout.lakeRef)) := by
  obtain ⟨columns,pkCols,_⟩ := fits.target
  have names : ctx.target.columns.map Column.name = layout.names := by
    rw [columns, List.map_map, Layout.names]
    rfl
  have stored : ∀ row, lakeRow layout.names (core.lakeRowTuple row ctx.target.columns) =
      project layout.names row := fun row => by
    rw [← names]
    exact lakeRow_tuple row _
  have slotted : ∀ row ∈ rs.map fun r => project layout.names r.row,
      (layout.key core row).isSome := by
    rw [List.forall_mem_map]
    intro r member
    rw [key, keyOf_project, keyed r member]
    rfl
  refine .trans (.of_eq ?_) (Keyed.replace_perm _ slotted unique)
  rw [core.lakeUpsert_effect _ _ _ _ rendered]
  simp only [ref, if_true, List.map_map]
  congr 1
  · apply List.filter_congr
    intro row _
    rw [Bool.eq_iff_iff, Bool.not_eq_true', List.any_map, decide_eq_true_eq, List.any_eq_false]
    simp only [Function.comp_apply, names, stored, pkCols, List.forall_mem_map]
    apply forall₂_congr
    intro r inside
    have found : core.keyOf layout.pkCols (.object (project layout.names r.row)) = some r.key :=
      (keyOf_project _).trans (keyed r inside)
    rw [found, Option.any_some, hasKey_iff, key, key, keyOf, keyOf, found]
  · apply List.map_congr_left
    intro r _
    simp only [Function.comp_apply, names, stored]

end Lake

section Chunks

variable {core : Core} {layout : Layout} {ctx ctx' : ChunkContext} {sink : ColdSink}
  {schema name : String} {tableId : Int} {lakeRef : String}

theorem removal_writes (pkColumns : List Column) (r : Routed) :
    (removalOf core layout sink pkColumns r).2 = (removalOf core layout sink [] r).2 := by
  unfold removalOf removal
  cases layout.sideOf r.tierKey <;> cases sink <;> rfl

theorem placement_writes (columns : List Column) (r : Routed) :
    (placementOf core layout sink columns r).2 = (placementOf core layout sink [] r).2 := by
  unfold placementOf placement
  cases layout.sideOf r.tierKey <;> cases sink <;> rfl

/-- The statements of a chunk's routed rows. -/
def chunkWrites (core : Core) (layout : Layout) (sink : ColdSink) (rs rs' : List Routed) :
    List Write :=
  rs.flatMap (fun r => (removalOf core layout sink [] r).2) ++
    rs'.flatMap fun r => (placementOf core layout sink [] r).2

/-- The lake statement of the removed rows. -/
def DeletesLake (core : Core) (layout : Layout) (ctx : ChunkContext) (sink : ColdSink)
    (pkColumns : List Column) (rs : List Routed) (deletes : List LakeStatement) : Prop :=
  let tuples := rs.flatMap fun r => (removalOf core layout sink pkColumns r).1.toList
  if tuples = [] then deletes = [] else ∃ cold statement, liveCold ctx.target = .ok cold ∧
    core.lakeDelete ctx.target cold tuples ctx.cutline = .ok statement ∧ deletes = [statement]

/-- The lake statements of the written rows. -/
def UpsertsLake (core : Core) (layout : Layout) (ctx : ChunkContext) (sink : ColdSink)
    (rs : List Routed) (upserts : List LakeStatement) : Prop :=
  let tuples := rs.flatMap fun r =>
    (placementOf core layout sink ctx.target.columns r).1.toList
  if tuples = [] then upserts = [] else ∃ cold, liveCold ctx.target = .ok cold ∧
    core.lakeUpsert ctx.target cold tuples = .ok upserts

/-- A chunk by the routes of its rows, in either mode. -/
theorem planChunk_routes {kind : ChunkKind} {rowsJson : JsonText} {removed written : List Json}
    {pkColumns : List Column} {outcome : ChunkOutcome} {writes : List Write}
    (fits : layout.Fits ctx sink) (pk : pkColumnsOf ctx.target = .ok pkColumns)
    (rows : chunkRows kind rowsJson = .ok (removed,written))
    (keyed : ∀ image ∈ written, (layout.key core (landed core layout image)).isSome) :
    (planChunk core ctx kind rowsJson).Makes outcome writes ↔
      ∃ rs rs' deletes upserts, List.Forall₂ (Routes core layout ctx) removed rs ∧
        List.Forall₂ (fun image => Routes core layout ctx (normalized core layout image))
          written rs' ∧
        DeletesLake core layout ctx sink pkColumns rs deletes ∧
        UpsertsLake core layout ctx sink rs' upserts ∧
        outcome = ⟨rowCount rowsJson,ctx.attachSql,deletes ++ upserts⟩ ∧
        writes = chunkWrites core layout sink rs rs' := by
  simp only [planChunk_makes pk rows, planDeleteRows_makes, planWriteRows_makes,
    deleteLoop_routes fits, writeLoop_routes fits keyed]
  constructor
  · rintro ⟨deletes,front,upserts,back,⟨pkColumns',_,pk',⟨rs,routes,rfl,rfl⟩,lake⟩,
      ⟨_,⟨rs',routes',rfl,rfl⟩,lake'⟩,rfl,rfl⟩
    obtain rfl : pkColumns = pkColumns' := Except.ok.inj (pk.symm.trans pk')
    refine ⟨rs,rs',deletes,upserts,routes,routes',lake,lake',rfl,?_⟩
    simp only [chunkWrites, removal_writes pkColumns, placement_writes ctx.target.columns]
  · rintro ⟨rs,rs',deletes,upserts,routes,routes',lake,lake',rfl,rfl⟩
    refine ⟨deletes,_,upserts,_,⟨pkColumns,_,pk,⟨rs,routes,rfl,rfl⟩,lake⟩,
      ⟨_,⟨rs',routes',rfl,rfl⟩,lake'⟩,rfl,?_⟩
    simp only [chunkWrites, removal_writes pkColumns, placement_writes ctx.target.columns]

theorem deletesLake_delta (pkColumns : List Column) (rs : List Routed)
    (deletes : List LakeStatement) :
    DeletesLake core layout ctx .delta pkColumns rs deletes ↔ deletes = [] := by
  have none : rs.flatMap (fun r => (removalOf core layout .delta pkColumns r).1.toList) = [] := by
    simp only [List.flatMap_eq_nil_iff]
    intro r _
    unfold removalOf removal
    cases layout.sideOf r.tierKey <;> rfl
  simp [DeletesLake, none]

theorem upsertsLake_delta (rs : List Routed) (upserts : List LakeStatement) :
    UpsertsLake core layout ctx .delta rs upserts ↔ upserts = [] := by
  have none : rs.flatMap
      (fun r => (placementOf core layout .delta ctx.target.columns r).1.toList) = [] := by
    simp only [List.flatMap_eq_nil_iff]
    intro r _
    unfold placementOf placement
    cases layout.sideOf r.tierKey <;> rfl
  simp [UpsertsLake, none]

theorem Routes.renamed {source : Json} {r : Routed} (same : ctx.retention = ctx'.retention) :
    Routes core layout ctx source r ↔
      Routes core (layout.renamed schema name tableId lakeRef) ctx' source r := by
  constructor
  · rintro ⟨row,tier,keyed,kept⟩
    exact ⟨row,tier,keyed,fun side => same ▸ kept side⟩
  · rintro ⟨row,tier,keyed,kept⟩
    exact ⟨row,tier,keyed,fun side => same.symm ▸ kept side⟩

theorem colds_keyed {rows : List Json} {rs : List Routed}
    (routes : List.Forall₂ (Routes core layout ctx) rows rs) :
    ∀ r ∈ layout.colds rs, layout.keyOf core r.row = some r.key := by
  intro r member
  have known : r ∈ rs := (List.mem_filter.mp member).1
  clear member
  induction routes with
  | nil => cases known
  | cons first _ ih =>
    rcases List.mem_cons.mp known with rfl | later
    · rw [first.same]
      exact first.keyed
    · exact ih later

theorem flatMap_erasures (rs : List Routed) :
    rs.flatMap (fun r => (Keyed.erasures ((layout.colds [r]).map Routed.key) :
      List (List String × Option Fields))) =
      Keyed.erasures ((layout.colds rs).map Routed.key) := by
  induction rs with
  | nil => rfl
  | cons r rest ih =>
    rw [List.flatMap_cons, ih]
    by_cases cold : layout.sideOf r.tierKey = .cold <;> simp [colds, cold, Keyed.erasures]

theorem flatMap_writes (rs : List Routed) :
    rs.flatMap (fun r => Keyed.writes (layout.key core)
      ((layout.colds [r]).map fun r => project layout.names r.row)) =
      Keyed.writes (layout.key core)
        ((layout.colds rs).map fun r => project layout.names r.row) := by
  induction rs with
  | nil => rfl
  | cons r rest ih =>
    rw [List.flatMap_cons, ih, ← Keyed.writes_append, ← List.map_append]
    by_cases cold : layout.sideOf r.tierKey = .cold <;> simp [colds, cold]

theorem mem_routes {Route : Json → Routed → Prop} {rows : List Json} {rs : List Routed}
    (routes : List.Forall₂ Route rows rs) : ∀ r ∈ rs, ∃ row, Route row r := by
  induction routes with
  | nil => nofun
  | cons first _ ih => exact List.forall_mem_cons.mpr ⟨⟨_,first⟩,ih⟩

/-- The assignments of a chunk to the cold rows. -/
def coldSteps (core : Core) (layout : Layout) (rs rs' : List Routed) :
    List (List String × Option Fields) :=
  Keyed.erasures ((layout.colds rs).map Routed.key) ++
    Keyed.writes (layout.key core) ((layout.colds rs').map fun r => project layout.names r.row)

theorem chunk_twin {removed written : List Json} {rs rs' : List Routed}
    (routes : List.Forall₂ (Routes core layout ctx) removed rs)
    (routes' : List.Forall₂ (fun image => Routes core layout ctx (normalized core layout image))
      written rs') :
    Twin core layout (layout.renamed schema name tableId lakeRef)
      (chunkWrites core layout .delta rs rs')
      (chunkWrites core (layout.renamed schema name tableId lakeRef) .lake rs rs')
      (coldSteps core layout rs rs') := by
  rw [coldSteps, ← flatMap_erasures, ← flatMap_writes]
  refine .append (.flatMap fun r member => ?_) (.flatMap fun r member => ?_)
  · obtain ⟨_,route⟩ := mem_routes routes r member
    exact route.removal_twin
  · obtain ⟨_,route⟩ := mem_routes routes' r member
    exact route.placement_twin

end Chunks

section Agreement

/-- Every lake statement of a chunk can be rendered. -/
structure Renders (core : Core) : Prop where
  upsert : ∀ table cold rows, ∃ statements, core.lakeUpsert table cold rows = .ok statements
  delete : ∀ table cold keys below, ∃ statement,
    core.lakeDelete table cold keys below = .ok statement

variable {core : Core} {layout : Layout} {ctx : ChunkContext}

theorem Describes.direct {db : Database} (describes : layout.Describes core db "direct")
    (found : db.openChunk core layout.schema layout.name = some ctx) :
    layout.Fits ctx .lake ∧ ∃ cold, liveCold ctx.target = .ok cold ∧
      cold.tableRef = layout.lakeRef := by
  have fits : layout.Fits ctx .lake :=
    describes.fits (fun lag m read => (core.direct_splits lag m read).2) found
  refine ⟨fits,?_⟩
  obtain ⟨lag,read⟩ := describes.mode found
  have isDirect := (core.direct_splits lag _ read).1
  obtain ⟨row,opened⟩ := openChunk_some core found
  obtain ⟨catalog,resolved,made,_⟩ := opened.target
  simp only [Database.resolveCatalog, opened.mode, Except.toOption, isDirect,
    Option.bind_eq_bind, Option.bind_some, if_true, Option.bind_eq_some_iff] at resolved
  obtain ⟨_,_,live,_,same⟩ := resolved
  cases same
  obtain ⟨m,_,target⟩ := Effect.except_bind_ok.mp made
  have attached : ctx.target.catalog = some live := by rw [← Except.ok.inj target]
  exact ⟨⟨live.aliasName,layout.lakeRef⟩,by simp [liveCold, attached, fits.target.2.2.2.2],rfl⟩

theorem Fits.retention {db : Database} {sink : ColdSink}
    (fits : layout.Fits ctx sink)
    (found : db.openChunk core layout.schema layout.name = some ctx) :
    ctx.retention = (db.cutline layout.tableId).bind CutlineRow.retentionLine := by
  obtain ⟨row,opened⟩ := openChunk_some core found
  rw [opened.retention, fits.tableId]

theorem deletesLake_returns (renders : Renders core) {cold : Cold}
    (live : liveCold ctx.target = .ok cold) (pkColumns : List Column) (rs : List Routed) :
    ∃ deletes, DeletesLake core layout ctx .lake pkColumns rs deletes := by
  unfold DeletesLake
  by_cases none : rs.flatMap (fun r => (removalOf core layout .lake pkColumns r).1.toList) = []
  · exact ⟨[],by simp [none]⟩
  · obtain ⟨statement,rendered⟩ := renders.delete ctx.target cold
      (rs.flatMap fun r => (removalOf core layout .lake pkColumns r).1.toList) ctx.cutline
    exact ⟨[statement],by simp [none, live, rendered]⟩

theorem upsertsLake_returns (renders : Renders core) {cold : Cold}
    (live : liveCold ctx.target = .ok cold) (rs : List Routed) :
    ∃ upserts, UpsertsLake core layout ctx .lake rs upserts := by
  unfold UpsertsLake
  by_cases none : rs.flatMap
      (fun r => (placementOf core layout .lake ctx.target.columns r).1.toList) = []
  · exact ⟨[],by simp [none]⟩
  · obtain ⟨statements,rendered⟩ := renders.upsert ctx.target cold
      (rs.flatMap fun r => (placementOf core layout .lake ctx.target.columns r).1.toList)
    exact ⟨statements,by simp [none, live, rendered]⟩

/-- The lake statements of a direct chunk assign its cold steps to the lake. -/
theorem lake_steps {removed written : List Json} {rs rs' : List Routed}
    {pkColumns : List Column} {cold : Cold} {deletes upserts : List LakeStatement} {lake : Lake}
    (fits : layout.Fits ctx .lake) (names : pkColumns.map Column.name = layout.pkCols)
    (live : liveCold ctx.target = .ok cold) (ref : cold.tableRef = layout.lakeRef)
    (routes : List.Forall₂ (Routes core layout ctx) removed rs)
    (routes' : List.Forall₂ (fun image => Routes core layout ctx (normalized core layout image))
      written rs')
    (deleted : DeletesLake core layout ctx .lake pkColumns rs deletes)
    (upserted : UpsertsLake core layout ctx .lake rs' upserts)
    (newKeys : Keyed.Unique (layout.key core) (written.map (landed core layout)))
    (below : ∀ row ∈ lake layout.lakeRef, layout.isCold core row = true) :
    ((deletes ++ upserts).foldl (fun l s => s.effect l) lake layout.lakeRef).Perm
      (Keyed.assignAll (layout.key core) (coldSteps core layout rs rs') (lake layout.lakeRef)) := by
  have first : deletes.foldl (fun l s => s.effect l) lake layout.lakeRef =
      Keyed.assignAll (layout.key core) (Keyed.erasures ((layout.colds rs).map Routed.key))
        (lake layout.lakeRef) := by
    simp only [DeletesLake, removal_tuples, List.map_eq_nil_iff] at deleted
    split at deleted
    · rename_i none
      simp [deleted, none, Keyed.erasures]
    · obtain ⟨cold',statement,live',rendered,rfl⟩ := deleted
      obtain rfl : cold = cold' := Except.ok.inj (live.symm.trans live')
      exact lakeDelete_erases fits names ref (colds_keyed routes) rendered below
  have rows : rs'.map (fun r => project layout.names r.row) = written.map (landed core layout) := by
    clear upserted newKeys
    induction routes' with
    | nil => rfl
    | cons first _ ih => rw [List.map_cons, List.map_cons, ih, first.same, landed]
  have unique : Keyed.Unique (layout.key core)
      ((layout.colds rs').map fun r => project layout.names r.row) :=
    newKeys.sublist (rows ▸ (List.filter_sublist).map _)
  have keyed : ∀ r ∈ layout.colds rs', layout.keyOf core r.row = some r.key := by
    intro r member
    obtain ⟨_,route⟩ := mem_routes routes' r (List.mem_filter.mp member).1
    rw [route.same]
    exact route.keyed
  rw [List.foldl_append, coldSteps, Keyed.assignAll_append, ← first]
  simp only [UpsertsLake, placement_tuples, List.map_eq_nil_iff] at upserted
  split at upserted
  · rename_i none
    simp [upserted, none, Keyed.writes]
  · obtain ⟨cold',live',rendered⟩ := upserted
    obtain rfl : cold = cold' := Except.ok.inj (live.symm.trans live')
    exact lakeUpsert_writes fits ref keyed rendered unique

end Agreement

section Chunk

variable {core : Core} {layout : Layout} {ctx : ChunkContext} {sink : ColdSink}

/-- The rows of a chunk can be routed, and its statements run. -/
def Goes (core : Core) (layout : Layout) (ctx : ChunkContext) (sink : ColdSink) (db : Database)
    (removed written : List Json) (rs rs' : List Routed) : Prop :=
  List.Forall₂ (Routes core layout ctx) removed rs ∧
    List.Forall₂ (fun image => Routes core layout ctx (normalized core layout image))
      written rs' ∧ ∃ next, runAll core (chunkWrites core layout sink rs rs') db = .ok next

theorem chunk_goes {kind : ChunkKind} {rowsJson : JsonText} {removed written : List Json}
    {c d : Conn} {outcome : ChunkOutcome} (fits : layout.Fits ctx sink)
    (found : c.db.openChunk core layout.schema layout.name = some ctx)
    (rows : chunkRows kind rowsJson = .ok (removed,written))
    (keyed : ∀ image ∈ written, (layout.key core (landed core layout image)).isSome)
    (returned : chunkFunction core kind layout.schema layout.name rowsJson c = .ok outcome d) :
    ∃ rs rs', Goes core layout ctx sink c.db removed written rs rs' := by
  obtain ⟨pkColumns,pk,_⟩ := fits.pkColumns
  obtain ⟨writes,made,took⟩ := chunkFunction_opened found returned
  obtain ⟨rs,rs',_,_,routes,routes',_,_,_,rfl⟩ :=
    (planChunk_routes fits pk rows keyed).mp made
  exact ⟨rs,rs',routes,routes',_,took.ran⟩

theorem chunk_returns {kind : ChunkKind} {rowsJson : JsonText} {removed written : List Json}
    {rs rs' : List Routed} {deletes upserts : List LakeStatement} {pkColumns : List Column}
    {c : Conn} (fits : layout.Fits ctx sink) (quiet : c.Quiet)
    (found : c.db.openChunk core layout.schema layout.name = some ctx)
    (pk : pkColumnsOf ctx.target = .ok pkColumns)
    (rows : chunkRows kind rowsJson = .ok (removed,written))
    (keyed : ∀ image ∈ written, (layout.key core (landed core layout image)).isSome)
    (goes : Goes core layout ctx sink c.db removed written rs rs')
    (deleted : DeletesLake core layout ctx sink pkColumns rs deletes)
    (upserted : UpsertsLake core layout ctx sink rs' upserts) :
    ∃ d, chunkFunction core kind layout.schema layout.name rowsJson c =
        .ok ⟨rowCount rowsJson,ctx.attachSql,deletes ++ upserts⟩ d ∧
      runAll core (chunkWrites core layout sink rs rs') c.db = .ok d.db ∧
      SameCatalog c.db d.db := by
  obtain ⟨routes,routes',next,ran⟩ := goes
  have made := (planChunk_routes fits pk rows keyed).mpr
    ⟨rs,rs',deletes,upserts,routes,routes',deleted,upserted,rfl,rfl⟩
  obtain ⟨d,returned,took⟩ := chunkFunction_quiet quiet found made ran
  exact ⟨d,returned,took.ran,took.catalog⟩

/-- Two tables with the same rows and the same retention line go for the same routes. -/
theorem goes_renamed {schema name : String} {tableId : Int} {lakeRef : String}
    {ctx' : ChunkContext} {a b : Database} {removed written : List Json}
    (same : ctx.retention = ctx'.retention)
    (alike : Alike core layout (layout.renamed schema name tableId lakeRef) a b)
    (rs rs' : List Routed) :
    Goes core layout ctx .delta a removed written rs rs' ↔
      Goes core (layout.renamed schema name tableId lakeRef) ctx' .lake b removed written rs
        rs' := by
  have route : ∀ source r, Routes core layout ctx source r ↔
      Routes core (layout.renamed schema name tableId lakeRef) ctx' source r :=
    fun _ _ => Routes.renamed same
  constructor
  · rintro ⟨routes,routes',ran⟩
    exact ⟨routes.imp fun _ _ => (route _ _).mp,routes'.imp fun _ _ => (route _ _).mp,
      ((chunk_twin routes routes').runs _ _ alike).mp ran⟩
  · rintro ⟨routes,routes',ran⟩
    have back := routes.imp fun _ _ => (route _ _).mpr
    have back' := routes'.imp fun _ _ => (route _ _).mpr
    exact ⟨back,back',((chunk_twin back back').runs _ _ alike).mpr ran⟩

end Chunk

/-- A tiered table and a direct one with the same content: the same heap, cut-line and
retention line, and a direct lake that holds the tiered table's cold rows. -/
structure Agree (core : Core) (layout other : Layout) (a b : Database) (lake directLake : Lake) :
    Prop where
  tiered : layout.Describes core a "tiered"
  direct : other.Describes core b "direct"
  opens : (a.openChunk core layout.schema layout.name).isSome
  opensDirect : (b.openChunk core other.schema other.name).isSome
  sound : layout.Sound core a
  heap : layout.heapRows a = other.heapRows b
  retention : (a.cutline layout.tableId).bind CutlineRow.retentionLine =
    (b.cutline other.tableId).bind CutlineRow.retentionLine
  cold : (directLake other.lakeRef).Perm (layout.coldRows core a lake)

/-- What a statement run leaves alone keeps the agreement; rows and lake are compared anew. -/
theorem Agree.after {core : Core} {layout other : Layout} {a b c d : Database}
    {lake directLake after : Lake} (agree : Agree core layout other a b lake directLake)
    (catalog : SameCatalog a c) (catalog' : SameCatalog b d) (alike : Alike core layout other c d)
    (cold : (after other.lakeRef).Perm (layout.coldRows core c lake)) :
    Agree core layout other c d lake after := by
  refine ⟨agree.tiered.same catalog,agree.direct.same catalog',?_,?_,alike.sound,alike.rows,?_,cold⟩
  · rw [openChunk_same core catalog]
    exact agree.opens
  · rw [openChunk_same core catalog']
    exact agree.opensDirect
  · rw [catalog.cutline, catalog'.cutline]
    exact agree.retention

end TierDb.Layout

namespace TierDb

open Layout

/-- A chunk on a tiered and on a direct table of the same content either fails on both, or
returns on both and leaves them with the same content once its lake statements have run. -/
theorem sinks_agree {core : Core} (renders : Renders core) {layout : Layout}
    {schema name : String} {tableId : Int} {lakeRef : String} {kind : ChunkKind}
    {rowsJson : JsonText} {removed written : List Json} {c b : Conn} {lake directLake : Lake}
    (quiet : c.Quiet) (quietDirect : b.Quiet)
    (agree : Agree core layout (layout.renamed schema name tableId lakeRef) c.db b.db lake
      directLake)
    (rows : chunkRows kind rowsJson = .ok (removed,written))
    (keyed : ∀ image ∈ written, (layout.key core (landed core layout image)).isSome)
    (newKeys : Keyed.Unique (layout.key core) (written.map (landed core layout))) :
    ((∃ e d, chunkFunction core kind layout.schema layout.name rowsJson c = .error e d) ∧
      ∃ e d, chunkFunction core kind schema name rowsJson b = .error e d) ∨
    ∃ outcome d outcome' d',
      chunkFunction core kind layout.schema layout.name rowsJson c = .ok outcome d ∧
      chunkFunction core kind schema name rowsJson b = .ok outcome' d' ∧
      outcome.lakeSql = [] ∧ outcome.count = outcome'.count ∧
      ∃ side, executeLakeDml (outcome'.attachSql.getD "") outcome'.lakeSql ⟨directLake,[]⟩ =
          .ok () side ∧
        Agree core layout (layout.renamed schema name tableId lakeRef) d.db d'.db lake
          side.lake := by
  obtain ⟨ctx,found⟩ := Option.isSome_iff_exists.mp agree.opens
  obtain ⟨ctx',found'⟩ := Option.isSome_iff_exists.mp agree.opensDirect
  have fits := agree.tiered.tiered found
  obtain ⟨fits',cold,live,ref⟩ := agree.direct.direct found'
  have same : ctx.retention = ctx'.retention := by
    rw [fits.retention found, fits'.retention found', agree.retention]
  have alike : Alike core layout (layout.renamed schema name tableId lakeRef) c.db b.db :=
    ⟨agree.tiered.shaped,agree.direct.shaped,agree.heap,agree.sound⟩
  obtain ⟨pkColumns,pk,_⟩ := fits.pkColumns
  obtain ⟨pkColumns',pk',names⟩ := fits'.pkColumns
  have tieredReturns : ∀ rs rs', Goes core layout ctx .delta c.db removed written rs rs' →
      ∃ d, chunkFunction core kind layout.schema layout.name rowsJson c =
          .ok ⟨rowCount rowsJson,ctx.attachSql,[]⟩ d ∧
        runAll core (chunkWrites core layout .delta rs rs') c.db = .ok d.db ∧
        SameCatalog c.db d.db := fun rs rs' goes =>
    chunk_returns fits quiet found pk rows keyed goes ((deletesLake_delta _ _ _).mpr rfl)
      ((upsertsLake_delta _ _).mpr rfl)
  cases tieredRun : chunkFunction core kind layout.schema layout.name rowsJson c with
  | error e d =>
    refine .inl ⟨⟨e,d,rfl⟩,?_⟩
    cases directRun : chunkFunction core kind schema name rowsJson b with
    | error e' d' => exact ⟨e',d',rfl⟩
    | ok outcome' d' =>
      obtain ⟨rs,rs',goes⟩ := chunk_goes fits' found' rows keyed directRun
      obtain ⟨d,returned,_⟩ := tieredReturns rs rs' ((goes_renamed same alike rs rs').mpr goes)
      cases tieredRun.symm.trans returned
  | ok outcome d =>
    obtain ⟨rs,rs',goes⟩ := chunk_goes fits found rows keyed tieredRun
    have goes' := (goes_renamed same alike rs rs').mp goes
    obtain ⟨deletes,deleted⟩ := deletesLake_returns renders live pkColumns' rs
    obtain ⟨upserts,upserted⟩ := upsertsLake_returns renders live rs'
    obtain ⟨d₀,returned,ran,catalog⟩ := tieredReturns rs rs' goes
    cases tieredRun.symm.trans returned
    obtain ⟨d',returned',ran',catalog'⟩ := chunk_returns fits' quietDirect found' pk' rows keyed
      goes' deleted upserted
    obtain ⟨alike',cold'⟩ := (chunk_twin goes.1 goes.2.1).moves _ _ _ _ alike ran ran'
    refine .inr ⟨_,d,_,d',rfl,returned',rfl,rfl,_,executeLakeDml_succeeds _ _ _,?_⟩
    have below : ∀ row ∈ directLake lakeRef, layout.isCold core row = true := fun row member =>
      isCold_of_mem agree.sound (agree.cold.mem_iff.mp member)
    have lakeSteps := lake_steps fits' names live ref goes'.1 goes'.2.1 deleted upserted newKeys
      below
    apply agree.after catalog catalog' alike'
    rw [cold']
    exact lakeSteps.trans (Keyed.assignAll_perm agree.cold)

/-- The direct table with the content of `Reference.seam`. -/
def Reference.directSeam : Conn :=
  (system (database "direct" 100 [item 1 200 10,item 3 40 30])).conn

open Reference in
theorem exchange_sinks_agree : ∃ outcome d outcome' d' side,
    updateChunk core "public" "items" (pairs exchange) seam = .ok outcome d ∧
    updateChunk core "public" "items" (pairs exchange) directSeam = .ok outcome' d' ∧
    executeLakeDml (outcome'.attachSql.getD "") outcome'.lakeSql ⟨seamLake,[]⟩ = .ok () side ∧
    (items 100).heapRows d.db = (items 100).heapRows d'.db ∧
    (side.lake "lake.items").Perm ((items 100).coldRows core d.db seamLake) := by
  have renders : Renders core := ⟨fun _ _ _ => ⟨_,rfl⟩,fun _ _ _ _ => ⟨_,rfl⟩⟩
  have agree : Agree core (items 100) ((items 100).renamed "public" "items" 1 "lake.items")
      seam.db directSeam.db seamLake seamLake :=
    ⟨database_describes _ _ _,database_describes _ _ _,by decide +kernel,by decide +kernel,
      database_sound _ _ _,rfl,rfl,by decide +kernel⟩
  have newKeys : Keyed.Unique ((items 100).key core)
      ((exchange.map Prod.snd).map (landed core (items 100))) :=
    .of_nodup (by decide +kernel)
  have ran : Effect.returns (chunkFunction core .update "public" "items" (pairs exchange)
      seam) = true := by decide +kernel
  have rows : chunkRows .update (pairs exchange) =
    .ok (exchange.map Prod.fst,exchange.map Prod.snd) := rfl
  have quiet : seam.Quiet := .of_idle rfl rfl
  have quietDirect : directSeam.Quiet := .of_idle rfl rfl
  rcases sinks_agree renders quiet quietDirect agree rows (by decide +kernel) newKeys with
    ⟨⟨e,d,failed⟩,_⟩ | ⟨outcome,d,outcome',d',one,two,_,_,side,three,after⟩
  · have thrown := Effect.returns_not_iff.mpr ⟨e,d,failed⟩
    cases ran.symm.trans thrown
  · exact ⟨outcome,d,outcome',d',side,one,two,three,after.heap,after.cold⟩

end TierDb
