import TierDb.Direct
import TierDb.Images
import TierDb.Sinks
import TierDb.Stable

/-! NULL in a primary key. The heap refuses such a row, and the delta asks for the text of
every key column; a row for the lake becomes its tuple without either check. -/
namespace TierDb

/-- An insert stores no row but the projection of its image. -/
def InsertsOwn (core : Core) : Prop := ∀ rel image rows, core.heapInsert rel image = .ok rows →
  ∀ row ∈ rows, row ∈ rel.rows ∨ row = project (rel.columns.map Prod.fst) image

/-- A direct table that keeps its heap stores every row it is given somewhere. -/
def KeptHeapStores (core : Core) : Prop := ∀ lag mode,
  core.modeFromCatalog "direct" true lag = .ok mode → ∀ side,
    (mode.planInsert side).toHeap = true ∨ (mode.planInsert side).cold.isSome = true

namespace Layout

/-- Every primary-key column of the row has a value other than NULL. -/
def keyPresent (layout : Layout) (row : Json) : Bool :=
  layout.pkCols.all fun column => !((row.get column).getD .null).isNull

/-- The database registers the table, under either mode. -/
structure Catalogued (layout : Layout) (db : Database) : Prop where
  row : ∃ row, db.findTable layout.schema layout.name = .ok (some row) ∧
    row.tableId = layout.tableId ∧ row.primaryKeyCols = layout.pkCols ∧
    row.lakeTableRef = layout.lakeRef ∧
    (row.mode = "tiered" ∨ row.mode = "direct")
  shaped : layout.Shaped db

/-- No row of the table in heap or delta is without a key value. -/
structure Clean (layout : Layout) (db : Database) : Prop where
  catalogued : layout.Catalogued db
  heap : ∀ row ∈ layout.heapRows db, layout.keyPresent (.object row) = true
  delta : ∀ e ∈ layout.entries db, e.op = .upsert → layout.keyPresent e.payload = true

section Rows

variable {core : Core} {layout : Layout}

theorem keyPresent_iff {row : Json} : layout.keyPresent row = true ↔
    ∀ column ∈ layout.pkCols, ((row.get column).getD .null).isNull = false := by
  simp [keyPresent]

theorem keyPresent_project (row : Json) :
    layout.keyPresent (.object (project layout.names row)) = layout.keyPresent row := by
  rw [Bool.eq_iff_iff, keyPresent_iff, keyPresent_iff]
  refine forall₂_congr fun column member => ?_
  have known : column ∈ layout.names := layout.pk_columns column member
  simp [Json.get, lookup_project, known]

theorem keyPresent_of_keyOf {row : Json} {key : List String}
    (keyed : core.keyOf layout.pkCols row = some key) : layout.keyPresent row = true := by
  refine keyPresent_iff.mpr fun column member => ?_
  obtain ⟨text,found⟩ := Effect.mapM_each (toOption_some.mp keyed) column member
  unfold SerdeJson.fieldText at found
  split at found <;> simp_all [Json.isNull]

/-- The heap takes no image without a key value. -/
theorem keyPresent_of_accepted {columns : List (String × String)} {image : Json}
    (accepted : core.imageError columns layout.pkCols image = none) :
    layout.keyPresent image = true := by
  refine keyPresent_iff.mpr fun column member => ?_
  by_contra null
  exact core.imageError_null columns layout.pkCols image
    ⟨column,member,by simpa using null⟩ accepted

theorem normalized_null {json : SerdeJson} {columns : List (String × String)} {members : Fields}
    {name : String} (null : (valueOf members name).isNull = true) :
    (valueOf (columns.foldl (normalizeColumn json) members) name).isNull = true := by
  induction columns generalizing members with
  | nil => exact null
  | cons column rest ih =>
    have still : (valueOf (normalizeColumn json members column) name).isNull = true := by
      by_cases same : column.1 = name
      · subst same
        rw [normalizeColumn_same]
        cases value : valueOf members column.1 <;> simp_all [Json.isNull, reparsed]
      · rw [valueOf, normalizeColumn_other json members same]
        exact null
    rw [List.foldl_cons]
    exact ih still

/-- Normalizing gives no image a key value that it lacks. -/
theorem keyPresent_of_normalized {image : Json} {columns : List (String × String)}
    (present : layout.keyPresent (normalizeJsonColumns core.toSerdeJson image columns) = true) :
    layout.keyPresent image = true := by
  cases image with
  | object members =>
    refine keyPresent_iff.mpr fun column member => ?_
    by_contra null
    have lacking : (valueOf members column).isNull = true := eq_true_of_ne_false null
    have still : (valueOf (columns.foldl (normalizeColumn core.toSerdeJson) members)
        column).isNull = true := normalized_null lacking
    exact absurd (still.symm.trans (keyPresent_iff.mp present column member)) (by decide)
  | _ => exact present

/-- What heap, delta and lake all keep out, the merged read keeps out. -/
theorem Clean.merged {db : Database} {lake : Lake} (clean : layout.Clean db)
    (stored : ∀ row ∈ lake layout.lakeRef, layout.keyPresent (.object row) = true) :
    ∀ row ∈ layout.merged core db lake, layout.keyPresent (.object row) = true := by
  intro row member
  rcases List.mem_append.mp member with hot | cold
  · exact clean.heap row (List.mem_filter.mp hot).1
  · rcases List.mem_append.mp cold with base | overlay
    · exact stored row (List.mem_filter.mp base).1
    · obtain ⟨e,known,made⟩ := List.mem_filterMap.mp overlay
      unfold overlayRow at made
      split at made
      · rename_i upsert
        cases made
        rw [keyPresent_project]
        exact clean.delta e known upsert.1
      · cases made

end Rows

section Writes

variable {core : Core} {layout : Layout} {ctx : ChunkContext} {row : Registration}
  {stored db next : Database}

/-- A context of the table names its relation, its id and its key. -/
structure Speaks (layout : Layout) (ctx : ChunkContext) : Prop where
  tableId : ctx.ts.tableId = layout.tableId
  schemaName : ctx.ts.schemaName = layout.schema
  tableName : ctx.ts.tableName = layout.name
  pkCols : ctx.ts.primaryKeyCols = layout.pkCols
  columns : ctx.ts.columns = layout.columns

theorem Catalogued.speaks (catalogued : layout.Catalogued stored)
    (opened : Opened core stored layout.schema layout.name ctx row) : layout.Speaks ctx := by
  obtain ⟨row',found,id,pk,_⟩ := catalogued.row
  obtain rfl : row' = row := registered_unique found opened.found
  obtain ⟨_,schema,name⟩ := findTable_some found
  obtain ⟨rel,present,columns,_,_⟩ := catalogued.shaped.relation
  have attributes : stored.attributes layout.schema layout.name = layout.columns := by
    simp [Database.attributes, present, columns]
  have ts := opened.ts
  rw [attributes] at ts
  exact ⟨by rw [ts]; exact id,by rw [ts]; exact schema,by rw [ts]; exact name,by rw [ts]; exact pk,
    by rw [ts]; rfl⟩

theorem Catalogued.same (catalogued : layout.Catalogued db) (same : SameCatalog db next) :
    layout.Catalogued next := by
  obtain ⟨row,found,facts⟩ := catalogued.row
  exact ⟨⟨row,(findTable_congr same.tables _ _).trans found,facts⟩,catalogued.shaped.same same⟩

/-- What an insert that the heap took did. -/
theorem heapInsert_took {image : Json} (shaped : layout.Shaped db)
    (ran : (Write.heapInsert layout.schema layout.name image).run core db = .ok next) :
    ∃ rel kept, rel.columns = layout.columns ∧ layout.heapRows db = rel.rows ∧
      core.heapInsert rel image = .ok kept ∧
      core.imageError rel.columns layout.pkCols image = none ∧
      next = db.setRows layout.schema layout.name kept := by
  obtain ⟨rel,kept,columns,pk,rows,inserted,done⟩ := shaped.inserted ran
  refine ⟨rel,kept,columns,rows,inserted,?_,done⟩
  cases refused : core.imageError rel.columns layout.pkCols image with
  | none => rfl
  | some e =>
    rw [← pk] at refused
    simp [core.heapInsert_refused rel image e refused] at inserted

/-- A row the heap takes has its key values, and so have the rows it then holds. -/
theorem heapInsert_clean (inserts : InsertsOwn core) {image : Json} (clean : layout.Clean db)
    (ran : (Write.heapInsert layout.schema layout.name image).run core db = .ok next) :
    next.delta = db.delta ∧
      ∀ row ∈ layout.heapRows next, layout.keyPresent (.object row) = true := by
  obtain ⟨rel,kept,columns,rows,inserted,accepted,rfl⟩ :=
    heapInsert_took clean.catalogued.shaped ran
  refine ⟨rfl,fun row member => ?_⟩
  rw [heapRows_setRows clean.catalogued.shaped] at member
  rcases inserts rel image kept inserted row member with old | rfl
  · exact clean.heap row (rows ▸ old)
  · rw [columns]
    exact (keyPresent_project image).trans (keyPresent_of_accepted accepted)

/-- The writes of a chunk on the table keep it clean. -/
theorem Clean.write (inserts : InsertsOwn core) (clean : layout.Clean db)
    (speaks : layout.Speaks ctx) {w : Write} (owned : ctx.Owns core w)
    (ran : w.run core db = .ok next) : layout.Clean next := by
  have catalogued := clean.catalogued.same (run_sameCatalog ran)
  cases w with
  | heapInsert schema table image =>
    obtain ⟨rfl,rfl⟩ := owned
    rw [speaks.schemaName, speaks.tableName] at ran
    obtain ⟨delta,heap⟩ := heapInsert_clean inserts clean ran
    refine ⟨catalogued,heap,fun e member => clean.delta e ?_⟩
    rwa [entries, delta] at member
  | heapDelete schema table pkCols floor key =>
    obtain ⟨rfl,rfl⟩ := owned
    rw [speaks.schemaName, speaks.tableName] at ran
    obtain ⟨rel,rows,rfl⟩ := clean.catalogued.shaped.removed ran
    refine ⟨catalogued,fun row member => clean.heap row ?_,clean.delta⟩
    rw [heapRows_setRows clean.catalogued.shaped, core.heapDelete_rows] at member
    exact rows ▸ (List.mem_filter.mp member).1
  | delta entry =>
    simp only [Write.run, Except.ok.injEq] at ran
    subst ran
    refine ⟨catalogued,clean.heap,fun e member upsert => ?_⟩
    obtain ⟨stored,under⟩ := List.mem_filter.mp member
    rw [core.deltaWrite_entries] at stored
    rcases List.mem_append.mp stored with old | new
    · exact clean.delta e (List.mem_filter.mpr ⟨(List.mem_filter.mp old).1,under⟩) upsert
    · obtain rfl := List.mem_singleton.mp new
      obtain ⟨key,keyed⟩ := owned.2 upsert
      rw [speaks.pkCols] at keyed
      exact keyPresent_of_keyOf keyed

/-- A chunk call on the table, returned or not, keeps the stored databases clean. -/
theorem chunkFunction_clean (inserts : InsertsOwn core) (kind : ChunkKind) (rows : JsonText) :
    Effect.Keeps (Conn.Holds layout.Clean)
      (chunkFunction core kind layout.schema layout.name rows) :=
  chunkFunction_holds kind rows fun _ before _ _ opened _ owned _ _ ran clean =>
    clean.write inserts (before.catalogued.speaks opened) owned ran

end Writes

end Layout

section Planned

/-- The image becomes a tuple for the lake: it is below the cut-line of a direct table, and
not below the retention line. -/
def reachesLake (core : Core) (ctx : ChunkContext) (image : Json) : Bool :=
  (core.tierKeyOf ctx.ts.tierKeyCol ctx.ts.tierKeyType
    (normalizeJsonColumns core.toSerdeJson image ctx.ts.columns)).any fun tierKey =>
      let plan := ctx.mode.planInsert (routeRow core ctx.cutline tierKey)
      plan.cold = some .lake &&
        (checkRetention core ctx plan.cold plan.checkRetention tierKey).isOk

variable {core : Core} {ctx : ChunkContext}

/-- Every row of a loop was planned, and its writes are among those of the loop. -/
theorem planLoop_each {planRow : Json → Plan (Option (List Json))} {rows : List Json}
    {tuples : List (List Json)} {writes : List Write}
    (made : (planLoop planRow rows).Makes tuples writes) :
    ∀ row ∈ rows, ∃ tuple front, (planRow row).Makes tuple front ∧ front ⊆ writes := by
  induction rows generalizing tuples writes with
  | nil => simp
  | cons head rest ih =>
    obtain ⟨tuple,front,later,back,first,looped,_,rfl⟩ := Layout.planLoop_cons.mp made
    refine List.forall_mem_cons.mpr ⟨⟨tuple,front,first,List.subset_append_left _ _⟩,?_⟩
    intro row member
    obtain ⟨tuple',own,planned,within⟩ := ih looped row member
    exact ⟨tuple',own,planned,fun w inside =>
      List.mem_append_right _ (within inside)⟩

/-- Every tuple of a loop is that of a row. -/
theorem planLoop_tuples {planRow : Json → Plan (Option (List Json))} {rows : List Json}
    {tuples : List (List Json)} {writes : List Write}
    (made : (planLoop planRow rows).Makes tuples writes) :
    ∀ tuple ∈ tuples, ∃ row ∈ rows, ∃ front, (planRow row).Makes (some tuple) front := by
  induction rows generalizing tuples writes with
  | nil =>
    obtain ⟨rfl,_⟩ := Plan.pure_makes.mp made
    simp
  | cons head rest ih =>
    obtain ⟨tuple,front,later,back,first,looped,rfl,_⟩ := Layout.planLoop_cons.mp made
    intro value member
    rcases List.mem_append.mp member with own | other
    · obtain rfl : tuple = some value := by simpa using own
      exact ⟨head,List.mem_cons_self,front,first⟩
    · obtain ⟨row,inside,found⟩ := ih looped value other
      exact ⟨row,List.mem_cons_of_mem _ inside,found⟩

theorem reachesLake_of {image : Json} {tierKey : Int}
    (found : core.tierKey ctx.ts.tierKeyCol ctx.ts.tierKeyType
      (normalizeJsonColumns core.toSerdeJson image ctx.ts.columns) = .ok tierKey)
    (sink : (ctx.mode.planInsert (routeRow core ctx.cutline tierKey)).cold = some .lake)
    (kept : checkRetention core ctx (ctx.mode.planInsert (routeRow core ctx.cutline tierKey)).cold
      (ctx.mode.planInsert (routeRow core ctx.cutline tierKey)).checkRetention tierKey = .ok ()) :
    reachesLake core ctx image = true := by
  simp only [reachesLake, tierKeyOf_ok found, Option.any_some, kept, Bool.and_eq_true,
    decide_eq_true_eq]
  exact ⟨sink,rfl⟩

theorem planWriteRow_tuple {image : Json} {tuple : List Json} {writes : List Write}
    (made : (planWriteRow core ctx image).Makes (some tuple) writes) :
    reachesLake core ctx image = true ∧ tuple = core.lakeRowTuple
      (normalizeJsonColumns core.toSerdeJson image ctx.ts.columns) ctx.target.columns := by
  have sunk : writesToLake core ctx image = true := by
    by_contra spared
    exact absurd (planWriteRow_spared (by simpa using spared) made) (by simp)
  obtain ⟨tierKey,front,found,kept,cold,_⟩ := planWriteRow_makes.mp made
  have sink : (ctx.mode.planInsert (routeRow core ctx.cutline tierKey)).cold = some .lake := by
    simpa [writesToLake, tierKeyOf_ok found] using sunk
  refine ⟨reachesLake_of found sink kept,?_⟩
  rw [sink] at cold
  exact Option.some.inj (Plan.pure_makes.mp cold).1

/-- The upserts of a chunk store rows of its images that go to the lake, and no others. -/
theorem planWriteRows_adds {rows : List Json} {lakeSql : List LakeStatement}
    {writes : List Write} (made : (planWriteRows core ctx rows).Makes lakeSql writes) {lake : Lake}
    {ref : String} {row : Fields} (member : row ∈ lakeSql.foldl (fun l s => s.effect l) lake ref) :
    row ∈ lake ref ∨ ∃ image ∈ rows, reachesLake core ctx image = true ∧
      row = project (ctx.target.columns.map Column.name)
        (normalizeJsonColumns core.toSerdeJson image ctx.ts.columns) := by
  obtain ⟨tuples,loop,sent⟩ := planWriteRows_makes.mp made
  split at sent
  · subst sent
    exact .inl member
  · obtain ⟨cold,_,rendered⟩ := sent
    rw [core.lakeUpsert_effect _ _ _ _ rendered] at member
    dsimp only at member
    split at member
    · rcases List.mem_append.mp member with old | new
      · exact .inl (List.mem_filter.mp old).1
      · obtain ⟨tuple,inside,rfl⟩ := List.mem_map.mp new
        obtain ⟨image,known,_,planned⟩ := planLoop_tuples loop tuple inside
        obtain ⟨sunk,rfl⟩ := planWriteRow_tuple planned
        exact .inr ⟨image,known,sunk,Layout.lakeRow_tuple _ _⟩
    · exact .inl member

theorem planDeleteRows_adds {rows : List Json} {lakeSql : List LakeStatement}
    {writes : List Write} (made : (planDeleteRows core ctx rows).Makes lakeSql writes)
    {lake : Lake} {ref : String} {row : Fields}
    (member : row ∈ lakeSql.foldl (fun l s => s.effect l) lake ref) : row ∈ lake ref := by
  obtain ⟨pkColumns,tuples,_,_,sent⟩ := planDeleteRows_makes.mp made
  split at sent
  · subst sent
    exact member
  · obtain ⟨cold,statement,_,rendered,rfl⟩ := sent
    rw [List.foldl_cons, List.foldl_nil, core.lakeDelete_effect _ _ _ _ _ rendered] at member
    dsimp only at member
    split at member
    · exact (List.mem_filter.mp member).1
    · exact member

theorem planChunk_adds {kind : ChunkKind} {rowsJson : JsonText} {outcome : ChunkOutcome}
    {writes : List Write} (made : (planChunk core ctx kind rowsJson).Makes outcome writes)
    {lake : Lake} {ref : String} {row : Fields}
    (member : row ∈ outcome.lakeSql.foldl (fun l s => s.effect l) lake ref) :
    row ∈ lake ref ∨ ∃ removed written, chunkRows kind rowsJson = .ok (removed,written) ∧
      ∃ image ∈ written, reachesLake core ctx image = true ∧
        row = project (ctx.target.columns.map Column.name)
          (normalizeJsonColumns core.toSerdeJson image ctx.ts.columns) := by
  obtain ⟨removed,written,deletes,_,upserts,_,rows,gone,wrote,rfl,_⟩ := planChunk_parts made
  rw [List.foldl_append] at member
  rcases planWriteRows_adds wrote member with old | new
  · rcases gone with ⟨_,rfl,_⟩ | gone
    · exact .inl old
    · exact .inl (planDeleteRows_adds gone old)
  · exact .inr ⟨removed,written,rows,new⟩

/-- Every image a returned chunk writes was planned. -/
theorem planChunk_written {kind : ChunkKind} {rowsJson : JsonText} {outcome : ChunkOutcome}
    {writes : List Write} (made : (planChunk core ctx kind rowsJson).Makes outcome writes)
    {removed written : List Json} (rows : chunkRows kind rowsJson = .ok (removed,written)) :
    ∀ image ∈ written, ∃ tuple front, (planWriteRow core ctx image).Makes tuple front ∧
      front ⊆ writes := by
  obtain ⟨_,images,_,_,_,_,rows',_,wrote,_,rfl⟩ := planChunk_parts made
  obtain ⟨_,rfl⟩ := Prod.mk.inj (Except.ok.inj (rows.symm.trans rows'))
  obtain ⟨tuples,loop,_⟩ := planWriteRows_makes.mp wrote
  intro image member
  obtain ⟨tuple,own,planned,within⟩ := planLoop_each loop image member
  exact ⟨tuple,own,planned,fun w inside => List.mem_append_right _ (within inside)⟩

/-- Each of the writes ran, on a database of the same catalog. -/
theorem runAll_each {writes : List Write} {db next : Database}
    (ran : runAll core writes db = .ok next) :
    ∀ w ∈ writes, ∃ before after, SameCatalog db before ∧ w.run core before = .ok after := by
  induction writes generalizing db with
  | nil => simp
  | cons head rest ih =>
    obtain ⟨middle,first,later⟩ := runAll_cons.mp ran
    refine List.forall_mem_cons.mpr ⟨⟨db,middle,.refl _,first⟩,fun w member => ?_⟩
    obtain ⟨before,after,same,own⟩ := ih later w member
    exact ⟨before,after,(run_sameCatalog first).trans same,own⟩

end Planned

namespace Layout

/-- Some image of the chunk is without a key value, as it would be stored. -/
def offends (core : Core) (layout : Layout) (kind : ChunkKind) (rows : JsonText) : Bool :=
  match chunkRows kind rows with
  | .ok (_,written) => written.any fun image =>
      !layout.keyPresent (normalizeJsonColumns core.toSerdeJson image layout.columns)
  | .error _ => false

/-- No image without a key value reaches the lake. -/
def sparesNulls (core : Core) (layout : Layout) (sys : System) : Event → Bool
  | .chunk _ kind schema table rows _ _ =>
    match sys.conn.db.openChunk core schema table, chunkRows kind rows with
    | some ctx, .ok (_,written) => written.all fun image => !reachesLake core ctx image ||
        layout.keyPresent (normalizeJsonColumns core.toSerdeJson image layout.columns)
    | _, _ => true
  | _ => true

/-- The chunks of a run are on the table, and the lake takes their statements. -/
def OwnChunk (layout : Layout) : Event → Prop
  | .chunk _ _ schema table _ _ answers =>
    schema = layout.schema ∧ table = layout.name ∧ answers = []
  | _ => True

/-- What is stored of the table, in Postgres and in the lake, has its key values. -/
structure Unbroken (layout : Layout) (sys : System) : Prop where
  stored : sys.conn.Holds layout.Clean
  lake : ∀ row ∈ sys.lake layout.lakeRef, layout.keyPresent (.object row) = true

section Chunks

variable {core : Core} {layout : Layout} {ctx : ChunkContext} {row : Registration} {db : Database}

theorem offends_iff {kind : ChunkKind} {rows : JsonText} :
    layout.offends core kind rows = true ↔ ∃ removed written,
      chunkRows kind rows = .ok (removed,written) ∧ ∃ image ∈ written, layout.keyPresent
        (normalizeJsonColumns core.toSerdeJson image layout.columns) = false := by
  unfold offends
  cases read : chunkRows kind rows with
  | error e => simp
  | ok split =>
    obtain ⟨removed,written⟩ := split
    simp

/-- A chunk with an image that itself lacks a key value. -/
theorem offends_of_missing {kind : ChunkKind} {rows : JsonText} {removed written : List Json}
    (read : chunkRows kind rows = .ok (removed,written)) {image : Json} (member : image ∈ written)
    (missing : layout.keyPresent image = false) : layout.offends core kind rows = true := by
  refine offends_iff.mpr ⟨removed,written,read,image,member,?_⟩
  by_contra present
  have given := keyPresent_of_normalized (eq_true_of_ne_false present)
  exact absurd (given.symm.trans missing) (by decide)

theorem sparesNulls_chunk {sys : System} {t : Nat} {kind : ChunkKind} {schema table : String}
    {rows : JsonText} {verdicts answers : List (Option String)}
    (spared : layout.sparesNulls core sys (.chunk t kind schema table rows verdicts answers) = true)
    (opened : sys.conn.db.openChunk core schema table = some ctx) {removed written : List Json}
    (read : chunkRows kind rows = .ok (removed,written)) {image : Json} (member : image ∈ written)
    (sunk : reachesLake core ctx image = true) :
    layout.keyPresent (normalizeJsonColumns core.toSerdeJson image layout.columns) = true := by
  simp only [sparesNulls, opened, read, List.all_eq_true] at spared
  simpa [sunk] using spared image member

theorem Catalogued.target (catalogued : layout.Catalogued db)
    (opened : Opened core db layout.schema layout.name ctx row) :
    ctx.target.columns.map Column.name = layout.names := by
  obtain ⟨catalog,_,made,_⟩ := opened.target
  obtain ⟨mode,_,made⟩ := Effect.except_bind_ok.mp made
  rw [← Except.ok.inj made, names, ← (catalogued.speaks opened).columns]
  simp [Function.comp_def]

/-- Every row of a tiered or direct table has a sink. -/
theorem Catalogued.sunk (stores : KeptHeapStores core) (catalogued : layout.Catalogued db)
    (opened : Opened core db layout.schema layout.name ctx row) (side : RouteTarget) :
    (ctx.mode.planInsert side).toHeap = true ∨ (ctx.mode.planInsert side).cold = some .delta ∨
      (ctx.mode.planInsert side).cold = some .lake := by
  obtain ⟨row',found,_,_,_,mode⟩ := catalogued.row
  obtain rfl : row' = row := registered_unique found opened.found
  have moded : core.modeFromCatalog row'.mode row'.keepHeap row'.heapRetentionLag =
      .ok ctx.mode := by
    have read := opened.mode
    rw [opened.ts] at read
    exact read
  rcases mode with tiered | direct
  · rw [tiered] at moded
    exact ((core.tiered_places _ _ _ moded).insert side).imp id .inl
  · rw [direct] at moded
    cases keeps : row'.keepHeap with
    | false =>
      rw [keeps] at moded
      have splits := (core.direct_splits _ _ moded).2
      cases side with
      | hot => exact .inl splits.insertHot.1
      | cold => exact .inr (.inr (by rw [splits.insertCold]))
    | true =>
      rw [keeps] at moded
      refine (stores _ _ moded side).imp id fun some => ?_
      obtain ⟨sink,cold⟩ := Option.isSome_iff_exists.mp some
      cases sink with
      | delta => exact .inl cold
      | lake => exact .inr cold

/-- A chunk that returns and spares the lake has no image without a key value. -/
theorem returned_keyed (stores : KeptHeapStores core) {kind : ChunkKind} {rows : JsonText}
    {c d : Conn} {outcome : ChunkOutcome} (clean : layout.Clean c.db)
    (returned : chunkFunction core kind layout.schema layout.name rows c = .ok outcome d)
    (spared : ∀ ctx removed written, c.db.openChunk core layout.schema layout.name = some ctx →
      chunkRows kind rows = .ok (removed,written) → ∀ image ∈ written,
      reachesLake core ctx image = true →
      layout.keyPresent (normalizeJsonColumns core.toSerdeJson image layout.columns) = true) :
    layout.offends core kind rows = false := by
  by_contra offending
  obtain ⟨removed,written,read,image,member,missing⟩ :=
    offends_iff.mp (eq_true_of_ne_false offending)
  obtain ⟨ctx,writes,found,made,took⟩ := chunkFunction_ok returned
  obtain ⟨row,opened⟩ := openChunk_some core found
  have speaks := clean.catalogued.speaks opened
  obtain ⟨tuple,own,planned,within⟩ := planChunk_written made read image member
  obtain ⟨tierKey,front,typed,kept,cold,rfl⟩ := planWriteRow_makes.mp planned
  rw [speaks.columns] at typed cold within
  have present : layout.keyPresent
      (normalizeJsonColumns core.toSerdeJson image layout.columns) = true := by
    rcases clean.catalogued.sunk stores opened (routeRow core ctx.cutline tierKey) with
      heap | delta | lake
    · have sent : Write.heapInsert ctx.ts.schemaName ctx.ts.tableName
          (normalizeJsonColumns core.toSerdeJson image layout.columns) ∈ writes :=
        within (by simp [heap])
      obtain ⟨before,after,same,ran⟩ := runAll_each took.ran _ sent
      rw [speaks.schemaName, speaks.tableName] at ran
      obtain ⟨_,_,_,_,_,accepted,_⟩ := heapInsert_took (clean.catalogued.same same).shaped ran
      exact keyPresent_of_accepted accepted
    · rw [delta] at cold
      obtain ⟨key,keyed,_⟩ := Plan.lift_bind_makes.mp cold
      rw [speaks.pkCols] at keyed
      exact keyPresent_of_keyOf (toOption_some.mpr keyed)
    · refine spared ctx removed written found read image member ?_
      rw [← speaks.columns] at typed
      exact reachesLake_of typed lake kept
  exact absurd (present.symm.trans missing) (by decide)

end Chunks

section Runs

variable {core : Core} {layout : Layout} {sys next : System} {event : Event}

/-- A chunk that spares the lake stores no row there without a key value. -/
theorem sinkChunk_keyed {t : Nat} {kind : ChunkKind} {rows : JsonText}
    {verdicts : List (Option String)} (txn : TierDBTransaction) (unbroken : layout.Unbroken sys)
    (spared : layout.sparesNulls core sys
      (.chunk t kind layout.schema layout.name rows verdicts []) = true) :
    ∀ row ∈ (Effect.final (sinkChunk core kind layout.schema layout.name rows
      (sys.enter t txn verdicts []))).lakeSide.lake layout.lakeRef,
      layout.keyPresent (.object row) = true := by
  rw [sinkChunk_lake]
  cases begun : ensureWriteTxn (sys.enter t txn verdicts []) with
  | error e b => exact unbroken.lake
  | ok u b =>
    dsimp only
    cases ran : chunkFunction core kind layout.schema layout.name rows b.conn with
    | error e c => exact unbroken.lake
    | ok outcome c =>
      obtain ⟨ctx,writes,found,made,_⟩ := chunkFunction_ok ran
      have found : sys.conn.db.openChunk core layout.schema layout.name = some ctx :=
        (ensureWriteTxn_same begun).1 ▸ found
      obtain ⟨row,opened⟩ := openChunk_some core found
      have catalogued : layout.Catalogued sys.conn.db := unbroken.stored.view.catalogued
      have executed := executeLakeDml_succeeds (outcome.attachSql.getD "") outcome.lakeSql sys.lake
      have fresh : (sys.enter t txn verdicts []).lakeSide = ⟨sys.lake,[]⟩ := rfl
      dsimp only
      rw [fresh, executed]
      intro row member
      rcases planChunk_adds made member with old | ⟨removed,written,read,image,inside,sunk,rfl⟩
      · exact unbroken.lake row old
      · rw [catalogued.target opened, keyPresent_project, (catalogued.speaks opened).columns]
        exact sparesNulls_chunk spared found read inside sunk

/-- Only a chunk writes to the lake. -/
theorem step_lake (taken : step core sys event = some next)
    (other : ∀ t kind schema table rows verdicts answers,
      event ≠ .chunk t kind schema table rows verdicts answers) : next.lake = sys.lake := by
  have keep (txn : TierDBTransaction) (t : Nat) (verdicts : List (Option String)) :=
    lakeSide_boundary core (sys.enter t txn verdicts []).lakeSide
  cases event with
  | start t => obtain ⟨_,_,rfl⟩ := step_start taken; rfl
  | scan t ref verdicts =>
    obtain ⟨txn,_,_,rfl⟩ := step_scan taken
    rw [settleResult_lake, getPinnedScan_keeps (keep txn t verdicts).txn
      (keep txn t verdicts).scans ref (sys.enter t txn verdicts []) rfl]
    rfl
  | chunk t kind schema table rows verdicts answers =>
    exact absurd rfl (other t kind schema table rows verdicts answers)
  | commit t verdicts =>
    obtain ⟨txn,_,_,_,rfl,_,_⟩ := step_commit taken
    exact congrArg LakeSide.lake
      (commitTransaction_keeps (keep txn t verdicts) (sys.enter t txn verdicts []) rfl)
  | rollback t verdicts =>
    obtain ⟨txn,_,rfl⟩ := step_rollback taken
    exact congrArg LakeSide.lake
      (rollbackTransaction_keeps (keep txn t verdicts) (sys.enter t txn verdicts []) rfl)

/-- The pins are no part of what is kept clean. -/
theorem Clean.pins {db : Database} (clean : layout.Clean db) (pins : List Pin) :
    layout.Clean { db with pins := pins } :=
  ⟨⟨clean.catalogued.row,clean.catalogued.shaped⟩,clean.heap,clean.delta⟩

/-- One call keeps what is stored unbroken. -/
theorem step_unbroken (inserts : InsertsOwn core) (unbroken : layout.Unbroken sys)
    (own : layout.OwnChunk event) (spared : layout.sparesNulls core sys event = true)
    (taken : step core sys event = some next) : layout.Unbroken next where
  stored := by
    refine step_keeps (holds_callsKeep fun _ pins clean => clean.pins pins) ?_ unbroken.stored taken
    rintro t kind schema table rows verdicts answers rfl
    obtain ⟨rfl,rfl,_⟩ := own
    exact chunkFunction_clean inserts kind rows
  lake := by
    cases event with
    | chunk t kind schema table rows verdicts answers =>
      obtain ⟨rfl,rfl,rfl⟩ := own
      obtain ⟨txn,_,_,rfl⟩ := step_chunk taken
      rw [settleResult_lake]
      exact sinkChunk_keyed txn unbroken spared
    | _ =>
      rw [step_lake taken (by simp)]
      exact unbroken.lake

/-- A chunk with an image without a key value throws, unless one reaches the lake. -/
theorem Unbroken.refuses (stores : KeptHeapStores core) {t : Nat} {kind : ChunkKind} {rows : JsonText}
    {verdicts : List (Option String)} (txn : TierDBTransaction) (unbroken : layout.Unbroken sys)
    (spared : layout.sparesNulls core sys
      (.chunk t kind layout.schema layout.name rows verdicts []) = true)
    (offends : layout.offends core kind rows = true) :
    Effect.returns (sinkChunk core kind layout.schema layout.name rows
      (sys.enter t txn verdicts [])) = false := by
  by_contra returned
  obtain ⟨count,a,ran⟩ := Effect.returns_iff.mp (eq_true_of_ne_false returned)
  obtain ⟨b,outcome,c,side,begun,chunked,_⟩ := sinkChunk_returned ran
  have same : b.conn.db = sys.conn.db := (ensureWriteTxn_same begun).1
  have clean : layout.Clean b.conn.db := same ▸ unbroken.stored.view
  have none := returned_keyed stores clean chunked fun ctx removed written found read image member =>
    sparesNulls_chunk spared (same ▸ found) read member
  exact absurd (none.symm.trans offends) (by decide)

end Runs

/-- A chunk with an image without a key value throws. -/
def RefusesNulls (core : Core) (layout : Layout) (sys : System) : Event → Prop
  | .chunk t kind schema table rows verdicts answers =>
    layout.offends core kind rows = true → ∀ txn, sys.transactions t = some txn →
      Effect.returns (sinkChunk core kind schema table rows
        (sys.enter t txn verdicts answers)) = false
  | _ => True

/-- No run of these calls brings a row without a key value into the merged read, as it is
stored or as the open block reads it, and each chunk with such an image throws. -/
structure KeysKept (core : Core) (layout : Layout) (sys : System) (events : List Event)
    (next : System) : Prop where
  durable : ∀ row ∈ layout.merged core next.durable next.lake, layout.keyPresent (.object row) = true
  view : ∀ row ∈ layout.merged core next.conn.db next.lake, layout.keyPresent (.object row) = true
  refused : Runs.Meets (step core) (layout.RefusesNulls core) sys events

/-- Where no image without a key value reaches the lake, a run stores none anywhere, and each
chunk that has one throws. -/
theorem null_keys_kept_out {core : Core} {layout : Layout} {sys next : System}
    {events : List Event} (inserts : InsertsOwn core) (stores : KeptHeapStores core)
    (unbroken : layout.Unbroken sys) (own : ∀ event ∈ events, layout.OwnChunk event)
    (spared : Runs.Meets (step core) (fun s event => layout.sparesNulls core s event = true)
      sys events)
    (ran : Runs.run (step core) sys events = some next) : layout.KeysKept core sys events next := by
  have meets := spared.and_all own
  have preserved (s : System) (event : Event) (t : System) (before : layout.Unbroken s)
      (allowed : layout.OwnChunk event ∧ layout.sparesNulls core s event = true)
      (taken : step core s event = some t) : layout.Unbroken t :=
    step_unbroken inserts before allowed.1 allowed.2 taken
  have kept : layout.Unbroken next := Runs.run_invariant preserved unbroken meets ran
  refine ⟨kept.stored.1.merged kept.lake,kept.stored.view.merged kept.lake,?_⟩
  refine Runs.Meets.of_invariant preserved ?_ unbroken meets
  intro s event before allowed
  cases event with
  | chunk t kind schema table rows verdicts answers =>
    obtain ⟨⟨rfl,rfl,rfl⟩,spares⟩ := allowed
    exact fun offends txn _ => before.refuses stores txn spares offends
  | _ => trivial

end Layout

namespace Reference

theorem core_insertsOwn : InsertsOwn core := by
  intro rel image rows inserted row member
  change heapInsert rel image = .ok rows at inserted
  unfold heapInsert at inserted
  have stored : rows = rel.rows ++ [project (rel.columns.map Prod.fst) image] := by
    split at inserted
    · cases inserted
    · dsimp only at inserted
      split at inserted
      · exact (Except.ok.inj inserted).symm
      · split at inserted
        · cases inserted
        · exact (Except.ok.inj inserted).symm
  simpa [stored] using member

theorem core_keptHeapStores : KeptHeapStores core := by
  intro lag mode moded side
  obtain rfl := Except.ok.inj moded
  cases side <;> simp [splitMode]

theorem direct_clean (cut : Int) : (items cut).Clean (database "direct" cut []) where
  catalogued := ⟨⟨registration "direct",rfl,rfl,rfl,rfl,.inr rfl⟩,rfl⟩
  heap row member := by cases member
  delta e member := by cases member

theorem direct_unbroken (cut : Int) :
    (items cut).Unbroken (system (database "direct" cut [])) where
  stored := ⟨direct_clean cut,fun w inside => by cases inside⟩
  lake row member := by cases member

/-- A row whose `id` is NULL. -/
def unkeyed (ts : Int) : Json :=
  .object [("id",.null),("ts",.number (.int ts)),("v",.number (.int 7))]

/-- On a direct table cut at 100: a row for the heap, one for the lake, and a hot one without
a key. -/
def keyedInserts : List Event :=
  [.start 1,chunk 1 .insert [.object (item 1 150 7),.object (item 2 50 7)],
    chunk 1 .insert [unkeyed 150]]

end Reference

open Reference in
theorem keyed_inserts_kept : ∃ next,
    Runs.run (step core) (system (database "direct" 100 [])) keyedInserts = some next ∧
      (items 100).KeysKept core (system (database "direct" 100 [])) keyedInserts next := by
  have ends : (Runs.run (step core) (system (database "direct" 100 [])) keyedInserts).isSome := by
    decide +kernel
  obtain ⟨next,ran⟩ := Option.isSome_iff_exists.mp ends
  refine ⟨next,ran,Layout.null_keys_kept_out core_insertsOwn core_keptHeapStores
    (direct_unbroken 100) ?_ ?_ ran⟩
  · simp [keyedInserts, chunk, Layout.OwnChunk, items]
  · decide +kernel

open Reference in
/-- A cold row without a key goes to the lake of a direct table, and is read from there. -/
theorem unkeyed_reaches_merged :
    ¬∀ core (layout : Layout) sys next events, InsertsOwn core → KeptHeapStores core →
      layout.Unbroken sys → (∀ event ∈ events, layout.OwnChunk event) →
      Runs.run (step core) sys events = some next → layout.KeysKept core sys events next := by
  intro claim
  let sys := system (database "direct" 100 [])
  let events := [.start 1,chunk 1 .insert [unkeyed 50]]
  have reached : ((Runs.run (step core) sys events).map fun next =>
      ((items 100).merged core next.durable next.lake).all fun row =>
        (items 100).keyPresent (.object row)) = some false := by decide +kernel
  obtain ⟨next,ran,seen⟩ := Option.map_eq_some_iff.mp reached
  have own : ∀ event ∈ events, (items 100).OwnChunk event := by
    simp [events, chunk, Layout.OwnChunk, items]
  have kept := claim core (items 100) sys next events core_insertsOwn core_keptHeapStores
    (direct_unbroken 100) own ran
  simp [List.all_eq_true.mpr kept.durable] at seen

end TierDb
