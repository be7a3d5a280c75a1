import TierDb.Sinks

/-! The three stores after a chunk's routed rows: under either sink, removals and writes are
assignments of the heap, the delta and the lake. -/
namespace TierDb.Layout

section Steps

variable (core : Core) (layout : Layout) (sink : ColdSink)

/-- A delta entry by the table and the key it is filed under. -/
def filed (e : DeltaEntry) : Option (Int × String) := some (e.tableId,e.pk)

def tombstone (r : Routed) : DeltaEntry :=
  ⟨layout.tableId,core.encodePk r.key,.tombstone,r.tierKey,tombstonePayload r.row layout.pkCols⟩

def upsert (r : Routed) : DeltaEntry :=
  ⟨layout.tableId,core.encodePk r.key,.upsert,r.tierKey,r.row⟩

/-- What a removal takes from the heap. -/
def hotErasure (r : Routed) : List (Slot × Option Fields) :=
  if layout.sideOf r.tierKey = .hot then [((.hot,r.key),none)] else []

/-- What a write puts into the heap. -/
def hotWrite (r : Routed) : List (List String × Option Fields) :=
  if layout.sideOf r.tierKey = .hot then [(r.key,some (project layout.names r.row))] else []

/-- The entry of a row that goes to the delta, in the place of its key. -/
def entryStep (entry : Routed → DeltaEntry) (r : Routed) :
    List ((Int × String) × Option DeltaEntry) :=
  if layout.sideOf r.tierKey = .cold ∧ sink = .delta then
    [(((entry r).tableId,(entry r).pk),some (entry r))]
  else []

/-- What a removal takes from the lake. -/
def lakeErasure (r : Routed) : List (Slot × Option Fields) :=
  if layout.sideOf r.tierKey = .cold ∧ sink = .lake then [((.cold,r.key),none)] else []

/-- What a write puts into the lake. -/
def lakeWrite (r : Routed) : List (List String × Option Fields) :=
  if layout.sideOf r.tierKey = .cold ∧ sink = .lake then
    [(r.key,some (project layout.names r.row))]
  else []

/-- A hot image is one Postgres takes, and its key is free or replaced. -/
def Admits (db : Database) (r : Routed) : Prop := layout.sideOf r.tierKey = .hot →
  core.imageError layout.columns layout.pkCols r.row = none ∧ (core.replacesDuplicate = true ∨
    ∀ row ∈ layout.heapRows db, layout.key core row ≠ some r.key)

end Steps

section Rows

variable {core : Core} {layout : Layout} {sink : ColdSink} {db next : Database} {r : Routed}

theorem slot_hot_iff {row : Fields} {k : List String} :
    layout.slot core row = some (.hot,k) ↔
      core.hasKey layout.pkCols k row = true ∧ layout.isHot core row = true := by
  cases hot : layout.isHot core row with
  | true => simp [slot_hot hot, ← hasKey_iff]
  | false =>
    simp only [Bool.false_eq_true, and_false, iff_false]
    intro here
    obtain ⟨t,tier,side,_⟩ := slotOf_some.mp here
    simp [isHot, tier, sideOf_hot side] at hot

theorem slot_cold_iff {row : Fields} {k : List String} :
    layout.slot core row = some (.cold,k) ↔
      core.hasKey layout.pkCols k row = true ∧ layout.isCold core row = true := by
  cases cold : layout.isCold core row with
  | true => simp [slot_cold cold, ← hasKey_iff]
  | false =>
    simp only [Bool.false_eq_true, and_false, iff_false]
    intro here
    obtain ⟨t,tier,side,_⟩ := slotOf_some.mp here
    simp [isCold, tier, sideOf_cold side] at cold

theorem deltaWrite_assign (entry : DeltaEntry) (entries : List DeltaEntry) :
    core.deltaWrite entry entries =
      Keyed.assign filed (entry.tableId,entry.pk) (some entry) entries := by
  rw [core.deltaWrite_entries, Keyed.assign, Keyed.erase, Option.toList_some]
  congr 1
  apply List.filter_congr
  intro e _
  rw [Bool.eq_iff_iff]
  simp [filed]

theorem delta_ran {entry : DeltaEntry} :
    runAll core [.delta entry] db = .ok next ↔
      { db with delta := Keyed.assign filed (entry.tableId,entry.pk) (some entry) db.delta } =
        next := by
  rw [runAll_singleton, Write.run, deltaWrite_assign, Except.ok.injEq]

/-- The statement of one removed row. -/
theorem removal_ran (core : Core) (sink : ColdSink) (shaped : layout.Shaped db) (r : Routed) :
    ∃ next, runAll core (removalOf core layout sink [] r).2 db = .ok next ∧
      layout.heapRows next = Keyed.assignAll (layout.slot core) (layout.hotErasure r)
        (layout.heapRows db) ∧
      next.delta = Keyed.assignAll filed
        (layout.entryStep sink (tombstone core layout) r) db.delta := by
  cases side : layout.sideOf r.tierKey with
  | hot =>
    have sent : (removalOf core layout sink [] r).2 =
        [.heapDelete layout.schema layout.name layout.pkCols layout.floor r.key] := by
      simp [removalOf, removal, side]
    obtain ⟨rel,present,_⟩ := shaped.relation
    have ran : (Write.heapDelete layout.schema layout.name layout.pkCols layout.floor r.key).run
        core db = .ok (db.setRows layout.schema layout.name
          (core.heapDelete rel layout.pkCols layout.floor r.key)) := by
      simp [Write.run, present]
    obtain ⟨delta,rows⟩ := heapDelete_run shaped ran
    refine ⟨_,by rw [sent, runAll_singleton]; exact ran,?_,?_⟩
    · have step : layout.hotErasure r = [((.hot,r.key),none)] := if_pos side
      rw [rows, step, Keyed.assignAll_cons, Keyed.assignAll_nil, Keyed.assign, Option.toList_none,
        List.append_nil]
      apply List.filter_congr
      intro row _
      rw [Bool.eq_iff_iff]
      simp [slot_hot_iff]
    · simp [delta, entryStep, side]
  | cold =>
    have none : layout.hotErasure r = [] := by simp [hotErasure, side]
    cases sink with
    | delta =>
      have sent : (removalOf core layout .delta [] r).2 = [.delta (tombstone core layout r)] := by
        simp [removalOf, removal, side, tombstone]
      refine ⟨_,by rw [sent]; exact delta_ran.mpr rfl,?_,?_⟩
      · rw [none]
        rfl
      · simp [entryStep, side]
    | lake =>
      have sent : (removalOf core layout .lake [] r).2 = [] := by simp [removalOf, removal, side]
      refine ⟨db,by rw [sent]; rfl,?_,?_⟩
      · rw [none]
        rfl
      · simp [entryStep]

theorem placementOf_hot {sink : ColdSink} {columns : List Column}
    (side : layout.sideOf r.tierKey = .hot) :
    (placementOf core layout sink columns r).2 =
      [.heapInsert layout.schema layout.name r.row] := by
  simp [placementOf, placement, side]

theorem placement_runs (sink : ColdSink) (shaped : layout.Shaped db)
    (keyed : layout.keyOf core r.row = some r.key) :
    (∃ next, runAll core (placementOf core layout sink [] r).2 db = .ok next) ↔
      Admits core layout db r := by
  cases side : layout.sideOf r.tierKey with
  | hot =>
    simp only [placementOf_hot side, runAll_singleton, heapInsert_runs shaped keyed, Admits, side, forall_const]
  | cold =>
    have spared : Admits core layout db r := fun hot => by simp [hot] at side
    cases sink <;> simp [placementOf, placement, side, spared, runAll, Write.run, bind, Except.bind]

/-- The statement of one written row. -/
theorem placement_ran (shaped : layout.Shaped db) (keyed : layout.keyOf core r.row = some r.key)
    (ran : runAll core (placementOf core layout sink [] r).2 db = .ok next) :
    layout.heapRows next = Keyed.assignAll (layout.key core) (layout.hotWrite r)
        (layout.heapRows db) ∧
      next.delta = Keyed.assignAll filed (layout.entryStep sink (upsert core layout) r)
        db.delta := by
  cases side : layout.sideOf r.tierKey with
  | hot =>
    rw [placementOf_hot side, runAll_singleton] at ran
    obtain ⟨delta,rows⟩ := heapInsert_run shaped keyed ran
    constructor
    · have step : layout.hotWrite r = [(r.key,some (project layout.names r.row))] := if_pos side
      rw [rows, step, Keyed.assignAll_cons, Keyed.assignAll_nil, Keyed.assign, Option.toList_some]
      congr 1
      apply List.filter_congr
      intro row _
      rw [Bool.eq_iff_iff]
      simp [← hasKey_iff]
    · simp [delta, entryStep, side]
  | cold =>
    have none : layout.hotWrite r = [] := by simp [hotWrite, side]
    rw [none]
    cases sink with
    | delta =>
      have sent : (placementOf core layout .delta [] r).2 = [.delta (upsert core layout r)] := by
        simp [placementOf, placement, side, upsert]
      rw [sent, delta_ran] at ran
      subst ran
      exact ⟨rfl,by simp [entryStep, side]⟩
    | lake =>
      have sent : (placementOf core layout .lake [] r).2 = [] := by
        simp [placementOf, placement, side]
      rw [sent] at ran
      cases ran
      exact ⟨rfl,by simp [entryStep]⟩

end Rows

section Lists

variable {core : Core} {layout : Layout} {sink : ColdSink} {db next : Database}

theorem hotErasure_addressed (r : Routed) :
    Keyed.Addressed (layout.slot core) (layout.hotErasure r) := .single nofun

theorem lakeErasure_addressed (r : Routed) :
    Keyed.Addressed (layout.slot core) (layout.lakeErasure sink r) := .single nofun

theorem entryStep_addressed (entry : Routed → DeltaEntry) (r : Routed) :
    Keyed.Addressed filed (layout.entryStep sink entry r) := by
  refine .single fun e inside => ?_
  cases inside
  rfl

theorem projection_keyed {r : Routed} (keyed : layout.keyOf core r.row = some r.key) :
    ∀ row ∈ some (project layout.names r.row), layout.key core row = some r.key := by
  intro row inside
  cases inside
  exact (keyOf_project _).trans keyed

theorem hotWrite_addressed {r : Routed} (keyed : layout.keyOf core r.row = some r.key) :
    Keyed.Addressed (layout.key core) (layout.hotWrite r) := .single (projection_keyed keyed)

theorem lakeWrite_addressed {r : Routed} (keyed : layout.keyOf core r.row = some r.key) :
    Keyed.Addressed (layout.key core) (layout.lakeWrite sink r) := .single (projection_keyed keyed)

/-- Writing other keys does not bear on whether a row is admitted. -/
theorem admits_after {rs : List Routed} {s : Routed}
    (keyed : ∀ r ∈ rs, layout.keyOf core r.row = some r.key)
    (heap : (layout.heapRows next).Perm
      (Keyed.assignAll (layout.key core) (rs.flatMap layout.hotWrite) (layout.heapRows db)))
    (away : s.key ∉ rs.map Routed.key) :
    Admits core layout next s ↔ Admits core layout db s := by
  have unwritten : Keyed.lastOf s.key (rs.flatMap layout.hotWrite) = none := by
    rw [Keyed.lastOf_none]
    intro step member same
    obtain ⟨r,known,inside⟩ := List.mem_flatMap.mp member
    obtain ⟨_,inside⟩ := List.mem_ite_nil_right.mp inside
    obtain rfl := List.mem_singleton.mp inside
    exact away (same ▸ List.mem_map_of_mem known)
  have rows := Keyed.within_after heap (.flatMap fun r known => hotWrite_addressed (keyed r known))
    s.key
  rw [unwritten] at rows
  have free : (∀ row ∈ layout.heapRows next, layout.key core row ≠ some s.key) ↔
      ∀ row ∈ layout.heapRows db, layout.key core row ≠ some s.key := by
    rw [← Keyed.within_eq_nil, ← Keyed.within_eq_nil]
    constructor
    · intro none
      rw [none] at rows
      exact rows.symm.eq_nil
    · intro none
      simp only [none] at rows
      exact rows.eq_nil
  rw [Admits, Admits, free]

/-- Removals always run; the heap loses their hot slots, the delta takes their tombstones. -/
theorem removals_ran (core : Core) (sink : ColdSink) (shaped : layout.Shaped db)
    (rs : List Routed) :
    ∃ next, runAll core (rs.flatMap fun r => (removalOf core layout sink [] r).2) db = .ok next ∧
      layout.heapRows next = Keyed.assignAll (layout.slot core) (rs.flatMap layout.hotErasure)
        (layout.heapRows db) ∧
      next.delta = Keyed.assignAll filed
        (rs.flatMap (layout.entryStep sink (tombstone core layout))) db.delta := by
  induction rs generalizing db with
  | nil => exact ⟨db,rfl,rfl,rfl⟩
  | cons r rest ih =>
    obtain ⟨middle,first,heap,delta⟩ := removal_ran core sink shaped r
    obtain ⟨next,later,heap',delta'⟩ := ih (shaped.same (runAll_sameCatalog first))
    refine ⟨next,?_,?_,?_⟩
    · rw [List.flatMap_cons]
      exact runAll_append_ok.mpr ⟨middle,first,later⟩
    · rw [heap', heap, List.flatMap_cons, Keyed.assignAll_append]
    · rw [delta', delta, List.flatMap_cons, Keyed.assignAll_append]

/-- Writes that ran put their hot rows into the heap and their upserts into the delta. -/
theorem placements_ran {rs : List Routed} (shaped : layout.Shaped db)
    (keyed : ∀ r ∈ rs, layout.keyOf core r.row = some r.key)
    (ran : runAll core (rs.flatMap fun r => (placementOf core layout sink [] r).2) db =
      .ok next) :
    layout.heapRows next = Keyed.assignAll (layout.key core) (rs.flatMap layout.hotWrite)
        (layout.heapRows db) ∧
      next.delta = Keyed.assignAll filed (rs.flatMap (layout.entryStep sink (upsert core layout)))
        db.delta := by
  induction rs generalizing db with
  | nil =>
    cases ran
    exact ⟨rfl,rfl⟩
  | cons r rest ih =>
    rw [List.forall_mem_cons] at keyed
    rw [List.flatMap_cons] at ran
    obtain ⟨middle,first,later⟩ := runAll_append_ok.mp ran
    obtain ⟨heap,delta⟩ := placement_ran shaped keyed.1 first
    obtain ⟨heap',delta'⟩ := ih (shaped.same (runAll_sameCatalog first)) keyed.2 later
    constructor
    · rw [heap', heap, List.flatMap_cons, Keyed.assignAll_append]
    · rw [delta', delta, List.flatMap_cons, Keyed.assignAll_append]

/-- Writes of distinct keys run exactly when each of them is admitted. -/
theorem placements_runs (sink : ColdSink) {rs : List Routed} (shaped : layout.Shaped db)
    (keyed : ∀ r ∈ rs, layout.keyOf core r.row = some r.key)
    (distinct : (rs.map Routed.key).Nodup) :
    (∃ next, runAll core (rs.flatMap fun r => (placementOf core layout sink [] r).2) db =
      .ok next) ↔ ∀ r ∈ rs, Admits core layout db r := by
  induction rs generalizing db with
  | nil => simp [runAll]
  | cons r rest ih =>
    rw [List.forall_mem_cons] at keyed
    rw [List.map_cons, List.nodup_cons] at distinct
    rw [List.forall_mem_cons, ← placement_runs sink shaped keyed.1, List.flatMap_cons]
    simp only [runAll_append_ok]
    have after : ∀ middle, runAll core (placementOf core layout sink [] r).2 db = .ok middle →
        ((∃ next, runAll core (rest.flatMap fun r => (placementOf core layout sink [] r).2) middle =
          .ok next) ↔ ∀ s ∈ rest, Admits core layout db s) := by
      intro middle first
      rw [ih (shaped.same (runAll_sameCatalog first)) keyed.2 distinct.2]
      have heap : (layout.heapRows middle).Perm (Keyed.assignAll (layout.key core)
          ([r].flatMap layout.hotWrite) (layout.heapRows db)) := by
        rw [List.flatMap_singleton, (placement_ran shaped keyed.1 first).1]
      refine forall₂_congr fun s member => admits_after (by simpa using keyed.1) heap ?_
      rw [List.map_singleton, List.mem_singleton]
      exact fun same => distinct.1 (same ▸ List.mem_map_of_mem member)
    constructor
    · rintro ⟨next,middle,first,later⟩
      exact ⟨⟨middle,first⟩,(after middle first).mp ⟨next,later⟩⟩
    · rintro ⟨⟨middle,first⟩,each⟩
      obtain ⟨next,later⟩ := (after middle first).mpr each
      exact ⟨next,middle,first,later⟩

end Lists

section Lakes

variable {core : Core} {layout : Layout} {ctx : ChunkContext} {sink : ColdSink}

/-- The context of a table whose cold rows go to `sink`, its lake attached where that is
the sink. -/
structure Serves (layout : Layout) (ctx : ChunkContext) (sink : ColdSink) : Prop where
  fits : layout.Fits ctx sink
  live : sink = .lake → ∃ cold, liveCold ctx.target = .ok cold ∧ cold.tableRef = layout.lakeRef

theorem Describes.serves {db : Database} {mode : String}
    (describes : layout.Describes core db mode) (served : mode = "tiered" ∨ mode = "direct")
    (found : db.openChunk core layout.schema layout.name = some ctx) :
    ∃ sink, layout.Serves ctx sink := by
  rcases served with rfl | rfl
  · exact ⟨.delta,describes.tiered found,nofun⟩
  · obtain ⟨fits,live⟩ := describes.direct found
    exact ⟨.lake,fits,fun _ => live⟩

theorem Serves.deletes (serves : layout.Serves ctx sink) (renders : Renders core)
    (pkColumns : List Column) (rs : List Routed) :
    ∃ deletes, DeletesLake core layout ctx sink pkColumns rs deletes := by
  cases sink with
  | delta => exact ⟨[],(deletesLake_delta _ _ _).mpr rfl⟩
  | lake =>
    obtain ⟨cold,live,_⟩ := serves.live rfl
    exact deletesLake_returns renders live pkColumns rs

theorem Serves.upserts (serves : layout.Serves ctx sink) (renders : Renders core)
    (rs : List Routed) : ∃ upserts, UpsertsLake core layout ctx sink rs upserts := by
  cases sink with
  | delta => exact ⟨[],(upsertsLake_delta _ _).mpr rfl⟩
  | lake =>
    obtain ⟨cold,live,_⟩ := serves.live rfl
    exact upsertsLake_returns renders live rs

theorem lakeErasures_colds (rs : List Routed) : rs.flatMap (layout.lakeErasure .lake) =
    Keyed.erasures ((layout.colds rs).map fun r => ((.cold,r.key) : Slot)) := by
  induction rs with
  | nil => rfl
  | cons r rest ih =>
    rw [List.flatMap_cons, ih]
    by_cases cold : layout.sideOf r.tierKey = .cold <;>
      simp [lakeErasure, colds, cold, Keyed.erasures]

theorem lakeWrites_colds {rs : List Routed}
    (keyed : ∀ r ∈ rs, layout.keyOf core r.row = some r.key) :
    rs.flatMap (layout.lakeWrite .lake) = Keyed.writes (layout.key core)
      ((layout.colds rs).map fun r => project layout.names r.row) := by
  induction rs with
  | nil => rfl
  | cons r rest ih =>
    rw [List.forall_mem_cons] at keyed
    have stored : layout.key core (project layout.names r.row) = some r.key :=
      (keyOf_project _).trans keyed.1
    rw [List.flatMap_cons, ih keyed.2]
    by_cases cold : layout.sideOf r.tierKey = .cold <;>
      simp [lakeWrite, colds, cold, Keyed.writes, stored]

/-- The lake statement of a chunk's removals erases their cold slots. -/
theorem Serves.deleted {rs : List Routed} {pkColumns : List Column}
    {deletes : List LakeStatement} (serves : layout.Serves ctx sink)
    (names : pkColumns.map Column.name = layout.pkCols)
    (keyed : ∀ r ∈ rs, layout.keyOf core r.row = some r.key)
    (deleted : DeletesLake core layout ctx sink pkColumns rs deletes) (lake : Lake) :
    deletes.foldl (fun l s => s.effect l) lake = fun ref => if ref = layout.lakeRef then
      Keyed.assignAll (layout.slot core) (rs.flatMap (layout.lakeErasure sink)) (lake ref)
    else lake ref := by
  cases sink with
  | delta =>
    obtain rfl := (deletesLake_delta _ _ _).mp deleted
    have none : rs.flatMap (layout.lakeErasure .delta) = [] := by simp [lakeErasure]
    simp [none]
  | lake =>
    simp only [DeletesLake, removal_tuples, List.map_eq_nil_iff] at deleted
    rw [lakeErasures_colds]
    split at deleted
    · rename_i none
      simp [deleted, none, Keyed.erasures]
    · obtain ⟨cold,statement,live,rendered,rfl⟩ := deleted
      obtain ⟨cold',live',ref⟩ := serves.live rfl
      obtain rfl : cold = cold' := Except.ok.inj (live.symm.trans live')
      obtain ⟨_,pkCols,tierKeyCol,tierKeyType,_⟩ := serves.fits.target
      rw [List.foldl_cons, List.foldl_nil, core.lakeDelete_effect _ _ _ _ _ rendered, ref]
      funext other
      split
      · rw [Keyed.assignAll_erasures]
        apply List.filter_congr
        intro row _
        have bound : core.underBound ctx.target ctx.cutline row = layout.isCold core row := by
          rw [serves.fits.cutline, SerdeJson.underBound, tierKeyCol, tierKeyType]
          rfl
        rw [bound, Bool.eq_iff_iff, Bool.not_eq_true', Bool.and_eq_false_iff, List.any_map,
          decide_eq_true_eq, List.any_eq_false]
        simp only [Function.comp_apply, pkCols, ← names, lakeRow_tuple]
        simp only [names, keyOf_pk, List.forall_mem_map, ne_eq, slot_cold_iff]
        have found : ∀ r ∈ layout.colds rs, layout.keyOf core r.row = some r.key :=
          fun r member => keyed r (List.mem_filter.mp member).1
        constructor
        · rintro (away | warm) r inside ⟨same,cold⟩
          · exact away r inside (by rw [found r inside, Option.any_some]; exact same)
          · rw [warm] at cold
            cases cold
        · intro away
          cases cold : layout.isCold core row with
          | false => exact .inr rfl
          | true =>
            refine .inl fun r inside same => away r inside ⟨?_,cold⟩
            rwa [found r inside, Option.any_some] at same
      · rfl

/-- The lake statements of a chunk's writes put their cold rows. -/
theorem Serves.upserted {rs : List Routed} {upserts : List LakeStatement}
    (serves : layout.Serves ctx sink) (keyed : ∀ r ∈ rs, layout.keyOf core r.row = some r.key)
    (distinct : (rs.map Routed.key).Nodup)
    (upserted : UpsertsLake core layout ctx sink rs upserts) (lake : Lake) :
    (upserts.foldl (fun l s => s.effect l) lake layout.lakeRef).Perm
        (Keyed.assignAll (layout.key core) (rs.flatMap (layout.lakeWrite sink))
          (lake layout.lakeRef)) ∧
      ∀ ref ≠ layout.lakeRef, upserts.foldl (fun l s => s.effect l) lake ref = lake ref := by
  cases sink with
  | delta =>
    obtain rfl := (upsertsLake_delta _ _).mp upserted
    have none : rs.flatMap (layout.lakeWrite .delta) = [] := by simp [lakeWrite]
    simp [none]
  | lake =>
    simp only [UpsertsLake, placement_tuples, List.map_eq_nil_iff] at upserted
    rw [lakeWrites_colds keyed]
    split at upserted
    · rename_i none
      simp [upserted, none, Keyed.writes]
    · obtain ⟨cold,live,rendered⟩ := upserted
      obtain ⟨cold',live',ref⟩ := serves.live rfl
      obtain rfl : cold = cold' := Except.ok.inj (live.symm.trans live')
      have found : ∀ r ∈ layout.colds rs, layout.keyOf core r.row = some r.key :=
        fun r member => keyed r (List.mem_filter.mp member).1
      have keys : ((layout.colds rs).map fun r => project layout.names r.row).filterMap
          (layout.key core) = (layout.colds rs).map Routed.key := by
        rw [List.filterMap_map]
        clear rendered live live'
        generalize layout.colds rs = cs at found
        induction cs with
        | nil => rfl
        | cons r rest ih =>
          rw [List.forall_mem_cons] at found
          have stored : (layout.key core ∘ fun r => project layout.names r.row) r = some r.key :=
            (keyOf_project _).trans found.1
          rw [List.filterMap_cons_some stored, List.map_cons, ih found.2]
      refine ⟨lakeUpsert_writes serves.fits ref found rendered (.of_nodup ?_),fun other away => ?_⟩
      · rw [keys]
        exact distinct.sublist ((List.filter_sublist).map _)
      · rw [core.lakeUpsert_effect _ _ _ _ rendered, ref]
        exact if_neg away

end Lakes

end TierDb.Layout
