import TierDb.Tiered
import TierDb.Reference

/-! What a chunk on a tiered table does to the table as a relation: an update replaces
its rows, and an insert is an upsert as far as no key changes its side. -/
namespace TierDb.Layout

section Keys

variable {core : Core} {layout : Layout}

theorem key_of_slot {row : Fields} {s : Slot} (here : layout.slot core row = some s) :
    layout.key core row = some s.2 := by
  obtain ⟨_,_,_,keyed⟩ := slotOf_some.mp here
  exact keyed

theorem slot_unique {rows : List Fields} (unique : Keyed.Unique (layout.key core) rows) :
    Keyed.Unique (layout.slot core) rows := by
  intro s
  have sub : (Keyed.within (layout.slot core) s rows).Sublist
      (Keyed.within (layout.key core) s.2 rows) := by
    apply List.monotone_filter_right
    intro row here
    simp only [decide_eq_true_eq] at here ⊢
    exact key_of_slot here
  exact Nat.le_trans sub.length_le (unique s.2)

/-- An old key names a row by its primary key and its tier key. -/
def Names (core : Core) (layout : Layout) (old : Json) (row : Fields) : Prop :=
  layout.keyOf core old = layout.key core row ∧
    layout.tierOf core old = layout.tierOf core (.object row)

theorem Names.slot {old : Json} {row : Fields} (names : Names core layout old row) :
    layout.slotOf core old = layout.slot core row := by
  simp only [Layout.slot, slotOf, names.2, names.1, key]

theorem slots_named {removed : List Json} {olds : List Fields}
    (named : List.Forall₂ (Names core layout) removed olds)
    (slotted : ∀ row ∈ removed, (layout.slotOf core row).isSome) :
    olds.map (layout.slot core) = (removed.filterMap (layout.slotOf core)).map some := by
  induction named with
  | nil => rfl
  | @cons old row _ _ names _ ih =>
    obtain ⟨s,here⟩ := Option.isSome_iff_exists.mp (slotted old List.mem_cons_self)
    rw [List.map_cons, ← names.slot, here, List.filterMap_cons_some here, List.map_cons,
      ih fun r member => slotted r (List.mem_cons_of_mem _ member)]

/-- Erasing named rows and writing fresh ones, on rows unique by key. -/
theorem chunkSteps_relational {removed written : List Json} {rows olds rest : List Fields}
    (unique : Keyed.Unique (layout.key core) rows) (split : rows.Perm (olds ++ rest))
    (named : List.Forall₂ (Names core layout) removed olds)
    (newKeys : Keyed.Unique (layout.key core) (written.map (landed core layout)))
    (fresh : ∀ image ∈ written, ∀ row ∈ rest,
      layout.key core row ≠ layout.key core (landed core layout image))
    (slotted : ∀ row ∈ removed, (layout.slotOf core row).isSome)
    (placed : ∀ image ∈ written, (layout.slot core (landed core layout image)).isSome) :
    (Keyed.assignAll (layout.slot core) (chunkSteps core layout removed written) rows).Perm
        (rest ++ written.map (landed core layout)) ∧
      Keyed.Unique (layout.key core) (rest ++ written.map (landed core layout)) := by
  have gone := (slot_unique unique).erasures_perm split (slots_named named slotted)
  have slots : ∀ row ∈ written.map (landed core layout), (layout.slot core row).isSome := by
    simpa using placed
  have free : ∀ n ∈ written.map (landed core layout), ∀ row ∈ rest,
      layout.slot core row ≠ layout.slot core n := by
    intro n member row old same
    obtain ⟨image,known,rfl⟩ := List.mem_map.mp member
    obtain ⟨s,here⟩ := Option.isSome_iff_exists.mp (placed image known)
    exact fresh image known row old
      ((key_of_slot (same.trans here)).trans (key_of_slot here).symm)
  constructor
  · rw [chunkSteps, Keyed.assignAll_append]
    refine (Keyed.assignAll_perm gone).trans (.of_eq ?_)
    exact Keyed.assignAll_writes slots (slot_unique newKeys) free
  · refine (unique.perm split).right.append newKeys ?_
    intro row old n member _
    obtain ⟨image,known,rfl⟩ := List.mem_map.mp member
    exact fresh image known row old

/-- Every row that has a key has a side. -/
def Sided (core : Core) (layout : Layout) (rows : List Fields) : Prop :=
  ∀ row ∈ rows, ∀ k, layout.key core row = some k → ∃ side, layout.slot core row = some (side,k)

theorem merged_sided {db : Database} {lake : Lake} (sound : layout.Sound core db) :
    Sided core layout (layout.merged core db lake) := by
  intro row member k keyed
  rcases List.mem_append.mp member with hot | cold
  · exact ⟨.hot,(slot_hot (isHot_of_mem hot) _).mpr ⟨rfl,keyed⟩⟩
  · exact ⟨.cold,(slot_cold (isCold_of_mem sound cold) _).mpr ⟨rfl,keyed⟩⟩

theorem landed_sided {written : List Json}
    (placed : ∀ image ∈ written, (layout.slot core (landed core layout image)).isSome) :
    Sided core layout (written.map (landed core layout)) := by
  intro row member k keyed
  obtain ⟨image,known,rfl⟩ := List.mem_map.mp member
  obtain ⟨⟨side,j⟩,here⟩ := Option.isSome_iff_exists.mp (placed image known)
  obtain rfl : j = k := Option.some.inj ((key_of_slot here).symm.trans keyed)
  exact ⟨side,here⟩

def opposite : RouteTarget → RouteTarget
  | .hot => .cold
  | .cold => .hot

theorem opposite_ne (side : RouteTarget) : opposite side ≠ side := by cases side <;> nofun

theorem eq_opposite {side other : RouteTarget} (apart : other ≠ side) : other = opposite side := by
  cases side <;> cases other <;> first | rfl | exact absurd rfl apart

/-- The rows of a key are those of its two slots. -/
theorem within_key {rows : List Fields} (sided : Sided core layout rows) (side : RouteTarget)
    (k : List String) : (Keyed.within (layout.key core) k rows).Perm
      (Keyed.within (layout.slot core) (side,k) rows ++
        Keyed.within (layout.slot core) (opposite side,k) rows) := by
  have halves := List.filter_append_perm (fun row => decide (layout.slot core row = some (side,k)))
    (Keyed.within (layout.key core) k rows)
  have first : (Keyed.within (layout.key core) k rows).filter
      (fun row => decide (layout.slot core row = some (side,k))) =
        Keyed.within (layout.slot core) (side,k) rows := by
    rw [Keyed.within, List.filter_filter]
    apply List.filter_congr
    intro row _
    by_cases here : layout.slot core row = some (side,k)
    · simp [here, key_of_slot here]
    · simp [here]
  have second : (Keyed.within (layout.key core) k rows).filter
      (fun row => !decide (layout.slot core row = some (side,k))) =
        Keyed.within (layout.slot core) (opposite side,k) rows := by
    rw [Keyed.within, List.filter_filter]
    apply List.filter_congr
    intro row member
    by_cases keyed : layout.key core row = some k
    · obtain ⟨found,here⟩ := sided row member k keyed
      by_cases same : found = side
      · simp [here, same, (opposite_ne side).symm]
      · simp [keyed, here, eq_opposite same, opposite_ne side]
    · have elsewhere : layout.slot core row ≠ some (opposite side,k) := fun here =>
        keyed (key_of_slot here)
      simp [keyed, elsewhere]
  rw [first, second] at halves
  exact halves.symm

/-- `after` is `before` with the newest image of every written key in place of its rows. -/
structure Upserts (core : Core) (layout : Layout) (before images after : List Fields) : Prop where
  unique : Keyed.Unique (layout.key core) after
  newest : ∀ k r, (Keyed.within (layout.key core) k images).getLast? = some r →
    Keyed.within (layout.key core) k after = [r]
  others : ∀ k, Keyed.within (layout.key core) k images = [] →
    (Keyed.within (layout.key core) k after).Perm (Keyed.within (layout.key core) k before)

/-- No written key is found on two sides of the cut-line. -/
def OneSided (core : Core) (layout : Layout) (before images : List Fields) : Prop :=
  ∀ image ∈ images, ∀ row ∈ before ++ images,
    layout.key core row = layout.key core image → layout.slot core row = layout.slot core image

theorem within_written {before images after : List Fields}
    (moved : after.Perm (Keyed.assignAll (layout.slot core)
      (Keyed.writes (layout.slot core) images) before)) (s : Slot) :
    (Keyed.within (layout.slot core) s after).Perm
      (match (Keyed.within (layout.slot core) s images).getLast? with
        | some r => [r]
        | none => Keyed.within (layout.slot core) s before) := by
  have left := Keyed.within_after moved (Keyed.writes_addressed _) s
  rw [Keyed.lastOf_writes] at left
  cases last : (Keyed.within (layout.slot core) s images).getLast? <;> simpa [last] using left

theorem within_unwritten {before images after : List Fields} {s : Slot}
    (moved : after.Perm (Keyed.assignAll (layout.slot core)
      (Keyed.writes (layout.slot core) images) before))
    (none : Keyed.within (layout.slot core) s images = []) :
    (Keyed.within (layout.slot core) s after).Perm (Keyed.within (layout.slot core) s before) := by
  simpa [none] using within_written moved s

theorem within_none {rows : List Fields} {s : Slot}
    (empty : Keyed.within (layout.key core) s.2 rows = []) :
    Keyed.within (layout.slot core) s rows = [] := by
  rw [Keyed.within, List.filter_eq_nil_iff] at empty ⊢
  intro row member here
  simp only [decide_eq_true_eq] at empty here
  exact empty row member (key_of_slot here)

theorem OneSided.upserts {before images after : List Fields}
    (moved : after.Perm (Keyed.assignAll (layout.slot core)
      (Keyed.writes (layout.slot core) images) before))
    (unique : Keyed.Unique (layout.key core) before) (sidedBefore : Sided core layout before)
    (sidedImages : Sided core layout images) (sidedAfter : Sided core layout after)
    (oneSided : OneSided core layout before images) :
    Upserts core layout before images after := by
  have newest : ∀ k r, (Keyed.within (layout.key core) k images).getLast? = some r →
      Keyed.within (layout.key core) k after = [r] := by
    intro k r last
    obtain ⟨member,keyed⟩ := Keyed.mem_within.mp (List.mem_of_getLast? last)
    obtain ⟨side,here⟩ := sidedImages r member k keyed
    have there : ∀ row ∈ before ++ images, layout.key core row = some k →
        layout.slot core row = some (side,k) := fun row known keyed' =>
      (oneSided r member row known (keyed'.trans keyed.symm)).trans here
    have same : Keyed.within (layout.slot core) (side,k) images =
        Keyed.within (layout.key core) k images := by
      apply List.filter_congr
      intro row known
      rw [Bool.eq_iff_iff, decide_eq_true_eq, decide_eq_true_eq]
      exact ⟨key_of_slot,there row (List.mem_append_right _ known)⟩
    have empty : ∀ row ∈ before ++ images, layout.slot core row ≠ some (opposite side,k) := by
      intro row known elsewhere
      rw [there row known (key_of_slot elsewhere)] at elsewhere
      exact opposite_ne side (congrArg Prod.fst (Option.some.inj elsewhere)).symm
    have none : Keyed.within (layout.slot core) (opposite side,k) images = [] := by
      simpa [Keyed.within] using fun row known => empty row (List.mem_append_right _ known)
    have bare : Keyed.within (layout.slot core) (opposite side,k) before = [] := by
      simpa [Keyed.within] using fun row known => empty row (List.mem_append_left _ known)
    have here' := within_written moved (side,k)
    have there' := within_unwritten moved none
    rw [same, last] at here'
    rw [bare] at there'
    exact List.perm_singleton.mp ((within_key sidedAfter side k).trans (here'.append there'))
  have others : ∀ k, Keyed.within (layout.key core) k images = [] →
      (Keyed.within (layout.key core) k after).Perm
        (Keyed.within (layout.key core) k before) := by
    intro k empty
    have hot := within_unwritten moved (s := (.hot,k)) (within_none empty)
    have cold := within_unwritten moved (s := (.cold,k)) (within_none empty)
    exact ((within_key sidedAfter .hot k).trans (hot.append cold)).trans
      (within_key sidedBefore .hot k).symm
  refine ⟨fun k => ?_,newest,others⟩
  cases last : (Keyed.within (layout.key core) k images).getLast? with
  | some r => simp [newest k r last]
  | none =>
    rw [(others k (List.getLast?_eq_none_iff.mp last)).length_eq]
    exact unique k

theorem Upserts.oneSided {before images after : List Fields}
    (moved : after.Perm (Keyed.assignAll (layout.slot core)
      (Keyed.writes (layout.slot core) images) before))
    (sidedBefore : Sided core layout before) (sidedImages : Sided core layout images)
    (sidedAfter : Sided core layout after)
    (slotted : ∀ image ∈ images, (layout.slot core image).isSome)
    (upserts : Upserts core layout before images after) : OneSided core layout before images := by
  intro image member row known same
  obtain ⟨⟨side,k⟩,here⟩ := Option.isSome_iff_exists.mp (slotted image member)
  rw [here]
  by_contra elsewhere
  have keyed : layout.key core row = some k := same.trans (key_of_slot here)
  have sided : ∃ found, layout.slot core row = some (found,k) := by
    rcases List.mem_append.mp known with old | new
    · exact sidedBefore row old k keyed
    · exact sidedImages row new k keyed
  obtain ⟨found,there⟩ := sided
  have apart : found = opposite side := eq_opposite fun h => elsewhere (h ▸ there)
  subst apart
  -- Both slots of the key end up occupied.
  have front : Keyed.within (layout.slot core) (side,k) after ≠ [] := by
    intro empty
    have written := within_written moved (side,k)
    cases last : (Keyed.within (layout.slot core) (side,k) images).getLast? with
    | some r => simp [last, empty] at written
    | none =>
      rw [List.getLast?_eq_none_iff] at last
      exact List.not_mem_nil (last ▸ Keyed.mem_within.mpr ⟨member,here⟩)
  have back : Keyed.within (layout.slot core) (opposite side,k) after ≠ [] := by
    intro empty
    have written := within_written moved (opposite side,k)
    cases last : (Keyed.within (layout.slot core) (opposite side,k) images).getLast? with
    | some r => simp [last, empty] at written
    | none =>
      simp only [last, empty, List.nil_perm] at written
      rw [List.getLast?_eq_none_iff] at last
      rcases List.mem_append.mp known with old | new
      · exact List.not_mem_nil (written ▸ Keyed.mem_within.mpr ⟨old,there⟩)
      · exact List.not_mem_nil (last ▸ Keyed.mem_within.mpr ⟨new,there⟩)
  have one := upserts.unique k
  rw [(within_key sidedAfter side k).length_eq, List.length_append] at one
  have two := List.length_pos_iff.mpr front
  have three := List.length_pos_iff.mpr back
  omega

/-- No primary-key value is an array or an object. -/
def Scalar (layout : Layout) (row : Json) : Prop :=
  ∀ column ∈ layout.pkCols, ((row.get column).getD .null).isNested = false

theorem Scalar.keyed {row : Json} (scalar : layout.Scalar row)
    (accepted : core.imageError layout.columns layout.pkCols row = none) :
    (layout.keyOf core row).isSome := by
  have texts : ∃ k, core.fieldTexts row layout.pkCols = .ok k := by
    apply Effect.mapM_returns
    intro column member
    refine core.fieldText_scalar ?_ (scalar column member)
    by_contra null
    exact core.imageError_null layout.columns layout.pkCols row
      ⟨column,member,by simpa using null⟩ accepted
  obtain ⟨k,found⟩ := texts
  exact Option.isSome_iff_exists.mpr ⟨k,toOption_some.mpr found⟩

/-- A written row that Postgres took has a key. -/
theorem planWriteRow_keyed {ctx : ChunkContext} {image : Json} {tuple : Option (List Json)}
    {writes : List Write} {db next : Database} (fits : layout.Fits ctx .delta)
    (shaped : layout.Shaped db) (scalar : layout.Scalar (normalized core layout image))
    (made : (planWriteRow core ctx image).Makes tuple writes)
    (ran : runAll core writes db = .ok next) :
    (layout.key core (landed core layout image)).isSome := by
  obtain ⟨t,front,_,_,cold,rfl⟩ := planWriteRow_makes.mp made
  rw [fits.columns, fits.cutline, routeRow_side] at *
  rw [key_landed]
  cases side : layout.sideOf t with
  | hot =>
    obtain ⟨toHeap,none⟩ := fits.splits.insertHot
    rw [side, none] at cold
    obtain ⟨_,rfl⟩ := Plan.pure_makes.mp cold
    obtain ⟨rel,present,columns,pk,_⟩ := shaped.relation
    simp only [side, toHeap, if_true, List.nil_append, runAll, Write.run, fits.schemaName,
      fits.tableName, present] at ran
    apply scalar.keyed
    by_contra refused
    obtain ⟨e,refused⟩ := Option.ne_none_iff_exists'.mp refused
    rw [← columns, ← pk] at refused
    have failed := core.heapInsert_refused rel _ e refused
    rw [normalized] at failed
    simp [failed, Except.map, bind, Except.bind] at ran
  | cold =>
    rw [side, fits.splits.insertCold] at cold
    obtain ⟨k,texts,_⟩ := Plan.lift_bind_makes.mp cold
    rw [fits.pkCols] at texts
    exact Option.isSome_iff_exists.mpr ⟨k,toOption_some.mpr texts⟩

theorem writeLoop_keyed {ctx : ChunkContext} {images : List Json} {tuples : List (List Json)}
    {writes : List Write} {db next : Database} (fits : layout.Fits ctx .delta)
    (shaped : layout.Shaped db)
    (scalar : ∀ image ∈ images, layout.Scalar (normalized core layout image))
    (made : (planLoop (planWriteRow core ctx) images).Makes tuples writes)
    (ran : runAll core writes db = .ok next) :
    ∀ image ∈ images, (layout.key core (landed core layout image)).isSome := by
  induction images generalizing tuples writes db with
  | nil => nofun
  | cons image rest ih =>
    obtain ⟨tuple,front,later,back,first,loop,_,rfl⟩ := planLoop_cons.mp made
    obtain ⟨middle,half,rest⟩ := runAll_append_ok.mp ran
    rw [List.forall_mem_cons] at scalar ⊢
    exact ⟨planWriteRow_keyed fits shaped scalar.1 first half,
      ih (shaped.same (runAll_sameCatalog half)) scalar.2 loop rest⟩

/-- So have all the rows a chunk wrote. -/
theorem chunk_keyed {ctx : ChunkContext} {kind : ChunkKind} {rowsJson : JsonText}
    {removed written : List Json} {outcome : ChunkOutcome} {writes : List Write}
    {db next : Database} (fits : layout.Fits ctx .delta) (shaped : layout.Shaped db)
    (rows : chunkRows kind rowsJson = .ok (removed,written))
    (scalar : ∀ image ∈ written, layout.Scalar (normalized core layout image))
    (made : (planChunk core ctx kind rowsJson).Makes outcome writes)
    (ran : runAll core writes db = .ok next) :
    ∀ image ∈ written, (layout.key core (landed core layout image)).isSome := by
  obtain ⟨pkColumns,pk,_⟩ := fits.pkColumns
  obtain ⟨_,front,_,back,_,wrote,_,rfl⟩ := (planChunk_makes pk rows).mp made
  obtain ⟨_,loop,_⟩ := planWriteRows_makes.mp wrote
  obtain ⟨middle,half,rest⟩ := runAll_append_ok.mp ran
  exact writeLoop_keyed fits (shaped.same (runAll_sameCatalog half)) scalar loop rest

end Keys

end TierDb.Layout

namespace TierDb

open Layout

namespace Reference

/-- A hot row, a leftover heap row below the cut-line of 100, and a lake row. -/
def seam : Conn := (system (database "tiered" 100 [item 1 200 10,item 3 40 30])).conn

def seamLake : Lake := fun ref => if ref = "lake.items" then [item 2 50 20,item 4 60 40] else []

/-- A hot row with a new key, and a cold key written twice. -/
def arrivals : List Json :=
  [.object (item 5 300 50),.object (item 2 55 51),.object (item 2 57 52)]

/-- The hot and the cold row exchange their keys and their tiers. -/
def exchange : List (Json × Json) :=
  [(.object (item 1 200 10),.object (item 2 60 10)),(.object (item 2 50 20),.object (item 1 300 20))]

def pairs (split : List (Json × Json)) : JsonText :=
  some (.array (split.map fun (old,new) => .object [("old",old),("new",new)]))

end Reference

/-- A returned insert upserts the merged read of a tiered table exactly when no written
key is found on both sides of the cut-line, among the rows before and the images. -/
theorem insert_upserts_iff {core : Core} {layout : Layout} {c d : Conn} {lake : Lake}
    {images : List Json} {outcome : ChunkOutcome}
    (describes : layout.Describes core c.db "tiered") (sound : layout.Sound core c.db)
    (unique : Keyed.Unique (layout.key core) (layout.merged core c.db lake))
    (scalar : ∀ image ∈ images, layout.Scalar (normalized core layout image))
    (returned : insertChunk core layout.schema layout.name (some (.array images)) c =
      .ok outcome d) :
    Upserts core layout (layout.merged core c.db lake) (images.map (landed core layout))
        (layout.merged core d.db lake) ↔
      OneSided core layout (layout.merged core c.db lake) (images.map (landed core layout)) := by
  have call : chunkFunction core .insert layout.schema layout.name (some (.array images)) c =
      .ok outcome d := returned
  obtain ⟨ctx,writes,found,made,took⟩ := chunkFunction_ok call
  have keyed := chunk_keyed (describes.tiered found) describes.shaped rfl scalar made took.ran
  obtain ⟨_,_,sound',_,placed,moved⟩ := chunk_merged describes sound rfl keyed call lake
  have after : Sided core layout (layout.merged core d.db lake) := merged_sided sound'
  have slotted : ∀ row ∈ images.map (landed core layout), (layout.slot core row).isSome := by
    simpa using placed
  exact ⟨Upserts.oneSided moved (merged_sided sound) (landed_sided placed) after slotted,
    OneSided.upserts moved unique (merged_sided sound) (landed_sided placed) after⟩

open Reference in
theorem arrivals_upsert : ∃ outcome d,
    insertChunk core "public" "items" (some (.array arrivals)) seam = .ok outcome d ∧
    Upserts core (items 100) ((items 100).merged core seam.db seamLake)
      [item 5 300 50,item 2 55 51,item 2 57 52] ((items 100).merged core d.db seamLake) := by
  have unique : Keyed.Unique ((items 100).key core) ((items 100).merged core seam.db seamLake) :=
    .of_nodup (by decide +kernel)
  have scalar : ∀ image ∈ arrivals, (items 100).Scalar (normalized core (items 100) image) := by
    unfold Scalar
    decide +kernel
  have images : arrivals.map (landed core (items 100)) =
      [item 5 300 50,item 2 55 51,item 2 57 52] := by decide +kernel
  have oneSided : OneSided core (items 100) ((items 100).merged core seam.db seamLake)
      (arrivals.map (landed core (items 100))) := by
    unfold OneSided
    decide +kernel
  have ran : Effect.returns (insertChunk core "public" "items" (some (.array arrivals))
      seam) = true := by decide +kernel
  obtain ⟨outcome,d,returned⟩ := Effect.returns_iff.mp ran
  have upserts := (insert_upserts_iff (database_describes _ _ _) (database_sound _ _ _) unique
    scalar returned).mpr oneSided
  exact ⟨outcome,d,returned,images ▸ upserts⟩

open Reference in
/-- The key of a lake row is inserted from the cut-line on: both rows are read. -/
theorem crossing_insert_duplicates : ∃ outcome d,
    Keyed.Unique ((items 100).key core) ((items 100).merged core seam.db seamLake) ∧
    insertChunk core "public" "items" (some (.array [.object (item 2 200 60)])) seam =
      .ok outcome d ∧
    Keyed.within ((items 100).key core) ["2"] ((items 100).merged core d.db seamLake) =
      [item 2 200 60,item 2 50 20] := by
  have unique : Keyed.Unique ((items 100).key core) ((items 100).merged core seam.db seamLake) :=
    .of_nodup (by decide +kernel)
  have ran : (match insertChunk core "public" "items" (some (.array [.object (item 2 200 60)])) seam
      with
      | .ok _ d =>
        some (Keyed.within ((items 100).key core) ["2"] ((items 100).merged core d.db seamLake))
      | .error _ _ => none) = some [item 2 200 60,item 2 50 20] := by decide +kernel
  cases returned : insertChunk core "public" "items" (some (.array [.object (item 2 200 60)]))
      seam with
  | error e d => simp [returned] at ran
  | ok outcome d =>
    rw [returned] at ran
    exact ⟨outcome,d,unique,rfl,Option.some.inj ran⟩

/-- A returned update of a tiered table replaces the named rows of the merged read by the
new images, and keeps one row per key: whatever the tiers of the old and new rows are,
and also when the rows of the chunk exchange their keys. -/
theorem update_relational {core : Core} {layout : Layout} {c d : Conn} {lake : Lake}
    {rowsJson : JsonText} {removed written : List Json} {olds rest : List Fields}
    {outcome : ChunkOutcome} (describes : layout.Describes core c.db "tiered")
    (sound : layout.Sound core c.db)
    (unique : Keyed.Unique (layout.key core) (layout.merged core c.db lake))
    (rows : chunkRows .update rowsJson = .ok (removed,written))
    (split : (layout.merged core c.db lake).Perm (olds ++ rest))
    (named : List.Forall₂ (Names core layout) removed olds)
    (keyed : ∀ image ∈ written, (layout.key core (landed core layout image)).isSome)
    (newKeys : Keyed.Unique (layout.key core) (written.map (landed core layout)))
    (fresh : ∀ image ∈ written, ∀ row ∈ rest,
      layout.key core row ≠ layout.key core (landed core layout image))
    (returned : updateChunk core layout.schema layout.name rowsJson c = .ok outcome d) :
    outcome.lakeSql = [] ∧
      (layout.merged core d.db lake).Perm (rest ++ written.map (landed core layout)) ∧
      Keyed.Unique (layout.key core) (layout.merged core d.db lake) := by
  have call : chunkFunction core .update layout.schema layout.name rowsJson c = .ok outcome d :=
    returned
  obtain ⟨none,_,_,slotted,placed,moved⟩ :=
    chunk_merged describes sound rows keyed call lake
  obtain ⟨replaced,unique'⟩ :=
    chunkSteps_relational unique split named newKeys fresh slotted placed
  have merged := moved.trans replaced
  exact ⟨none,merged,unique'.perm merged.symm⟩

open Reference in
theorem exchange_relational : ∃ outcome d,
    updateChunk core "public" "items" (pairs exchange) seam = .ok outcome d ∧
    ((items 100).merged core d.db seamLake).Perm
      ([item 4 60 40] ++ [item 2 60 10,item 1 300 20]) := by
  have unique : Keyed.Unique ((items 100).key core) ((items 100).merged core seam.db seamLake) :=
    .of_nodup (by decide +kernel)
  have split : ((items 100).merged core seam.db seamLake).Perm
      ([item 1 200 10,item 2 50 20] ++ [item 4 60 40]) := by decide +kernel
  have named : List.Forall₂ (Names core (items 100)) (exchange.map Prod.fst)
      [item 1 200 10,item 2 50 20] :=
    .cons ⟨by decide +kernel,by decide +kernel⟩
      (.cons ⟨by decide +kernel,by decide +kernel⟩ .nil)
  have news : (exchange.map Prod.snd).map (landed core (items 100)) =
      [item 2 60 10,item 1 300 20] := by decide +kernel
  have newKeys : Keyed.Unique ((items 100).key core)
      ((exchange.map Prod.snd).map (landed core (items 100))) :=
    news ▸ .of_nodup (by decide +kernel)
  have ran : Effect.returns (updateChunk core "public" "items" (pairs exchange) seam) = true :=
    by decide +kernel
  obtain ⟨outcome,d,returned⟩ := Effect.returns_iff.mp ran
  have describes : (items 100).Describes core seam.db "tiered" := database_describes _ _ _
  have updated := update_relational describes (database_sound _ _ _)
    unique rfl split named (by decide +kernel) newKeys (by decide +kernel) returned
  exact ⟨outcome,d,returned,news ▸ updated.2.1⟩

end TierDb
