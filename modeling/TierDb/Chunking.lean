import TierDb.Relational

/-! An update statement cut into chunks. The chunks do what the whole list does in one
chunk exactly when no chunk removes a placement that an earlier one has written. -/
namespace TierDb.Layout

section Heap

variable {core : Core} {layout : Layout} {ctx : ChunkContext} {db next : Database}

/-- Postgres takes the image as far as its own values are concerned. -/
def Accepted (core : Core) (layout : Layout) (image : Json) : Prop :=
  core.imageError layout.columns layout.pkCols (normalized core layout image) = none

/-- No heap row holds the key of the image, or the insert replaces the one that does. -/
def Free (core : Core) (layout : Layout) (db : Database) (image : Json) : Prop :=
  core.replacesDuplicate = true ∨ ∀ row ∈ layout.heapRows db,
    layout.key core row ≠ layout.key core (landed core layout image)

/-- Whether the image goes to the heap. -/
def GoesHot (core : Core) (layout : Layout) (image : Json) : Prop :=
  ∃ k, layout.slot core (landed core layout image) = some (.hot,k)

theorem written_runs {image : Json} (shaped : layout.Shaped db)
    (keyed : (layout.key core (landed core layout image)).isSome) :
    (∃ next, (Write.heapInsert layout.schema layout.name (normalized core layout image)).run core
      db = .ok next) ↔ Accepted core layout image ∧ Free core layout db image := by
  obtain ⟨k,keyed⟩ := Option.isSome_iff_exists.mp keyed
  rw [Free, keyed, Accepted]
  exact heapInsert_runs shaped (by rw [← key_landed]; exact keyed)

theorem Removes.hot_or_cold {row : Json} {w : Write} (removes : Removes core layout ctx row w) :
    (∃ k, layout.slotOf core row = some (.hot,k) ∧
      w = .heapDelete layout.schema layout.name layout.pkCols layout.floor k) ∨
    (∃ k, layout.slotOf core row = some (.cold,k) ∧ ∃ entry, w = .delta entry) := by
  obtain ⟨t,k,tier,keyed,_,made⟩ := removes
  have slot : layout.slotOf core row = some (layout.sideOf t,k) :=
    slotOf_some.mpr ⟨t,tier,rfl,keyed⟩
  cases side : layout.sideOf t with
  | hot =>
    simp only [removal, side, Prod.mk.injEq, List.cons.injEq, true_and, and_true] at made slot
    exact .inl ⟨k,slot,made⟩
  | cold =>
    simp only [removal, side, Prod.mk.injEq, List.cons.injEq, true_and, and_true] at made slot
    exact .inr ⟨k,slot,_,made⟩

theorem Places.hot_or_cold {image : Json} {w : Write} (places : Places core layout ctx image w) :
    (layout.key core (landed core layout image)).isSome ∧
    ((GoesHot core layout image ∧
      w = .heapInsert layout.schema layout.name (normalized core layout image)) ∨
    (¬GoesHot core layout image ∧ ∃ entry, w = .delta entry)) := by
  obtain ⟨t,k,tier,keyed,_,made⟩ := places
  have slot : layout.slot core (landed core layout image) = some (layout.sideOf t,k) :=
    (slot_landed image).trans (slotOf_some.mpr ⟨t,tier,rfl,keyed⟩)
  refine ⟨by rw [key_landed, keyed]; rfl,?_⟩
  cases side : layout.sideOf t with
  | hot =>
    simp only [placement, side, Prod.mk.injEq, List.cons.injEq, true_and, and_true] at made slot
    exact .inl ⟨⟨k,slot⟩,made⟩
  | cold =>
    simp only [placement, side, Prod.mk.injEq, List.cons.injEq, true_and, and_true] at made slot
    refine .inr ⟨?_,_,made⟩
    rintro ⟨j,hot⟩
    simp [slot] at hot

theorem delta_runs (core : Core) (layout : Layout) (entry : DeltaEntry) (db : Database) :
    ∃ next, (Write.delta entry).run core db = .ok next ∧
      layout.heapRows next = layout.heapRows db :=
  ⟨_,rfl,rfl⟩

/-- The removals always run; of the heap they take the hot rows they name. -/
theorem removes_run {olds : List Json} {writes : List Write}
    (sent : List.Forall₂ (Removes core layout ctx) olds writes) (shaped : layout.Shaped db) :
    ∃ next, runAll core writes db = .ok next ∧ ∀ row, row ∈ layout.heapRows next ↔
      row ∈ layout.heapRows db ∧ ∀ k, layout.slot core row = some (.hot,k) →
        some (.hot,k) ∉ olds.map (layout.slotOf core) := by
  induction sent generalizing db with
  | nil => exact ⟨db,rfl,by simp⟩
  | @cons old w _ _ removes _ ih =>
    have step : ∃ middle, w.run core db = .ok middle ∧ ∀ row, row ∈ layout.heapRows middle ↔
        row ∈ layout.heapRows db ∧ ∀ k, layout.slot core row = some (.hot,k) →
          layout.slotOf core old ≠ some (.hot,k) := by
      rcases removes.hot_or_cold with ⟨j,slot,rfl⟩ | ⟨j,slot,entry,rfl⟩
      · obtain ⟨rel,present,_⟩ := shaped.relation
        have ran : (Write.heapDelete layout.schema layout.name layout.pkCols layout.floor j).run
            core db = .ok (db.setRows layout.schema layout.name
              (core.heapDelete rel layout.pkCols layout.floor j)) := by
          simp [Write.run, present]
        refine ⟨_,ran,fun row => ?_⟩
        rw [mem_heapRows_delete shaped ran, slot, and_congr_right_iff]
        intro _
        constructor
        · rintro away k here same
          exact away (here.trans same.symm)
        · intro away here
          exact away j here rfl
      · obtain ⟨middle,ran,same⟩ := delta_runs core layout entry db
        exact ⟨middle,ran,fun row => by simp [same, slot]⟩
    obtain ⟨middle,ran,kept⟩ := step
    obtain ⟨next,ran',kept'⟩ := ih (shaped.same (run_sameCatalog ran))
    refine ⟨next,runAll_cons.mpr ⟨_,ran,ran'⟩,fun row => ?_⟩
    rw [kept', kept]
    simp only [List.map_cons, List.mem_cons, not_or]
    constructor
    · rintro ⟨⟨member,first⟩,later⟩
      exact ⟨member,fun k here => ⟨fun same => first k here same.symm,later k here⟩⟩
    · rintro ⟨member,all⟩
      exact ⟨⟨member,fun k here same => (all k here).1 same.symm⟩,fun k here => (all k here).2⟩

/-- Accepted images with distinct free keys are all written. -/
theorem places_run {images : List Json} {writes : List Write}
    (sent : List.Forall₂ (Places core layout ctx) images writes) (shaped : layout.Shaped db)
    (accepted : ∀ image ∈ images, GoesHot core layout image → Accepted core layout image)
    (free : ∀ image ∈ images, GoesHot core layout image → Free core layout db image)
    (unique : Keyed.Unique (layout.key core) (images.map (landed core layout))) :
    ∃ next, runAll core writes db = .ok next ∧ ∀ row ∈ layout.heapRows next,
      row ∈ layout.heapRows db ∨ row ∈ images.map (landed core layout) := by
  induction sent generalizing db with
  | nil => exact ⟨db,rfl,fun _ => .inl⟩
  | @cons image w rest _ places _ ih =>
    obtain ⟨keyed,sides⟩ := places.hot_or_cold
    rw [List.forall_mem_cons] at accepted free
    have step : ∃ middle, w.run core db = .ok middle ∧ ∀ row ∈ layout.heapRows middle,
        row ∈ layout.heapRows db ∨ row = landed core layout image := by
      rcases sides with ⟨hot,rfl⟩ | ⟨_,entry,rfl⟩
      · obtain ⟨middle,ran⟩ := (written_runs shaped keyed).mpr
          ⟨accepted.1 hot,free.1 hot⟩
        obtain ⟨k,found⟩ := Option.isSome_iff_exists.mp keyed
        rw [key_landed] at found
        refine ⟨middle,ran,fun row member => ?_⟩
        rw [(heapInsert_run shaped found ran).2, List.mem_append, List.mem_filter,
          List.mem_singleton] at member
        exact member.imp And.left id
      · obtain ⟨middle,ran,same⟩ := delta_runs core layout entry db
        exact ⟨middle,ran,fun row member => .inl (same ▸ member)⟩
    obtain ⟨middle,ran,grew⟩ := step
    have split : Keyed.Unique (layout.key core)
        ([landed core layout image] ++ rest.map (landed core layout)) := unique
    have free' : ∀ other ∈ rest, GoesHot core layout other → Free core layout middle other := by
      intro other member hot
      refine (free.2 other member hot).imp id fun clear row inside => ?_
      rcases grew row inside with old | rfl
      · exact clear row old
      · obtain ⟨k,found⟩ := Option.isSome_iff_exists.mp keyed
        intro same
        exact split.apart List.mem_cons_self (List.mem_map_of_mem member) found
          (same.symm.trans found)
    obtain ⟨next,ran',grew'⟩ := ih (shaped.same (run_sameCatalog ran)) accepted.2 free' split.right
    refine ⟨next,runAll_cons.mpr ⟨_,ran,ran'⟩,fun row member => ?_⟩
    rw [List.map_cons, List.mem_cons]
    rcases grew' row member with old | new
    · exact (grew row old).imp id .inl
    · exact .inr (.inr new)

/-- Images that were written were accepted and their keys free. -/
theorem places_free {images : List Json} {writes : List Write}
    (sent : List.Forall₂ (Places core layout ctx) images writes) (shaped : layout.Shaped db)
    (ran : runAll core writes db = .ok next) : ∀ image ∈ images, GoesHot core layout image →
      Accepted core layout image ∧ Free core layout db image := by
  induction sent generalizing db with
  | nil => nofun
  | @cons image w rest _ places _ ih =>
    obtain ⟨middle,half,remaining⟩ := runAll_cons.mp ran
    obtain ⟨keyed,sides⟩ := places.hot_or_cold
    have later := ih (shaped.same (run_sameCatalog half)) remaining
    rw [List.forall_mem_cons]
    rcases sides with ⟨hot,rfl⟩ | ⟨cold,entry,rfl⟩
    · have first := (written_runs shaped keyed).mp ⟨middle,half⟩
      refine ⟨fun _ => first,fun other member goes => ?_⟩
      obtain ⟨accepted,free⟩ := later other member goes
      refine ⟨accepted,?_⟩
      rcases first.2 with replaces | clear
      · exact .inl replaces
      · obtain ⟨k,found⟩ := Option.isSome_iff_exists.mp keyed
        have found' := found
        rw [key_landed] at found'
        refine free.imp id fun clear' row inside => clear' row ?_
        rw [(heapInsert_run shaped found' half).2, List.mem_append, List.mem_filter]
        refine .inl ⟨inside,?_⟩
        have apart := clear row inside
        rw [found] at apart
        simpa [← hasKey_iff] using apart
    · obtain ⟨_,ran',same⟩ := delta_runs core layout entry db
      cases half.symm.trans ran'
      refine ⟨fun hot => absurd hot cold,fun other member goes => ?_⟩
      simpa only [Free, same] using later other member goes

end Heap

section Chunk

variable {core : Core} {layout : Layout} {ctx : ChunkContext} {db next : Database}

/-- The old keys name every heap row that stands in the way of a new image. -/
def Ready (core : Core) (layout : Layout) (db : Database) (split : List (Json × Json)) : Prop :=
  core.replacesDuplicate = true ∨ ∀ p ∈ split, ∀ k,
    layout.slot core (landed core layout p.2) = some (.hot,k) →
      ∀ row ∈ layout.heapRows db, layout.key core row = some k →
        layout.slot core row = some (.hot,k) ∧
          some (.hot,k) ∈ split.map fun q => layout.slotOf core q.1

theorem ready_of_run {split : List (Json × Json)} {front back : List Write}
    (removes : List.Forall₂ (Removes core layout ctx) (split.map Prod.fst) front)
    (places : List.Forall₂ (Places core layout ctx) (split.map Prod.snd) back)
    (shaped : layout.Shaped db) (ran : runAll core (front ++ back) db = .ok next) :
    Ready core layout db split ∧
      ∀ p ∈ split, GoesHot core layout p.2 → Accepted core layout p.2 := by
  obtain ⟨middle,half,kept⟩ := removes_run removes shaped
  rw [runAll_append, half] at ran
  have free := places_free places (shaped.same (runAll_sameCatalog half)) ran
  simp only [List.forall_mem_map] at free
  refine ⟨?_,fun p member hot => (free p member hot).1⟩
  by_cases replaces : core.replacesDuplicate = true
  · exact .inl replaces
  refine .inr fun p member k placed row inside keyed => ?_
  have clear := (free p member ⟨k,placed⟩).2.resolve_left replaces
  by_contra blocked
  refine clear row ((kept row).mpr ⟨inside,fun j here named => blocked ?_⟩)
    (keyed.trans (key_of_slot placed).symm)
  obtain rfl : j = k := Option.some.inj ((key_of_slot here).symm.trans keyed)
  rw [List.map_map] at named
  exact ⟨here,named⟩

theorem run_of_ready {split : List (Json × Json)} {front back : List Write}
    (removes : List.Forall₂ (Removes core layout ctx) (split.map Prod.fst) front)
    (places : List.Forall₂ (Places core layout ctx) (split.map Prod.snd) back)
    (shaped : layout.Shaped db) (ready : Ready core layout db split)
    (accepted : ∀ p ∈ split, GoesHot core layout p.2 → Accepted core layout p.2)
    (unique : Keyed.Unique (layout.key core) (split.map fun p => landed core layout p.2)) :
    ∃ next, runAll core (front ++ back) db = .ok next ∧ ∀ row ∈ layout.heapRows next,
      (row ∈ layout.heapRows db ∧ ∀ k, layout.slot core row = some (.hot,k) →
        some (.hot,k) ∉ split.map fun p => layout.slotOf core p.1) ∨
      row ∈ split.map fun p => landed core layout p.2 := by
  obtain ⟨middle,half,kept⟩ := removes_run removes shaped
  have free : ∀ p ∈ split, GoesHot core layout p.2 → Free core layout middle p.2 := by
    rintro p member ⟨k,placed⟩
    apply ready.imp id
    intro named row inside same
    obtain ⟨old,away⟩ := (kept row).mp inside
    obtain ⟨here,known⟩ := named p member k placed row old (same.trans (key_of_slot placed))
    rw [List.map_map] at away
    exact away k here known
  obtain ⟨next,ran,grew⟩ := places_run places (shaped.same (runAll_sameCatalog half))
    (by simpa only [List.forall_mem_map] using accepted)
    (by simpa only [List.forall_mem_map] using free) (by rw [List.map_map]; exact unique)
  refine ⟨next,by rw [runAll_append, half]; exact ran,fun row member => ?_⟩
  rw [List.map_map] at grew
  refine (grew row member).imp (fun old => ?_) id
  have away := (kept row).mp old
  rw [List.map_map] at away
  exact away

end Chunk

section Chunks

/-- The chunks of one statement, in order. -/
def updateChunks (core : Core) (schema table : String) : List JsonText → Pg (List ChunkOutcome)
  | [] => return []
  | chunk :: rest => do
    let first ← updateChunk core schema table chunk
    let later ← updateChunks core schema table rest
    return first :: later

variable {core : Core} {layout : Layout} {ctx : ChunkContext}

/-- No later old key names the slot of an earlier new image. -/
def KeepsApart (core : Core) (layout : Layout) (earlier later : List (Json × Json)) : Prop :=
  ∀ p ∈ earlier, ∀ q ∈ later,
    layout.slotOf core q.1 ≠ layout.slot core (landed core layout p.2)

/-- Every row of the chunk is planned, and its image is one Postgres takes. -/
def Feasible (core : Core) (layout : Layout) (ctx : ChunkContext) (p : Json × Json) : Prop :=
  (∃ w, Removes core layout ctx p.1 w) ∧ (∃ w, Places core layout ctx p.2 w) ∧
    (GoesHot core layout p.2 → Accepted core layout p.2)

theorem forall₂_of_forall {α β : Type} {R : α → β → Prop} {as : List α}
    (each : ∀ a ∈ as, ∃ b, R a b) : ∃ bs, List.Forall₂ R as bs := by
  induction as with
  | nil => exact ⟨[],.nil⟩
  | cons a rest ih =>
    rw [List.forall_mem_cons] at each
    obtain ⟨b,first⟩ := each.1
    obtain ⟨bs,later⟩ := ih each.2
    exact ⟨b :: bs,.cons first later⟩

theorem exists_of_forall₂ {α β : Type} {R : α → β → Prop} {as : List α} {bs : List β}
    (all : List.Forall₂ R as bs) : ∀ a ∈ as, ∃ b, R a b := by
  induction all with
  | nil => nofun
  | cons first _ ih => exact List.forall_mem_cons.mpr ⟨⟨_,first⟩,ih⟩

theorem Feasible.slots {p : Json × Json} (feasible : Feasible core layout ctx p) :
    (layout.slotOf core p.1).isSome ∧ (layout.slot core (landed core layout p.2)).isSome := by
  obtain ⟨⟨_,removes⟩,⟨_,places⟩,_⟩ := feasible
  obtain ⟨_,old,_⟩ := removes.assigns
  obtain ⟨_,new,_⟩ := places.assigns
  exact ⟨by rw [old]; rfl,by rw [new]; rfl⟩

/-- What is left of a statement is ready once its first chunk is done. -/
theorem Ready.rest {db next : Database} {split rest : List (Json × Json)}
    (ready : Ready core layout db (split ++ rest))
    (unique : Keyed.Unique (layout.key core)
      ((split ++ rest).map fun p => landed core layout p.2))
    (grew : ∀ row ∈ layout.heapRows next,
      (row ∈ layout.heapRows db ∧ ∀ k, layout.slot core row = some (.hot,k) →
        some (.hot,k) ∉ split.map fun p => layout.slotOf core p.1) ∨
      row ∈ split.map fun p => landed core layout p.2) :
    Ready core layout next rest := by
  apply ready.imp id
  intro named p member k placed row inside keyed
  rcases grew row inside with ⟨old,away⟩ | new
  · obtain ⟨here,known⟩ := named p (List.mem_append_right _ member) k placed row old keyed
    rw [List.map_append, List.mem_append] at known
    exact ⟨here,known.resolve_left (away k here)⟩
  · rw [List.map_append] at unique
    exact absurd (key_of_slot placed) (unique.apart new (List.mem_map_of_mem member) keyed)

theorem Ready.first {db : Database} {split : List (Json × Json)}
    {later : List (List (Json × Json))} (ready : Ready core layout db (split ++ later.flatten))
    (apart : ∀ other ∈ later, KeepsApart core layout split other) :
    Ready core layout db split := by
  apply ready.imp id
  intro named p member k placed row inside keyed
  obtain ⟨here,known⟩ := named p (List.mem_append_left _ member) k placed row inside keyed
  refine ⟨here,?_⟩
  rw [List.map_append, List.mem_append] at known
  apply known.resolve_right
  intro clash
  obtain ⟨q,inLater,named⟩ := List.mem_map.mp clash
  obtain ⟨other,inOther,holds⟩ := List.mem_flatten.mp inLater
  exact apart other inOther p member q holds (named.trans placed.symm)

theorem chunkRows_pairs {chunk : List Json} {split : List (Json × Json)}
    (cut : chunk.mapM splitPair = .ok split) :
    chunkRows .update (some (.array chunk)) = .ok (split.map Prod.fst,split.map Prod.snd) :=
  chunkRows_update.mpr ⟨chunk,split,rfl,cut,rfl,rfl⟩

/-- On a quiet session a statement whose chunks keep apart returns. -/
theorem updateChunks_return {chunks : List (List Json)}
    {splits : List (List (Json × Json))} {c : Conn}
    (cut : List.Forall₂ (fun chunk split => chunk.mapM splitPair = .ok split) chunks splits)
    (quiet : c.Quiet)
    (describes : layout.Describes core c.db "tiered")
    (found : c.db.openChunk core layout.schema layout.name = some ctx)
    (feasible : ∀ split ∈ splits, ∀ p ∈ split, Feasible core layout ctx p)
    (ready : Ready core layout c.db splits.flatten)
    (unique : Keyed.Unique (layout.key core)
      (splits.flatten.map fun p => landed core layout p.2))
    (apart : splits.Pairwise (KeepsApart core layout)) :
    ∃ outcomes e, updateChunks core layout.schema layout.name
      (chunks.map fun chunk => some (.array chunk)) c = .ok outcomes e := by
  induction cut generalizing c with
  | nil => exact ⟨[],c,rfl⟩
  | @cons chunk split chunks splits first _ ih =>
    rw [List.forall_mem_cons] at feasible
    rw [List.pairwise_cons] at apart
    rw [List.flatten_cons] at ready unique
    have fits := describes.tiered found
    have removable : ∀ row ∈ split.map Prod.fst, ∃ w, Removes core layout ctx row w := by
      rw [List.forall_mem_map]
      exact fun p member => (feasible.1 p member).1
    have placeable : ∀ image ∈ split.map Prod.snd, ∃ w, Places core layout ctx image w := by
      rw [List.forall_mem_map]
      exact fun p member => (feasible.1 p member).2.1
    obtain ⟨front,removes⟩ := forall₂_of_forall removable
    obtain ⟨back,places⟩ := forall₂_of_forall placeable
    have own : Keyed.Unique (layout.key core) (split.map fun p => landed core layout p.2) := by
      rw [List.map_append] at unique
      exact unique.left
    have later : Keyed.Unique (layout.key core)
        (splits.flatten.map fun p => landed core layout p.2) := by
      rw [List.map_append] at unique
      exact unique.right
    obtain ⟨next,ran,grew⟩ := run_of_ready removes places describes.shaped
      (ready.first apart.1) (fun p member => (feasible.1 p member).2.2) own
    have keyed : ∀ image ∈ split.map Prod.snd,
        (layout.key core (landed core layout image)).isSome := by
      rw [List.forall_mem_map]
      intro p member
      obtain ⟨s,here⟩ := Option.isSome_iff_exists.mp (feasible.1 p member).slots.2
      rw [key_of_slot here]
      rfl
    have made := (planChunk_tiered fits (chunkRows_pairs first) keyed).mpr
      ⟨rfl,front,back,removes,places,rfl⟩
    obtain ⟨d,returned,took⟩ := chunkFunction_quiet quiet found made ran
    have same : next = d.db := Except.ok.inj (ran.symm.trans took.ran)
    obtain ⟨outcomes,e,finished⟩ := ih (took.stays_quiet quiet) (describes.same took.catalog)
      ((openChunk_same core took.catalog).trans found) feasible.2
      (same ▸ ready.rest unique grew) later apart.2
    exact ⟨_,e,Effect.bind_ok.mpr ⟨_,d,returned,Effect.bind_ok.mpr ⟨outcomes,e,finished,rfl⟩⟩⟩

/-- The slots a chunk erases and the rows it writes. -/
def part (core : Core) (layout : Layout) (split : List (Json × Json)) : List Slot × List Fields :=
  (split.filterMap fun p => layout.slotOf core p.1,split.map fun p => landed core layout p.2)

theorem chunkSteps_part (split : List (Json × Json)) :
    chunkSteps core layout (split.map Prod.fst) (split.map Prod.snd) =
      Keyed.batch (layout.slot core) (part core layout split) := by
  simp only [chunkSteps, Keyed.batch, part, List.filterMap_map, List.map_map]
  rfl

theorem part_flatten (splits : List (List (Json × Json))) :
    part core layout splits.flatten = ((splits.map (part core layout)).flatMap Prod.fst,
      (splits.map (part core layout)).flatMap Prod.snd) := by
  simp only [part, List.flatMap_def, List.map_map, List.filterMap_flatten, List.map_flatten]
  rfl

/-- Chunks that returned are their batches, in order. -/
theorem updateChunks_merged {chunks : List (List Json)} {splits : List (List (Json × Json))}
    {c e : Conn} {outcomes : List ChunkOutcome}
    (cut : List.Forall₂ (fun chunk split => chunk.mapM splitPair = .ok split) chunks splits)
    (describes : layout.Describes core c.db "tiered") (sound : layout.Sound core c.db)
    (keyed : ∀ split ∈ splits, ∀ p ∈ split,
      (layout.key core (landed core layout p.2)).isSome)
    (returned : updateChunks core layout.schema layout.name
      (chunks.map fun chunk => some (.array chunk)) c = .ok outcomes e) (lake : Lake) :
    (layout.merged core e.db lake).Perm (Keyed.assignAll (layout.slot core)
      ((splits.map (part core layout)).flatMap (Keyed.batch (layout.slot core)))
      (layout.merged core c.db lake)) := by
  induction cut generalizing c outcomes with
  | nil => cases returned; exact .refl _
  | @cons chunk split chunks splits first _ ih =>
    rw [List.forall_mem_cons] at keyed
    obtain ⟨outcome,d,ran,later⟩ := Effect.bind_ok.mp returned
    obtain ⟨_,_,finished,same⟩ := Effect.bind_ok.mp later
    cases same
    have call : chunkFunction core .update layout.schema layout.name (some (.array chunk)) c =
      .ok outcome d := ran
    obtain ⟨_,describes',sound',_,_,moved⟩ := chunk_merged describes sound
      (chunkRows_pairs first) (by simpa only [List.forall_mem_map] using keyed.1) call lake
    rw [List.map_cons, List.flatMap_cons, Keyed.assignAll_append, ← chunkSteps_part]
    exact (ih describes' sound' keyed.2 finished).trans (Keyed.assignAll_perm moved)

theorem mapM_flatten {chunks : List (List Json)} {splits : List (List (Json × Json))}
    (cut : List.Forall₂ (fun chunk split => chunk.mapM splitPair = .ok split) chunks splits) :
    chunks.flatten.mapM splitPair = .ok splits.flatten :=
  Effect.mapM_ok.mpr (List.rel_flatten (cut.imp fun _ _ => Effect.mapM_ok.mp))

theorem keepsApart_iff {splits : List (List (Json × Json))}
    (slotted : ∀ split ∈ splits, ∀ p ∈ split, (layout.slotOf core p.1).isSome) :
    splits.Pairwise (KeepsApart core layout) ↔
      (splits.map (part core layout)).Pairwise (Keyed.Apart (layout.slot core)) := by
  rw [List.pairwise_map]
  refine List.Pairwise.iff_of_mem fun {earlier later} _ inLater => ?_
  simp only [KeepsApart, Keyed.Apart, part, List.mem_filterMap, List.forall_mem_map]
  constructor
  · rintro apart p member k ⟨q,known,named⟩ here
    exact apart p member q known (named.trans here.symm)
  · intro apart p member q known same
    obtain ⟨k,named⟩ := Option.isSome_iff_exists.mp (slotted later inLater q known)
    exact apart p member k ⟨q,known,named⟩ (same.symm.trans named)

end Chunks

end TierDb.Layout

namespace TierDb

open Layout

namespace Reference

/-- The hot and a lake row exchange their keys and stay on their sides. -/
def handover : List (Json × Json) :=
  [(.object (item 1 200 10),.object (item 2 200 10)),(.object (item 2 50 20),.object (item 1 50 20))]

/-- The two lake rows shift their keys by two, the first onto the second's old key. -/
def shift : List (Json × Json) :=
  [(.object (item 2 50 20),.object (item 4 50 20)),(.object (item 4 60 40),.object (item 6 60 40))]

/-- Every row in a chunk of its own. -/
def rowChunks (split : List (Json × Json)) : List (List Json) :=
  split.map fun p => [.object [("old",p.1),("new",p.2)]]

end Reference

/-- If the whole list of an update returns as one chunk, its chunks return with the same
merged read exactly when no chunk removes what an earlier one has placed. -/
theorem update_chunks_iff {core : Core} {layout : Layout} {c d : Conn} {lake : Lake}
    {chunks : List (List Json)} {splits : List (List (Json × Json))} {outcome : ChunkOutcome}
    (describes : layout.Describes core c.db "tiered") (sound : layout.Sound core c.db)
    (quiet : c.Quiet)
    (cut : List.Forall₂ (fun chunk split => chunk.mapM splitPair = .ok split) chunks splits)
    (keyed : ∀ split ∈ splits, ∀ p ∈ split, (layout.key core (landed core layout p.2)).isSome)
    (newKeys : Keyed.Unique (layout.key core)
      (splits.flatten.map fun p => landed core layout p.2))
    (whole : updateChunk core layout.schema layout.name (some (.array chunks.flatten)) c =
      .ok outcome d) :
    (∃ outcomes e, updateChunks core layout.schema layout.name
        (chunks.map fun chunk => some (.array chunk)) c = .ok outcomes e ∧
      (layout.merged core e.db lake).Perm (layout.merged core d.db lake)) ↔
      splits.Pairwise (KeepsApart core layout) := by
  have call : chunkFunction core .update layout.schema layout.name
    (some (.array chunks.flatten)) c = .ok outcome d := whole
  have rows := chunkRows_pairs (mapM_flatten cut)
  have keyed' : ∀ image ∈ splits.flatten.map Prod.snd,
      (layout.key core (landed core layout image)).isSome := by
    simpa only [List.forall_mem_map, List.forall_mem_flatten] using keyed
  obtain ⟨ctx,writes,found,made,took⟩ := chunkFunction_ok call
  obtain ⟨_,front,back,removes,places,rfl⟩ :=
    (planChunk_tiered (describes.tiered found) rows keyed').mp made
  obtain ⟨ready,accepted⟩ := ready_of_run removes places describes.shaped took.ran
  have feasible : ∀ split ∈ splits, ∀ p ∈ split, Feasible core layout ctx p := by
    intro split inside p member
    have known : p ∈ splits.flatten := List.mem_flatten.mpr ⟨split,inside,member⟩
    exact ⟨exists_of_forall₂ removes _ (List.mem_map_of_mem known),
      exists_of_forall₂ places _ (List.mem_map_of_mem known),accepted p known⟩
  obtain ⟨_,_,_,_,_,moved⟩ := chunk_merged describes sound rows keyed' call lake
  rw [chunkSteps_part, part_flatten] at moved
  rw [keepsApart_iff fun split inside p member => (feasible split inside p member).slots.1]
  constructor
  · rintro ⟨outcomes,e,returned,same⟩
    by_contra meet
    have written : (splits.map (part core layout)).flatMap Prod.snd =
        splits.flatten.map fun p => landed core layout p.2 :=
      (congrArg Prod.snd (part_flatten splits)).symm
    have unique : Keyed.Unique (layout.slot core)
        ((splits.map (part core layout)).flatMap Prod.snd) := by
      rw [written]
      exact slot_unique newKeys
    obtain ⟨r,member,k,here,lost⟩ := Keyed.lost_of_not_apart unique meet
    have moved' := updateChunks_merged cut describes sound keyed returned lake
    have gone := Keyed.within_after moved' (Keyed.batches_addressed _) k
    have kept := Keyed.within_after moved (Keyed.batch_addressed _) k
    rw [lost] at gone
    rw [Keyed.lastOf_batch, Keyed.lastOf_writes] at kept
    cases last : (Keyed.within (layout.slot core) k
        ((splits.map (part core layout)).flatMap Prod.snd)).getLast? with
    | none =>
      rw [List.getLast?_eq_none_iff] at last
      exact List.not_mem_nil (last ▸ Keyed.mem_within.mpr ⟨member,here⟩)
    | some r' =>
      rw [last] at kept
      have clash := (kept.symm.trans (Keyed.within_perm same).symm).trans gone
      simp at clash
  · intro apart
    obtain ⟨outcomes,e,returned⟩ := updateChunks_return cut quiet describes found feasible ready
      newKeys ((keepsApart_iff fun split inside p member =>
        (feasible split inside p member).slots.1).mpr apart)
    refine ⟨outcomes,e,returned,?_⟩
    have moved' := updateChunks_merged cut describes sound keyed returned lake
    refine moved'.trans (.trans ?_ moved.symm)
    exact Keyed.assignAll_of_last (Keyed.batches_addressed _) (Keyed.batch_addressed _)
      (Keyed.lastOf_batches apart) _

open Reference in
theorem handover_chunks_agree : ∃ outcome d outcomes e,
    updateChunk core "public" "items" (some (.array (rowChunks handover).flatten)) seam =
      .ok outcome d ∧
    updateChunks core "public" "items" ((rowChunks handover).map fun chunk => some (.array chunk))
      seam = .ok outcomes e ∧
    ((items 100).merged core e.db seamLake).Perm ((items 100).merged core d.db seamLake) := by
  have quiet : seam.Quiet := .of_idle rfl rfl
  have cut : List.Forall₂ (fun chunk split => chunk.mapM splitPair = .ok split)
      (rowChunks handover) (handover.map fun p => [p]) :=
    .cons rfl (.cons rfl .nil)
  have newKeys : Keyed.Unique ((items 100).key core)
      ((handover.map fun p => [p]).flatten.map fun p => landed core (items 100) p.2) :=
    .of_nodup (by decide +kernel)
  have apart : (handover.map fun p => [p]).Pairwise (KeepsApart core (items 100)) := by
    unfold KeepsApart
    decide +kernel
  have ran : Effect.returns (updateChunk core "public" "items"
      (some (.array (rowChunks handover).flatten)) seam) = true := by decide +kernel
  obtain ⟨outcome,d,whole⟩ := Effect.returns_iff.mp ran
  obtain ⟨outcomes,e,returned,same⟩ := (update_chunks_iff (database_describes _ _ _)
    (database_sound _ _ _) quiet cut (by decide +kernel) newKeys whole).mpr apart
  exact ⟨outcome,d,outcomes,e,whole,returned,same⟩

open Reference in
/-- The second chunk removes the key the first has just written: its row is lost. -/
theorem shifted_chunks_lose_row : ∃ outcome d outcomes e,
    updateChunk core "public" "items" (some (.array (rowChunks shift).flatten)) seam =
      .ok outcome d ∧
    updateChunks core "public" "items" ((rowChunks shift).map fun chunk => some (.array chunk))
      seam = .ok outcomes e ∧
    (items 100).merged core d.db seamLake = [item 1 200 10,item 4 50 20,item 6 60 40] ∧
    (items 100).merged core e.db seamLake = [item 1 200 10,item 6 60 40] := by
  have one : (match updateChunk core "public" "items"
      (some (.array (rowChunks shift).flatten)) seam with
      | .ok _ d => (items 100).merged core d.db seamLake
      | .error _ _ => []) = [item 1 200 10,item 4 50 20,item 6 60 40] := by decide +kernel
  have two : (match updateChunks core "public" "items"
      ((rowChunks shift).map fun chunk => some (.array chunk)) seam with
      | .ok _ e => (items 100).merged core e.db seamLake
      | .error _ _ => []) = [item 1 200 10,item 6 60 40] := by decide +kernel
  generalize updateChunk core "public" "items" (some (.array (rowChunks shift).flatten)) seam =
    whole at one ⊢
  generalize updateChunks core "public" "items"
    ((rowChunks shift).map fun chunk => some (.array chunk)) seam = chunked at two ⊢
  rcases whole with ⟨outcome,d⟩ | _
  · rcases chunked with ⟨outcomes,e⟩ | _
    · exact ⟨outcome,d,outcomes,e,rfl,rfl,one,two⟩
    · cases two
  · cases one

end TierDb
