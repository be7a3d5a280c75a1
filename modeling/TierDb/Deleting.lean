import TierDb.Stores

/-! A delete chunk on a tiered table. It takes the named rows out of the merged read,
wherever they are stored, and taking them out again changes nothing. -/
namespace TierDb.Layout

section Deletes

variable {core : Core} {layout : Layout} {ctx : ChunkContext} {sink : ColdSink}

/-- A key of the list has the row's primary key and is on its side of the cut-line. -/
def named (core : Core) (layout : Layout) (keys : List Json) (row : Fields) : Bool :=
  keys.any fun key => (layout.slotOf core key).isSome &&
    decide (layout.slotOf core key = layout.slot core row)

theorem named_iff {keys : List Json} {row : Fields} : named core layout keys row = true ↔
    ∃ s ∈ keys.filterMap (layout.slotOf core), layout.slot core row = some s := by
  simp only [named, List.any_eq_true, Bool.and_eq_true, Option.isSome_iff_exists,
    decide_eq_true_eq, List.mem_filterMap]
  constructor
  · rintro ⟨key,known,⟨s,here⟩,same⟩
    exact ⟨s,⟨key,known,here⟩,same.symm.trans here⟩
  · rintro ⟨s,⟨key,known,here⟩,there⟩
    exact ⟨key,known,⟨s,here⟩,here.trans there.symm⟩

theorem chunkSteps_delete (keys : List Json) (rows : List Fields) :
    Keyed.assignAll (layout.slot core) (chunkSteps core layout keys []) rows =
      rows.filter fun row => !named core layout keys row := by
  simp only [chunkSteps, Keyed.writes, List.map_nil, List.filterMap_nil, List.append_nil,
    Keyed.assignAll_erasures]
  apply List.filter_congr
  intro row _
  rw [Bool.eq_iff_iff, Bool.not_eq_true', ← Bool.not_eq_true, named_iff]
  simp

theorem Routes.unique {source : Json} {r s : Routed} (first : Routes core layout ctx source r)
    (second : Routes core layout ctx source s) : r = s := by
  obtain ⟨t,k,row⟩ := r
  obtain ⟨t',k',row'⟩ := s
  obtain ⟨rfl,tier,keyed,_⟩ := first
  obtain ⟨rfl,tier',keyed',_⟩ := second
  obtain rfl : t = t' := Option.some.inj (tier.symm.trans tier')
  obtain rfl : k = k' := Option.some.inj (keyed.symm.trans keyed')
  rfl

theorem chunkRows_keys (keys : List Json) :
    chunkRows .delete (some (.array keys)) = .ok (keys,[]) := rfl

/-- A delete that returned, by the routes of its keys. -/
theorem delete_took {keys : List Json} {c d : Conn} {outcome : ChunkOutcome}
    (fits : layout.Fits ctx sink) (shaped : layout.Shaped c.db)
    (found : c.db.openChunk core layout.schema layout.name = some ctx)
    (returned : chunkFunction core .delete layout.schema layout.name (some (.array keys)) c =
      .ok outcome d) :
    SameCatalog c.db d.db ∧ ∃ rs, List.Forall₂ (Routes core layout ctx) keys rs ∧
      layout.heapRows d.db = Keyed.assignAll (layout.slot core) (rs.flatMap layout.hotErasure)
        (layout.heapRows c.db) ∧
      d.db.delta = Keyed.assignAll filed (rs.flatMap (layout.entryStep sink (tombstone core layout)))
        c.db.delta := by
  obtain ⟨pkColumns,pk,_⟩ := fits.pkColumns
  obtain ⟨writes,made,took⟩ := chunkFunction_opened found returned
  obtain ⟨rs,rs',_,_,routes,none,_,_,_,rfl⟩ :=
    (planChunk_routes fits pk (chunkRows_keys keys) nofun).mp made
  cases none
  obtain ⟨next,ran,heap,delta⟩ := removals_ran core sink shaped rs
  have sent := took.ran
  rw [chunkWrites, List.flatMap_nil, List.append_nil, ran] at sent
  cases sent
  exact ⟨took.catalog,rs,routes,heap,delta⟩

/-- What returned once returns again. -/
theorem delete_again {keys : List Json} {c d : Conn} {outcome : ChunkOutcome}
    (fits : layout.Fits ctx .delta) (shaped : layout.Shaped c.db) (quiet : c.Quiet)
    (found : c.db.openChunk core layout.schema layout.name = some ctx)
    (returned : chunkFunction core .delete layout.schema layout.name (some (.array keys)) c =
      .ok outcome d) :
    ∃ outcome' e, chunkFunction core .delete layout.schema layout.name (some (.array keys)) d =
      .ok outcome' e := by
  obtain ⟨_,_,_,_,took⟩ := chunkFunction_ok returned
  obtain ⟨same,rs,routes,_⟩ := delete_took fits shaped found returned
  obtain ⟨pkColumns,pk,_⟩ := fits.pkColumns
  obtain ⟨next,ran,_⟩ := removals_ran core .delta (shaped.same same) rs
  have goes : Goes core layout ctx .delta d.db keys [] rs [] :=
    ⟨routes,.nil,next,by rw [chunkWrites, List.flatMap_nil, List.append_nil]; exact ran⟩
  obtain ⟨e,again,_⟩ := chunk_returns fits (took.stays_quiet quiet)
    ((openChunk_same core same).trans found) pk (chunkRows_keys keys) (by simp) goes
    ((deletesLake_delta _ _ _).mpr rfl) ((upsertsLake_delta _ _).mpr rfl)
  exact ⟨_,e,again⟩

end Deletes

end TierDb.Layout

namespace TierDb

open Layout

namespace Reference

/-- A hot row, a lake row named twice, the leftover row, and a row that is nowhere. -/
def departures : List Json :=
  [.object (item 2 50 20),.object (item 1 200 10),.object (item 3 40 30),.object (item 2 50 20),
    .object (item 9 70 90)]

end Reference

/-- A delete that returns takes exactly the named rows out of the merged read. Sent again,
it leaves the heap, the delta and the merged read as they are; on a session that refuses
nothing it returns again. -/
theorem delete_exact {core : Core} {layout : Layout} {c d : Conn} {keys : List Json}
    {outcome : ChunkOutcome} (describes : layout.Describes core c.db "tiered")
    (sound : layout.Sound core c.db)
    (returned : deleteChunk core layout.schema layout.name (some (.array keys)) c =
      .ok outcome d) (lake : Lake) :
    outcome.lakeSql = [] ∧
      (layout.merged core d.db lake).Perm
        ((layout.merged core c.db lake).filter fun row => !named core layout keys row) ∧
      (∀ outcome' e, deleteChunk core layout.schema layout.name (some (.array keys)) d =
          .ok outcome' e → outcome'.lakeSql = [] ∧
        (layout.heapRows e.db).Perm (layout.heapRows d.db) ∧ e.db.delta.Perm d.db.delta ∧
        (layout.merged core e.db lake).Perm (layout.merged core d.db lake)) ∧
      (c.Quiet → ∃ outcome' e, deleteChunk core layout.schema layout.name (some (.array keys)) d =
        .ok outcome' e) := by
  have call : chunkFunction core .delete layout.schema layout.name (some (.array keys)) c =
    .ok outcome d := returned
  obtain ⟨ctx,_,found,_⟩ := chunkFunction_ok call
  have fits := describes.tiered found
  obtain ⟨none,describes',sound',_,_,moved⟩ := chunk_merged describes sound
    (chunkRows_keys keys) nofun call lake
  obtain ⟨same,rs,routes,heap,delta⟩ := delete_took fits describes.shaped found call
  refine ⟨none,moved.trans (.of_eq (chunkSteps_delete keys _)),?_,
    fun quiet => delete_again fits describes.shaped quiet found call⟩
  intro outcome' e again
  have call' : chunkFunction core .delete layout.schema layout.name (some (.array keys)) d =
    .ok outcome' e := again
  obtain ⟨none',_,_,_,_,moved'⟩ := chunk_merged describes' sound'
    (chunkRows_keys keys) nofun call' lake
  obtain ⟨_,rs',routes',heap',delta'⟩ := delete_took fits describes'.shaped
    ((openChunk_same core same).trans found) call'
  obtain rfl : rs = rs' := List.right_unique_forall₂' (fun _ _ _ first => first.unique) routes routes'
  refine ⟨none',?_,?_,?_⟩
  · rw [heap', heap]
    exact Keyed.assignAll_twice (.flatMap fun r _ => hotErasure_addressed r) _
  · rw [delta', delta]
    exact Keyed.assignAll_twice (.flatMap fun r _ => entryStep_addressed _ r) _
  · refine moved'.trans ((Keyed.assignAll_perm moved).trans ?_)
    exact (Keyed.assignAll_twice (chunkSteps_addressed keys []) _).trans moved.symm

open Reference in
theorem departures_exact : ∃ outcome d,
    deleteChunk core "public" "items" (some (.array departures)) seam = .ok outcome d ∧
    ((items 100).merged core d.db seamLake).Perm [item 4 60 40] := by
  have left : ((items 100).merged core seam.db seamLake).filter
      (fun row => !named core (items 100) departures row) = [item 4 60 40] := by decide +kernel
  have ran : Effect.returns (deleteChunk core "public" "items" (some (.array departures))
      seam) = true := by decide +kernel
  obtain ⟨outcome,d,returned⟩ := Effect.returns_iff.mp ran
  have describes : (items 100).Describes core seam.db "tiered" := database_describes _ _ _
  have exact := delete_exact describes (database_sound _ _ _) returned seamLake
  exact ⟨outcome,d,returned,left ▸ exact.2.1⟩

end TierDb
