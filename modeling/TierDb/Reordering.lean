import TierDb.Library.Batches
import TierDb.Chunking
import TierDb.Deleting
import TierDb.Boundary

/-! Inserts and deletes cut into chunks. The rows of a statement do the same to heap, delta
and lake in any order and under any cut, and the chunks fail when the whole statement does. -/
namespace TierDb

section Calls

variable {core : Core} {kind : ChunkKind} {schema table : String}

theorem ensureWriteTxn_quiet {a : Attached} (quiet : a.conn.Quiet) :
    ∃ b, ensureWriteTxn a = .ok () b ∧ b.conn.Quiet := by
  rw [ensureWriteTxn_apply, txnBegin_apply]
  cases a.txn.writeActive with
  | true => exact ⟨a,rfl,quiet⟩
  | false =>
    cases a.conn.inTxn with
    | true => exact ⟨_,rfl,quiet⟩
    | false =>
      have clear : a.conn.client.session.verdict = none := by
        rw [Sql.Session.verdict, quiet.verdicts]
        rfl
      have tail : a.conn.client.session.verdicts.tail = [] := by rw [quiet.verdicts]; rfl
      cases block : a.conn.client.session.block with
      | aborted => exact absurd block quiet.live
      | idle =>
        simp only [Sql.beginBlock, clear, block]
        refine ⟨_,rfl,tail,?_⟩
        simp [Conn.setSession]
      | «open» working =>
        simp only [Sql.beginBlock, clear, block]
        refine ⟨_,rfl,tail,?_⟩
        show a.conn.client.session.block ≠ .aborted
        exact quiet.live

/-- A sink call on a quiet session, with a lake that refuses nothing, is its chunk function. -/
theorem sinkChunk_quiet (core : Core) (kind : ChunkKind) (schema table : String)
    (rows : JsonText) {a : Attached} (quiet : a.conn.Quiet) (answers : a.lakeSide.answers = []) :
    ∃ b : Attached, b.conn.Quiet ∧ b.conn.db = a.conn.db ∧
      sinkChunk core kind schema table rows a =
        match chunkFunction core kind schema table rows b.conn with
        | .ok outcome d => .ok outcome.count { b with
            conn := d
            lakeSide := ⟨outcome.lakeSql.foldl (fun l s => s.effect l) a.lakeSide.lake,[]⟩ }
        | .error e d => .error ("tierdb: " ++ e) { b with conn := d } := by
  obtain ⟨b,begun,quiet'⟩ := ensureWriteTxn_quiet quiet
  obtain ⟨same,side⟩ := ensureWriteTxn_same begun
  refine ⟨b,quiet',same,?_⟩
  rw [sinkChunk, Effect.bind_of_ok begun]
  cases ran : chunkFunction core kind schema table rows b.conn with
  | error e d => simp [Effect.bind_apply, client_apply, ran, Attached.withConn]
  | ok outcome d =>
    have lake : b.lakeSide = ⟨a.lakeSide.lake,[]⟩ := by
      rw [side, ← answers]
    simp [Effect.bind_apply, Effect.map_apply, client_apply, ran, Attached.withConn, Effect.zoom,
      lake, executeLakeDml_succeeds]

/-- The chunks of one statement through the sink, in order; the sum of their counts. -/
def sinkChunks (core : Core) (kind : ChunkKind) (schema table : String) :
    List (List Json) → Cpp Int
  | [] => return 0
  | rows :: rest => do
    let count ← sinkChunk core kind schema table (some (.array rows))
    let later ← sinkChunks core kind schema table rest
    return count + later

/-- The chunk of these rows returns. -/
def Sinks (core : Core) (kind : ChunkKind) (schema table : String) (rows : List Json)
    (a b : Attached) : Prop :=
  ∃ count, sinkChunk core kind schema table (some (.array rows)) a = .ok count b

theorem sinkChunk_count {rows : List Json} {a b : Attached} {count : Int}
    (returned : sinkChunk core kind schema table (some (.array rows)) a = .ok count b) :
    count = rows.length := by
  obtain ⟨_,ctx,writes,outcome,_,_,made,_,_,rfl⟩ := sinkChunk_ok returned
  exact (planChunk_outcome made).1

theorem sinkChunks_chain {parts : List (List Json)} {a b : Attached} {count : Int} :
    sinkChunks core kind schema table parts a = .ok count b ↔
      Batches.Chain (Sinks core kind schema table) parts a b ∧ count = parts.flatten.length := by
  induction parts generalizing a count with
  | nil =>
    simp only [sinkChunks, Batches.Chain, List.flatten_nil, List.length_nil, Effect.pure_apply,
      EStateM.Result.ok.injEq]
    constructor
    · rintro ⟨rfl,rfl⟩
      exact ⟨rfl,rfl⟩
    · rintro ⟨rfl,rfl⟩
      exact ⟨rfl,rfl⟩
  | cons rows rest ih =>
    rw [sinkChunks, Effect.bind_ok, Batches.Chain]
    constructor
    · rintro ⟨n,m,first,later⟩
      obtain ⟨k,t,ran,done⟩ := Effect.bind_ok.mp later
      cases done
      obtain ⟨chain,rfl⟩ := ih.mp ran
      refine ⟨⟨m,⟨n,first⟩,chain⟩,?_⟩
      rw [sinkChunk_count first, List.flatten_cons, List.length_append, Int.natCast_add]
    · rintro ⟨⟨m,⟨n,first⟩,chain⟩,rfl⟩
      have ran := ih.mpr ⟨chain,rfl⟩
      refine ⟨n,m,first,Effect.bind_ok.mpr ⟨_,b,ran,?_⟩⟩
      rw [sinkChunk_count first, List.flatten_cons, List.length_append, Int.natCast_add]
      rfl

end Calls

/-- What a sink call on a quiet session comes to. -/
theorem sinks_chunk (core : Core) (kind : ChunkKind) (schema table : String) (rows : List Json)
    {a : Attached} (quiet : a.conn.Quiet) (answers : a.lakeSide.answers = []) :
    ∃ c : Conn, c.Quiet ∧ c.db = a.conn.db ∧
      (∀ outcome d, chunkFunction core kind schema table (some (.array rows)) c =
        .ok outcome d → ∃ b, Sinks core kind schema table rows a b) ∧
      ∀ b, Sinks core kind schema table rows a b → ∃ outcome,
        chunkFunction core kind schema table (some (.array rows)) c = .ok outcome b.conn ∧
        b.lakeSide = ⟨outcome.lakeSql.foldl (fun l s => s.effect l) a.lakeSide.lake,[]⟩ := by
  obtain ⟨b,quiet',same,ran⟩ :=
    sinkChunk_quiet core kind schema table (some (.array rows)) quiet answers
  refine ⟨b.conn,quiet',same,fun outcome d returned => ?_,?_⟩
  · rw [returned] at ran
    exact ⟨_,_,ran⟩
  · rintro d ⟨count,sent⟩
    rw [ran] at sent
    cases called : chunkFunction core kind schema table (some (.array rows)) b.conn with
    | error e c => simp [called] at sent
    | ok outcome c =>
      simp only [called, EStateM.Result.ok.injEq] at sent
      obtain ⟨_,rfl⟩ := sent
      exact ⟨outcome,rfl,rfl⟩

namespace Layout

section Stored

/-- The stores of `b` are those of `a` after the steps of the rows. -/
structure Stored {κ : Type} [DecidableEq κ] (layout : Layout) (slot : Fields → Option κ)
    (hot lake : Routed → List (κ × Option Fields))
    (entry : Routed → List ((Int × String) × Option DeltaEntry)) (rs : List Routed)
    (a b : Attached) : Prop where
  heap : (layout.heapRows b.conn.db).Perm
    (Keyed.assignAll slot (rs.flatMap hot) (layout.heapRows a.conn.db))
  delta : b.conn.db.delta.Perm (Keyed.assignAll filed (rs.flatMap entry) a.conn.db.delta)
  lake : (b.lakeSide.lake layout.lakeRef).Perm
    (Keyed.assignAll slot (rs.flatMap lake) (a.lakeSide.lake layout.lakeRef))
  elsewhere : ∀ ref ≠ layout.lakeRef, b.lakeSide.lake ref = a.lakeSide.lake ref

/-- The same rows in the heap of the table, the delta and the lake, in any order. -/
structure SameStores (layout : Layout) (a b : Attached) : Prop where
  heap : (layout.heapRows a.conn.db).Perm (layout.heapRows b.conn.db)
  delta : a.conn.db.delta.Perm b.conn.db.delta
  lake : ∀ ref, (a.lakeSide.lake ref).Perm (b.lakeSide.lake ref)

variable {layout : Layout} {κ : Type} [DecidableEq κ] {slot : Fields → Option κ}
  {hot lake : Routed → List (κ × Option Fields)}
  {entry : Routed → List ((Int × String) × Option DeltaEntry)}

theorem Stored.nil (a : Attached) : Stored layout slot hot lake entry [] a a :=
  ⟨.refl _,.refl _,.refl _,fun _ _ => rfl⟩

theorem Stored.append {xs ys : List Routed} {a b c : Attached}
    (first : Stored layout slot hot lake entry xs a b)
    (second : Stored layout slot hot lake entry ys b c) :
    Stored layout slot hot lake entry (xs ++ ys) a c where
  heap := by
    rw [List.flatMap_append, Keyed.assignAll_append]
    exact second.heap.trans (Keyed.assignAll_perm first.heap)
  delta := by
    rw [List.flatMap_append, Keyed.assignAll_append]
    exact second.delta.trans (Keyed.assignAll_perm first.delta)
  lake := by
    rw [List.flatMap_append, Keyed.assignAll_append]
    exact second.lake.trans (Keyed.assignAll_perm first.lake)
  elsewhere ref away := (second.elsewhere ref away).trans (first.elsewhere ref away)

/-- The steps of two rows are at different places. -/
def Apart {κ ρ : Type} (steps : Routed → List (κ × Option ρ)) (r s : Routed) : Prop :=
  ∀ x ∈ steps r, ∀ y ∈ steps s, x.1 ≠ y.1

/-- Rows whose steps are at different places may come in any order. -/
theorem Stored.shuffle {xs ys : List Routed} {a b c : Attached}
    (first : Stored layout slot hot lake entry xs a b)
    (second : Stored layout slot hot lake entry ys a c) (perm : xs.Perm ys)
    (apart : xs.Pairwise fun r s => Apart hot r s ∧ Apart lake r s ∧ Apart entry r s)
    (addressed : ∀ r ∈ xs, Keyed.Addressed slot (hot r) ∧ Keyed.Addressed slot (lake r) ∧
      Keyed.Addressed filed (entry r)) : SameStores layout b c where
  heap := first.heap.trans ((Keyed.assignAll_shuffle perm (.refl _)
    (apart.imp fun away => away.1) fun r member => (addressed r member).1).trans second.heap.symm)
  delta := first.delta.trans ((Keyed.assignAll_shuffle perm (.refl _)
    (apart.imp fun away => away.2.2) fun r member => (addressed r member).2.2).trans
      second.delta.symm)
  lake ref := by
    by_cases own : ref = layout.lakeRef
    · subst own
      exact first.lake.trans ((Keyed.assignAll_shuffle perm (.refl _)
        (apart.imp fun away => away.2.1) fun r member => (addressed r member).2.1).trans
          second.lake.symm)
    · rw [first.elsewhere ref own, second.elsewhere ref own]

end Stored

section Chunks

variable {core : Core} {layout : Layout} {ctx : ChunkContext} {sink : ColdSink} {a b : Attached}

/-- Nothing will refuse a statement, and a chunk of the table opens with `ctx`. -/
structure Poised (core : Core) (layout : Layout) (ctx : ChunkContext) (a : Attached) : Prop where
  quiet : a.conn.Quiet
  answers : a.lakeSide.answers = []
  shaped : layout.Shaped a.conn.db
  opens : a.conn.db.openChunk core layout.schema layout.name = some ctx

theorem sinks_did {kind : ChunkKind} {rows removed written : List Json}
    {pkColumns : List Column} (serves : layout.Serves ctx sink)
    (pk : pkColumnsOf ctx.target = .ok pkColumns) (poised : Poised core layout ctx a)
    (split : chunkRows kind (some (.array rows)) = .ok (removed,written))
    (keyed : ∀ image ∈ written, (layout.key core (landed core layout image)).isSome)
    (sent : Sinks core kind layout.schema layout.name rows a b) :
    Poised core layout ctx b ∧ ∃ rs rs' deletes upserts,
      List.Forall₂ (Routes core layout ctx) removed rs ∧
      List.Forall₂ (fun image => Routes core layout ctx (normalized core layout image)) written
        rs' ∧
      DeletesLake core layout ctx sink pkColumns rs deletes ∧
      UpsertsLake core layout ctx sink rs' upserts ∧
      runAll core (chunkWrites core layout sink rs rs') a.conn.db = .ok b.conn.db ∧
      b.lakeSide.lake = (deletes ++ upserts).foldl (fun l s => s.effect l) a.lakeSide.lake := by
  obtain ⟨c,quiet,same,_,came⟩ := sinks_chunk core kind layout.schema layout.name rows
    poised.quiet poised.answers
  obtain ⟨outcome,returned,side⟩ := came b sent
  obtain ⟨writes,made,took⟩ := chunkFunction_opened (same ▸ poised.opens) returned
  obtain ⟨rs,rs',deletes,upserts,routes,routes',deleted,upserted,rfl,rfl⟩ :=
    (planChunk_routes serves.fits pk split keyed).mp made
  have ran := took.ran
  rw [same] at ran
  have kept := runAll_sameCatalog ran
  exact ⟨⟨took.stays_quiet quiet,by rw [side],poised.shaped.same kept,
    (openChunk_same core kept).trans poised.opens⟩,
    rs,rs',deletes,upserts,routes,routes',deleted,upserted,ran,by rw [side]⟩

theorem sinks_can {kind : ChunkKind} {rows removed written : List Json} {rs rs' : List Routed}
    (serves : layout.Serves ctx sink) (renders : Renders core) (poised : Poised core layout ctx a)
    (split : chunkRows kind (some (.array rows)) = .ok (removed,written))
    (keyed : ∀ image ∈ written, (layout.key core (landed core layout image)).isSome)
    (goes : Goes core layout ctx sink a.conn.db removed written rs rs') :
    ∃ b, Sinks core kind layout.schema layout.name rows a b := by
  obtain ⟨c,quiet,same,go,_⟩ := sinks_chunk core kind layout.schema layout.name rows
    poised.quiet poised.answers
  obtain ⟨pkColumns,pk,_⟩ := serves.fits.pkColumns
  obtain ⟨deletes,deleted⟩ := serves.deletes renders pkColumns rs
  obtain ⟨upserts,upserted⟩ := serves.upserts renders rs'
  have opens := poised.opens
  rw [← same] at opens goes
  obtain ⟨d,returned,_⟩ :=
    chunk_returns serves.fits quiet opens pk split keyed goes deleted upserted
  exact go _ d returned

/-- The row as the loop of the chunk function sees it. -/
def source (core : Core) (layout : Layout) (kind : ChunkKind) (row : Json) : Json :=
  match kind with
  | .insert => normalized core layout row
  | _ => row

/-- The primary key of a row image, or of a key to delete. -/
def rowKey (core : Core) (layout : Layout) (kind : ChunkKind) (row : Json) :
    Option (List String) :=
  layout.keyOf core (source core layout kind row)

/-- The row is routed, and an image is admitted by the heap. -/
def Passes (core : Core) (layout : Layout) (ctx : ChunkContext) (kind : ChunkKind) (a : Attached)
    (row : Json) : Prop :=
  ∃ r, Routes core layout ctx (source core layout kind row) r ∧
    (kind = .insert → Admits core layout a.conn.db r)

variable {kind : ChunkKind} {rows : List Json} {rs : List Routed}

theorem routes_keyed {Source : Json → Json}
    (routes : List.Forall₂ (fun row => Routes core layout ctx (Source row)) rows rs) :
    ∀ r ∈ rs, layout.keyOf core r.row = some r.key := by
  intro r member
  obtain ⟨row,route⟩ := mem_routes routes r member
  rw [route.same]
  exact route.keyed

theorem routes_keys
    (routes : List.Forall₂ (fun row => Routes core layout ctx (source core layout kind row)) rows
      rs) :
    rows.map (rowKey core layout kind) = (rs.map Routed.key).map some := by
  induction routes with
  | nil => rfl
  | cons first _ ih => rw [List.map_cons, List.map_cons, List.map_cons, ih, rowKey, first.keyed]

theorem routes_distinct
    (routes : List.Forall₂ (fun row => Routes core layout ctx (source core layout kind row)) rows
      rs) (distinct : Batches.Distinct (rowKey core layout kind) rows) :
    (rs.map Routed.key).Nodup := by
  have nodup := distinct.2
  rw [routes_keys routes] at nodup
  exact nodup.of_map some

theorem deletes_go (serves : layout.Serves ctx sink) (renders : Renders core)
    (poised : Poised core layout ctx a) :
    (∃ b, Sinks core .delete layout.schema layout.name rows a b) ↔
      ∀ row ∈ rows, Passes core layout ctx .delete a row := by
  obtain ⟨pkColumns,pk,_⟩ := serves.fits.pkColumns
  constructor
  · rintro ⟨b,sent⟩
    obtain ⟨_,rs,_,_,_,routes,_⟩ := sinks_did serves pk poised (chunkRows_keys rows) nofun sent
    intro row member
    obtain ⟨r,route⟩ := exists_of_forall₂ routes row member
    exact ⟨r,route,nofun⟩
  · intro pass
    obtain ⟨rs,routes⟩ := forall₂_of_forall fun row member =>
      (pass row member).imp fun _ passes => passes.1
    obtain ⟨next,ran,_⟩ := removals_ran core sink poised.shaped rs
    refine sinks_can serves renders poised (chunkRows_keys rows) nofun ⟨routes,.nil,next,?_⟩
    rw [chunkWrites, List.flatMap_nil, List.append_nil]
    exact ran

theorem deletes_do (serves : layout.Serves ctx sink) (poised : Poised core layout ctx a)
    (sent : Sinks core .delete layout.schema layout.name rows a b) :
    Poised core layout ctx b ∧ ∃ rs,
      List.Forall₂ (fun row => Routes core layout ctx (source core layout .delete row)) rows rs ∧
      Stored layout (layout.slot core) layout.hotErasure (layout.lakeErasure sink)
        (layout.entryStep sink (tombstone core layout)) rs a b := by
  obtain ⟨pkColumns,pk,names⟩ := serves.fits.pkColumns
  obtain ⟨poised',rs,rs',deletes,upserts,routes,none,deleted,upserted,ran,lake⟩ :=
    sinks_did serves pk poised (chunkRows_keys rows) nofun sent
  cases none
  obtain rfl : upserts = [] := by simpa [UpsertsLake] using upserted
  obtain ⟨next,ran',heap,delta⟩ := removals_ran core sink poised.shaped rs
  rw [chunkWrites, List.flatMap_nil, List.append_nil, ran'] at ran
  cases ran
  rw [List.append_nil, serves.deleted names (routes_keyed routes) deleted] at lake
  refine ⟨poised',rs,routes,.of_eq heap,.of_eq delta,?_,fun ref away => ?_⟩
  · rw [lake]
    simp
  · rw [lake]
    exact if_neg away

theorem deletes_cuttable (serves : layout.Serves ctx sink) (renders : Renders core) :
    Batches.Cuttable (Sinks core .delete layout.schema layout.name)
      (rowKey core layout .delete) (Poised core layout ctx) (Passes core layout ctx .delete)
      fun rows a b => ∃ rs,
        List.Forall₂ (fun row => Routes core layout ctx (source core layout .delete row)) rows rs ∧
        Stored layout (layout.slot core) layout.hotErasure (layout.lakeErasure sink)
          (layout.entryStep sink (tombstone core layout)) rs a b where
  goes _ _ poised _ := deletes_go serves renders poised
  does _ _ _ poised _ sent := deletes_do serves poised sent
  others _ _ _ _ _ _ := by simp [Passes]
  nothing a := ⟨[],.nil,.nil a⟩
  joins _ _ _ _ _ := by
    rintro ⟨rs,routes,first⟩ ⟨rs',routes',second⟩
    exact ⟨rs ++ rs',List.rel_append routes routes',first.append second⟩

theorem chunkRows_images (images : List Json) :
    chunkRows .insert (some (.array images)) = .ok ([],images) := rfl

theorem landed_keyed {rows : List Json}
    (distinct : Batches.Distinct (rowKey core layout .insert) rows) :
    ∀ image ∈ rows, (layout.key core (landed core layout image)).isSome := by
  intro image member
  rw [key_landed]
  exact distinct.1 image member

theorem inserts_go (serves : layout.Serves ctx sink) (renders : Renders core)
    (poised : Poised core layout ctx a)
    (distinct : Batches.Distinct (rowKey core layout .insert) rows) :
    (∃ b, Sinks core .insert layout.schema layout.name rows a b) ↔
      ∀ row ∈ rows, Passes core layout ctx .insert a row := by
  obtain ⟨pkColumns,pk,_⟩ := serves.fits.pkColumns
  constructor
  · rintro ⟨b,sent⟩
    obtain ⟨_,rs,rs',_,_,none,routes,_,_,ran,_⟩ :=
      sinks_did serves pk poised (chunkRows_images rows) (landed_keyed distinct) sent
    cases none
    rw [chunkWrites, List.flatMap_nil, List.nil_append] at ran
    have admitted := (placements_runs sink poised.shaped (routes_keyed routes)
      (routes_distinct routes distinct)).mp ⟨_,ran⟩
    have both := (List.forall₂_and_left _ _).mpr ⟨admitted,routes.flip⟩
    intro row member
    obtain ⟨r,admits,route⟩ := exists_of_forall₂ both.flip row member
    exact ⟨r,route,fun _ => admits⟩
  · intro pass
    obtain ⟨rs,both⟩ := forall₂_of_forall pass
    have routes : List.Forall₂
        (fun row => Routes core layout ctx (source core layout .insert row)) rows rs :=
      both.imp fun _ _ passes => passes.1
    have admitted : ∀ r ∈ rs, Admits core layout a.conn.db r := by
      intro r member
      obtain ⟨row,_,admits⟩ := mem_routes both r member
      exact admits rfl
    obtain ⟨next,ran⟩ := (placements_runs sink poised.shaped (routes_keyed routes)
      (routes_distinct routes distinct)).mpr admitted
    exact sinks_can serves renders poised (chunkRows_images rows) (landed_keyed distinct)
      ⟨.nil,routes,next,ran⟩

theorem inserts_do (serves : layout.Serves ctx sink) (poised : Poised core layout ctx a)
    (distinct : Batches.Distinct (rowKey core layout .insert) rows)
    (sent : Sinks core .insert layout.schema layout.name rows a b) :
    Poised core layout ctx b ∧ ∃ rs,
      List.Forall₂ (fun row => Routes core layout ctx (source core layout .insert row)) rows rs ∧
      Stored layout (layout.key core) layout.hotWrite (layout.lakeWrite sink)
        (layout.entryStep sink (upsert core layout)) rs a b := by
  obtain ⟨pkColumns,pk,_⟩ := serves.fits.pkColumns
  obtain ⟨poised',rs,rs',deletes,upserts,none,routes,deleted,upserted,ran,lake⟩ :=
    sinks_did serves pk poised (chunkRows_images rows) (landed_keyed distinct) sent
  cases none
  obtain rfl : deletes = [] := by simpa [DeletesLake] using deleted
  rw [chunkWrites, List.flatMap_nil, List.nil_append] at ran
  obtain ⟨heap,delta⟩ := placements_ran poised.shaped (routes_keyed routes) ran
  obtain ⟨written,elsewhere⟩ := serves.upserted (routes_keyed routes)
    (routes_distinct routes distinct) upserted a.lakeSide.lake
  rw [List.nil_append] at lake
  rw [← lake] at written elsewhere
  exact ⟨poised',rs',routes,.of_eq heap,.of_eq delta,written,elsewhere⟩

theorem inserts_cuttable (serves : layout.Serves ctx sink) (renders : Renders core) :
    Batches.Cuttable (Sinks core .insert layout.schema layout.name)
      (rowKey core layout .insert) (Poised core layout ctx) (Passes core layout ctx .insert)
      fun rows a b => ∃ rs,
        List.Forall₂ (fun row => Routes core layout ctx (source core layout .insert row)) rows rs ∧
        Stored layout (layout.key core) layout.hotWrite (layout.lakeWrite sink)
          (layout.entryStep sink (upsert core layout)) rs a b where
  goes _ _ poised distinct := inserts_go serves renders poised distinct
  does _ _ _ poised distinct sent := inserts_do serves poised distinct sent
  others rows a b row := by
    rintro ⟨rs,routes,stored⟩ away
    rw [routes_keys routes] at away
    refine exists_congr fun r => and_congr_right fun route => ?_
    refine forall_congr' fun _ => admits_after (routes_keyed routes) stored.heap fun member => ?_
    apply away
    rw [rowKey, route.keyed]
    exact List.mem_map_of_mem member
  nothing a := ⟨[],.nil,.nil a⟩
  joins _ _ _ _ _ := by
    rintro ⟨rs,routes,first⟩ ⟨rs',routes',second⟩
    exact ⟨rs ++ rs',List.rel_append routes routes',first.append second⟩

/-- Two rows that step in places of their own. -/
theorem Apart.of_places {κ ρ : Type} {steps : Routed → List (κ × Option ρ)} {r s : Routed}
    (place : Routed → κ) (places : ∀ r, ∀ x ∈ steps r, x.1 = place r)
    (apart : place r ≠ place s) : Apart steps r s := by
  intro x inside y inside'
  rwa [places r x inside, places s y inside']

theorem single_place {κ ρ : Type} {c : Prop} [Decidable c] {place : κ} {value : Option ρ} :
    ∀ x ∈ (if c then [(place,value)] else []), x.1 = place := by
  intro x inside
  obtain ⟨_,inside⟩ := List.mem_ite_nil_right.mp inside
  obtain rfl := List.mem_singleton.mp inside
  rfl

theorem entries_apart {entry : Routed → DeltaEntry} {r s : Routed}
    (filing : ∀ r, (entry r).pk = core.encodePk r.key)
    (first : layout.keyOf core r.row = some r.key) (second : layout.keyOf core s.row = some s.key)
    (apart : r.key ≠ s.key) : Apart (layout.entryStep sink entry) r s := by
  have place : ∀ r, ∀ x ∈ layout.entryStep sink entry r, x.1.2 = core.encodePk r.key := by
    intro r x inside
    rw [single_place x inside]
    exact filing r
  intro x inside y inside' same
  refine apart ((encodePk_iff first second).mp ?_)
  rw [← place r x inside, ← place s y inside', same]

/-- One call on the rows and calls on their parts, in another order, agree. -/
theorem stored_agree {κ : Type} [DecidableEq κ] {slot : Fields → Option κ}
    {hot lake : Routed → List (κ × Option Fields)}
    {entry : Routed → List ((Int × String) × Option DeltaEntry)}
    {passes : Attached → Json → Prop} {whole : List Json} {parts : List (List Json)}
    (cuttable : Batches.Cuttable (Sinks core kind layout.schema layout.name)
      (rowKey core layout kind) (Poised core layout ctx) passes fun rows a b => ∃ rs,
        List.Forall₂ (fun row => Routes core layout ctx (source core layout kind row)) rows rs ∧
        Stored layout slot hot lake entry rs a b)
    (apart : ∀ r s, layout.keyOf core r.row = some r.key → layout.keyOf core s.row = some s.key →
      r.key ≠ s.key → Apart hot r s ∧ Apart lake r s ∧ Apart entry r s)
    (addressed : ∀ r, layout.keyOf core r.row = some r.key → Keyed.Addressed slot (hot r) ∧
      Keyed.Addressed slot (lake r) ∧ Keyed.Addressed filed (entry r))
    (poised : Poised core layout ctx a)
    (distinct : Batches.Distinct (rowKey core layout kind) parts.flatten)
    (perm : parts.flatten.Perm whole) :
    ((∃ b, Sinks core kind layout.schema layout.name whole a b) ↔
        ∃ b, Batches.Chain (Sinks core kind layout.schema layout.name) parts a b) ∧
      ∀ b c, Sinks core kind layout.schema layout.name whole a b →
        Batches.Chain (Sinks core kind layout.schema layout.name) parts a c →
        SameStores layout b c := by
  refine ⟨cuttable.whole_goes poised distinct perm,fun b c sent chain => ?_⟩
  obtain ⟨_,rs,routes,stored⟩ :=
    cuttable.does whole a b poised (distinct.perm perm) sent
  obtain ⟨_,rs',routes',stored'⟩ := cuttable.chain_does poised distinct chain
  have keyed := routes_keyed routes
  have order : rs.Perm rs' := List.rel_perm_imp (fun _ _ _ first => first.unique) routes routes'
    perm.symm
  refine stored.shuffle stored' order ?_ fun r member => addressed r (keyed r member)
  have nodup := routes_distinct routes (distinct.perm perm)
  rw [List.Nodup, List.pairwise_map] at nodup
  exact nodup.imp_of_mem fun {r s} inside inside' =>
    apart r s (keyed r inside) (keyed s inside')

/-- On a table that is served, the calls on the parts and the one call agree. -/
theorem served_agree {whole : List Json} {parts : List (List Json)}
    (serves : layout.Serves ctx sink) (renders : Renders core) (plain : kind ≠ .update)
    (poised : Poised core layout ctx a)
    (distinct : Batches.Distinct (rowKey core layout kind) parts.flatten)
    (perm : parts.flatten.Perm whole) :
    ((∃ b, Sinks core kind layout.schema layout.name whole a b) ↔
        ∃ b, Batches.Chain (Sinks core kind layout.schema layout.name) parts a b) ∧
      ∀ b c, Sinks core kind layout.schema layout.name whole a b →
        Batches.Chain (Sinks core kind layout.schema layout.name) parts a c →
        SameStores layout b c := by
  cases kind with
  | update => exact absurd rfl plain
  | delete =>
    refine stored_agree (deletes_cuttable serves renders) ?_ ?_ poised distinct perm
    · intro r s keyed keyed' apart
      refine ⟨?_,?_,entries_apart (fun _ => rfl) keyed keyed' apart⟩
      · exact .of_places (fun r => (.hot,r.key)) (fun r => single_place) (by simpa using apart)
      · exact .of_places (fun r => (.cold,r.key)) (fun r => single_place) (by simpa using apart)
    · exact fun r keyed => ⟨hotErasure_addressed r,lakeErasure_addressed r,
        entryStep_addressed _ r⟩
  | insert =>
    refine stored_agree (inserts_cuttable serves renders) ?_ ?_ poised distinct perm
    · intro r s keyed keyed' apart
      refine ⟨?_,?_,entries_apart (fun _ => rfl) keyed keyed' apart⟩
      · exact .of_places Routed.key (fun r => single_place) apart
      · exact .of_places Routed.key (fun r => single_place) apart
    · exact fun r keyed => ⟨hotWrite_addressed keyed,lakeWrite_addressed keyed,
        entryStep_addressed _ r⟩

end Chunks

end Layout

open Layout

/-- An insert or a delete of rows with keys of their own, in one chunk or cut into chunks in
any order of the rows: the chunks return when the one chunk does, the counts add up, and
heap, delta and lake hold the same rows. -/
theorem chunks_in_any_order {core : Core} (renders : Renders core) {layout : Layout}
    {mode : String} {kind : ChunkKind} {a : Attached} {whole first : List Json}
    {rest : List (List Json)} (served : mode = "tiered" ∨ mode = "direct")
    (plain : kind ≠ .update) (describes : layout.Describes core a.conn.db mode)
    (quiet : a.conn.Quiet) (answers : a.lakeSide.answers = [])
    (distinct : Batches.Distinct (rowKey core layout kind) whole)
    (perm : whole.Perm (first :: rest).flatten) :
    ((∃ n b, sinkChunk core kind layout.schema layout.name (some (.array whole)) a = .ok n b) ↔
        ∃ n b, sinkChunks core kind layout.schema layout.name (first :: rest) a = .ok n b) ∧
      ∀ n b m c, sinkChunk core kind layout.schema layout.name (some (.array whole)) a = .ok n b →
        sinkChunks core kind layout.schema layout.name (first :: rest) a = .ok m c →
        n = whole.length ∧ m = whole.length ∧ SameStores layout b c := by
  have opened : ∀ rows n b, sinkChunk core kind layout.schema layout.name (some (.array rows)) a =
      .ok n b → ∃ ctx, a.conn.db.openChunk core layout.schema layout.name = some ctx := by
    intro rows n b sent
    obtain ⟨begun,ctx,_,_,started,found,_⟩ := sinkChunk_ok sent
    rw [(ensureWriteTxn_same started).1] at found
    exact ⟨ctx,found⟩
  have agree : ∀ ctx, a.conn.db.openChunk core layout.schema layout.name = some ctx →
      ((∃ b, Sinks core kind layout.schema layout.name whole a b) ↔
        ∃ b, Batches.Chain (Sinks core kind layout.schema layout.name) (first :: rest) a b) ∧
      ∀ b c, Sinks core kind layout.schema layout.name whole a b →
        Batches.Chain (Sinks core kind layout.schema layout.name) (first :: rest) a c →
        SameStores layout b c := by
    intro ctx found
    obtain ⟨sink,serves⟩ := describes.serves served found
    exact served_agree serves renders plain ⟨quiet,answers,describes.shaped,found⟩
      (distinct.perm perm) perm.symm
  constructor
  · constructor
    · rintro ⟨n,b,sent⟩
      obtain ⟨ctx,found⟩ := opened whole n b sent
      obtain ⟨c,chain⟩ := (agree ctx found).1.mp ⟨b,n,sent⟩
      exact ⟨_,c,sinkChunks_chain.mpr ⟨chain,rfl⟩⟩
    · rintro ⟨m,c,sent⟩
      have chain := (sinkChunks_chain.mp sent).1
      have ⟨middle,⟨n,sent'⟩,_⟩ := chain
      obtain ⟨ctx,found⟩ := opened first n middle sent'
      obtain ⟨b,k,returned⟩ := (agree ctx found).1.mpr ⟨c,chain⟩
      exact ⟨k,b,returned⟩
  · intro n b m c sent sent'
    obtain ⟨ctx,found⟩ := opened whole n b sent
    obtain ⟨chain,counted⟩ := sinkChunks_chain.mp sent'
    refine ⟨sinkChunk_count sent,?_,(agree ctx found).2 b c ⟨n,sent⟩ chain⟩
    rw [counted, perm.length_eq]

namespace Reference

/-- A call over the direct table and its lake. -/
def staged : Attached where
  txn := {}
  conn := directSeam
  lakeSide := ⟨seamLake,[]⟩

/-- A new hot row, a lake row's key, and a new cold row. -/
def crowd : List Json :=
  [.object (item 5 300 50),.object (item 2 55 51),.object (item 8 70 80)]

end Reference

open Reference in
theorem crowd_in_any_order : ∃ n b m c,
    sinkChunk core .insert "public" "items" (some (.array crowd)) staged = .ok n b ∧
    sinkChunks core .insert "public" "items" [crowd.drop 2,[],crowd.take 2] staged = .ok m c ∧
    n = 3 ∧ m = 3 ∧ SameStores (items 100) b c := by
  have renders : Renders core := ⟨fun _ _ _ => ⟨_,rfl⟩,fun _ _ _ _ => ⟨_,rfl⟩⟩
  have describes : (items 100).Describes core staged.conn.db "direct" := database_describes _ _ _
  have quiet : staged.conn.Quiet := .of_idle rfl rfl
  have distinct : Batches.Distinct (rowKey core (items 100) .insert) crowd :=
    ⟨by decide +kernel,by decide +kernel⟩
  have perm : crowd.Perm [crowd.drop 2,[],crowd.take 2].flatten := by
    show (crowd.take 2 ++ crowd.drop 2).Perm (crowd.drop 2 ++ ([] ++ (crowd.take 2 ++ [])))
    rw [List.nil_append, List.append_nil]
    exact List.perm_append_comm
  have plain : ChunkKind.insert ≠ .update := nofun
  have agree := chunks_in_any_order renders (.inr rfl) plain describes quiet rfl distinct perm
  have ran : Effect.returns (sinkChunk core .insert "public" "items" (some (.array crowd))
      staged) = true := by decide +kernel
  obtain ⟨n,b,sent⟩ := Effect.returns_iff.mp ran
  obtain ⟨m,c,cut⟩ := agree.1.mp ⟨n,b,sent⟩
  obtain ⟨one,two,same⟩ := agree.2 n b m c sent cut
  exact ⟨n,b,m,c,sent,cut,one,two,same⟩

end TierDb
