import TierDb.Images
import TierDb.Refined
import TierDb.Reordering
import TierDb.RowKeys

/-! A whole statement on a tiered table: the planned sink, fed the rows of the statement in
whatever chunks. What its chunks assign comes to one change of the merged read. -/
namespace TierDb

namespace Layout

section Sinks

variable {core : Core} {layout : Layout} {lake : Lake} {rows : List Fields} {width : Nat}

theorem changes_own (kind : ChunkKind) {rowsJson : JsonText} {removed written : List Json}
    (read : chunkRows kind rowsJson = .ok (removed,written)) :
    layout.changes core kind layout.schema layout.name rowsJson =
      chunkSteps core layout removed written := by
  simp [changes, read]

/-- A sink call on a tiered table that returned. It runs no lake statement. -/
theorem Shows.sinkChunk {kind : ChunkKind} {rowsJson : JsonText} {a d : Attached} {count : Int}
    (shows : layout.Shows core lake rows a.conn.db) (scalar : layout.ScalarImages core kind rowsJson)
    (returned : TierDb.sinkChunk core kind layout.schema layout.name rowsJson a = .ok count d) :
    layout.Shows core lake (Keyed.assignAll (layout.slot core)
        (layout.changes core kind layout.schema layout.name rowsJson) rows) d.conn.db ∧
      d.lakeSide = a.lakeSide ∧ Slotted core layout kind rowsJson := by
  obtain ⟨b,outcome,c,side,begun,chunked,ran,rfl,_⟩ := sinkChunk_returned returned
  obtain ⟨same,sameLake⟩ := ensureWriteTxn_same begun
  rw [← same] at shows
  obtain ⟨shown,noLake,slotted⟩ := shows.chunk scalar chunked
  rw [noLake] at ran
  cases ran
  exact ⟨shown,sameLake,slotted⟩

/-- The assignments of one chunk of a statement. -/
def steps (core : Core) (layout : Layout) (sink : TierDBSink width) (chunk : List (ChunkRow width)) :
    List (Slot × Option Fields) :=
  layout.changes core sink.kind layout.schema layout.name (sink.rowsJson chunk)

theorem changes_nil (kind : ChunkKind) :
    layout.changes core kind layout.schema layout.name (some (.array [])) = [] := by
  cases kind <;> simp [changes, chunkRows, rowsOf, chunkSteps, Keyed.erasures, Keyed.writes, bind,
    Except.bind, pure, Except.pure]

theorem steps_nil (sink : TierDBSink width) : layout.steps core sink [] = [] := by
  have empty : sink.rowsJson [] = some (.array []) := by
    simp [TierDBSink.rowsJson, yyjsonMutWrite, Json.finite, Json.finiteAll]
  rw [steps, empty, changes_nil]

theorem numericCast_same {n : Int} {m : Nat} {a b : Attached} (cast : numericCast n a = .ok m b) :
    b = a := by
  unfold numericCast at cast
  split at cast <;> cases cast
  rfl

/-- One call of a sink; no call is made for an empty chunk. -/
theorem Shows.sink {sink : TierDBSink width} {chunk : List (ChunkRow width)} {a d : Attached}
    {count after : Nat} (shows : layout.Shows core lake rows a.conn.db)
    (scalar : layout.ScalarImages core sink.kind (sink.rowsJson chunk))
    (returned : sink.sink core layout.schema layout.name chunk count a = .ok after d) :
    layout.Shows core lake (Keyed.assignAll (layout.slot core) (layout.steps core sink chunk) rows)
        d.conn.db ∧
      d.lakeSide = a.lakeSide ∧
      (chunk ≠ [] → Slotted core layout sink.kind (sink.rowsJson chunk)) := by
  cases chunk with
  | nil =>
    cases returned
    rw [steps_nil]
    exact ⟨shows,rfl,fun some => absurd rfl some⟩
  | cons row rest =>
    obtain ⟨result,b,sent,counted⟩ := Effect.bind_ok.mp returned
    obtain ⟨_,_,cast,done⟩ := Effect.bind_ok.mp counted
    cases done
    rw [numericCast_same cast]
    obtain ⟨shown,sameLake,slotted⟩ := shows.sinkChunk scalar sent
    exact ⟨shown,sameLake,fun _ => slotted⟩

/-- A statement that returned made the assignments of its chunks, in order. -/
theorem Shows.sinkAll {sink : TierDBSink width} {chunks : List (List (ChunkRow width))}
    {a d : Attached} {count reported : Nat} (shows : layout.Shows core lake rows a.conn.db)
    (scalar : ∀ chunk ∈ chunks, layout.ScalarImages core sink.kind (sink.rowsJson chunk))
    (returned : sink.sinkAll core layout.schema layout.name chunks count a = .ok reported d) :
    layout.Shows core lake (Keyed.assignAll (layout.slot core)
        (chunks.flatMap (layout.steps core sink)) rows) d.conn.db ∧
      d.lakeSide = a.lakeSide ∧
      ∀ chunk ∈ chunks, chunk ≠ [] → Slotted core layout sink.kind (sink.rowsJson chunk) := by
  induction chunks generalizing rows count a with
  | nil => cases returned; exact ⟨shows,rfl,by simp⟩
  | cons chunk rest ih =>
    obtain ⟨after,b,first,later⟩ := Effect.bind_ok.mp returned
    obtain ⟨shown,same,slotted⟩ := shows.sink (scalar chunk List.mem_cons_self) first
    obtain ⟨shown',same',slotted'⟩ :=
      ih shown (fun chunk member => scalar chunk (List.mem_cons_of_mem _ member)) later
    rw [List.flatMap_cons, Keyed.assignAll_append]
    refine ⟨shown',same'.trans same,fun chunk member => ?_⟩
    rcases List.mem_cons.mp member with rfl | member
    · exact slotted
    · exact slotted' chunk member

theorem steps_read {sink : TierDBSink width} {chunk : List (ChunkRow width)}
    {removed written : List Json} (finite : ∀ row ∈ chunk, sink.Finite row)
    (read : chunkRows sink.kind (some (.array (chunk.map sink.element))) = .ok (removed,written)) :
    layout.steps core sink chunk = chunkSteps core layout removed written := by
  rw [steps, rowsJson_finite sink finite, changes_own sink.kind read]

/-- A call of a sink returns when its chunk function does. -/
theorem sink_goes {sink : TierDBSink width} {chunk : List (ChunkRow width)}
    {schema table : String} {a d : Attached} {count : Nat} :
    (∃ after, sink.sink core schema table chunk count a = .ok after d) ↔
      if chunk = [] then d = a
      else ∃ n, sinkChunk core sink.kind schema table (sink.rowsJson chunk) a = .ok n d := by
  cases chunk with
  | nil =>
    simp only [if_true]
    constructor
    · rintro ⟨_,done⟩
      cases done
      rfl
    · rintro rfl
      exact ⟨_,rfl⟩
  | cons row rest =>
    rw [if_neg (List.cons_ne_nil _ _)]
    constructor
    · rintro ⟨after,returned⟩
      obtain ⟨result,b,sent,counted⟩ := Effect.bind_ok.mp returned
      obtain ⟨_,_,cast,done⟩ := Effect.bind_ok.mp counted
      cases done
      exact ⟨_,numericCast_same cast ▸ sent⟩
    · rintro ⟨n,sent⟩
      obtain ⟨_,_,_,outcome,_,_,made,_,_,rfl⟩ := sinkChunk_ok sent
      have cast : numericCast outcome.count d = .ok outcome.count.toNat d := by
        rw [numericCast, if_neg (by rw [(planChunk_outcome made).1]; omega)]
        rfl
      exact ⟨_,Effect.bind_ok.mpr ⟨_,d,sent,Effect.bind_ok.mpr ⟨_,d,cast,rfl⟩⟩⟩

theorem sinkAll_rows {sink : TierDBSink width} {chunks : List (List (ChunkRow width))}
    {schema table : String} {a d : Attached} {reported : Nat}
    (finite : ∀ chunk ∈ chunks, ∀ row ∈ chunk, sink.Finite row)
    (returned : sink.sinkAll core schema table chunks 0 a = .ok reported d) :
    reported = chunks.flatten.length := by
  rw [sinkAll_count returned, Nat.zero_add, List.length_flatten]
  congr 1
  apply List.map_congr_left
  intro chunk member
  rw [rowsJson_finite sink (finite chunk member), rowCount, List.length_map]

end Sinks

section Deleted

variable {core : Core} {layout : Layout} {lake : Lake} {rows : List Fields} {width : Nat}
  {keyIndexes : List (Fin width)} {keyNames : List String}

/-- The chunks of a DELETE erase the slots their rows name. -/
theorem delete_steps {chunks : List (List (ChunkRow width))}
    (finite : ∀ chunk ∈ chunks, ∀ row ∈ chunk,
      (TierDBSink.delete keyIndexes keyNames).Finite row) :
    chunks.flatMap (layout.steps core (.delete keyIndexes keyNames)) =
      Keyed.erasures ((chunks.flatten.map (TierDBSink.delete keyIndexes keyNames).element).filterMap
        (layout.slotOf core)) := by
  induction chunks with
  | nil => rfl
  | cons chunk rest ih =>
    rw [List.forall_mem_cons] at finite
    rw [List.flatMap_cons, steps_read finite.1 (chunkRows_keys _), ih finite.2, chunkSteps,
      List.flatten_cons, List.map_append, List.filterMap_append, Keyed.erasures, Keyed.erasures,
      Keyed.erasures, List.map_append]
    simp [Keyed.writes]

/-- A delete of a tiered table on a poised session returns exactly when its keys are routed. -/
theorem deleteCall_goes {ctx : ChunkContext} {a : Attached} {keys : List Json}
    (fits : layout.Fits ctx .delta) (poised : Poised core layout ctx a) :
    (∃ b, Sinks core .delete layout.schema layout.name keys a b) ↔
      ∀ key ∈ keys, ∃ r, Routes core layout ctx key r := by
  obtain ⟨pkColumns,pk,_⟩ := fits.pkColumns
  constructor
  · rintro ⟨b,sent⟩
    obtain ⟨_,rs,_,_,_,routes,_⟩ :=
      sinks_did ⟨fits,nofun⟩ pk poised (chunkRows_keys keys) nofun sent
    exact exists_of_forall₂ routes
  · intro routed
    obtain ⟨rs,routes⟩ := forall₂_of_forall routed
    obtain ⟨c,quiet,same,go,_⟩ := sinks_chunk core .delete layout.schema layout.name keys
      poised.quiet poised.answers
    obtain ⟨next,ran,_⟩ := removals_ran core .delta poised.shaped rs
    have opens := poised.opens
    rw [← same] at opens ran
    obtain ⟨d,returned,_⟩ := chunk_returns fits quiet opens pk (chunkRows_keys keys) nofun
      ⟨routes,.nil,next,by rw [chunkWrites, List.flatMap_nil, List.append_nil]; exact ran⟩
      ((deletesLake_delta _ _ _).mpr rfl) ((upsertsLake_delta _ _).mpr rfl)
    exact go _ d returned

/-- DuckDB reads a scalar in each of these columns, with the text the core reads. -/
def ReadsKey (core : Core) (keys : List String) (row : Fields) (cells : MergedRow) : Prop :=
  ∀ key ∈ keys, (cells key).isScalar = true ∧
    core.fieldText (.object row) key = .ok ((cells key).text core.toSerdeJson)

/-- The payload of a row that was read names it. -/
theorem ReadsKey.names {keys : List String} {row : Fields} {cells : MergedRow}
    (own : keys = layout.pkCols ++ [layout.tierKeyCol]) (reads : ReadsKey core keys row cells)
    (encodable : KeyEncodable keys cells) : Names core layout (keyElement keys cells) row := by
  have texts : ∀ key ∈ keys, core.fieldText (keyElement keys cells) key =
      .ok ((cells key).text core.toSerdeJson) :=
    (keyElement_texts fun key member => (reads key member).1).mpr fun key member =>
      ⟨(encodable key member).1,(encodable key member).2.1⟩
  have same : ∀ key ∈ keys, core.fieldText (keyElement keys cells) key =
      core.fieldText (.object row) key := fun key member =>
    (texts key member).trans (reads key member).2.symm
  constructor
  · rw [Layout.key, keyOf, keyOf, SerdeJson.keyOf, SerdeJson.keyOf, core.fieldTexts_congr
      fun key member => same key (own ▸ List.mem_append_left _ member)]
  · rw [tierOf, tierOf, SerdeJson.tierKeyOf, SerdeJson.tierKeyOf, SerdeJson.tierKey,
      SerdeJson.tierKey, same layout.tierKeyCol (own ▸ by simp)]

theorem ReadsKey.keyed {keys : List String} {row : Fields} {cells : MergedRow}
    (own : keys = layout.pkCols ++ [layout.tierKeyCol]) (reads : ReadsKey core keys row cells) :
    (layout.key core row).isSome := by
  obtain ⟨texts,made⟩ := Effect.mapM_returns (f := core.fieldText (.object row)) fun key member =>
    ⟨_,(reads key (own ▸ List.mem_append_left _ member)).2⟩
  rw [Layout.key, keyOf, SerdeJson.keyOf, SerdeJson.fieldTexts, made]
  rfl

/-- A stored row is on the hot side, or not below the retention line. -/
def Retains (core : Core) (layout : Layout) (ctx : ChunkContext) (row : Fields) : Prop :=
  ∀ t, layout.tierOf core (.object row) = some t → retained core layout ctx t

theorem Names.routed {ctx : ChunkContext} {old : Json} {row : Fields}
    (names : Names core layout old row) (slotted : (layout.slot core row).isSome) :
    (∃ r, Routes core layout ctx old r) ↔ Retains core layout ctx row := by
  obtain ⟨⟨side,k⟩,here⟩ := Option.isSome_iff_exists.mp slotted
  obtain ⟨t,tier,_,keyed⟩ := slotOf_some.mp here
  constructor
  · rintro ⟨r,route⟩ t' tier'
    rw [← names.2, route.tier] at tier'
    exact Option.some.inj tier' ▸ route.retained
  · intro retains
    exact ⟨⟨t,k,old⟩,rfl,names.2.trans tier,names.1.trans keyed,retains t tier⟩

/-- A DELETE of a tiered table on a poised session returns exactly when the keys of all its
rows are routed. -/
theorem delete_goes {ctx : ChunkContext} {chunks : List (List (ChunkRow width))} {a : Attached}
    {count : Nat} (fits : layout.Fits ctx .delta) (poised : Poised core layout ctx a)
    (finite : ∀ chunk ∈ chunks, ∀ row ∈ chunk,
      (TierDBSink.delete keyIndexes keyNames).Finite row) :
    (∃ reported d, (TierDBSink.delete keyIndexes keyNames).sinkAll core layout.schema layout.name
        chunks count a = .ok reported d) ↔
      ∀ key ∈ chunks.flatten.map (TierDBSink.delete keyIndexes keyNames).element,
        ∃ r, Routes core layout ctx key r := by
  induction chunks generalizing a count with
  | nil => exact ⟨nofun,fun _ => ⟨count,a,rfl⟩⟩
  | cons chunk rest ih =>
    rw [List.forall_mem_cons] at finite
    rw [List.flatten_cons, List.map_append, List.forall_mem_append]
    have calls : ∀ b, (∃ after, (TierDBSink.delete keyIndexes keyNames).sink core layout.schema
        layout.name chunk count a = .ok after b) ↔ if chunk = [] then b = a
          else Sinks core .delete layout.schema layout.name
            (chunk.map (TierDBSink.delete keyIndexes keyNames).element) a b := by
      intro b
      rw [sink_goes, rowsJson_finite _ finite.1]
      exact .rfl
    constructor
    · rintro ⟨reported,d,returned⟩
      obtain ⟨after,b,first,later⟩ := Effect.bind_ok.mp returned
      have sent := (calls b).mp ⟨after,first⟩
      by_cases none : chunk = []
      · rw [if_pos none] at sent
        rw [none]
        exact ⟨nofun,(ih (sent ▸ poised) finite.2).mp ⟨reported,d,later⟩⟩
      · rw [if_neg none] at sent
        obtain ⟨pkColumns,pk,_⟩ := fits.pkColumns
        obtain ⟨poised',_⟩ := sinks_did ⟨fits,nofun⟩ pk poised (chunkRows_keys _) nofun sent
        exact ⟨(deleteCall_goes fits poised).mp ⟨b,sent⟩,(ih poised' finite.2).mp ⟨reported,d,later⟩⟩
    · rintro ⟨own,others⟩
      by_cases none : chunk = []
      · obtain ⟨after,first⟩ := (calls a).mpr (by rw [if_pos none])
        obtain ⟨reported,d,later⟩ := (ih poised finite.2).mpr others
        exact ⟨reported,d,Effect.bind_ok.mpr ⟨after,a,first,later⟩⟩
      · obtain ⟨b,sent⟩ := (deleteCall_goes fits poised).mpr own
        obtain ⟨pkColumns,pk,_⟩ := fits.pkColumns
        obtain ⟨poised',_⟩ := sinks_did ⟨fits,nofun⟩ pk poised (chunkRows_keys _) nofun sent
        obtain ⟨after,first⟩ := (calls b).mpr (by rw [if_neg none]; exact sent)
        obtain ⟨reported,d,later⟩ := (ih poised' finite.2).mpr others
        exact ⟨reported,d,Effect.bind_ok.mpr ⟨after,b,first,later⟩⟩

theorem map_of_perm {α β : Type} {f : α → β} {xs : List β} {ys : List α}
    (perm : xs.Perm (ys.map f)) : ∃ zs : List α, xs = zs.map f ∧ zs.Perm ys := by
  have swapped : Relation.Comp (· = List.map f ·) (·.Perm ·) xs ys := by
    rw [List.eq_map_comp_perm]
    exact perm
  exact swapped

/-- What holds of the rows that were fed holds of the rows of the chunks. -/
theorem chunks_of_fed {α : Type} {f : α → ChunkRow width} {fed : List α}
    {chunks : List (List (ChunkRow width))} {p : ChunkRow width → Prop}
    (flat : chunks.flatten = fed.map f) (all : ∀ a ∈ fed, p (f a)) :
    ∀ chunk ∈ chunks, ∀ row ∈ chunk, p row := by
  intro chunk inside row member
  have known : row ∈ chunks.flatten := List.mem_flatten.mpr ⟨chunk,inside,member⟩
  rw [flat] at known
  obtain ⟨a,listed,rfl⟩ := List.mem_map.mp known
  exact all a listed

end Deleted

/-- The calls of a statement, where they name and write rows with a slot only, turn the rows
of the table into others. -/
structure Turns (core : Core) (layout : Layout) {width : Nat} (sink : TierDBSink width)
    (chunks : List (List (ChunkRow width))) (before after : List Fields) : Prop where
  scalar : ∀ chunk ∈ chunks, layout.ScalarImages core sink.kind (sink.rowsJson chunk)
  assigns : (∀ chunk ∈ chunks, chunk ≠ [] → Slotted core layout sink.kind (sink.rowsJson chunk)) →
    (Keyed.assignAll (layout.slot core) (chunks.flatMap (layout.steps core sink)) before).Perm after ∧
      Keyed.Unique (layout.key core) after

section DeletedRows

variable {core : Core} {layout : Layout} {rows rest : List Fields} {entry : TierDBTableEntry}
  {rowIds : List Nat} {plan : RowIdPlan rowIds} {data : TierDBScanBindData}
  {selected fed : List (Fields × MergedRow)} {chunks : List (List (ChunkRow plan.carried.length))}

theorem EntryOf.keyNames (is : layout.EntryOf entry.schema) :
    entry.keyNames = layout.pkCols ++ [layout.tierKeyCol] := by
  rw [TierDBTableEntry.keyNames, is.pkCols, is.tierKeyCol]

/-- A selected row as it reaches the delete. -/
def deletedRow (plan : RowIdPlan rowIds) (data : TierDBScanBindData) (p : Fields × MergedRow) :
    ChunkRow plan.carried.length := plan.child (plan.scanned data p.2)

/-- The rows of a DELETE that the delete is fed, in the order of the scan. -/
structure FedKeys (core : Core) (entry : TierDBTableEntry) (plan : RowIdPlan rowIds)
    (data : TierDBScanBindData) (fed : List (Fields × MergedRow))
    (chunks : List (List (ChunkRow plan.carried.length))) : Prop where
  cells : ∀ row, keyCells (plan.child (plan.scanned data row)) plan.expressions entry.keyNames =
    entry.keyNames.map fun name => (name,row name)
  flat : chunks.flatten = fed.map (deletedRow plan data)
  reads : ∀ p ∈ fed, ReadsKey core entry.keyNames p.1 p.2
  encodable : ∀ p ∈ fed, KeyEncodable entry.keyNames p.2

theorem FedKeys.elements (keys : FedKeys core entry plan data fed chunks) :
    chunks.flatten.map (TierDBSink.delete plan.expressions entry.keyNames).element =
      fed.map fun p => keyElement entry.keyNames p.2 := by
  rw [keys.flat, List.map_map]
  apply List.map_congr_left
  intro p _
  simp [TierDBSink.element, deletedRow, keys.cells, keyElement]

theorem FedKeys.finite (keys : FedKeys core entry plan data fed chunks) :
    ∀ chunk ∈ chunks, ∀ row ∈ chunk, (TierDBSink.delete plan.expressions entry.keyNames).Finite row := by
  refine chunks_of_fed keys.flat fun p member => ?_
  have numbers : ∀ key ∈ entry.keyNames, (p.2 key).finite = true := fun key listed =>
    (keys.encodable p member key listed).2.2
  simpa [TierDBSink.Finite, TierDBSink.cells, deletedRow, keys.cells] using numbers

theorem FedKeys.names (keys : FedKeys core entry plan data fed chunks)
    (own : entry.keyNames = layout.pkCols ++ [layout.tierKeyCol]) :
    ∀ p ∈ fed, Names core layout (keyElement entry.keyNames p.2) p.1 :=
  fun p member => (keys.reads p member).names own (keys.encodable p member)

/-- The chunks of a DELETE leave the rows that it did not select. -/
theorem FedKeys.turns (keys : FedKeys core entry plan data fed chunks)
    (own : entry.keyNames = layout.pkCols ++ [layout.tierKeyCol])
    (unique : Keyed.Unique (layout.key core) rows)
    (split : rows.Perm (fed.map Prod.fst ++ rest))
    (slotted : ∀ p ∈ fed, (layout.slot core p.1).isSome) :
    layout.Turns core (.delete plan.expressions entry.keyNames) chunks rows rest where
  scalar chunk inside := by
    rw [rowsJson_finite _ (keys.finite chunk inside)]
    exact fun image member => absurd member List.not_mem_nil
  assigns _ := by
    have named : List.Forall₂ (Names core layout)
        (fed.map fun p => keyElement entry.keyNames p.2) (fed.map Prod.fst) := by
      rw [List.forall₂_map_left_iff, List.forall₂_map_right_iff, List.forall₂_same]
      exact keys.names own
    rw [delete_steps keys.finite, keys.elements]
    refine ⟨(slot_unique unique).erasures_perm split (slots_named named ?_),
      (unique.perm split).right⟩
    rw [List.forall_mem_map]
    intro p member
    rw [(keys.names own p member).slot]
    exact slotted p member

/-- A stored row whose key is read is on a side of the cut-line. -/
theorem reads_slotted (own : entry.keyNames = layout.pkCols ++ [layout.tierKeyCol])
    (sided : Sided core layout rows) (split : rows.Perm (selected.map Prod.fst ++ rest))
    (reads : ∀ p ∈ selected, ReadsKey core entry.keyNames p.1 p.2) :
    ∀ p ∈ selected, (layout.slot core p.1).isSome := by
  intro p member
  have stored : p.1 ∈ rows := split.mem_iff.mpr (List.mem_append_left _ (List.mem_map_of_mem member))
  obtain ⟨k,keyed⟩ := Option.isSome_iff_exists.mp ((reads p member).keyed own)
  obtain ⟨side,here⟩ := sided p.1 stored k keyed
  rw [here]
  rfl

end DeletedRows

end Layout

open Layout

namespace Reference

def itemsEntry : TierDBTableSchema :=
  ⟨1,"public","items","iceberg","lake.items","ts","bigint",["id"],
    [⟨"id","bigint","bigint"⟩,⟨"ts","bigint","bigint"⟩,⟨"v","bigint","bigint"⟩]⟩

def itemsTable : TierDBTableEntry where
  schema := itemsEntry
  columns := [("id",.bigint),("ts",.bigint),("v",.bigint)]
  made := by
    exact Effect.mapM_ok.mpr (.cons (plain_column "BIGINT" (by decide) (by decide) (by decide))
      (.cons (plain_column "BIGINT" (by decide) (by decide) (by decide))
        (.cons (plain_column "BIGINT" (by decide) (by decide) (by decide)) .nil)))

/-- DELETE ... WHERE v > ...: the column is requested as well and filtered out. -/
def itemsPlan : RowIdPlan [2^63 + 1,2^63 + 2] where
  columnIds := [2,2^63 + 1,2^63 + 2]
  carried := [1,2]
  expressions := [0,1]
  ordered := by decide

/-- The cells of an item's key, as DuckDB reads them. -/
def itemCells (id ts : Int) : MergedRow
  | "id" => .signed id
  | "ts" => .signed ts
  | _ => .null

/-- The hot row and a lake row. -/
def oldItems : List (Fields × MergedRow) :=
  [(item 1 200 10,itemCells 1 200),(item 4 60 40,itemCells 4 60)]

def attachedSeam : Attached where
  txn := {}
  conn := seam
  lakeSide := ⟨seamLake,[]⟩

theorem itemsTable_ids : itemsTable.getRowIdColumns virtualColumns = .ok [2^63 + 1,2^63 + 2] := by
  rw [TierDBTableEntry.getRowIdColumns, itemsTable.routingColumns_made virtualColumns]
  rfl

theorem oldItems_read : ∀ p ∈ oldItems, ReadsKey core itemsTable.keyNames p.1 p.2 := by
  unfold ReadsKey
  decide +kernel

end Reference

end TierDb
