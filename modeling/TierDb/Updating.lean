import TierDb.Inserting

/-! An UPDATE statement on a tiered table, from its plan to the stores: the new values and
the old key of a row are two parts of one projected row, told apart by position. -/
namespace TierDb

/-- The bind data that `GetScanFunction` makes. -/
def TierDBTableEntry.bindData (virtual : VirtualColumns) (table : TierDBTableEntry)
    (sql attachSql : String) : TierDBScanBindData :=
  scanBindData sql attachSql (table.columns.map Prod.fst) (table.routing virtual)

/-- The expressions of the SET clause, over the scanned row. -/
abbrev SetClause (table : TierDBTableEntry) := Fin table.columns.length → Option (List Value → Value)

/-- A column that is not assigned is set to itself, as `BindUpdateConstraints` has it. -/
def SetClause.value {table : TierDBTableEntry} (set : SetClause table) (columnIds : List Nat)
    (column : Fin table.columns.length) (scanned : List Value) : Value :=
  match set column with
  | some f => f scanned
  | none => scanned.getD (columnIds.idxOf column.val) .null

/-- DuckDB's plan of an UPDATE: what its scan asks for, the columns it sets, every column of
the table among them, and the projection with the value of each. The row-id columns are
projected last, in the order they were given. -/
structure UpdatePlan (table : TierDBTableEntry) (rowIds : List Nat) where
  set : SetClause table
  columnIds : List Nat
  requested : ∀ column, set column = none → column.val ∈ columnIds
  columns : List (Fin table.columns.length)
  each : columns.Perm (List.finRange table.columns.length)
  projected : List (List Value → Value)
  expressions : List (Fin projected.length)
  computes : List.Forall₂ (fun column e => projected.get e = set.value columnIds column)
    columns expressions
  rowIdColumns : List (Fin columnIds.length)
  ordered : rowIdColumns.map columnIds.get = rowIds

/-- An expression is the position of its column in the chunks of the child. -/
def planUpdate {width : Nat} (virtual : VirtualColumns) (table : TierDBTableEntry)
    (returnChunk : Bool) (columns : List (Fin table.columns.length))
    (expressions : List (Fin width)) : Except String (TierDBSink width) := do
  if returnChunk then
    throw "tierdb: UPDATE ... RETURNING is not supported yet"
  if expressions.length ≠ columns.length then
    throw "tierdb: update expressions do not match the projected columns"
  let routing ← table.routingColumns virtual
  return .update expressions (columns.map fun column => (table.columns.get column).1)
    (routing.map TierDBRoutingColumn.name)

namespace UpdatePlan

variable {table : TierDBTableEntry} {rowIds : List Nat} (plan : UpdatePlan table rowIds)

/-- The columns of a projected row. -/
abbrev width : Nat := plan.projected.length + plan.rowIdColumns.length

/-- The row as it reaches the update. -/
def child (scanned : List Value) : ChunkRow plan.width :=
  ⟨(plan.projected.map (· scanned) ++
    plan.rowIdColumns.map fun i => scanned.getD i.val .null).toArray,by simp⟩

/-- The values the plan's scan returns for a row. -/
def scanned (data : TierDBScanBindData) (row : MergedRow) : List Value :=
  plan.columnIds.map (data.cell row)

def references : List (Fin plan.width) := plan.expressions.map (Fin.castAdd _)

/-- The sink `planUpdate` makes of the plan. -/
def sink : TierDBSink plan.width :=
  .update plan.references (plan.columns.map fun column => (table.columns.get column).1) table.keyNames

/-- The value that the SET clause assigns to a column. -/
def assigned (scanned : List Value) (name : String) : Option Json :=
  ((List.finRange table.columns.length).find? fun i => (table.columns.get i).1 = name).bind fun i =>
    (plan.set i).map fun f => (f scanned).json

/-- The row as it is fed to the update. -/
def fed (data : TierDBScanBindData) (p : Fields × MergedRow) : ChunkRow plan.width :=
  plan.child (plan.scanned data p.2)

/-- The row that the statement makes of a stored row and its cells. -/
def new (core : Core) (layout : Layout) (data : TierDBScanBindData) (p : Fields × MergedRow) : Fields :=
  Layout.updatedRow core layout table.schema (plan.assigned (plan.scanned data p.2)) p.1

variable {plan} {virtual : VirtualColumns}

theorem planned (virtual : VirtualColumns) (sql attachSql : String) :
    table.getScanFunction virtual sql attachSql =
        .ok (table.bindData virtual sql attachSql) ∧
      planUpdate virtual table false plan.columns plan.references = .ok plan.sink := by
  have routing := table.routingColumns_made virtual
  constructor
  · rw [TierDBTableEntry.getScanFunction, routing]
    rfl
  · have length : plan.references.length = plan.columns.length := by
      rw [references, List.length_map]
      exact plan.computes.length_eq.symm
    rw [sink, ← table.routing_names virtual, planUpdate, routing]
    simp [bind, Except.bind, pure, Except.pure, length]

theorem rowIds_routed (plan : UpdatePlan table rowIds)
    (ids : table.getRowIdColumns virtual = .ok rowIds) :
    plan.rowIdColumns.map plan.columnIds.get =
      (table.routing virtual).map TierDBRoutingColumn.virtualId := by
  rw [TierDBTableEntry.getRowIdColumns, table.routingColumns_made virtual] at ids
  exact plan.ordered.trans (Except.ok.inj ids).symm

/-- The old key of a row is in the trailing columns of its projected row. -/
theorem child_old {sql attachSql : String} (room : table.HasRoom virtual)
    (ids : table.getRowIdColumns virtual = .ok rowIds) (row : MergedRow) :
    oldCells (plan.child (plan.scanned (table.bindData virtual sql attachSql) row)) table.keyNames =
      table.keyNames.map fun name => (name,row name) := by
  have routed := plan.rowIds_routed ids
  have counted : table.keyNames.length = plan.rowIdColumns.length := by
    have lengths := congrArg List.length routed
    rw [List.length_map, List.length_map] at lengths
    rw [lengths, ← table.routing_names virtual, List.length_map]
  have same : plan.width - table.keyNames.length = plan.projected.length := by
    rw [counted, width, Nat.add_sub_cancel]
  have trailing : (plan.child (plan.scanned (table.bindData virtual sql attachSql) row)).toList.drop
      plan.projected.length = table.keyNames.map row := by
    have cells := @routing_cells virtual table sql attachSql room row
    rw [← routed, List.map_map] at cells
    rw [← cells]
    simp [child, scanned, TierDBTableEntry.bindData]
  have named : (table.keyNames.map id).zip (table.keyNames.map row) =
      table.keyNames.map fun name => (name,row name) := List.zip_map'
  rw [oldCells, same, trailing]
  rwa [List.map_id] at named

/-- The new values are found at the positions of their expressions. -/
theorem child_new (scanned : List Value) :
    newCells (plan.child scanned) plan.references
        (plan.columns.map fun column => (table.columns.get column).1) =
      plan.columns.map fun column =>
        ((table.columns.get column).1,plan.set.value plan.columnIds column scanned) := by
  have values : plan.references.map (plan.child scanned).get =
      plan.columns.map fun column => plan.set.value plan.columnIds column scanned := by
    have at_position : ∀ e : Fin plan.projected.length,
        (plan.child scanned).get (Fin.castAdd _ e) = plan.projected.get e scanned := by
      intro e
      have element : (plan.child scanned).get (Fin.castAdd _ e) =
        (plan.child scanned)[(e : Nat)] := rfl
      rw [element]
      simp [child]
    rw [references, List.map_map, ← List.forall₂_eq_eq_eq, List.forall₂_map_left_iff,
      List.forall₂_map_right_iff]
    exact plan.computes.flip.imp fun e column same => by
      rw [Function.comp_apply, at_position, same]
  rw [newCells, values, List.zip_map']

/-- A column that the statement does not assign keeps the cell that was read. -/
theorem value_unassigned {sql attachSql : String} {column : Fin table.columns.length}
    (unassigned : plan.set column = none) (row : MergedRow) :
    plan.set.value plan.columnIds column (plan.scanned (table.bindData virtual sql attachSql) row) =
      row (table.columns.get column).1 := by
  have asked := plan.requested column unassigned
  have cell : (table.bindData virtual sql attachSql).cell row column.val =
      row (table.columns.get column).1 := by
    simp [TierDBScanBindData.cell, TierDBTableEntry.bindData, scanBindData]
  rw [SetClause.value, unassigned]
  simp only [scanned]
  rw [List.getD_eq_getElem?_getD, List.getElem?_map, List.getElem?_idxOf asked, Option.map_some,
    Option.getD_some, cell]

theorem asked (plan : UpdatePlan table rowIds) (ids : table.getRowIdColumns virtual = .ok rowIds) :
    plan.columnIds ≠ [] := by
  have routed := congrArg List.length (plan.rowIds_routed ids)
  have names := congrArg List.length (table.routing_names virtual)
  intro none_asked
  cases listed : plan.rowIdColumns with
  | nil => simp [listed, TierDBTableEntry.keyNames] at routed names; omega
  | cons i _ =>
    have inside := i.isLt
    simp [none_asked] at inside

end UpdatePlan

/-- A stored row as the scan reads it and the sink encodes it again. -/
def ReadsRow (core : Core) (table : TierDBTableEntry) (row : Fields) (cells : MergedRow) : Prop :=
  ∀ name ∈ table.keyNames ++ table.columns.map Prod.fst, tierDBValueToJson (cells name) =
    readCell core.toSerdeJson name (table.schema.columnType name) row

namespace Layout

variable {core : Core} {layout : Layout} {table : TierDBTableEntry} {rowIds : List Nat}
  {plan : UpdatePlan table rowIds} {virtual : VirtualColumns} {row : Fields} {cells : MergedRow}
  {sql attachSql : String}

/-- The object of the old key names the row that was read. -/
theorem ReadsRow.names (is : layout.EntryOf table.schema) (plain : layout.PlainKeys)
    (reads : ReadsRow core table row cells) (named : ∀ name ∈ table.keyNames, noNul name = true) :
    Names core layout (addCells (table.keyNames.map fun name => (name,cells name))) row := by
  have old : addCells (table.keyNames.map fun name => (name,cells name)) =
      table.schema.oldKey core.toSerdeJson row := by
    rw [addCells, TierDBTableSchema.oldKey, List.map_map]
    congr 1
    apply List.map_congr_left
    intro name member
    show (cString name,tierDBValueToJson (cells name)) = _
    rw [(cString_eq name).mpr (named name member), reads name (List.mem_append_left _ member)]
  rw [old]
  exact oldKey_names is plain row

/-- The cells of the new values of a row. -/
def valueCells (plan : UpdatePlan table rowIds) (scanned : List Value) : List (String × Value) :=
  plan.columns.map fun column =>
    ((table.columns.get column).1,plan.set.value plan.columnIds column scanned)

theorem finRange_names (table : TierDBTableEntry) :
    ((List.finRange table.columns.length).map fun i => (table.columns.get i).1) =
      table.columns.map Prod.fst := by
  rw [← Function.comp_def, ← List.map_map, List.map_get_finRange]

theorem valueCells_names (distinct : (table.columns.map Prod.fst).Nodup)
    (plan : UpdatePlan table rowIds) (scanned : List Value) :
    ((valueCells plan scanned).map Prod.fst).Nodup := by
  rw [← finRange_names] at distinct
  rw [valueCells, List.map_map]
  exact (plan.each.map _).nodup_iff.mpr distinct

/-- The value a projected row has for a column of the table. -/
theorem valueCells_value (distinct : (table.columns.map Prod.fst).Nodup)
    (plan : UpdatePlan table rowIds) (scanned : List Value)
    (plain : ∀ cell ∈ valueCells plan scanned, noNul cell.1 = true)
    (column : Fin table.columns.length) :
    valueOf ((valueCells plan scanned).map fun (key,value) => (cString key,tierDBValueToJson value))
        (table.columns.get column).1 =
      tierDBValueToJson (plan.set.value plan.columnIds column scanned) := by
  have listed : column ∈ plan.columns := plan.each.mem_iff.mpr (List.mem_finRange column)
  have here : ((table.columns.get column).1,plan.set.value plan.columnIds column scanned) ∈
      valueCells plan scanned := List.mem_map_of_mem listed
  have found : (valueCells plan scanned).lookup (table.columns.get column).1 =
      some (plan.set.value plan.columnIds column scanned) := by
    have names := valueCells_names distinct plan scanned
    obtain ⟨front,back,split⟩ := List.append_of_mem here
    rw [split, List.map_append, List.map_cons, List.nodup_append] at names
    rw [List.lookup_eq_some_iff]
    refine ⟨front,back,split,fun cell member => ?_⟩
    rw [bne_iff_ne]
    exact (names.2.2 _ (List.mem_map_of_mem member) _ List.mem_cons_self).symm
  rw [valueOf, lookup_cells (valueCells_names distinct plan scanned) plain, found]
  rfl

theorem find_named {α : Type} {f : α → String} {xs : List α} (distinct : (xs.map f).Nodup) {x : α}
    (member : x ∈ xs) : xs.find? (fun y => f y = f x) = some x := by
  have known : (xs.find? fun y => f y = f x).isSome :=
    List.find?_isSome.mpr ⟨x,member,decide_eq_true rfl⟩
  obtain ⟨y,found⟩ := Option.isSome_iff_exists.mp known
  have same : f y = f x := by simpa using List.find?_some found
  rw [found, List.inj_on_of_nodup_map distinct (List.mem_of_find?_eq_some found) member same]

theorem assigned_get (distinct : (table.columns.map Prod.fst).Nodup)
    (plan : UpdatePlan table rowIds) (scanned : List Value) (column : Fin table.columns.length) :
    plan.assigned scanned (table.columns.get column).1 =
      (plan.set column).map fun f => (f scanned).json := by
  rw [← finRange_names] at distinct
  have named : (List.finRange table.columns.length).find?
      (fun i => (table.columns.get i).1 = (table.columns.get column).1) = some column :=
    find_named distinct (List.mem_finRange column)
  rw [UpdatePlan.assigned, named, Option.bind_some]

theorem schema_columnType (distinct : (table.schema.columns.map TierDBColumn.name).Nodup)
    {column : TierDBColumn} (member : column ∈ table.schema.columns) :
    table.schema.columnType column.name = column.pgType := by
  have named : table.schema.columns.find? (fun other => other.name = column.name) = some column :=
    find_named distinct member
  rw [TierDBTableSchema.columnType, named]
  rfl

theorem newImage_value (distinct : (table.schema.columns.map TierDBColumn.name).Nodup)
    (assigned : String → Option Json) {column : TierDBColumn} (member : column ∈ table.schema.columns) :
    valueOf (table.schema.columns.map fun c => (c.name,(assigned c.name).getD
        (readCell core.toSerdeJson c.name c.pgType row))) column.name =
      (assigned column.name).getD (readCell core.toSerdeJson column.name column.pgType row) := by
  have sent := lookup_of_mem (by simpa [Function.comp_def] using distinct)
    (List.mem_map_of_mem (f := fun c => (c.name,(assigned c.name).getD
      (readCell core.toSerdeJson c.name c.pgType row))) member)
  rw [valueOf, sent, Option.getD_some]

/-- The new values of an encodable row are stored as an update through the entry stores them. -/
theorem values_landed (is : layout.EntryOf table.schema) (distinct : layout.names.Nodup)
    (reads : ReadsRow core table row cells)
    (encodable : ∀ cell ∈ valueCells plan (plan.scanned (table.bindData virtual sql attachSql) cells),
      noNul cell.1 = true ∧ cell.2.cText = true) :
    landed core layout
        (addCells (valueCells plan (plan.scanned (table.bindData virtual sql attachSql) cells))) =
      plan.new core layout (table.bindData virtual sql attachSql) (row,cells) := by
  rw [UpdatePlan.new]
  generalize same : plan.scanned (table.bindData virtual sql attachSql) cells = scanned at *
  have names := is.distinct distinct
  have unique : (table.columns.map Prod.fst).Nodup := entry_names table ▸ names
  rw [addCells, updatedRow, TierDBTableSchema.newImage, landed_fields distinct,
    landed_fields distinct]
  apply List.map_congr_left
  intro column member
  congr 2
  by_cases inside : column.1 ∈ table.columns.map Prod.fst
  · obtain ⟨made,listed,here⟩ := List.mem_map.mp inside
    obtain ⟨i,rfl⟩ := List.get_of_mem listed
    rw [entry_names table] at inside
    obtain ⟨own,known,named⟩ := List.mem_map.mp inside
    rw [← here, valueCells_value unique plan scanned fun cell listed => (encodable cell listed).1]
    rw [here, ← named, newImage_value names _ known, named, ← here, assigned_get unique]
    cases unassigned : plan.set i with
    | some f =>
      have sent : (plan.set.value plan.columnIds i scanned).cText = true :=
        (encodable _ (List.mem_map_of_mem (plan.each.mem_iff.mpr (List.mem_finRange i)))).2
      rw [(toJson_describes _).mpr sent, SetClause.value, unassigned]
      rfl
    | none =>
      have type := schema_columnType names known
      rw [named, ← here] at type
      rw [← same, UpdatePlan.value_unassigned unassigned,
        reads _ (List.mem_append_right _ (List.mem_map_of_mem listed)), type]
      rfl
  · have absent : (valueCells plan scanned).lookup column.1 = none := by
      rw [List.lookup_eq_none_iff]
      intro cell listed
      obtain ⟨i,_,rfl⟩ := List.mem_map.mp listed
      rw [bne_iff_ne]
      rintro named
      exact inside (named ▸ List.mem_map_of_mem (List.get_mem table.columns i))
    rw [valueOf, lookup_cells (valueCells_names unique plan scanned) fun cell listed =>
      (encodable cell listed).1, absent, valueOf, lookup_of_not_mem]
    · rfl
    · rw [entry_names table] at inside
      simpa using inside

section Sent

variable {width : Nat} {indexes : List (Fin width)} {colNames keyNames : List String}

/-- The old key and the new image that an update row is sent as. -/
def sentPair (indexes : List (Fin width)) (colNames keyNames : List String) (row : ChunkRow width) :
    Json × Json :=
  (addCells (oldCells row keyNames),addCells (newCells row indexes colNames))

theorem chunkRows_sent (chunk : List (ChunkRow width)) :
    chunkRows .update (some (.array (chunk.map (TierDBSink.update indexes colNames keyNames).element))) =
      .ok ((chunk.map (sentPair indexes colNames keyNames)).map Prod.fst,
        (chunk.map (sentPair indexes colNames keyNames)).map Prod.snd) := by
  apply chunkRows_pairs
  rw [Effect.mapM_ok, List.forall₂_map_left_iff, List.forall₂_map_right_iff, List.forall₂_same]
  intro row _
  simp [TierDBSink.element, splitPair, Json.get, lookup, sentPair]

/-- The chunks of an UPDATE are batches, one after the other. -/
theorem update_steps {chunks : List (List (ChunkRow width))}
    (finite : ∀ chunk ∈ chunks, ∀ row ∈ chunk,
      (TierDBSink.update indexes colNames keyNames).Finite row) :
    chunks.flatMap (layout.steps core (.update indexes colNames keyNames)) =
      ((chunks.map (List.map (sentPair indexes colNames keyNames))).map
        (part core layout)).flatMap (Keyed.batch (layout.slot core)) := by
  rw [List.map_map, List.flatMap_map]
  apply List.flatMap_congr
  intro chunk inside
  rw [steps_read (finite chunk inside) (chunkRows_sent chunk), chunkSteps_part]
  rfl

/-- Rows whose new places are the old places of no others are in parts that are apart,
however they are cut. -/
theorem parts_apart {chunks : List (List (ChunkRow width))}
    (apart : chunks.flatten.Pairwise fun c e =>
      layout.slot core (landed core layout (sentPair indexes colNames keyNames c).2) ≠
        layout.slotOf core (sentPair indexes colNames keyNames e).1) :
    ((chunks.map (List.map (sentPair indexes colNames keyNames))).map
      (part core layout)).Pairwise (Keyed.Apart (layout.slot core)) := by
  rw [List.map_map, List.pairwise_map]
  refine (List.pairwise_flatten.mp apart).2.imp fun {earlier later} away => ?_
  simp only [Keyed.Apart, part, Function.comp_apply, List.map_map, List.mem_filterMap, List.mem_map]
  rintro _ ⟨c,inEarlier,rfl⟩ k ⟨_,⟨e,inLater,rfl⟩,there⟩ here
  exact away c inEarlier e inLater (here.trans there.symm)

/-- Then the chunks do what their rows do in one chunk. -/
theorem update_joined {chunks : List (List (ChunkRow width))}
    (finite : ∀ chunk ∈ chunks, ∀ row ∈ chunk,
      (TierDBSink.update indexes colNames keyNames).Finite row)
    (apart : chunks.flatten.Pairwise fun c e =>
      layout.slot core (landed core layout (sentPair indexes colNames keyNames c).2) ≠
        layout.slotOf core (sentPair indexes colNames keyNames e).1) (rows : List Fields) :
    (Keyed.assignAll (layout.slot core)
        (chunks.flatMap (layout.steps core (.update indexes colNames keyNames))) rows).Perm
      (Keyed.assignAll (layout.slot core) (chunkSteps core layout
        ((chunks.flatten.map (sentPair indexes colNames keyNames)).map Prod.fst)
        ((chunks.flatten.map (sentPair indexes colNames keyNames)).map Prod.snd)) rows) := by
  rw [update_steps finite, chunkSteps_part, List.map_flatten, part_flatten]
  exact Keyed.assignAll_of_last (Keyed.batches_addressed _) (Keyed.batch_addressed _)
    (Keyed.lastOf_batches (parts_apart apart)) rows

end Sent

end Layout

namespace Layout

variable {core : Core} {layout : Layout} {table : TierDBTableEntry} {rowIds : List Nat}
  {plan : UpdatePlan table rowIds} {virtual : VirtualColumns} {sql attachSql : String}
  {p : Fields × MergedRow}

/-- The pair that a selected row is sent as. -/
def fedPair (plan : UpdatePlan table rowIds) (row : ChunkRow plan.width) : Json × Json :=
  sentPair plan.references (plan.columns.map fun column => (table.columns.get column).1)
    table.keyNames row

/-- It names the row and carries the image of the new one. -/
theorem fed_sends (is : layout.EntryOf table.schema) (distinct : layout.names.Nodup)
    (plain : layout.PlainKeys) (room : table.HasRoom virtual)
    (ids : table.getRowIdColumns virtual = .ok rowIds) (reads : ReadsRow core table p.1 p.2)
    (encodable : plan.sink.Encodable (plan.fed (table.bindData virtual sql attachSql) p)) :
    Names core layout (fedPair plan (plan.fed (table.bindData virtual sql attachSql) p)).1 p.1 ∧
      landed core layout (fedPair plan (plan.fed (table.bindData virtual sql attachSql) p)).2 =
        plan.new core layout (table.bindData virtual sql attachSql) p := by
  obtain ⟨_,texts⟩ := encodable
  simp only [UpdatePlan.sink, TierDBSink.cells, UpdatePlan.fed, UpdatePlan.child_old room ids,
    UpdatePlan.child_new, List.forall_mem_append, List.forall_mem_map] at texts
  simp only [fedPair, sentPair, UpdatePlan.fed, UpdatePlan.child_old room ids, UpdatePlan.child_new]
  constructor
  · exact ReadsRow.names is plain reads fun name member => (texts.1 name member).1
  · refine values_landed is distinct reads ?_
    rw [valueCells, List.forall_mem_map]
    exact texts.2

end Layout

/-- No new row has the key of another row, or the old place of another selected one. -/
structure Layout.Separate (core : Core) (layout : Layout) (new : Fields × MergedRow → Fields)
    (selected : List (Fields × MergedRow)) (rest : List Fields) : Prop where
  keys : Keyed.Unique (layout.key core) (selected.map new)
  fresh : ∀ p ∈ selected, ∀ row ∈ rest, layout.key core row ≠ layout.key core (new p)
  places : selected.Pairwise fun p q => layout.slot core (new p) ≠ layout.slot core q.1 ∧
    layout.slot core (new q) ≠ layout.slot core p.1

namespace Layout

section UpdatedRows

variable {core : Core} {layout : Layout} {rows rest : List Fields} {table : TierDBTableEntry}
  {rowIds : List Nat} {plan : UpdatePlan table rowIds} {data : TierDBScanBindData}
  {fed : List (Fields × MergedRow)} {chunks : List (List (ChunkRow plan.width))}

/-- The selected rows of an UPDATE as it is fed them, in the order of the scan: each is sent as
a pair that names the row and carries the image of the new one. -/
structure FedPairs (core : Core) (layout : Layout) (plan : UpdatePlan table rowIds)
    (data : TierDBScanBindData) (fed : List (Fields × MergedRow))
    (chunks : List (List (ChunkRow plan.width))) : Prop where
  flat : chunks.flatten = fed.map (plan.fed data)
  encodable : ∀ p ∈ fed, plan.sink.Encodable (plan.fed data p)
  scalar : ∀ p ∈ fed, layout.Scalar (.object (plan.new core layout data p))
  names : ∀ p ∈ fed, Names core layout (fedPair plan (plan.fed data p)).1 p.1
  carries : ∀ p ∈ fed, landed core layout (fedPair plan (plan.fed data p)).2 =
    plan.new core layout data p

theorem FedPairs.finite (pairs : FedPairs core layout plan data fed chunks) :
    ∀ chunk ∈ chunks, ∀ row ∈ chunk, plan.sink.Finite row :=
  chunks_of_fed pairs.flat fun p member => (pairs.encodable p member).1

theorem FedPairs.olds (pairs : FedPairs core layout plan data fed chunks) :
    List.Forall₂ (Names core layout) ((chunks.flatten.map (fedPair plan)).map Prod.fst)
      (fed.map Prod.fst) := by
  rw [pairs.flat, List.map_map, List.map_map, List.forall₂_map_left_iff, List.forall₂_map_right_iff,
    List.forall₂_same]
  exact pairs.names

theorem FedPairs.news (pairs : FedPairs core layout plan data fed chunks) :
    ((chunks.flatten.map (fedPair plan)).map Prod.snd).map (landed core layout) =
      fed.map (plan.new core layout data) := by
  rw [pairs.flat, List.map_map, List.map_map, List.map_map]
  exact List.map_congr_left fun p member => pairs.carries p member

theorem FedPairs.apart (pairs : FedPairs core layout plan data fed chunks)
    (places : fed.Pairwise fun p q =>
      layout.slot core (plan.new core layout data p) ≠ layout.slot core q.1) :
    chunks.flatten.Pairwise fun c e =>
      layout.slot core (landed core layout (fedPair plan c).2) ≠
        layout.slotOf core (fedPair plan e).1 := by
  rw [pairs.flat, List.pairwise_map]
  refine places.imp_of_mem fun {p q} inP inQ away => ?_
  rw [pairs.carries p inP, (pairs.names q inQ).slot]
  exact away

theorem FedPairs.scalars (pairs : FedPairs core layout plan data fed chunks) :
    ∀ chunk ∈ chunks, layout.ScalarImages core .update (plan.sink.rowsJson chunk) := by
  have written : ∀ chunk ∈ chunks, ∀ row ∈ chunk,
      layout.Scalar (normalized core layout (fedPair plan row).2) := by
    refine chunks_of_fed pairs.flat fun p member => ?_
    rw [← landed_scalar, pairs.carries p member]
    exact pairs.scalar p member
  intro chunk inside
  rw [rowsJson_finite _ (pairs.finite chunk inside), ScalarImages, images, UpdatePlan.sink,
    chunkRows_sent, List.forall_mem_map, List.forall_mem_map]
  exact written chunk inside

theorem FedPairs.sides (pairs : FedPairs core layout plan data fed chunks)
    (slotted : ∀ chunk ∈ chunks, chunk ≠ [] →
      Slotted core layout .update (plan.sink.rowsJson chunk)) :
    ∀ q ∈ chunks.flatten.map (fedPair plan), (layout.slotOf core q.1).isSome ∧
      (layout.slot core (landed core layout q.2)).isSome := by
  rw [List.forall_mem_map]
  intro row member
  obtain ⟨chunk,inside,holds⟩ := List.mem_flatten.mp member
  have placed := slotted chunk inside (List.ne_nil_of_mem holds)
  rw [rowsJson_finite _ (pairs.finite chunk inside)] at placed
  obtain ⟨old,new⟩ := placed _ _ (chunkRows_sent chunk)
  simp only [List.forall_mem_map] at old new
  exact ⟨old row holds,new row holds⟩

/-- The chunks of an UPDATE replace the selected rows. -/
theorem FedPairs.turns (pairs : FedPairs core layout plan data fed chunks)
    (unique : Keyed.Unique (layout.key core) rows)
    (split : rows.Perm (fed.map Prod.fst ++ rest))
    (separate : layout.Separate core (plan.new core layout data) fed rest) :
    layout.Turns core plan.sink chunks rows (rest ++ fed.map (plan.new core layout data)) where
  scalar := pairs.scalars
  assigns slotted := by
    have sides := pairs.sides slotted
    have apart := pairs.apart (separate.places.imp fun away => away.1)
    have keys : Keyed.Unique (layout.key core)
        (((chunks.flatten.map (fedPair plan)).map Prod.snd).map (landed core layout)) := by
      rw [pairs.news]
      exact separate.keys
    have fresh : ∀ image ∈ (chunks.flatten.map (fedPair plan)).map Prod.snd, ∀ row ∈ rest,
        layout.key core row ≠ layout.key core (landed core layout image) := by
      intro image member row other
      have known : landed core layout image ∈ fed.map (plan.new core layout data) := by
        rw [← pairs.news]
        exact List.mem_map_of_mem member
      obtain ⟨p,listed,same⟩ := List.mem_map.mp known
      rw [← same]
      exact separate.fresh p listed row other
    obtain ⟨replaced,unique'⟩ := chunkSteps_relational unique split pairs.olds keys fresh
      (List.forall_mem_map.mpr fun q member => (sides q member).1)
      (List.forall_mem_map.mpr fun q member => (sides q member).2)
    rw [pairs.news] at replaced unique'
    exact ⟨(update_joined pairs.finite apart _).trans replaced,unique'⟩

/-- The order of the rows does not matter. -/
theorem Separate.perm {new : Fields × MergedRow → Fields} {selected : List (Fields × MergedRow)}
    (separate : layout.Separate core new selected rest) (order : fed.Perm selected) :
    layout.Separate core new fed rest where
  keys := separate.keys.perm (order.symm.map new)
  fresh p member := separate.fresh p (order.mem_iff.mp member)
  places := (order.pairwise_iff fun away => away.symm).mpr separate.places

end UpdatedRows

section FedSelection

variable {core : Core} {layout : Layout} {table : TierDBTableEntry} {rowIds : List Nat}
  {plan : UpdatePlan table rowIds} {virtual : VirtualColumns} {sql attachSql : String}
  {selected : List (Fields × MergedRow)} {chunks : List (List (ChunkRow plan.width))}

/-- The rows of an UPDATE reach it in the order of its scan. -/
theorem fed_pairs (is : layout.EntryOf table.schema) (distinct : layout.names.Nodup)
    (plain : layout.PlainKeys) (room : table.HasRoom virtual)
    (ids : table.getRowIdColumns virtual = .ok rowIds)
    (reads : ∀ p ∈ selected, ReadsRow core table p.1 p.2)
    (encodable : ∀ p ∈ selected,
      plan.sink.Encodable (plan.fed (table.bindData virtual sql attachSql) p))
    (scalar : ∀ p ∈ selected,
      layout.Scalar (.object (plan.new core layout (table.bindData virtual sql attachSql) p)))
    (cut : chunks.flatten.Perm (selected.map (plan.fed (table.bindData virtual sql attachSql)))) :
    ∃ fed, fed.Perm selected ∧
      FedPairs core layout plan (table.bindData virtual sql attachSql) fed chunks := by
  obtain ⟨fed,flat,order⟩ := map_of_perm cut
  have sends : ∀ p ∈ fed,
      Names core layout (fedPair plan (plan.fed (table.bindData virtual sql attachSql) p)).1 p.1 ∧
        landed core layout (fedPair plan (plan.fed (table.bindData virtual sql attachSql) p)).2 =
          plan.new core layout (table.bindData virtual sql attachSql) p := by
    intro p member
    have member := order.mem_iff.mp member
    exact fed_sends is distinct plain room ids (reads p member) (encodable p member)
  exact ⟨fed,order,flat,fun p member => encodable p (order.mem_iff.mp member),
    fun p member => scalar p (order.mem_iff.mp member),fun p member => (sends p member).1,
    fun p member => (sends p member).2⟩

end FedSelection

end Layout

open Layout

namespace Reference

/-- The cells of an item. -/
def fullCells (id ts v : Int) : MergedRow
  | "v" => .signed v
  | name => itemCells id ts name

def increment : List Value → Value
  | .signed v :: _ => .signed (v + 1)
  | _ => .null

/-- UPDATE items SET v = v + 1: the other two columns are set to themselves. -/
def incrementSet : SetClause itemsTable
  | ⟨2,_⟩ => some increment
  | _ => none

def incrementPlan : UpdatePlan itemsTable [2^63 + 1,2^63 + 2] where
  set := incrementSet
  columnIds := [2,0,1,2^63 + 1,2^63 + 2]
  requested column _ := by
    revert column
    decide
  columns := [⟨2,by decide⟩,⟨0,by decide⟩,⟨1,by decide⟩]
  each := by decide
  projected := [increment,fun scanned => scanned.getD 1 .null,fun scanned => scanned.getD 2 .null]
  expressions := [0,1,2]
  computes := .cons rfl (.cons rfl (.cons rfl .nil))
  rowIdColumns := [3,4]
  ordered := by decide

def staleItems : List (Fields × MergedRow) :=
  [(item 1 200 10,fullCells 1 200 10),(item 4 60 40,fullCells 4 60 40)]

end Reference

end TierDb
