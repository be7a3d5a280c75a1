import TierDb.Statements

/-! An INSERT statement on a tiered table, from its plan to the stores: the source rows are
spread over the columns of the table and written in whatever chunks they come. -/
namespace TierDb

inductive OnConflictAction where
  | throw
  | nothing
  | update
  | replace
  deriving DecidableEq, Repr

/-- The source of an INSERT. With a column list, `columnIndexMap` has the source column of
every table column that is listed; without one the source has the table's columns. -/
structure InsertSource (table : TierDBTableEntry) where
  width : Nat
  columnIndexMap : List (Option (Fin width))
  whole : columnIndexMap = [] → width = table.columns.length
  covers : columnIndexMap ≠ [] → columnIndexMap.length = table.columns.length

namespace InsertSource

variable {table : TierDBTableEntry} (source : InsertSource table)

/-- `ResolveDefaultsProjection`: the columns of a table entry have no DEFAULT but NULL. -/
def resolved (row : ChunkRow source.width) (i : Nat) : Value :=
  ((source.columnIndexMap[i]?).join.map row.get).getD .null

/-- The rows the insert is fed; they are only projected for a column list. -/
def child (row : ChunkRow source.width) : ChunkRow table.columns.length :=
  if listed : source.columnIndexMap = [] then row.cast (source.whole listed)
  else Vector.ofFn fun i => source.resolved row i

/-- The value the statement gives to a column, NULL where it gives none. -/
def given (row : ChunkRow source.width) (name : String) : Value :=
  ((insertCells (source.child row) (table.columns.map Prod.fst)).lookup name).getD .null

end InsertSource

structure PlannedInsert (table : TierDBTableEntry) where
  width : Nat
  child : ChunkRow width → ChunkRow table.columns.length
  sink : TierDBSink table.columns.length

def planInsert (table : TierDBTableEntry) (source : Option (InsertSource table))
    (returnChunk : Bool) (onConflict : OnConflictAction) : Except String (PlannedInsert table) := do
  match source with
  | none => throw "tierdb: INSERT without a source is not supported"
  | some source =>
    if returnChunk then
      throw "tierdb: INSERT ... RETURNING is not supported yet"
    if onConflict ≠ .throw then
      throw "tierdb: INSERT ... ON CONFLICT is not supported (writes are newest-wins upserts)"
    return ⟨source.width,source.child,.insert (table.columns.map Prod.fst)⟩


theorem lookup_cells {cells : List (String × Value)} {name : String}
    (distinct : (cells.map Prod.fst).Nodup) (plain : ∀ cell ∈ cells, noNul cell.1 = true) :
    lookup name (cells.map fun (key,value) => (cString key,tierDBValueToJson value)) =
      (cells.lookup name).map tierDBValueToJson := by
  induction cells with
  | nil => rfl
  | cons cell rest ih =>
    obtain ⟨key,value⟩ := cell
    rw [List.map_cons, List.nodup_cons] at distinct
    rw [List.forall_mem_cons] at plain
    have later := ih distinct.2 plain.2
    by_cases same : name = key
    · subst same
      have absent : rest.lookup name = none := by
        rw [List.lookup_eq_none_iff]
        intro cell member
        rw [bne_iff_ne]
        intro same
        rw [same] at distinct
        exact distinct.1 (List.mem_map.mpr ⟨cell,member,rfl⟩)
      simp [lookup, later, absent, (cString_eq name).mpr plain.1]
    · have apart : (name == key) = false := by simpa using same
      simp only [List.map_cons, lookup, later, List.lookup_cons, apart,
        (cString_eq key).mpr plain.1, if_neg (Ne.symm same)]
      cases rest.lookup name <;> rfl

namespace Layout

variable {core : Core} {layout : Layout}

/-- What a written object is stored as, column by column. -/
theorem landed_fields (distinct : layout.names.Nodup) (members : Fields) :
    landed core layout (.object members) = layout.columns.map fun column =>
      (column.1,reparsed core.toSerdeJson column.2 (valueOf members column.1)) := by
  have stored : landed core layout (.object members) = layout.columns.map fun column =>
      (column.1,valueOf (layout.columns.foldl (normalizeColumn core.toSerdeJson) members) column.1) := by
    rw [landed, project, Layout.names, List.map_map]
    rfl
  rw [stored]
  apply List.map_congr_left
  intro column member
  rw [normalizeAll_value core.toSerdeJson members distinct member]

theorem landed_scalar {image : Json} :
    layout.Scalar (.object (landed core layout image)) ↔
      layout.Scalar (normalized core layout image) := by
  refine forall₂_congr fun column member => ?_
  have named : column ∈ layout.names := layout.pk_columns column member
  simp [landed, Json.get, lookup_project, named]

/-- The chunks of an INSERT write their rows in the order they come. -/
theorem insert_steps {width : Nat} {columnNames : List String} {chunks : List (List (ChunkRow width))}
    (finite : ∀ chunk ∈ chunks, ∀ row ∈ chunk, (TierDBSink.insert columnNames).Finite row) :
    chunks.flatMap (layout.steps core (.insert columnNames)) =
      Keyed.writes (layout.slot core) ((chunks.flatten.map
        (TierDBSink.insert columnNames).element).map (landed core layout)) := by
  induction chunks with
  | nil => rfl
  | cons chunk rest ih =>
    rw [List.forall_mem_cons] at finite
    rw [List.flatMap_cons, steps_read finite.1 (chunkRows_images _), ih finite.2, chunkSteps,
      List.flatten_cons, List.map_append, List.map_append, Keyed.writes_append]
    rfl

/-- The row an INSERT writes: what the statement gives its columns, with json texts parsed. -/
def insertedRow (core : Core) (layout : Layout) {table : TierDBTableEntry}
    (source : InsertSource table) (row : ChunkRow source.width) : Fields :=
  layout.columns.map fun column =>
    (column.1,reparsed core.toSerdeJson column.2 (source.given row column.1).json)

theorem entry_names (table : TierDBTableEntry) :
    table.columns.map Prod.fst = table.schema.columns.map TierDBColumn.name := by
  have named : List.Forall₂ (fun (column : TierDBColumn) made => column.name = made)
      table.schema.columns (table.columns.map Prod.fst) := by
    rw [List.forall₂_map_right_iff]
    exact table.made_columns.imp fun _ _ made => (TierDBTableEntry.columnDefinition_ok.mp made).1
  rw [← List.forall₂_eq_eq_eq, List.forall₂_map_right_iff]
  exact named.flip.imp fun _ _ same => same.symm

/-- An encodable source row is written as the statement gives it. -/
theorem inserted_landed {table : TierDBTableEntry} {source : InsertSource table}
    {row : ChunkRow source.width} (is : layout.EntryOf table.schema) (distinct : layout.names.Nodup)
    (encodable : (TierDBSink.insert (table.columns.map Prod.fst)).Encodable (source.child row)) :
    landed core layout ((TierDBSink.insert (table.columns.map Prod.fst)).element (source.child row)) =
      insertedRow core layout source row := by
  have unique : ((insertCells (source.child row) (table.columns.map Prod.fst)).map Prod.fst).Nodup := by
    have names := is.distinct distinct
    rw [← entry_names table] at names
    rw [insertCells, List.map_fst_zip (by simp)]
    exact names
  rw [TierDBSink.element, addCells, landed_fields distinct, insertedRow]
  apply List.map_congr_left
  intro column _
  rw [valueOf, lookup_cells unique fun cell member => (encodable.2 cell member).1,
    InsertSource.given]
  cases found : (insertCells (source.child row) (table.columns.map Prod.fst)).lookup column.1 with
  | none => rfl
  | some value =>
    have member : (column.1,value) ∈ insertCells (source.child row) (table.columns.map Prod.fst) := by
      rw [List.lookup_eq_some_iff] at found
      obtain ⟨front,back,same,_⟩ := found
      rw [same]
      simp
    rw [Option.map_some, Option.getD_some, Option.getD_some,
      (toJson_describes value).mpr (encodable.2 _ member).2]

section InsertedRows

variable {table : TierDBTableEntry} {source : InsertSource table}
  {given : List (ChunkRow source.width)} {chunks : List (List (ChunkRow table.columns.length))}
  {rows : List Fields}

/-- The source rows of an INSERT as the insert is fed them. -/
structure FedRows (core : Core) (layout : Layout) {table : TierDBTableEntry}
    (source : InsertSource table) (given : List (ChunkRow source.width))
    (chunks : List (List (ChunkRow table.columns.length))) : Prop where
  flat : chunks.flatten = given.map source.child
  encodable : ∀ row ∈ given,
    (TierDBSink.insert (table.columns.map Prod.fst)).Encodable (source.child row)
  scalar : ∀ row ∈ given, layout.Scalar (.object (insertedRow core layout source row))

theorem FedRows.finite (fed : FedRows core layout source given chunks) :
    ∀ chunk ∈ chunks, ∀ row ∈ chunk,
      (TierDBSink.insert (table.columns.map Prod.fst)).Finite row :=
  chunks_of_fed fed.flat fun row member => (fed.encodable row member).1

theorem FedRows.written (fed : FedRows core layout source given chunks)
    (is : layout.EntryOf table.schema) (distinct : layout.names.Nodup) :
    (chunks.flatten.map (TierDBSink.insert (table.columns.map Prod.fst)).element).map
      (landed core layout) = given.map (insertedRow core layout source) := by
  rw [fed.flat, List.map_map, List.map_map]
  apply List.map_congr_left
  intro row member
  exact inserted_landed is distinct (fed.encodable row member)

theorem FedRows.scalars (fed : FedRows core layout source given chunks)
    (is : layout.EntryOf table.schema) (distinct : layout.names.Nodup) :
    ∀ chunk ∈ chunks, layout.ScalarImages core .insert
      ((TierDBSink.insert (table.columns.map Prod.fst)).rowsJson chunk) := by
  intro chunk inside
  rw [rowsJson_finite _ (fed.finite chunk inside), ScalarImages, images, chunkRows_images,
    List.forall_mem_map]
  intro row member
  rw [← landed_scalar]
  have known : landed core layout ((TierDBSink.insert (table.columns.map Prod.fst)).element row) ∈
      given.map (insertedRow core layout source) := by
    rw [← fed.written is distinct]
    exact List.mem_map_of_mem (List.mem_map_of_mem (List.mem_flatten.mpr ⟨chunk,inside,member⟩))
  obtain ⟨source_row,listed,same⟩ := List.mem_map.mp known
  exact same ▸ fed.scalar source_row listed

/-- New keys extend the rows. -/
theorem FedRows.extends (fed : FedRows core layout source given chunks)
    (is : layout.EntryOf table.schema) (distinct : layout.names.Nodup)
    (slotted : ∀ chunk ∈ chunks, chunk ≠ [] → Slotted core layout .insert
      ((TierDBSink.insert (table.columns.map Prod.fst)).rowsJson chunk))
    (newKeys : Keyed.Unique (layout.key core) (given.map (insertedRow core layout source)))
    (fresh : ∀ row ∈ given, ∀ old ∈ rows,
      layout.key core old ≠ layout.key core (insertedRow core layout source row)) :
    Keyed.assignAll (layout.slot core)
        (Keyed.writes (layout.slot core) (given.map (insertedRow core layout source))) rows =
      rows ++ given.map (insertedRow core layout source) := by
  have slots : ∀ new ∈ given.map (insertedRow core layout source),
      (layout.slot core new).isSome := by
    rw [← fed.written is distinct, List.forall_mem_map, List.forall_mem_map]
    intro row member
    obtain ⟨chunk,inside,holds⟩ := List.mem_flatten.mp member
    have placed := slotted chunk inside (List.ne_nil_of_mem holds)
    rw [rowsJson_finite _ (fed.finite chunk inside)] at placed
    exact (placed _ _ (chunkRows_images _)).2 _ (List.mem_map_of_mem holds)
  refine Keyed.assignAll_writes slots (slot_unique newKeys) ?_
  rw [List.forall_mem_map]
  intro row member old stored same
  obtain ⟨s,here⟩ := Option.isSome_iff_exists.mp (slots _ (List.mem_map_of_mem member))
  exact fresh row member old stored
    ((key_of_slot (same.trans here)).trans (key_of_slot here).symm)

/-- The chunks of an INSERT of new keys extend the rows by what was given. -/
theorem FedRows.turns (fed : FedRows core layout source given chunks)
    (is : layout.EntryOf table.schema) (distinct : layout.names.Nodup)
    (unique : Keyed.Unique (layout.key core) rows)
    (newKeys : Keyed.Unique (layout.key core) (given.map (insertedRow core layout source)))
    (fresh : ∀ row ∈ given, ∀ old ∈ rows,
      layout.key core old ≠ layout.key core (insertedRow core layout source row)) :
    layout.Turns core (.insert (table.columns.map Prod.fst)) chunks rows
      (rows ++ given.map (insertedRow core layout source)) where
  scalar := fed.scalars is distinct
  assigns slotted := by
    rw [insert_steps fed.finite, fed.written is distinct,
      fed.extends is distinct slotted newKeys fresh]
    refine ⟨.refl _,unique.append newKeys ?_⟩
    intro old stored new member _
    obtain ⟨row,listed,rfl⟩ := List.mem_map.mp member
    exact fresh row listed old stored

end InsertedRows

end Layout

open Layout

namespace Reference

/-- INSERT INTO items (ts, id): the column `v` is not listed. -/
def listedSource : InsertSource itemsTable where
  width := 2
  columnIndexMap := [some ⟨1,by decide⟩,some ⟨0,by decide⟩,none]
  whole empty := absurd empty (List.cons_ne_nil _ _)
  covers _ := rfl

/-- A hot row and a cold one. -/
def newItems : List (ChunkRow listedSource.width) := [#v[.signed 300,.signed 5],#v[.signed 70,.signed 8]]

end Reference

end TierDb
