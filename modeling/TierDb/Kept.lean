import TierDb.Payload
import TierDb.Updating

/-! The columns that an UPDATE does not assign, on their way from the merged read through the
text of the update's chunks into the new rows. -/
namespace TierDb

open Wire

namespace Wire

variable {lib : RowsText}

/-- What serde_json makes of a written value, with so many levels of nesting left. -/
def readBack (lib : RowsText) (left : Nat) (j : Json) : Json :=
  ((written lib.spelled j).read lib.double left).getD .null

theorem read_back {left : Nat} {j : Json}
    (read : ((written lib.spelled j).read lib.double left).isSome) :
    (written lib.spelled j).read lib.double left = some (readBack lib left j) := by
  obtain ⟨out,found⟩ := Option.isSome_iff_exists.mp read
  rw [readBack, found, Option.getD_some]

theorem readBack_eq {left : Nat} {j : Json}
    (read : ((written lib.spelled j).read lib.double left).isSome) (some_left : 0 < left) :
    readBack lib left j = j ↔ ∀ n ∈ jsonNumbers j, KeptNumber lib n := by
  have depth : jsonDepth j < left := by
    rw [← written_depth]
    exact ((read_isSome _ some_left).mp read).2
  have whole : (written lib.spelled j).read lib.double left = some j ↔ _ := written_read j some_left
  rw [read_back read, Option.some.injEq, and_iff_left depth] at whole
  exact whole

theorem readAll_back {js out : List Json} {left : Nat}
    (read : Document.readAll lib.double (writtenAll lib.spelled js) left = some out) :
    out = js.map (readBack lib left) ∧
      ∀ j ∈ js, ((written lib.spelled j).read lib.double left).isSome := by
  induction js generalizing out with
  | nil =>
    cases read
    exact ⟨rfl,nofun⟩
  | cons j rest ih =>
    obtain ⟨first,later,one,others,rfl⟩ := readAll_cons read
    obtain ⟨rfl,all⟩ := ih others
    refine ⟨by rw [List.map_cons, readBack, one, Option.getD_some],List.forall_mem_cons.mpr ⟨?_,all⟩⟩
    rw [one, Option.isSome_some]

theorem readMembers_back {members out : Fields} {left : Nat}
    (read : Document.readMembers lib.double (writtenMembers lib.spelled members) left = some out) :
    out = members.map (fun member => (member.1,readBack lib left member.2)) ∧
      ∀ member ∈ members, ((written lib.spelled member.2).read lib.double left).isSome := by
  induction members generalizing out with
  | nil =>
    cases read
    exact ⟨rfl,nofun⟩
  | cons member rest ih =>
    obtain ⟨first,later,one,others,rfl⟩ := readMembers_cons read
    obtain ⟨rfl,all⟩ := ih others
    refine ⟨by rw [List.map_cons, readBack, one, Option.getD_some],List.forall_mem_cons.mpr ⟨?_,all⟩⟩
    rw [one, Option.isSome_some]

/-- An array is read element by element, one level further in. -/
theorem array_back {js : List Json} {left : Nat}
    (read : ((written lib.spelled (.array js)).read lib.double left).isSome) :
    readBack lib left (.array js) = .array (js.map (readBack lib (left - 1))) ∧
      ∀ j ∈ js, ((written lib.spelled j).read lib.double (left - 1)).isSome := by
  have found := read_back read
  rw [written, Document.read] at found
  split at found
  · cases found
  · obtain ⟨out,each,same⟩ := Option.map_eq_some_iff.mp found
    rw [← same, (readAll_back each).1]
    exact ⟨rfl,(readAll_back each).2⟩

theorem object_back {members : Fields} {left : Nat}
    (read : ((written lib.spelled (.object members)).read lib.double left).isSome) :
    readBack lib left (.object members) =
        .object (members.map fun member => (member.1,readBack lib (left - 1) member.2)) ∧
      ∀ member ∈ members, ((written lib.spelled member.2).read lib.double (left - 1)).isSome := by
  have found := read_back read
  rw [written, Document.read] at found
  split at found
  · cases found
  · obtain ⟨out,each,same⟩ := Option.map_eq_some_iff.mp found
    rw [← same, (readMembers_back each).1]
    exact ⟨rfl,(readMembers_back each).2⟩

section Rows

variable {width : Nat} {sink : TierDBSink width} {chunk : List (ChunkRow width)}

/-- The rows of a chunk as the core reads them. -/
def rowsRead (lib : RowsText) (sink : TierDBSink width) (chunk : List (ChunkRow width)) : JsonText :=
  lib.serdeFromStr (cString (rowsText lib sink chunk))

theorem rowsRead_back (finite : ∀ row ∈ chunk, sink.Finite row)
    (readable : ReadableRows lib sink chunk) :
    rowsRead lib sink chunk = some (.array (chunk.map fun row => readBack lib 127 (sink.element row))) ∧
      ∀ row ∈ chunk, ((written lib.spelled (sink.element row)).read lib.double 127).isSome := by
  have read := (rowsText_readable chunk).mpr readable
  rw [rowsText_read finite, Document.fromStr] at read
  obtain ⟨same,each⟩ := array_back read
  rw [List.map_map] at same
  rw [List.forall_mem_map] at each
  rw [rowsRead, rowsText_whole, rowsText_read finite, Document.fromStr, read_back read, same]
  exact ⟨rfl,each⟩

theorem rowsRead_lost (lost : ¬∀ row ∈ chunk, sink.Finite row) :
    rowsRead lib sink chunk = some (.array []) := by
  rw [rowsRead, rowsText_whole, rowsText_lost lib sink lost, lib.read_empty]

end Rows

end Wire

namespace Layout

section Texts

variable {core : Core} {layout : Layout} {lake : Lake} {rows : List Fields} {width : Nat}
  {lib : RowsText} {sink : TierDBSink width}

/-- The assignments of a chunk as the core reads its text. -/
def textSteps (core : Core) (layout : Layout) (lib : RowsText) (sink : TierDBSink width)
    (chunk : List (ChunkRow width)) : List (Slot × Option Fields) :=
  layout.changes core sink.kind layout.schema layout.name (rowsRead lib sink chunk)

theorem textSteps_nil : layout.textSteps core lib sink [] = [] := by
  have finite : ∀ row ∈ ([] : List (ChunkRow width)), sink.Finite row := by simp
  have readable : ReadableRows lib sink [] := fun _ => by simp [AllCells, Shallow]
  rw [textSteps, (rowsRead_back finite readable).1, List.map_nil, changes_nil]

/-- A statement whose chunks cross as texts. -/
theorem Shows.sinkTexts {chunks : List (List (ChunkRow width))} {a d : Attached}
    {count reported : Nat} (shows : layout.Shows core lake rows a.conn.db)
    (scalar : ∀ chunk ∈ chunks, layout.ScalarImages core sink.kind (rowsRead lib sink chunk))
    (returned : Wire.sinkTexts lib core layout.schema layout.name sink chunks count a =
      .ok reported d) :
    layout.Shows core lake (Keyed.assignAll (layout.slot core)
      (chunks.flatMap (layout.textSteps core lib sink)) rows) d.conn.db := by
  induction chunks generalizing rows count a with
  | nil =>
    cases returned
    exact shows
  | cons chunk rest ih =>
    obtain ⟨after,b,first,later⟩ := Effect.bind_ok.mp returned
    obtain ⟨own,others⟩ := List.forall_mem_cons.mp scalar
    rw [List.flatMap_cons, Keyed.assignAll_append]
    refine ih ?_ others later
    unfold Wire.sinkText at first
    cases chunk with
    | nil =>
      cases first
      rw [textSteps_nil]
      exact shows
    | cons row rest =>
      obtain ⟨result,c,sent,counted⟩ := Effect.bind_ok.mp first
      obtain ⟨_,_,cast,done⟩ := Effect.bind_ok.mp counted
      cases done
      rw [numericCast_same cast]
      exact (shows.sinkChunk own sent).1

end Texts

end Layout

/-- A row as Postgres stores it: its json columns by their contents, the others as an image of
the row has them; and the values the merged scan returns for it. -/
structure StoredRow where
  fields : Fields
  documents : String → Option Document
  cells : MergedRow

theorem ReadAs.numbers {json : SerdeJson} {double : ℚ → Option Double}
    {content : Option Document} {cell : Value} (read : ReadAs json double content cell) :
    jsonNumbers (tierDBValueToJson cell) = [] := by
  cases read <;> rfl

namespace StoredRow

variable (row : StoredRow) (column : String × String)

/-- A column of a stored row as the scan returns it. -/
def Scanned (json : SerdeJson) (double : ℚ → Option Double) : Prop :=
  if isJsonType column.2 then ReadAs json double (row.documents column.1) (row.cells column.1)
  else tierDBValueToJson (row.cells column.1) = valueOf row.fields column.1

/-- Another row has the same content in the column. -/
def KeptIn (new : Fields) : Prop :=
  if isJsonType column.2 then
    (valueOf new column.1).content = (row.documents column.1).map Document.value
  else valueOf new column.1 = valueOf row.fields column.1

def IsNull : Prop :=
  if isJsonType column.2 then row.documents column.1 = none
  else valueOf row.fields column.1 = .null

/-- The content survives the text of the chunk and, in a json column, parsing. -/
def Carried (lib : RowsText) : Prop :=
  if isJsonType column.2 then KeptContent lib.double (row.documents column.1)
  else ∀ n ∈ jsonNumbers (valueOf row.fields column.1), KeptNumber lib n

variable {row column} {lib : RowsText} {core : Core} {new : Fields}

theorem keptIn_null (null : valueOf new column.1 = .null) :
    row.KeptIn column new ↔ row.IsNull column := by
  unfold KeptIn IsNull
  split
  · have none_content : Json.content .null = none := rfl
    rw [null, none_content, eq_comm, Option.map_eq_none_iff]
  · rw [null, eq_comm]

/-- A column that crosses unassigned is kept exactly when it is carried. -/
theorem keptIn_carried (scanned : row.Scanned column core.toSerdeJson lib.double) {left : Nat}
    (some_left : 0 < left) (read : ((written lib.spelled
      (tierDBValueToJson (row.cells column.1))).read lib.double left).isSome)
    (value : valueOf new column.1 = reparsed core.toSerdeJson column.2
      (readBack lib left (tierDBValueToJson (row.cells column.1)))) :
    row.KeptIn column new ↔ row.Carried column lib := by
  have back := readBack_eq read some_left
  unfold KeptIn Carried
  unfold Scanned at scanned
  cases isJson : isJsonType column.2 with
  | true =>
    rw [isJson, if_pos rfl] at scanned
    rw [if_pos rfl, if_pos rfl, value, back.mpr (by simp [scanned.numbers])]
    exact reparsed_content scanned isJson
  | false =>
    rw [isJson, if_neg (by decide)] at scanned
    have plain : ∀ v, reparsed core.toSerdeJson column.2 v = v := by
      intro v
      cases v <;> simp [reparsed, isJson]
    rw [if_neg (by decide), if_neg (by decide), value, plain, scanned]
    rw [scanned] at back
    exact back

end StoredRow

namespace UpdatePlan

variable {table : TierDBTableEntry} {rowIds : List Nat} (plan : UpdatePlan table rowIds)

/-- The statement assigns the column. -/
def Assigns (name : String) : Prop :=
  ∃ i, (table.columns.get i).1 = name ∧ (plan.set i).isSome = true

/-- The row as it is fed to the update. -/
def row (data : TierDBScanBindData) (stored : StoredRow) : ChunkRow plan.width :=
  plan.child (plan.scanned data stored.cells)

/-- The old key and the image of a fed row, as the core reads them. -/
def oldRead (lib : RowsText) (fed : ChunkRow plan.width) : Json :=
  readBack lib 126 (addCells (oldCells fed table.keyNames))

def newRead (lib : RowsText) (fed : ChunkRow plan.width) : Json :=
  readBack lib 126 (addCells (newCells fed plan.references
    (plan.columns.map fun column => (table.columns.get column).1)))

variable {plan} {lib : RowsText}

theorem element_back {fed : ChunkRow plan.width}
    (read : ((written lib.spelled (plan.sink.element fed)).read lib.double 127).isSome) :
    readBack lib 127 (plan.sink.element fed) =
        .object [("old",plan.oldRead lib fed),("new",plan.newRead lib fed)] ∧
      ((written lib.spelled (addCells (newCells fed plan.references
        (plan.columns.map fun column => (table.columns.get column).1)))).read lib.double 126).isSome := by
  obtain ⟨same,each⟩ := object_back read
  exact ⟨same,each _ (List.mem_cons_of_mem _ (List.mem_singleton_self _))⟩

/-- A chunk that can be written is read as the pairs of its rows. -/
theorem chunkRows_back {chunk : List (ChunkRow plan.width)}
    (finite : ∀ row ∈ chunk, plan.sink.Finite row) (readable : ReadableRows lib plan.sink chunk) :
    chunkRows .update (rowsRead lib plan.sink chunk) =
      .ok (chunk.map (plan.oldRead lib),chunk.map (plan.newRead lib)) := by
  obtain ⟨same,each⟩ := rowsRead_back finite readable
  have pairs : (chunk.map fun row => readBack lib 127 (plan.sink.element row)).mapM splitPair =
      .ok (chunk.map fun row => (plan.oldRead lib row,plan.newRead lib row)) := by
    rw [Effect.mapM_ok, List.forall₂_map_left_iff, List.forall₂_map_right_iff, List.forall₂_same]
    intro row member
    rw [(element_back (each row member)).1]
    simp [splitPair, Json.get, lookup]
  rw [same, Layout.chunkRows_pairs pairs, List.map_map, List.map_map]
  rfl

end UpdatePlan

namespace Layout

variable {core : Core} {layout : Layout} {entry : TierDBTableSchema} {table : TierDBTableEntry}
  {rowIds : List Nat} {plan : UpdatePlan table rowIds} {lib : RowsText} {virtual : VirtualColumns}
  {sql attachSql : String} {stored : StoredRow}

/-- An entry of the cache, for the table as it is described now. -/
theorem entryOf {db : Database} {mode : String} (covers : Covers entry db)
    (describes : layout.Describes core db mode) (schema : layout.schema = entry.schemaName)
    (name : layout.name = entry.tableName) : layout.EntryOf entry := by
  obtain ⟨row,found,_,pkCols,tierKeyCol⟩ := covers.row
  obtain ⟨row',found',_,_,_,pkCols',tierKeyCol',_⟩ := describes.row
  rw [schema, name] at found'
  obtain rfl : row = row' := by simpa using found.symm.trans found'
  obtain ⟨rel,present,columns,_,_⟩ := describes.shaped.relation
  rw [schema, name] at present
  have attributes : db.attributes entry.schemaName entry.tableName = layout.columns := by
    rw [Database.attributes, present]
    exact columns
  exact ⟨pkCols.trans pkCols',tierKeyCol.trans tierKeyCol',attributes ▸ covers.columns⟩

/-- The row that is written for a fed row. -/
def newRow (core : Core) (layout : Layout) (lib : RowsText) (plan : UpdatePlan table rowIds)
    (fed : ChunkRow plan.width) : Fields := landed core layout (plan.newRead lib fed)

/-- The members of the image of a row. -/
def readCells (lib : RowsText) (plan : UpdatePlan table rowIds) (scanned : List Value) : Fields :=
  (valueCells plan scanned).map fun cell =>
    (cString cell.1,readBack lib 125 (tierDBValueToJson cell.2))

theorem newRead_cells {scanned : List Value}
    (read : ((written lib.spelled (addCells (newCells (plan.child scanned) plan.references
      (plan.columns.map fun column => (table.columns.get column).1)))).read lib.double 126).isSome) :
    plan.newRead lib (plan.child scanned) = .object (readCells lib plan scanned) ∧
      ∀ cell ∈ valueCells plan scanned,
        ((written lib.spelled (tierDBValueToJson cell.2)).read lib.double 125).isSome := by
  rw [UpdatePlan.newRead]
  rw [UpdatePlan.child_new] at read ⊢
  obtain ⟨same,each⟩ := object_back read
  rw [List.forall_mem_map] at each
  rw [addCells, same, List.map_map]
  exact ⟨rfl,each⟩

theorem readCells_names (named : ∀ name ∈ table.columns.map Prod.fst, noNul name = true)
    (scanned : List Value) : (readCells lib plan scanned).map Prod.fst =
      (valueCells plan scanned).map Prod.fst := by
  rw [readCells, List.map_map, List.map_inj_left]
  intro cell member
  obtain ⟨i,_,rfl⟩ := List.mem_map.mp member
  exact (cString_eq _).mpr (named _ (List.mem_map_of_mem (List.get_mem table.columns i)))

/-- A column of the entry that is not assigned goes into the image as it was read. -/
theorem readCells_unassigned (distinct : (table.columns.map Prod.fst).Nodup)
    (named : ∀ name ∈ table.columns.map Prod.fst, noNul name = true)
    {i : Fin table.columns.length} (unassigned : plan.set i = none) (cells : MergedRow)
    {scanned : List Value} (asked : scanned = plan.scanned (table.bindData virtual sql attachSql) cells) :
    ((table.columns.get i).1,cells (table.columns.get i).1) ∈ valueCells plan scanned ∧
      valueOf (readCells lib plan scanned) (table.columns.get i).1 =
        readBack lib 125 (tierDBValueToJson (cells (table.columns.get i).1)) := by
  have value : plan.set.value plan.columnIds i scanned = cells (table.columns.get i).1 := by
    rw [asked, UpdatePlan.value_unassigned unassigned]
  have sent : ((table.columns.get i).1,cells (table.columns.get i).1) ∈ valueCells plan scanned :=
    List.mem_map.mpr ⟨i,plan.each.mem_iff.mpr (List.mem_finRange i),by rw [value]⟩
  have plain : cString (table.columns.get i).1 = (table.columns.get i).1 :=
    (cString_eq _).mpr (named _ (List.mem_map_of_mem (List.get_mem table.columns i)))
  have unique : ((readCells lib plan scanned).map Prod.fst).Nodup := by
    rw [readCells_names named]
    exact valueCells_names distinct plan scanned
  have found := lookup_of_mem unique (List.mem_map.mpr ⟨_,sent,by rw [plain]⟩)
  exact ⟨sent,by rw [valueOf, found, Option.getD_some]⟩

theorem readCells_outside (named : ∀ name ∈ table.columns.map Prod.fst, noNul name = true)
    {name : String} (outside : name ∉ table.columns.map Prod.fst) (scanned : List Value) :
    valueOf (readCells lib plan scanned) name = .null := by
  have absent : name ∉ (readCells lib plan scanned).map Prod.fst := by
    rw [readCells_names named, valueCells, List.map_map]
    intro listed
    obtain ⟨i,_,rfl⟩ := List.mem_map.mp listed
    exact outside (List.mem_map_of_mem (List.get_mem table.columns i))
  rw [valueOf, lookup_of_not_mem absent]
  rfl

/-- The new row has what was stored in every column that the statement does not assign. -/
def KeepsUnassigned (layout : Layout) (plan : UpdatePlan table rowIds) (stored : StoredRow)
    (new : Fields) : Prop :=
  ∀ column ∈ layout.columns, ¬plan.Assigns column.1 → stored.KeptIn column new

/-- Nothing is stored outside the cached entry, and inside it nothing that is lost on the way,
but for the columns that are assigned. -/
def Keepable (layout : Layout) (lib : RowsText) (plan : UpdatePlan table rowIds)
    (stored : StoredRow) : Prop :=
  ∀ column ∈ layout.columns, ¬plan.Assigns column.1 →
    if column.1 ∈ table.columns.map Prod.fst then stored.Carried column lib
    else stored.IsNull column

/-- The scan returns the columns of the entry as they are stored. -/
def ScansStored (core : Core) (layout : Layout) (lib : RowsText) (table : TierDBTableEntry)
    (stored : StoredRow) : Prop :=
  ∀ column ∈ layout.columns, column.1 ∈ table.columns.map Prod.fst →
    stored.Scanned column core.toSerdeJson lib.double

theorem newRow_keeps_iff (is : layout.EntryOf table.schema) (distinct : layout.names.Nodup)
    (named : ∀ name ∈ layout.names, noNul name = true) (scans : ScansStored core layout lib table stored)
    {fed : ChunkRow plan.width} (made : fed = plan.row (table.bindData virtual sql attachSql) stored)
    (read : ((written lib.spelled (addCells (newCells fed plan.references
      (plan.columns.map fun column => (table.columns.get column).1)))).read lib.double 126).isSome) :
    layout.KeepsUnassigned plan stored (newRow core layout lib plan fed) ↔
      layout.Keepable lib plan stored := by
  subst made
  obtain ⟨image,each⟩ := newRead_cells read
  have unique : (table.columns.map Prod.fst).Nodup := entry_names table ▸ is.distinct distinct
  have inside : ∀ name ∈ table.columns.map Prod.fst, noNul name = true := by
    intro name member
    rw [entry_names] at member
    obtain ⟨column,listed,rfl⟩ := List.mem_map.mp member
    exact named _ (List.mem_map_of_mem (is.mem listed))
  refine forall₂_congr fun column member => imp_congr_right fun unassigned => ?_
  have value : valueOf (newRow core layout lib plan
      (plan.row (table.bindData virtual sql attachSql) stored)) column.1 =
        reparsed core.toSerdeJson column.2 (valueOf (readCells lib plan
          (plan.scanned (table.bindData virtual sql attachSql) stored.cells)) column.1) := by
    rw [newRow, UpdatePlan.row, image]
    exact landed_value distinct _ member
  by_cases known : column.1 ∈ table.columns.map Prod.fst
  · obtain ⟨own,listed,here⟩ := List.mem_map.mp known
    obtain ⟨i,rfl⟩ := List.get_of_mem listed
    have none_set : plan.set i = none := by
      by_contra set
      exact unassigned ⟨i,here,Option.isSome_iff_ne_none.mpr set⟩
    obtain ⟨sent,read_back⟩ := readCells_unassigned unique inside none_set stored.cells rfl
    rw [here] at sent read_back
    rw [read_back] at value
    rw [if_pos known]
    exact StoredRow.keptIn_carried (scans column member known) (by decide) (each _ sent) value
  · rw [readCells_outside inside known] at value
    rw [if_neg known]
    exact StoredRow.keptIn_null value

end Layout

section Statement

variable {table : TierDBTableEntry} {rowIds : List Nat}

/-- The rows of a chunk that are updated: none where a number of the chunk is NaN or infinite. -/
def UpdatePlan.updated (plan : UpdatePlan table rowIds) (data : TierDBScanBindData)
    (chunk : List StoredRow) : List StoredRow :=
  if ∀ row ∈ chunk, plan.sink.Finite (plan.row data row) then chunk else []

open Layout

variable {core : Core} {layout : Layout} {plan : UpdatePlan table rowIds} {lib : RowsText}
  {data : TierDBScanBindData}

/-- The old keys of fed rows are erased and their new rows written. -/
def Layout.replacements (core : Core) (layout : Layout) (lib : RowsText)
    (plan : UpdatePlan table rowIds) (fed : List (ChunkRow plan.width)) :
    List (Slot × Option Fields) :=
  Keyed.erasures ((fed.map (plan.oldRead lib)).filterMap (layout.slotOf core)) ++
    Keyed.writes (layout.slot core) (fed.map (layout.newRow core lib plan))

theorem chunkRows_updated {chunk : List StoredRow}
    (readable : ReadableRows lib plan.sink (chunk.map (plan.row data))) :
    chunkRows .update (rowsRead lib plan.sink (chunk.map (plan.row data))) =
      .ok (((plan.updated data chunk).map (plan.row data)).map (plan.oldRead lib),
        ((plan.updated data chunk).map (plan.row data)).map (plan.newRead lib)) := by
  by_cases finite : ∀ row ∈ chunk, plan.sink.Finite (plan.row data row)
  · rw [UpdatePlan.updated, if_pos finite]
    exact UpdatePlan.chunkRows_back (List.forall_mem_map.mpr finite) readable
  · rw [UpdatePlan.updated, if_neg finite, rowsRead_lost (by rwa [List.forall_mem_map])]
    rfl

theorem updated_steps {chunk : List StoredRow}
    (readable : ReadableRows lib plan.sink (chunk.map (plan.row data))) :
    layout.textSteps core lib plan.sink (chunk.map (plan.row data)) =
      layout.replacements core lib plan ((plan.updated data chunk).map (plan.row data)) := by
  rw [textSteps, changes_own plan.sink.kind (chunkRows_updated readable), chunkSteps, replacements]
  congr 2
  exact List.map_map

end Statement

namespace Reference

/-- The table of items after a fourth column was added. -/
def wideItems : Layout where
  schema := "public"
  name := "items"
  tableId := 1
  lakeRef := "lake.items"
  columns := columns ++ [("w","bigint")]
  pkCols := ["id"]
  tierKeyCol := "ts"
  tierKeyType := bigint
  cut := 100
  pk_columns := by decide
  tier_column := by decide

def freshCatalog : Catalog := { sys := system (database "tiered" 100 [item 1 200 10]) }

def widen (value : Json) : List CatalogEvent :=
  [.lookup "public" "items" [],.addColumn "public" "items" "w" "bigint" value]

/-- The entry was made before the relation got its fourth column. -/
def widened (value : Json) : Catalog where
  sys := system ((database "tiered" 100 [item 1 200 10]).addColumn "public" "items" "w" "bigint" value)
  tables := [(("public","items"),itemsEntry)]

theorem widen_runs (value : Json) :
    Runs.run (catalogStep core) freshCatalog (widen value) = some (widened value) := by
  rfl

theorem widened_bound (value : Json) :
    lookupEntry core "public" "items" ((widened value).withVerdicts []) =
      .ok (some itemsTable.schema) (widened value) := by
  rfl

theorem widened_describes (value : Json) :
    wideItems.Describes core (widened value).db "tiered" :=
  ⟨⟨registration "tiered",rfl,rfl,rfl,rfl,rfl,rfl,rfl,rfl⟩,rfl,rfl⟩

def wideRow (value : Json) : StoredRow where
  fields := item 1 200 10 ++ [("w",value)]
  documents _ := none
  cells := fullCells 1 200 10

/-- The call of the update for the row. -/
def wideFed (value : Json) : ChunkRow incrementPlan.width :=
  incrementPlan.row (itemsTable.bindData virtualColumns "" "") (wideRow value)

/-- UPDATE items SET v = v + 1, on the wider table. -/
def updateWidened (value : Json) : EStateM.Result String Attached Nat :=
  sinkTexts halfText core "public" "items" incrementPlan.sink [[wideFed value]] 0
    ((widened value).sys.enter 0 {} [] [])

theorem wideRow_scanned (value : Json) :
    Layout.ScansStored core wideItems halfText itemsTable (wideRow value) := by
  intro column member known
  have inside : column ∈ [("id","bigint"),("ts","bigint"),("v","bigint")] := by
    simp [wideItems, columns, itemsTable] at member known ⊢
    grind
  have plain : isJsonType column.2 = false := by
    revert column
    decide +kernel
  rw [StoredRow.Scanned, plain, if_neg (by decide)]
  simp only [List.mem_cons, List.not_mem_nil, or_false] at inside
  rcases inside with rfl | rfl | rfl <;> rfl

theorem wideRow_keepable : wideItems.Keepable halfText incrementPlan (wideRow .null) := by
  intro column member unassigned
  simp only [wideItems, columns, List.cons_append, List.nil_append, List.mem_cons,
    List.not_mem_nil, or_false] at member
  have plain : isJsonType "bigint" = false := by decide +kernel
  have fits : ∀ n ∈ jsonNumbers (.number (.int 1)) ++ jsonNumbers (.number (.int 200)),
      KeptNumber halfText n := by simp [jsonNumbers, KeptNumber, fits64]
  rcases member with rfl | rfl | rfl | rfl
  · rw [if_pos (by decide), StoredRow.Carried, plain]
    exact fun n inside => fits n (List.mem_append_left _ inside)
  · rw [if_pos (by decide), StoredRow.Carried, plain]
    exact fun n inside => fits n (List.mem_append_right _ inside)
  · exact absurd ⟨⟨2,by decide⟩,rfl,rfl⟩ unassigned
  · rw [if_neg (by decide), StoredRow.IsNull, plain]
    rfl

end Reference

end TierDb
