import TierDb.Library.SelectList
import TierDb.Catalog
import TierDb.LogicalType

/-! The scan of a table entry: the columns a query asks for, by id, and the select list that
the scan sends for them. -/
namespace TierDb

structure TierDBRoutingColumn where
  virtualId : Nat
  name : String
  type : LogicalType

structure TierDBScanBindData where
  sql : String
  attachSql : String
  columnNames : List String
  virtualToName : Nat → Option String

/-- The map of a scan's bind data, assigned column by column. -/
def virtualToName (routing : List TierDBRoutingColumn) : Nat → Option String :=
  routing.foldl (fun map rc => Function.update map rc.virtualId (some rc.name)) fun _ => none

/-- `QuoteIdent` of the scan. -/
def Cpp.quoteIdent (name : String) : String :=
  (name.toList.foldl (fun out c => (if c = '"' then out.push '"' else out).push c) "\"").push '"'

namespace TierDBScanBindData

variable (data : TierDBScanBindData)

def itemSql (colId : Nat) : String :=
  match data.columnNames[colId]? with
  | some name => Cpp.quoteIdent name
  | none =>
    match data.virtualToName colId with
    | some name => Cpp.quoteIdent name
    | none => "CAST(1 AS BIGINT)"

/-- The items from number `i` on, behind those written before. -/
def projection : List Nat → Nat → String → String
  | [], _, written => written
  | colId :: rest, i, written =>
    projection rest (i + 1) ((if i > 0 then written ++ ", " else written) ++ data.itemSql colId)

def projectedScanSql (columnIds : List Nat) : String :=
  let projection := data.projection columnIds 0 ""
  let projection := if projection.isEmpty then "CAST(1 AS BIGINT)" else projection
  "SELECT " ++ projection ++ " FROM (" ++ data.sql ++ ") tierdb_merged"

end TierDBScanBindData

theorem quoteIdent_toList (name : String) :
    (quoteIdent name).toList = Delimited.enclose '"' name.toList := by
  simp [quoteIdent, Delimited.enclose, Delimited.double]

/-- The two quoting routines agree: the loop pushes what the replacement doubles. -/
theorem quoteIdent_loop (name : String) : Cpp.quoteIdent name = quoteIdent name := by
  have pushed : ∀ (text : List Char) (out : String),
      (text.foldl (fun out c => (if c = '"' then out.push '"' else out).push c) out).toList =
        out.toList ++ Delimited.double '"' text := by
    intro text
    induction text with
    | nil => simp
    | cons c rest ih =>
      intro out
      rw [List.foldl_cons, ih]
      by_cases mark : c = '"'
      · simp [mark]
      · simp [mark, Delimited.double_cons_ne]
  apply String.toList_injective
  rw [Cpp.quoteIdent, String.toList_push, pushed, quoteIdent_toList]
  rfl

/-- CAST(1 AS BIGINT) -/
def constantItem : SelectList.Item :=
  [.word "CAST".toList,.symbol '(',.word "1".toList,.word "AS".toList,.word "BIGINT".toList,.symbol ')']

open SelectList in
theorem spells_constant : Spells "CAST(1 AS BIGINT)".toList constantItem := by
  intro item after _
  have cast : nextToken ("CAST(1 AS BIGINT)".toList ++ after) =
    some (.word "CAST".toList,"(1 AS BIGINT)".toList ++ after) := rfl
  have opening : nextToken ("(1 AS BIGINT)".toList ++ after) =
    some (.symbol '(',"1 AS BIGINT)".toList ++ after) := rfl
  have one : nextToken ("1 AS BIGINT)".toList ++ after) =
    some (.word "1".toList," AS BIGINT)".toList ++ after) := rfl
  have as_word : nextToken (" AS BIGINT)".toList ++ after) =
    some (.word "AS".toList," BIGINT)".toList ++ after) := rfl
  have bigint : nextToken (" BIGINT)".toList ++ after) =
    some (.word "BIGINT".toList,")".toList ++ after) := rfl
  have close : nextToken (")".toList ++ after) = some (.symbol ')',after) := rfl
  rw [readItems_extend cast (by decide)]
  rw [readItems_extend opening (by decide)]
  rw [readItems_extend one (by decide)]
  rw [readItems_extend as_word (by decide)]
  rw [readItems_extend bigint (by decide)]
  rw [readItems_extend close (by decide)]
  simp only [List.append_assoc]
  rfl

/-- What the item of a requested id names: the declared column of that number, else the
column a routing column of that id reads, else a constant. -/
inductive ItemOf (columnNames : List String) (routing : List TierDBRoutingColumn) (colId : Nat) :
    SelectList.Item → Prop
  | declared {name : String} (column : columnNames[colId]? = some name) :
      ItemOf columnNames routing colId [.delimited name.toList]
  | routed {rc : TierDBRoutingColumn} (above : columnNames.length ≤ colId) (member : rc ∈ routing)
      (same : rc.virtualId = colId) : ItemOf columnNames routing colId [.delimited rc.name.toList]
  | constant (above : columnNames.length ≤ colId) (other : ∀ rc ∈ routing, rc.virtualId ≠ colId) :
      ItemOf columnNames routing colId constantItem

theorem virtualToName_concat (routing : List TierDBRoutingColumn) (rc : TierDBRoutingColumn) :
    virtualToName (routing ++ [rc]) =
      Function.update (virtualToName routing) rc.virtualId (some rc.name) := by
  simp [virtualToName]

theorem virtualToName_some {routing : List TierDBRoutingColumn} {colId : Nat} {name : String}
    (found : virtualToName routing colId = some name) :
    ∃ rc ∈ routing, rc.virtualId = colId ∧ rc.name = name := by
  induction routing using List.reverseRecOn with
  | nil => cases found
  | append_singleton routing rc ih =>
    rw [virtualToName_concat, Function.update_apply] at found
    split at found
    · rename_i same
      exact ⟨rc,by simp,same.symm,Option.some.inj found⟩
    · obtain ⟨earlier,member,facts⟩ := ih found
      exact ⟨earlier,List.mem_append_left _ member,facts⟩

theorem virtualToName_none {routing : List TierDBRoutingColumn} {colId : Nat} :
    virtualToName routing colId = none ↔ ∀ rc ∈ routing, rc.virtualId ≠ colId := by
  induction routing using List.reverseRecOn with
  | nil => simp [virtualToName]
  | append_singleton routing rc ih =>
    rw [virtualToName_concat, Function.update_apply]
    split
    · rename_i same
      simp [same]
    · rename_i differ
      rw [ih, List.forall_mem_append, List.forall_mem_singleton]
      exact ⟨fun others => ⟨others,Ne.symm differ⟩,And.left⟩

namespace TierDBScanBindData

variable {data : TierDBScanBindData}

/-- What the item of an id reads as. -/
def item (data : TierDBScanBindData) (colId : Nat) : SelectList.Item :=
  match data.columnNames[colId]? with
  | some name => [.delimited name.toList]
  | none =>
    match data.virtualToName colId with
    | some name => [.delimited name.toList]
    | none => constantItem

theorem item_spelled (colId : Nat) :
    SelectList.Spells (data.itemSql colId).toList (data.item colId) ∧ data.item colId ≠ [] := by
  have quoted : ∀ name : String, SelectList.Spells (Cpp.quoteIdent name).toList
      [.delimited name.toList] := by
    intro name
    rw [quoteIdent_loop, quoteIdent_toList]
    exact SelectList.spells_delimited name.toList
  unfold itemSql item
  cases data.columnNames[colId]? with
  | some name => exact ⟨quoted name,List.cons_ne_nil _ _⟩
  | none =>
    cases data.virtualToName colId with
    | some name => exact ⟨quoted name,List.cons_ne_nil _ _⟩
    | none => exact ⟨spells_constant,List.cons_ne_nil _ _⟩

theorem item_names {routing : List TierDBRoutingColumn} (colId : Nat)
    (built : data.virtualToName = TierDb.virtualToName routing) :
    ItemOf data.columnNames routing colId (data.item colId) := by
  unfold item
  cases declared : data.columnNames[colId]? with
  | some name => exact .declared declared
  | none =>
    have above : data.columnNames.length ≤ colId := List.getElem?_eq_none_iff.mp declared
    rw [built]
    cases routed : TierDb.virtualToName routing colId with
    | some name =>
      obtain ⟨rc,member,same,rfl⟩ := virtualToName_some routed
      exact .routed above member same
    | none => exact .constant above (virtualToName_none.mp routed)

theorem projection_toList (columnIds : List Nat) (i : Nat) (written : String) :
    (data.projection columnIds (i + 1) written).toList = written.toList ++
      columnIds.flatMap fun colId => ',' :: ' ' :: (data.itemSql colId).toList := by
  induction columnIds generalizing i written with
  | nil => simp [projection]
  | cons colId rest ih => simp [projection, ih]

/-- The items of a scan; one without columns reads a constant. -/
def items (data : TierDBScanBindData) : List Nat → List SelectList.Item
  | [] => [constantItem]
  | columnIds => columnIds.map data.item

theorem itemSql_nonempty (colId : Nat) : data.itemSql colId ≠ "" := by
  have quoted : ∀ name : String, Cpp.quoteIdent name ≠ "" := by
    intro name empty
    have blank := congrArg String.toList empty
    rw [quoteIdent_loop, quoteIdent_toList] at blank
    cases blank
  unfold itemSql
  cases data.columnNames[colId]? with
  | some name => exact quoted name
  | none =>
    cases data.virtualToName colId with
    | some name => exact quoted name
    | none => decide

/-- The query of a scan reads as its items before the FROM clause. -/
theorem projectedScanSql_reads (columnIds : List Nat) :
    SelectList.readSelect (data.projectedScanSql columnIds).toList =
      some (data.items columnIds,(" (" ++ data.sql ++ ") tierdb_merged").toList) := by
  have from_clause : (" (" ++ data.sql ++ ") tierdb_merged").toList =
      ' ' :: ("(".toList ++ data.sql.toList ++ ") tierdb_merged".toList) := by simp
  rw [from_clause]
  cases columnIds with
  | nil =>
    have spelled : ∀ entry ∈ [("CAST(1 AS BIGINT)".toList,constantItem)],
        SelectList.Spells entry.1 entry.2 ∧ entry.2 ≠ [] := by
      simpa using ⟨spells_constant,List.cons_ne_nil _ _⟩
    have text : (data.projectedScanSql []).toList = "SELECT ".toList ++ ("CAST(1 AS BIGINT)".toList ++
        SelectList.continued [] ("(".toList ++ data.sql.toList ++ ") tierdb_merged".toList)) := by
      simp [projectedScanSql, projection, SelectList.continued]
    rw [text]
    exact SelectList.readSelect_spelled spelled
  | cons colId rest =>
    let entry := fun colId => ((data.itemSql colId).toList,data.item colId)
    have spelled : ∀ e ∈ entry colId :: rest.map entry, SelectList.Spells e.1 e.2 ∧ e.2 ≠ [] := by
      rw [← List.map_cons, List.forall_mem_map]
      intro id _
      exact item_spelled id
    have written : data.projection rest 1 (data.itemSql colId) ≠ "" := by
      intro empty
      have blank := congrArg String.toList empty
      rw [projection_toList, String.toList_empty, List.append_eq_nil_iff, String.toList_eq_nil_iff] at blank
      exact itemSql_nonempty colId blank.1
    have text : (data.projectedScanSql (colId :: rest)).toList = "SELECT ".toList ++
        ((entry colId).1 ++ SelectList.continued ((rest.map entry).map Prod.fst)
          ("(".toList ++ data.sql.toList ++ ") tierdb_merged".toList)) := by
      simp [projectedScanSql, String.isEmpty_iff, written, projection, projection_toList,
        SelectList.continued, entry, List.flatMap_map]
    rw [text, SelectList.readSelect_spelled spelled]
    simp [items, entry]

end TierDBScanBindData

/-- The bind data a scan is given. -/
def scanBindData (sql attachSql : String) (columnNames : List String)
    (routing : List TierDBRoutingColumn) : TierDBScanBindData where
  sql := sql
  attachSql := attachSql
  columnNames := columnNames
  virtualToName := virtualToName routing

/-- Whatever the names are made of, the query of a scan reads as one item for each requested
id, in order, or as a constant where there is none, and then its FROM clause; and both
languages quote a name alike. -/
theorem projected_scan_names (sql attachSql : String) (columnNames : List String)
    (routing : List TierDBRoutingColumn) (columnIds : List Nat) :
    (∃ items : List SelectList.Item, SelectList.readSelect
        ((scanBindData sql attachSql columnNames routing).projectedScanSql columnIds).toList =
          some (items,(" (" ++ sql ++ ") tierdb_merged").toList) ∧
      items.length = max 1 columnIds.length ∧
      (columnIds = [] → items = [constantItem]) ∧
      ∀ i colId : Nat, columnIds[i]? = some colId →
        ∃ item, items[i]? = some item ∧ ItemOf columnNames routing colId item) ∧
    ∀ name, Cpp.quoteIdent name = quoteIdent name := by
  let data := scanBindData sql attachSql columnNames routing
  refine ⟨⟨data.items columnIds,data.projectedScanSql_reads columnIds,?_,?_,?_⟩,quoteIdent_loop⟩
  · cases columnIds <;> simp [TierDBScanBindData.items]
  · rintro rfl
    rfl
  · intro i colId asked
    cases columnIds with
    | nil => cases asked
    | cons first rest =>
      refine ⟨data.item colId,?_,data.item_names colId rfl⟩
      have listed : data.items (first :: rest) = (first :: rest).map data.item := rfl
      rw [listed, List.getElem?_map, asked]
      rfl

end TierDb
