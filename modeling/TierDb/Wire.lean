import TierDb.Encoders
import TierDb.Resolution
import TierDb.Library.Arena
import TierDb.Library.JsonText

/-! The C ABI between the extension and the core. A result crosses as JSON text behind a
pointer, which the client reads and frees after it has let go of the connection; meanwhile
other threads make their own calls. -/
namespace TierDb.Wire

open JsonText (Doc)

/-- What the two sides of the ABI share: the connection, the strings that one side makes and
the other frees, and the documents the client has parsed. -/
structure Process where
  conn : Conn
  strings : Memory.Arena String := .empty
  docs : Memory.Arena Doc := .empty

/-- Why a call does not return; `dangling` is a null or freed pointer read or freed. -/
inductive Fault where
  | exception (message : String)
  | dangling
  deriving DecidableEq, Repr

abbrev Ffi (α : Type) := EStateM Fault Process α

/-- A `char *`; null is `none`. -/
abbrev CPtr := Option Nat

/-- The two libraries that a reply goes through: serde_json writes its text, yyjson reads it. -/
structure ReplyText where
  toText : Doc → String
  read : String → Option Doc
  noNul_toText : ∀ doc, doc.Valid → noNul (toText doc) = true
  read_toText : ∀ doc, doc.Valid → read (toText doc) = some doc

section Abi

structure TierDBStringResult where
  err : CPtr
  value : CPtr

structure TierDBStatus where
  err : CPtr

/-- `CString::new` refuses a text with a NUL byte. -/
def cMessage (text : String) : String :=
  if noNul text then text else "tierdb: message contained a NUL byte"

def intoCString (text : String) : Ffi CPtr := fun p =>
  .ok (some p.strings.next) { p with strings := p.strings.alloc (cMessage text) }

/-- A `std::string` made from a `char *`. -/
def readCString : CPtr → Ffi String
  | none => throw .dangling
  | some address => fun p =>
    match p.strings.read address with
    | some text => .ok text p
    | none => .error .dangling p

def tierdbFreeString : CPtr → Ffi Unit
  | none => return
  | some address => fun p =>
    match p.strings.free address with
    | some strings => .ok () { p with strings := strings }
    | none => .error .dangling p

def TierDBStringResult.ok (value : String) : Ffi TierDBStringResult := do
  return ⟨none,← intoCString value⟩

def TierDBStringResult.fail (message : String) : Ffi TierDBStringResult := do
  return ⟨← intoCString message,none⟩

def TierDBStatus.fail (message : String) : Ffi TierDBStatus := do
  return ⟨← intoCString message⟩

/-- A call of the core behind an entry point, whose error is a value. -/
def onCore {α : Type} (x : Pg α) : Ffi (Except String α) := fun p =>
  match x p.conn with
  | .ok a conn => .ok (.ok a) { p with conn := conn }
  | .error e conn => .ok (.error e) { p with conn := conn }

def stringResult {α : Type} (json : α → String) (x : Pg α) : Ffi TierDBStringResult := do
  match ← onCore x with
  | .ok a => TierDBStringResult.ok (json a)
  | .error e => TierDBStringResult.fail e

def status (x : Pg Unit) : Ffi TierDBStatus := do
  match ← onCore x with
  | .ok () => return ⟨none⟩
  | .error e => TierDBStatus.fail e

end Abi

section Replies

/-- The order in which an object's map holds its members. -/
abbrev Order := List (List Char × Doc) → List (List Char × Doc)

variable (order : Order)

def object (members : List (String × Doc)) : Doc :=
  .object (order (members.map fun (name,doc) => (name.toList,doc)))

def str (text : String) : Doc := .string text.toList

def int (value : Int) : Doc := .number (JsonText.integer value)

def optional {α : Type} (json : α → Doc) : Option α → Doc
  | none => .null
  | some a => json a

def columnJson (duckdbType : String → String) (column : String × String) : Doc :=
  object order [
    ("name",str column.1),
    ("pg_type",str column.2),
    ("duckdb_type",str (duckdbType column.2))]

def tableSchemaJson (duckdbType : String → String) (s : TableSchema) : Doc :=
  object order [
    ("table_id",int s.tableId),
    ("schema_name",str s.schemaName),
    ("table_name",str s.tableName),
    ("lake_format",str s.lakeFormat),
    ("lake_table_ref",str s.lakeTableRef),
    ("tier_key_col",str s.tierKeyCol),
    ("tier_key_type",str s.tierKeyType.name),
    ("primary_key_cols",.array (s.primaryKeyCols.map str)),
    ("columns",.array (s.columns.map (columnJson order duckdbType))),
    ("mode",str s.mode),
    ("heap_retention_lag",optional int s.heapRetentionLag),
    ("lake_retention_lag",optional int s.lakeRetentionLag)]

def pinnedJson (pinned : PinnedScan) : Doc :=
  object order [
    ("pin_id",optional int pinned.pinId),
    ("scan_sql",str pinned.scanSql),
    ("attach_sql",optional str pinned.attachSql)]

/-- `ChunkOutcome::to_json`; `text` renders a lake statement. -/
def outcomeJson (text : LakeStatement → String) (outcome : ChunkOutcome) : Doc :=
  object order [
    ("count",int outcome.count),
    ("attach_sql",optional str outcome.attachSql),
    ("lake_sql",.array (outcome.lakeSql.map fun statement => str (text statement)))]

def tablesJson (tables : List (String × String)) : Doc :=
  .array (tables.map fun (schema,table) =>
    object order [("schema_name",str schema),("table_name",str table)])

end Replies

section Client

structure TierDBTableRef where
  schemaName : String
  tableName : String
  deriving DecidableEq, Repr

structure TierDBDmlResult where
  count : Int
  attachSql : String
  lakeSql : List String
  deriving DecidableEq, Repr

variable (lib : ReplyText)

def yyjsonRead (text : String) : Ffi (Option Nat) := fun p =>
  match lib.read text with
  | some doc => .ok (some p.docs.next) { p with docs := p.docs.alloc doc }
  | none => .ok none p

def yyjsonDocGetRoot (doc : Nat) : Ffi Doc := fun p =>
  match p.docs.read doc with
  | some root => .ok root p
  | none => .error .dangling p

def yyjsonDocFree (doc : Nat) : Ffi Unit := fun p =>
  match p.docs.free doc with
  | some docs => .ok () { p with docs := docs }
  | none => .error .dangling p

/-- An integer above `INT64_MAX` is kept as unsigned and read back by its bits; one that fits
neither way is a real, which is read as 0. -/
def sint (value : Int) : Int :=
  if -2^63 ≤ value ∧ value < 2^64 then value.bmod (2^64) else 0

def yyjsonGetSint : Doc → Int
  | .number spelling => ((JsonText.readInteger spelling).map sint).getD 0
  | _ => 0

def getSint (obj : Doc) (key : String) : Int := ((obj.get? key.toList).map yyjsonGetSint).getD 0

/-- `string(str)` ends at the first NUL byte. -/
def getString (val : Doc) : Option String := val.getStr.map fun text => cString (String.ofList text)

def objStr (obj : Doc) (key : String) : String := ((obj.get? key.toList).bind getString).getD ""

def objElements (obj : Doc) (key : String) : List Doc :=
  ((obj.get? key.toList).map Doc.elements).getD []

def tableRefOf (entry : Doc) : TierDBTableRef :=
  ⟨objStr entry "schema_name",objStr entry "table_name"⟩

def columnOf (v : Doc) : TierDBColumn :=
  ⟨objStr v "name",objStr v "pg_type",objStr v "duckdb_type"⟩

def tableSchemaOf (root : Doc) : TierDBTableSchema where
  tableId := getSint root "table_id"
  schemaName := objStr root "schema_name"
  tableName := objStr root "table_name"
  lakeFormat := objStr root "lake_format"
  lakeTableRef := objStr root "lake_table_ref"
  tierKeyCol := objStr root "tier_key_col"
  tierKeyType := objStr root "tier_key_type"
  primaryKeyCols := (objElements root "primary_key_cols").filterMap getString
  columns := (objElements root "columns").map columnOf

def pinnedOf (root : Doc) : TierDBPinnedScan :=
  let hasPin := ((root.get? "pin_id".toList).map fun val => !val.isNull).getD false
  ⟨hasPin,if hasPin then getSint root "pin_id" else 0,objStr root "scan_sql",
    objStr root "attach_sql"⟩

def dmlResultOf (root : Doc) : TierDBDmlResult :=
  ⟨getSint root "count",objStr root "attach_sql",(objElements root "lake_sql").filterMap getString⟩

/-- The message is copied before the string is freed. -/
def throwIfError (err : CPtr) : Ffi Unit := do
  if err.isSome then
    let message ← readCString err
    tierdbFreeString err
    throw (.exception ("tierdb: " ++ message))

/-- Reads the document behind a result, and frees the document and the result. -/
def readDocument {α : Type} (unparsed : String) (read : Doc → α) (value : CPtr) : Ffi α := do
  match ← yyjsonRead lib (← readCString value) with
  | none => do
    tierdbFreeString value
    throw (.exception unparsed)
  | some doc => do
    let result := read (← yyjsonDocGetRoot doc)
    yyjsonDocFree doc
    tierdbFreeString value
    return result

/-- A text that does not parse lists no table. -/
def readTables (res : TierDBStringResult) : Ffi (List TierDBTableRef) := do
  throwIfError res.err
  match ← yyjsonRead lib (← readCString res.value) with
  | none => do
    tierdbFreeString res.value
    return []
  | some doc => do
    let tables := (← yyjsonDocGetRoot doc).elements.map tableRefOf
    yyjsonDocFree doc
    tierdbFreeString res.value
    return tables

def readTableSchema (schema table : String) (res : TierDBStringResult) :
    Ffi (Option TierDBTableSchema) := do
  if res.err.isSome then
    let message ← readCString res.err
    tierdbFreeString res.err
    if contains message "not registered" then
      return none
    throw (.exception ("tierdb: " ++ message))
  some <$> readDocument lib s!"tierdb: could not parse table schema for \"{schema}\".\"{table}\""
    tableSchemaOf res.value

def readPinnedScan (schema table : String) (res : TierDBStringResult) : Ffi TierDBPinnedScan := do
  throwIfError res.err
  readDocument lib s!"tierdb: could not parse pinned scan for \"{schema}\".\"{table}\""
    pinnedOf res.value

def parseDmlResult (res : TierDBStringResult) : Ffi TierDBDmlResult := do
  throwIfError res.err
  readDocument lib "tierdb: could not parse DML result" dmlResultOf res.value

end Client

section Requests

/-- A call of the client. -/
inductive Request where
  | listTables
  | tableSchema (schema table : String)
  | acquireReadScan (schema table : String)
  | releaseReadPin (pinId : Int)
  | txnBegin
  | txnCommit
  | txnRollback
  | chunk (kind : ChunkKind) (schema table : String) (rowsJson : JsonText)

/-- What the core's function returns. -/
def Request.Answer : Request → Type
  | .listTables => List (String × String)
  | .tableSchema _ _ => TableSchema
  | .acquireReadScan _ _ => PinnedScan
  | .chunk _ _ _ _ => ChunkOutcome
  | _ => Unit

/-- What its entry point returns. -/
def Request.Result : Request → Type
  | .listTables | .tableSchema _ _ | .acquireReadScan _ _ | .chunk _ _ _ _ => TierDBStringResult
  | _ => TierDBStatus

/-- What the client's function returns. -/
def Request.Reply : Request → Type
  | .listTables => List TierDBTableRef
  | .tableSchema _ _ => Option TierDBTableSchema
  | .acquireReadScan _ _ => TierDBPinnedScan
  | .chunk _ _ _ _ => TierDBDmlResult
  | _ => Unit

variable (c : Core) (le : String → String → Bool)

/-- The names cross as C strings. -/
def Request.ask : (request : Request) → Pg request.Answer
  | .listTables => TierDb.listTables le
  | .tableSchema schema table => TierDb.tableSchema c (cString schema) (cString table)
  | .acquireReadScan schema table => acquireScan c (cString schema) (cString table)
  | .releaseReadPin pinId => releasePin pinId
  | .txnBegin => TierDb.txnBegin
  | .txnCommit => TierDb.txnCommit
  | .txnRollback => TierDb.txnRollback
  | .chunk kind schema table rowsJson =>
    chunkFunction c kind (cString schema) (cString table) rowsJson

variable (lib : ReplyText) (order : Order) (text : LakeStatement → String)

/-- The entry points, which the client enters with the connection locked. -/
def Request.call : (request : Request) → Ffi request.Result
  | .listTables => stringResult (fun tables => lib.toText (tablesJson order tables))
      (Request.ask c le .listTables)
  | .tableSchema schema table => stringResult (fun s => lib.toText (tableSchemaJson order c.duckdbType s))
      (Request.ask c le (.tableSchema schema table))
  | .acquireReadScan schema table => stringResult (fun pinned => lib.toText (pinnedJson order pinned))
      (Request.ask c le (.acquireReadScan schema table))
  | .chunk kind schema table rowsJson =>
    stringResult (fun outcome => lib.toText (outcomeJson order text outcome))
      (Request.ask c le (.chunk kind schema table rowsJson))
  | .releaseReadPin pinId => status (Request.ask c le (.releaseReadPin pinId))
  | .txnBegin => status (Request.ask c le .txnBegin)
  | .txnCommit => status (Request.ask c le .txnCommit)
  | .txnRollback => status (Request.ask c le .txnRollback)

/-- The rest of the client's function, after the lock. -/
def Request.read : (request : Request) → request.Result → Ffi request.Reply
  | .listTables, res => readTables lib res
  | .tableSchema schema table, res => readTableSchema lib schema table res
  | .acquireReadScan schema table, res => readPinnedScan lib schema table res
  | .chunk _ _ _ _, res => parseDmlResult lib res
  | .releaseReadPin _, status | .txnBegin, status | .txnCommit, status | .txnRollback, status =>
    throwIfError status.err

end Requests

section World

/-- A call is made, an outstanding call is read, or something else happens to the database. -/
inductive Event where
  | enter (request : Request)
  | leave (i : Nat)
  | outside (change : Conn → Conn)

/-- The threads of the client: the results that crossed and are not read yet, and what the
calls that ended returned or threw. -/
structure World where
  process : Process
  pending : List ((request : Request) × request.Result) := []
  returned : List ((request : Request) × Except Fault request.Reply) := []

variable (c : Core) (le : String → String → Bool) (lib : ReplyText) (order : Order)
  (text : LakeStatement → String)

def World.step (w : World) : Event → World
  | .enter request =>
    match request.call c le lib order text w.process with
    | .ok result process => { w with process := process, pending := w.pending ++ [⟨request,result⟩] }
    | .error fault process =>
      { w with process := process, returned := w.returned ++ [⟨request,.error fault⟩] }
  | .leave i =>
    match w.pending[i]? with
    | none => w
    | some ⟨request,result⟩ =>
      match request.read lib result w.process with
      | .ok reply process =>
        { process := process, pending := w.pending.eraseIdx i,
          returned := w.returned ++ [⟨request,.ok reply⟩] }
      | .error fault process =>
        { process := process, pending := w.pending.eraseIdx i,
          returned := w.returned ++ [⟨request,.error fault⟩] }
  | .outside change => { w with process := { w.process with conn := change w.process.conn } }

def World.run (w : World) (events : List Event) : World :=
  events.foldl (World.step c le lib order text) w

end World

section Direct

/-- The same calls without the crossing: an answer is a value. -/
structure Direct where
  conn : Conn
  pending : List ((request : Request) × Except String request.Answer) := []
  returned : List ((request : Request) × Except Fault request.Reply) := []

def TierDBTableRef.cut (ref : TierDBTableRef) : TierDBTableRef :=
  ⟨cString ref.schemaName,cString ref.tableName⟩

def cutColumn (column : TierDBColumn) : TierDBColumn :=
  ⟨cString column.name,cString column.pgType,cString column.duckdbType⟩

def cutSchema (s : TierDBTableSchema) : TierDBTableSchema where
  tableId := sint s.tableId
  schemaName := cString s.schemaName
  tableName := cString s.tableName
  lakeFormat := cString s.lakeFormat
  lakeTableRef := cString s.lakeTableRef
  tierKeyCol := cString s.tierKeyCol
  tierKeyType := cString s.tierKeyType
  primaryKeyCols := s.primaryKeyCols.map cString
  columns := s.columns.map cutColumn

def cutPinned (pinned : TierDBPinnedScan) : TierDBPinnedScan :=
  ⟨pinned.hasPin,sint pinned.pinId,cString pinned.scanSql,cString pinned.attachSql⟩

def TierDBDmlResult.cut (dml : TierDBDmlResult) : TierDBDmlResult :=
  ⟨sint dml.count,cString dml.attachSql,dml.lakeSql.map cString⟩

variable (c : Core) (le : String → String → Bool) (text : LakeStatement → String)

/-- An answer in the client's own types. -/
def Request.reply : (request : Request) → request.Answer → request.Reply
  | .listTables, tables => tables.map fun (schema,table) => (⟨schema,table⟩ : TierDBTableRef)
  | .tableSchema _ _, s => some (TableSchema.entry c s)
  | .acquireReadScan _ _, (pinned : PinnedScan) =>
    (⟨pinned.pinId.isSome,pinned.pinId.getD 0,pinned.scanSql,pinned.attachSql.getD ""⟩ :
      TierDBPinnedScan)
  | .chunk _ _ _ _, (outcome : ChunkOutcome) =>
    (⟨outcome.count,outcome.attachSql.getD "",outcome.lakeSql.map text⟩ : TierDBDmlResult)
  | .releaseReadPin _, _ | .txnBegin, _ | .txnCommit, _ | .txnRollback, _ => ()

/-- A text ends at its first NUL byte and an integer keeps 64 bits. -/
def Request.cut : (request : Request) → request.Reply → request.Reply
  | .listTables, (refs : List TierDBTableRef) => refs.map TierDBTableRef.cut
  | .tableSchema _ _, (entry : Option TierDBTableSchema) => entry.map cutSchema
  | .acquireReadScan _ _, pinned => cutPinned pinned
  | .chunk _ _ _ _, dml => TierDBDmlResult.cut dml
  | .releaseReadPin _, _ | .txnBegin, _ | .txnCommit, _ | .txnRollback, _ => ()

/-- What an error becomes; a table that is not registered is no error. -/
def Request.refuse : (request : Request) → String → Except Fault request.Reply
  | .tableSchema _ _, message =>
    if contains message "not registered" then
      .ok (none : Option TierDBTableSchema)
    else .error (.exception ("tierdb: " ++ message))
  | _, message => .error (.exception ("tierdb: " ++ message))

def Request.receive (request : Request) : Except String request.Answer → Except Fault request.Reply
  | .ok answer => .ok (request.cut (request.reply c text answer))
  | .error message => request.refuse (cMessage message)

def Direct.step (d : Direct) : Event → Direct
  | .enter request =>
    match request.ask c le d.conn with
    | .ok answer conn => { d with conn := conn, pending := d.pending ++ [⟨request,.ok answer⟩] }
    | .error e conn => { d with conn := conn, pending := d.pending ++ [⟨request,.error e⟩] }
  | .leave i =>
    match d.pending[i]? with
    | none => d
    | some ⟨request,answer⟩ =>
      { d with pending := d.pending.eraseIdx i,
               returned := d.returned ++ [⟨request,request.receive c text answer⟩] }
  | .outside change => { d with conn := change d.conn }

def Direct.run (d : Direct) (events : List Event) : Direct :=
  events.foldl (Direct.step c le text) d

end Direct

section Texts

variable {order : Order} {members : List (String × Doc)}

/-- An object holds each of its members once, in an order of its own. -/
structure Arranges (order : Order) : Prop where
  perm : ∀ members, (order members).Perm members

theorem object_valid (arranges : Arranges order) (valid : ∀ member ∈ members, member.2.Valid) :
    (object order members).Valid := by
  refine JsonText.validMembers_iff.mpr fun member inside => ?_
  obtain ⟨⟨name,doc⟩,original,rfl⟩ := List.mem_map.mp ((arranges.perm _).mem_iff.mp inside)
  exact valid _ original

theorem get?_object (arranges : Arranges order) (distinct : (members.map Prod.fst).Nodup)
    (name : String) :
    (object order members).get? name.toList = (members.find? (·.1 = name)).map Prod.snd := by
  have apart := distinct.map (f := String.toList) fun a b same => String.toList_inj.mp same
  rw [object, JsonText.get?_perm (arranges.perm _) (by simpa [Function.comp_def] using apart)]
  simp [Doc.get?, List.find?_map, Function.comp_def, String.toList_inj]

theorem str_valid (text : String) : (str text).Valid := trivial

theorem int_valid (value : Int) : (int value).Valid := JsonText.isNumber_integer value

theorem optional_valid {α : Type} {json : α → Doc} (valid : ∀ a, (json a).Valid) (a : Option α) :
    (optional json a).Valid := by
  cases a with
  | none => trivial
  | some a => exact valid a

theorem array_valid {α : Type} {json : α → Doc} {list : List α}
    (valid : ∀ a ∈ list, (json a).Valid) : (Doc.array (list.map json)).Valid :=
  JsonText.validAll_iff.mpr (List.forall_mem_map.mpr valid)

theorem cMessage_toText (lib : ReplyText) {doc : Doc} (valid : doc.Valid) :
    cMessage (lib.toText doc) = lib.toText doc := if_pos (lib.noNul_toText doc valid)

@[simp] theorem yyjsonGetSint_int (value : Int) : yyjsonGetSint (int value) = sint value := by
  simp [yyjsonGetSint, int]

@[simp] theorem getString_str (text : String) : getString (str text) = some (cString text) := by
  simp [getString, str, Doc.getStr]

@[simp] theorem getString_strs (list : List String) :
    (list.map str).filterMap getString = list.map cString := by
  simp [List.filterMap_map, List.filterMap_eq_map']

/-- A null member is read as an empty text. -/
theorem getString_optional (text : Option String) :
    (getString (optional str text)).getD "" = cString (text.getD "") := by
  cases text with
  | none => rfl
  | some text => simp [optional]

section Members

variable (arranges : Arranges order) (distinct : (members.map Prod.fst).Nodup) (key : String)
include arranges distinct

theorem objStr_object : objStr (object order members) key =
    (((members.find? (·.1 = key)).map Prod.snd).bind getString).getD "" := by
  rw [objStr, get?_object arranges distinct]

theorem getSint_object : getSint (object order members) key =
    (((members.find? (·.1 = key)).map Prod.snd).map yyjsonGetSint).getD 0 := by
  rw [getSint, get?_object arranges distinct]

theorem objElements_object : objElements (object order members) key =
    (((members.find? (·.1 = key)).map Prod.snd).map Doc.elements).getD [] := by
  rw [objElements, get?_object arranges distinct]

end Members

theorem tableRefOf_json (arranges : Arranges order) (schema table : String) :
    tableRefOf (object order [("schema_name",str schema),("table_name",str table)]) =
      TierDBTableRef.cut ⟨schema,table⟩ := by
  simp [tableRefOf, objStr_object arranges, TierDBTableRef.cut]

theorem tables_json (arranges : Arranges order) (tables : List (String × String)) :
    (tablesJson order tables).elements.map tableRefOf =
      (tables.map fun (schema,table) => (⟨schema,table⟩ : TierDBTableRef)).map TierDBTableRef.cut := by
  simp [tablesJson, Function.comp_def, tableRefOf_json arranges]

theorem columnOf_json (arranges : Arranges order) (duckdbType : String → String)
    (column : String × String) :
    columnOf (columnJson order duckdbType column) =
      cutColumn ⟨column.1,column.2,duckdbType column.2⟩ := by
  simp [columnOf, columnJson, objStr_object arranges, cutColumn]

theorem tableSchemaOf_json (arranges : Arranges order) (c : Core) (s : TableSchema) :
    tableSchemaOf (tableSchemaJson order c.duckdbType s) = cutSchema (s.entry c) := by
  simp [tableSchemaOf, tableSchemaJson, objStr_object arranges, getSint_object arranges,
    objElements_object arranges, cutSchema, TableSchema.entry, columnOf_json arranges]

theorem pinnedOf_json (arranges : Arranges order) (pinned : PinnedScan) :
    pinnedOf (pinnedJson order pinned) = cutPinned
      ⟨pinned.pinId.isSome,pinned.pinId.getD 0,pinned.scanSql,pinned.attachSql.getD ""⟩ := by
  rw [pinnedOf, pinnedJson, get?_object arranges (by simp)]
  cases pinned.pinId with
  | none =>
    have absent : (optional int (none : Option Int)).isNull = true := rfl
    have zero : sint 0 = 0 := rfl
    simp [objStr_object arranges, cutPinned, getString_optional, absent, zero]
  | some pinId =>
    have present : (optional int (some pinId)).isNull = false := rfl
    have pin : yyjsonGetSint (optional int (some pinId)) = sint pinId := yyjsonGetSint_int pinId
    simp [objStr_object arranges, getSint_object arranges, cutPinned, getString_optional, present,
      pin]

theorem dmlResultOf_json (arranges : Arranges order) (text : LakeStatement → String)
    (outcome : ChunkOutcome) :
    dmlResultOf (outcomeJson order text outcome) = TierDBDmlResult.cut
      ⟨outcome.count,outcome.attachSql.getD "",outcome.lakeSql.map text⟩ := by
  simp [dmlResultOf, outcomeJson, objStr_object arranges, getSint_object arranges,
    objElements_object arranges, TierDBDmlResult.cut, getString_optional]

theorem tablesJson_valid (arranges : Arranges order) (tables : List (String × String)) :
    (tablesJson order tables).Valid := by
  refine array_valid fun table _ => object_valid arranges ?_
  simp [str_valid]

theorem tableSchemaJson_valid (arranges : Arranges order) (duckdbType : String → String)
    (s : TableSchema) : (tableSchemaJson order duckdbType s).Valid := by
  have keys : (Doc.array (s.primaryKeyCols.map str)).Valid := array_valid fun _ _ => str_valid _
  have columns : (Doc.array (s.columns.map (columnJson order duckdbType))).Valid := by
    refine array_valid fun column _ => object_valid arranges ?_
    simp [str_valid]
  refine object_valid arranges ?_
  simp [str_valid, int_valid, optional_valid int_valid, keys, columns]

theorem pinnedJson_valid (arranges : Arranges order) (pinned : PinnedScan) :
    (pinnedJson order pinned).Valid := by
  refine object_valid arranges ?_
  simp [str_valid, optional_valid int_valid, optional_valid str_valid]

theorem outcomeJson_valid (arranges : Arranges order) (text : LakeStatement → String)
    (outcome : ChunkOutcome) : (outcomeJson order text outcome).Valid := by
  refine object_valid arranges ?_
  have statements : (Doc.array (outcome.lakeSql.map fun statement => str (text statement))).Valid :=
    array_valid fun _ _ => str_valid _
  simp [int_valid, optional_valid str_valid, statements]

end Texts

section Crossing

variable {c : Core} {le : String → String → Bool} {lib : ReplyText} {order : Order}
  {text : LakeStatement → String}

/-- What a call of the client ends with. -/
def ends {α : Type} (p : Process) : Except Fault α → EStateM.Result Fault Process α
  | .ok a => .ok a p
  | .error fault => .error fault p

/-- What a step of the client gives back to the strings' memory. -/
structure Gone (before after : Memory.Arena String) (gone : List Nat) : Prop where
  addresses : before.addresses.Perm (gone ++ after.addresses)
  others : ∀ other ∉ gone, after.read other = before.read other

theorem Gone.none (strings : Memory.Arena String) : Gone strings strings [] where
  addresses := .refl _
  others _ _ := rfl

theorem freeString_live {p : Process} {address : Nat} (live : address ∈ p.strings.addresses) :
    ∃ after, tierdbFreeString (some address) p = .ok () { p with strings := after } ∧
      Gone p.strings after [address] := by
  obtain ⟨after,freed,addresses,others⟩ := Memory.Arena.free_live live
  refine ⟨after,by simp [tierdbFreeString, freed],?_,fun other apart => others other (by simpa using apart)⟩
  rw [addresses]
  exact List.perm_cons_erase live

theorem readCString_stored {p : Process} {address : Nat} {text : String}
    (stored : p.strings.read address = some text) : readCString (some address) p = .ok text p := by
  simp [readCString, stored]

theorem yyjsonRead_text (p : Process) {doc : Doc} (valid : doc.Valid) :
    yyjsonRead lib (lib.toText doc) p = .ok (some p.docs.next) { p with docs := p.docs.alloc doc } := by
  simp [yyjsonRead, lib.read_toText doc valid]

theorem yyjsonDocGetRoot_alloc (p : Process) (doc : Doc) :
    yyjsonDocGetRoot p.docs.next { p with docs := p.docs.alloc doc } =
      .ok doc { p with docs := p.docs.alloc doc } := by
  simp [yyjsonDocGetRoot]

theorem yyjsonDocFree_alloc (p : Process) (doc : Doc) :
    yyjsonDocFree p.docs.next { p with docs := p.docs.alloc doc } =
      .ok () { p with docs := p.docs.skip } := by
  simp [yyjsonDocFree]

theorem throwIfError_none (p : Process) : throwIfError none p = .ok () p := rfl

theorem throwIfError_some {p : Process} {address : Nat} {message : String}
    (stored : p.strings.read address = some message) :
    ∃ after, throwIfError (some address) p =
        .error (.exception ("tierdb: " ++ message)) { p with strings := after } ∧
      Gone p.strings after [address] := by
  obtain ⟨after,freed,gone⟩ := freeString_live (Memory.Arena.mem_of_read stored)
  refine ⟨after,?_,gone⟩
  simp [throwIfError, Effect.bind_apply, readCString_stored stored, freed]

/-- The document is freed with the result it was read from. -/
theorem readDocument_text {α : Type} (unparsed : String) (read : Doc → α) {p : Process}
    {address : Nat} {doc : Doc} (valid : doc.Valid)
    (stored : p.strings.read address = some (lib.toText doc)) :
    ∃ after, readDocument lib unparsed read (some address) p =
        .ok (read doc) { p with strings := after, docs := p.docs.skip } ∧
      Gone p.strings after [address] := by
  obtain ⟨after,freed,gone⟩ := freeString_live (p := { p with docs := p.docs.skip })
    (Memory.Arena.mem_of_read stored)
  refine ⟨after,?_,gone⟩
  simp [readDocument, Effect.bind_apply, Effect.map_apply, readCString_stored stored,
    yyjsonRead_text p valid, yyjsonDocGetRoot_alloc, yyjsonDocFree_alloc, freed]

theorem readTableSchema_error (schema table : String) {p : Process} {address : Nat}
    {message : String} (stored : p.strings.read address = some message) :
    ∃ after, readTableSchema lib schema table ⟨some address,none⟩ p = ends { p with strings := after }
        (if contains message "not registered" then .ok none
          else .error (.exception ("tierdb: " ++ message))) ∧
      Gone p.strings after [address] := by
  obtain ⟨after,freed,gone⟩ := freeString_live (Memory.Arena.mem_of_read stored)
  refine ⟨after,?_,gone⟩
  by_cases missing : contains message "not registered" = true
  · simp [readTableSchema, Effect.bind_apply, readCString_stored stored, freed, missing, ends]
  · simp [readTableSchema, Effect.bind_apply, readCString_stored stored, freed, missing, ends]

theorem readTables_text (p : Process) {address : Nat} {doc : Doc} (valid : doc.Valid)
    (stored : p.strings.read address = some (lib.toText doc)) :
    ∃ after, readTables lib ⟨none,some address⟩ p =
        .ok (doc.elements.map tableRefOf) { p with strings := after, docs := p.docs.skip } ∧
      Gone p.strings after [address] := by
  obtain ⟨after,freed,gone⟩ := freeString_live (p := { p with docs := p.docs.skip })
    (Memory.Arena.mem_of_read stored)
  refine ⟨after,?_,gone⟩
  simp [readTables, throwIfError_none, Effect.bind_apply, Effect.map_apply,
    readCString_stored stored, yyjsonRead_text p valid, yyjsonDocGetRoot_alloc, yyjsonDocFree_alloc,
    freed]

structure Made (before after : Memory.Arena String) (made : List Nat) : Prop where
  addresses : after.addresses = made ++ before.addresses
  others : ∀ other ∈ before.addresses, after.read other = before.read other

theorem Made.none (strings : Memory.Arena String) : Made strings strings [] where
  addresses := rfl
  others _ _ := rfl

theorem Made.alloc (strings : Memory.Arena String) (message : String) :
    Made strings (strings.alloc message) [strings.next] where
  addresses := Memory.Arena.addresses_alloc message
  others _ older := Memory.Arena.read_alloc_other message older

section Entry

variable {α : Type} {json : α → String} {x : Pg α} {p : Process} {conn : Conn}

theorem stringResult_ok {a : α} (ran : x p.conn = .ok a conn) :
    stringResult json x p = .ok ⟨none,some p.strings.next⟩
      { p with conn := conn, strings := p.strings.alloc (cMessage (json a)) } := by
  simp [stringResult, onCore, ran, Effect.bind_apply, TierDBStringResult.ok, intoCString,
    Effect.map_apply]

theorem stringResult_error {e : String} (ran : x p.conn = .error e conn) :
    stringResult json x p = .ok ⟨some p.strings.next,none⟩
      { p with conn := conn, strings := p.strings.alloc (cMessage e) } := by
  simp [stringResult, onCore, ran, Effect.bind_apply, TierDBStringResult.fail, intoCString,
    Effect.map_apply]

theorem status_ok {x : Pg Unit} (ran : x p.conn = .ok () conn) :
    status x p = .ok ⟨none⟩ { p with conn := conn } := by
  simp [status, onCore, ran, Effect.bind_apply]

theorem status_error {x : Pg Unit} {e : String} (ran : x p.conn = .error e conn) :
    status x p = .ok ⟨some p.strings.next⟩
      { p with conn := conn, strings := p.strings.alloc (cMessage e) } := by
  simp [status, onCore, ran, Effect.bind_apply, TierDBStatus.fail, intoCString, Effect.map_apply]

end Entry

/-- The pointers of a result; a status has none for a value. -/
def Request.pointers : (request : Request) → request.Result → TierDBStringResult
  | .listTables, res | .tableSchema _ _, res | .acquireReadScan _ _, res | .chunk _ _ _ _, res => res
  | .releaseReadPin _, status | .txnBegin, status | .txnCommit, status | .txnRollback, status =>
    ⟨TierDBStatus.err status,none⟩

def Request.addresses (request : Request) (result : request.Result) : List Nat :=
  (request.pointers result).err.toList ++ (request.pointers result).value.toList

variable (c order text) in
/-- The document an answer is written as; a status has none. -/
def Request.document : (request : Request) → request.Answer → Option Doc
  | .listTables, tables => some (tablesJson order tables)
  | .tableSchema _ _, s => some (tableSchemaJson order c.duckdbType s)
  | .acquireReadScan _ _, pinned => some (pinnedJson order pinned)
  | .chunk _ _ _ _, outcome => some (outcomeJson order text outcome)
  | .releaseReadPin _, _ | .txnBegin, _ | .txnCommit, _ | .txnRollback, _ => none

variable (c lib order text) in
/-- What the pointers of a result lead to. -/
inductive Carries (strings : Memory.Arena String) (request : Request) (result : request.Result) :
    Except String request.Answer → Prop where
  | refused (e : String) (address : Nat) (points : request.pointers result = ⟨some address,none⟩)
      (stored : strings.read address = some (cMessage e)) : Carries strings request result (.error e)
  | answered (answer : request.Answer) (doc : Doc) (address : Nat)
      (points : request.pointers result = ⟨none,some address⟩)
      (written : request.document c order text answer = some doc)
      (stored : strings.read address = some (lib.toText doc)) : Carries strings request result (.ok answer)
  | done (answer : request.Answer) (points : request.pointers result = ⟨none,none⟩)
      (silent : request.document c order text answer = none) : Carries strings request result (.ok answer)

theorem document_valid (arranges : Arranges order) {request : Request} {answer : request.Answer}
    {doc : Doc} (written : request.document c order text answer = some doc) : doc.Valid := by
  cases request with
  | listTables => cases written; exact tablesJson_valid arranges _
  | tableSchema schema table => cases written; exact tableSchemaJson_valid arranges _ _
  | acquireReadScan schema table => cases written; exact pinnedJson_valid arranges _
  | chunk kind schema table rowsJson => cases written; exact outcomeJson_valid arranges _ _
  | releaseReadPin pinId | txnBegin | txnCommit | txnRollback => cases written

theorem stored_alloc (lib : ReplyText) (strings : Memory.Arena String) {doc : Doc} (valid : doc.Valid) :
    (strings.alloc (cMessage (lib.toText doc))).read strings.next = some (lib.toText doc) := by
  rw [cMessage_toText lib valid, Memory.Arena.read_alloc]

variable (c le lib order text) in
/-- The entry point of a request ends with a result for what the core answered. -/
def Enters (request : Request) (p : Process) (conn : Conn) (answer : Except String request.Answer) :
    Prop :=
  ∃ result after, request.call c le lib order text p = .ok result { p with conn := conn, strings := after } ∧
    Made p.strings after (request.addresses result) ∧ Carries c lib order text after request result answer

theorem call_answered (arranges : Arranges order) {request : Request} {p : Process} {conn : Conn}
    {answer : request.Answer} (asked : request.ask c le p.conn = .ok answer conn) :
    Enters c le lib order text request p conn (.ok answer) := by
  have stored {doc : Doc} (written : request.document c order text answer = some doc) :=
    stored_alloc lib p.strings (document_valid arranges written)
  cases request with
  | listTables | tableSchema schema table | acquireReadScan schema table
  | chunk kind schema table rowsJson =>
    exact ⟨_,_,stringResult_ok asked,Made.alloc _ _,.answered answer _ _ rfl rfl (stored rfl)⟩
  | releaseReadPin pinId | txnBegin | txnCommit | txnRollback =>
    exact ⟨_,_,status_ok asked,Made.none _,.done answer rfl rfl⟩

theorem call_refused {request : Request} {p : Process} {conn : Conn} {e : String}
    (asked : request.ask c le p.conn = .error e conn) :
    Enters c le lib order text request p conn (.error e) := by
  have stored : (p.strings.alloc (cMessage e)).read p.strings.next = some (cMessage e) :=
    Memory.Arena.read_alloc _
  cases request with
  | listTables | tableSchema schema table | acquireReadScan schema table
  | chunk kind schema table rowsJson =>
    exact ⟨_,_,stringResult_error asked,Made.alloc _ _,.refused e _ rfl stored⟩
  | releaseReadPin pinId | txnBegin | txnCommit | txnRollback =>
    exact ⟨_,_,status_error asked,Made.alloc _ _,.refused e _ rfl stored⟩

variable (lib) in
/-- Reading a result gives what the answer comes to, and frees what its pointers lead to. -/
def Leaves (request : Request) (result : request.Result) (p : Process)
    (outcome : Except Fault request.Reply) : Prop :=
  ∃ after docs, request.read lib result p = ends { p with strings := after, docs := docs } outcome ∧
    docs.addresses = p.docs.addresses ∧ Gone p.strings after (request.addresses result)

theorem read_document {request : Request} (arranges : Arranges order) {result : request.Result}
    {p : Process} {answer : request.Answer} {doc : Doc} {address : Nat}
    (points : request.pointers result = ⟨none,some address⟩)
    (written : request.document c order text answer = some doc)
    (stored : p.strings.read address = some (lib.toText doc)) :
    Leaves lib request result p (.ok (request.cut (request.reply c text answer))) := by
  have valid := document_valid arranges written
  have addresses : request.addresses result = [address] := by simp [Request.addresses, points]
  rw [Leaves, addresses]
  cases request with
  | listTables =>
    cases points
    cases written
    obtain ⟨after,ran,gone⟩ := readTables_text p valid stored
    have parsed := tables_json arranges answer
    exact ⟨after,_,ran.trans (congrArg (EStateM.Result.ok · _) parsed),rfl,gone⟩
  | tableSchema schema table =>
    cases points
    cases written
    obtain ⟨after,ran,gone⟩ := readDocument_text
      s!"tierdb: could not parse table schema for \"{schema}\".\"{table}\"" tableSchemaOf valid stored
    have parsed := tableSchemaOf_json arranges c answer
    refine ⟨after,p.docs.skip,?_,rfl,gone⟩
    change (some <$> readDocument lib _ tableSchemaOf (some address)) p = _
    rw [Effect.map_apply, ran, parsed]
    rfl
  | acquireReadScan schema table =>
    cases points
    cases written
    obtain ⟨after,ran,gone⟩ := readDocument_text
      s!"tierdb: could not parse pinned scan for \"{schema}\".\"{table}\"" pinnedOf valid stored
    have parsed := pinnedOf_json arranges answer
    exact ⟨after,_,ran.trans (congrArg (EStateM.Result.ok · _) parsed),rfl,gone⟩
  | chunk kind schema table rowsJson =>
    cases points
    cases written
    obtain ⟨after,ran,gone⟩ := readDocument_text "tierdb: could not parse DML result" dmlResultOf
      valid stored
    have parsed := dmlResultOf_json arranges text answer
    exact ⟨after,_,ran.trans (congrArg (EStateM.Result.ok · _) parsed),rfl,gone⟩
  | releaseReadPin pinId | txnBegin | txnCommit | txnRollback => cases written

theorem read_refusal {request : Request} {result : request.Result} {p : Process} {e : String}
    {address : Nat} (points : request.pointers result = ⟨some address,none⟩)
    (stored : p.strings.read address = some (cMessage e)) :
    Leaves lib request result p (request.refuse (cMessage e)) := by
  have addresses : request.addresses result = [address] := by simp [Request.addresses, points]
  obtain ⟨after,ran,gone⟩ := throwIfError_some stored
  rw [Leaves, addresses]
  cases request with
  | listTables | acquireReadScan schema table | chunk kind schema table rowsJson =>
    cases points
    exact ⟨after,_,Effect.bind_of_error ran,rfl,gone⟩
  | tableSchema schema table =>
    cases points
    obtain ⟨after,ran,gone⟩ := readTableSchema_error schema table stored
    exact ⟨after,_,ran,rfl,gone⟩
  | releaseReadPin pinId | txnBegin | txnCommit | txnRollback =>
    obtain ⟨err⟩ := result
    cases points
    exact ⟨after,_,ran,rfl,gone⟩

theorem read_status {request : Request} {result : request.Result} {p : Process}
    {answer : request.Answer} (points : request.pointers result = ⟨none,none⟩)
    (silent : request.document c order text answer = none) :
    Leaves lib request result p (.ok (request.cut (request.reply c text answer))) := by
  have addresses : request.addresses result = [] := by simp [Request.addresses, points]
  rw [Leaves, addresses]
  cases request with
  | listTables | tableSchema schema table | acquireReadScan schema table
  | chunk kind schema table rowsJson => cases silent
  | releaseReadPin pinId | txnBegin | txnCommit | txnRollback =>
    obtain ⟨err⟩ := result
    cases points
    exact ⟨p.strings,p.docs,rfl,rfl,Gone.none _⟩

/-- A result that carries an answer is read as that answer. -/
theorem read_carries (arranges : Arranges order) {request : Request} {result : request.Result}
    {p : Process} {answer : Except String request.Answer}
    (carries : Carries c lib order text p.strings request result answer) :
    Leaves lib request result p (request.receive c text answer) := by
  cases carries with
  | refused e address points stored => exact read_refusal points stored
  | answered answer doc address points written stored =>
    exact read_document arranges points written stored
  | done answer points silent => exact read_status points silent

end Crossing

section Refinement

variable {c : Core} {le : String → String → Bool} {lib : ReplyText} {order : Order}
  {text : LakeStatement → String}

/-- The addresses that the outstanding calls are to free. -/
def owned (pending : List ((request : Request) × request.Result)) : List Nat :=
  pending.flatMap fun call => call.1.addresses call.2

variable (c lib order text) in
inductive Carried (strings : Memory.Arena String) :
    ((request : Request) × request.Result) →
      ((request : Request) × Except String request.Answer) → Prop where
  | mk {request : Request} {result : request.Result} {answer : Except String request.Answer}
      (carries : Carries c lib order text strings request result answer) :
      Carried strings ⟨request,result⟩ ⟨request,answer⟩

variable (c lib order text) in
/-- Every outstanding result carries the answer of its call, and the strings in memory are
those the outstanding calls are to free. -/
structure Shows (w : World) (d : Direct) : Prop where
  conn : w.process.conn = d.conn
  returned : w.returned = d.returned
  pending : List.Forall₂ (Carried c lib order text w.process.strings) w.pending d.pending
  strings : w.process.strings.addresses.Perm (owned w.pending)
  docs : w.process.docs.addresses = []

theorem Carried.congr {before after : Memory.Arena String}
    {call : (request : Request) × request.Result}
    {answer : (request : Request) × Except String request.Answer}
    (same : ∀ address ∈ call.1.addresses call.2, after.read address = before.read address)
    (carried : Carried c lib order text before call answer) : Carried c lib order text after call answer := by
  obtain ⟨carries⟩ := carried
  refine .mk ?_
  cases carries with
  | refused e address points stored =>
    refine .refused e address points ((same address ?_).trans stored)
    simp [Request.addresses, points]
  | answered answer doc address points written stored =>
    refine .answered answer doc address points written ((same address ?_).trans stored)
    simp [Request.addresses, points]
  | done answer points silent => exact .done answer points silent

/-- Calls whose strings are untouched still carry their answers. -/
theorem carried_congr {before after : Memory.Arena String}
    {pending : List ((request : Request) × request.Result)}
    {answers : List ((request : Request) × Except String request.Answer)}
    (carried : List.Forall₂ (Carried c lib order text before) pending answers)
    (same : ∀ address ∈ owned pending, after.read address = before.read address) :
    List.Forall₂ (Carried c lib order text after) pending answers := by
  induction carried with
  | nil => exact .nil
  | cons first _ ih =>
    simp only [owned, List.flatMap_cons, List.mem_append] at same
    exact .cons (first.congr fun address inside => same address (.inl inside))
      (ih fun address inside => same address (.inr inside))

theorem forall₂_getElem? {α β : Type*} {R : α → β → Prop} {as : List α} {bs : List β}
    (each : List.Forall₂ R as bs) {i : Nat} {a : α} (hit : as[i]? = some a) :
    ∃ b, bs[i]? = some b ∧ R a b ∧ List.Forall₂ R (as.eraseIdx i) (bs.eraseIdx i) := by
  induction each generalizing i with
  | nil => simp at hit
  | cons first rest ih =>
    cases i with
    | zero =>
      simp only [List.getElem?_cons_zero, Option.some.injEq] at hit
      subst hit
      exact ⟨_,rfl,first,rest⟩
    | succ i =>
      obtain ⟨b,other,related,erased⟩ := ih (by simpa using hit)
      exact ⟨b,by simpa using other,related,.cons first erased⟩

/-- What is left is freed apart from what is read. -/
theorem owned_eraseIdx {pending : List ((request : Request) × request.Result)} {i : Nat}
    {call : (request : Request) × request.Result} (hit : pending[i]? = some call) :
    (owned pending).Perm (call.1.addresses call.2 ++ owned (pending.eraseIdx i)) := by
  obtain ⟨inside,rfl⟩ := List.getElem?_eq_some_iff.mp hit
  exact ((List.getElem_cons_eraseIdx_perm inside).flatMap_right _).symm

theorem Shows.enter {w : World} {d : Direct} (shows : Shows c lib order text w d) {request : Request}
    {conn : Conn} {answer : Except String request.Answer}
    (enters : Enters c le lib order text request w.process conn answer) :
    Shows c lib order text (w.step c le lib order text (.enter request))
      { d with conn := conn, pending := d.pending ++ [⟨request,answer⟩] } := by
  obtain ⟨result,after,ran,made,carries⟩ := enters
  have older : List.Forall₂ (Carried c lib order text after) w.pending d.pending :=
    carried_congr shows.pending fun address inside =>
      made.others address (shows.strings.mem_iff.mpr inside)
  simp only [World.step, ran]
  exact {
    conn := rfl
    returned := shows.returned
    pending := List.rel_append older (.cons ⟨carries⟩ .nil)
    strings := by
      rw [made.addresses, owned, List.flatMap_append, List.flatMap_singleton]
      exact (shows.strings.append_left _).trans List.perm_append_comm
    docs := shows.docs }

theorem Shows.leave (arranges : Arranges order) {w : World} {d : Direct}
    (shows : Shows c lib order text w d) (i : Nat) :
    Shows c lib order text (w.step c le lib order text (.leave i)) (d.step c le text (.leave i)) := by
  cases hit : w.pending[i]? with
  | none =>
    have out : d.pending[i]? = none := by
      rw [List.getElem?_eq_none_iff, ← shows.pending.length_eq]
      exact List.getElem?_eq_none_iff.mp hit
    simpa [World.step, Direct.step, hit, out] using shows
  | some call =>
    obtain ⟨other,answered,⟨carries⟩,rest⟩ := forall₂_getElem? shows.pending hit
    rename_i request result answer
    obtain ⟨after,docs,ran,empty,gone⟩ := read_carries arranges carries
    have mine := owned_eraseIdx hit
    have apart : (request.addresses result ++ owned (w.pending.eraseIdx i)).Nodup :=
      (shows.strings.trans mine).nodup_iff.mp w.process.strings.distinct
    have left : after.addresses.Perm (owned (w.pending.eraseIdx i)) :=
      (List.perm_append_left_iff _).mp (gone.addresses.symm.trans (shows.strings.trans mine))
    have pending : List.Forall₂ (Carried c lib order text after) (w.pending.eraseIdx i)
        (d.pending.eraseIdx i) :=
      carried_congr rest fun address inside =>
        gone.others address fun freed => (List.nodup_append.mp apart).2.2 _ freed _ inside rfl
    simp only [World.step, Direct.step, hit, answered, ran]
    cases request.receive c text answer with
    | ok reply => exact ⟨shows.conn,congrArg (· ++ [_]) shows.returned,pending,left,empty.trans shows.docs⟩
    | error fault => exact ⟨shows.conn,congrArg (· ++ [_]) shows.returned,pending,left,empty.trans shows.docs⟩

/-- One step of the threads is one step of the calls without the crossing. -/
theorem Shows.step (arranges : Arranges order) {w : World} {d : Direct}
    (shows : Shows c lib order text w d) (event : Event) :
    Shows c lib order text (w.step c le lib order text event) (d.step c le text event) := by
  cases event with
  | enter request =>
    cases asked : request.ask c le d.conn with
    | ok answer conn =>
      simpa [Direct.step, asked] using
        shows.enter (call_answered arranges (p := w.process) (by rw [shows.conn, asked]))
    | error e conn =>
      simpa [Direct.step, asked] using
        shows.enter (call_refused (p := w.process) (by rw [shows.conn, asked]))
  | leave i => exact shows.leave arranges i
  | outside change => exact { shows with conn := congrArg change shows.conn }

theorem Shows.run (arranges : Arranges order) {w : World} {d : Direct}
    (shows : Shows c lib order text w d) (events : List Event) :
    Shows c lib order text (w.run c le lib order text events) (d.run c le text events) := by
  induction events generalizing w d with
  | nil => exact shows
  | cons event rest ih => exact ih (shows.step arranges event)

variable (c lib order text) in
theorem shows_start (conn : Conn) : Shows c lib order text ⟨{ conn := conn },[],[]⟩ ⟨conn,[],[]⟩ :=
  ⟨rfl,rfl,.nil,.nil,rfl⟩

theorem receive_live (request : Request) (answer : Except String request.Answer) :
    request.receive c text answer ≠ .error .dangling := by
  cases answer with
  | ok answer => simp [Request.receive]
  | error e =>
    cases request with
    | tableSchema schema table =>
      simp only [Request.receive, Request.refuse]
      split <;> simp
    | _ => simp [Request.receive, Request.refuse]

theorem Direct.run_live {d : Direct} (live : ∀ call ∈ d.returned, call.2 ≠ .error .dangling)
    (events : List Event) : ∀ call ∈ (d.run c le text events).returned, call.2 ≠ .error .dangling := by
  induction events generalizing d with
  | nil => exact live
  | cons event rest ih =>
    refine ih ?_
    cases event with
    | enter request =>
      simp only [Direct.step]
      split <;> exact live
    | outside change => exact live
    | leave i =>
      simp only [Direct.step]
      split
      · exact live
      · simp only [List.mem_append, List.mem_singleton]
        rintro call (earlier | rfl)
        · exact live call earlier
        · exact receive_live _ _

/-- In every run of the client's threads each call returns or throws what the core answered
when it was made, with its texts cut at their first NUL byte. No pointer is read or freed that
is not live, and the strings in memory are those of the calls that are not read yet. -/
theorem calls_cross_the_wire (lib : ReplyText) (arranges : Arranges order) (c : Core)
    (le : String → String → Bool) (text : LakeStatement → String) (conn : Conn) (events : List Event) :
    let w := World.run c le lib order text ⟨{ conn := conn },[],[]⟩ events
    let d := Direct.run c le text ⟨conn,[],[]⟩ events
    w.process.conn = d.conn ∧ w.returned = d.returned ∧
      (∀ call ∈ w.returned, call.2 ≠ .error .dangling) ∧
      w.process.strings.addresses.Perm (owned w.pending) ∧ w.process.docs.addresses = [] := by
  intro w d
  have shows : Shows c lib order text w d := (shows_start c lib order text conn).run arranges events
  refine ⟨shows.conn,shows.returned,?_,shows.strings,shows.docs⟩
  rw [shows.returned]
  exact Direct.run_live (by simp) events

/-- A document's text has no NUL byte. -/
theorem noNul_write {doc : Doc} (valid : doc.Valid) {upper : Bool} :
    noNul (String.ofList (doc.write upper)) = true := by
  refine List.all_eq_true.mpr fun ch member => ?_
  have printable := JsonText.write_printable valid ch (by simpa using member)
  have above : ch ≠ '\x00' := by
    rintro rfl
    revert printable
    decide
  simpa using above

/-- Both libraries as the grammar of JSON has them. -/
def jsonText : ReplyText where
  toText doc := String.ofList (doc.write false)
  read text := JsonText.read text.toList
  noNul_toText _ valid := noNul_write valid
  read_toText _ valid := by rw [String.toList_ofList, JsonText.read_write valid]

/-- A map that is sorted by its keys. -/
def byName : Order := fun members =>
  members.mergeSort fun a b => Reference.ordered (String.ofList a.1) (String.ofList b.1)

theorem byName_arranges : Arranges byName where
  perm members := List.mergeSort_perm members _

/-- A pinned scan and the schema of a table that is not registered, read in the other order. -/
def crossing : List Event := [
  .enter (.acquireReadScan "public" "items"),.enter (.tableSchema "public" "gone"),
  .leave 1,.leave 0]

theorem crossing_returns :
    (World.run Reference.core Reference.ordered jsonText byName (fun _ => "")
      ⟨{ conn := Conn.connect "" ⟨Reference.database "tiered" 10 [],[]⟩ },[],[]⟩ crossing).returned =
    [⟨.tableSchema "public" "gone",.ok (none : Option TierDBTableSchema)⟩,
      ⟨.acquireReadScan "public" "items",
        .ok (⟨true,1,"merged read of items",""⟩ : TierDBPinnedScan)⟩] :=
  (calls_cross_the_wire jsonText byName_arranges Reference.core Reference.ordered (fun _ => "")
    (Conn.connect "" ⟨Reference.database "tiered" 10 [],[]⟩) crossing).2.1.trans rfl

end Refinement

section Plain

variable {c : Core} {le : String → String → Bool} {text : LakeStatement → String}

/-- An integer that fits in an `int64_t`. -/
def Fits (value : Int) : Prop := -2^63 ≤ value ∧ value < 2^63

def PlainRef (ref : TierDBTableRef) : Prop := noNul ref.schemaName ∧ noNul ref.tableName

def PlainColumn (column : TierDBColumn) : Prop :=
  noNul column.name ∧ noNul column.pgType ∧ noNul column.duckdbType

def PlainSchema (s : TierDBTableSchema) : Prop :=
  Fits s.tableId ∧ noNul s.schemaName ∧ noNul s.tableName ∧ noNul s.lakeFormat ∧
    noNul s.lakeTableRef ∧ noNul s.tierKeyCol ∧ noNul s.tierKeyType ∧
    (∀ key ∈ s.primaryKeyCols, noNul key) ∧ ∀ column ∈ s.columns, PlainColumn column

/-- A reply whose texts have no NUL byte and whose integers fit. -/
def Request.Plain : (request : Request) → request.Reply → Prop
  | .listTables, (refs : List TierDBTableRef) => ∀ ref ∈ refs, PlainRef ref
  | .tableSchema _ _, (entry : Option TierDBTableSchema) => ∀ s ∈ entry, PlainSchema s
  | .acquireReadScan _ _, (pinned : TierDBPinnedScan) =>
    Fits pinned.pinId ∧ noNul pinned.scanSql ∧ noNul pinned.attachSql
  | .chunk _ _ _ _, (dml : TierDBDmlResult) =>
    Fits dml.count ∧ noNul dml.attachSql ∧ ∀ statement ∈ dml.lakeSql, noNul statement
  | .releaseReadPin _, _ | .txnBegin, _ | .txnCommit, _ | .txnRollback, _ => True

theorem sint_eq (value : Int) : sint value = value ↔ Fits value := by
  unfold sint Fits
  split
  · rename_i inside
    rw [Int.bmod_def]
    omega
  · omega

theorem map_eq_self {α : Type} {f : α → α} {list : List α} :
    list.map f = list ↔ ∀ a ∈ list, f a = a := by
  conv_lhs => rhs; rw [← List.map_id list]
  exact List.map_inj_left

theorem cutRef_eq (ref : TierDBTableRef) : ref.cut = ref ↔ PlainRef ref := by
  cases ref
  simp [TierDBTableRef.cut, PlainRef, cString_eq]

theorem cutColumn_eq (column : TierDBColumn) : cutColumn column = column ↔ PlainColumn column := by
  cases column
  simp [cutColumn, PlainColumn, cString_eq]

theorem cutSchema_eq (s : TierDBTableSchema) : cutSchema s = s ↔ PlainSchema s := by
  cases s
  simp [cutSchema, PlainSchema, cString_eq, sint_eq, map_eq_self, cutColumn_eq]

theorem cutPinned_eq (pinned : TierDBPinnedScan) : cutPinned pinned = pinned ↔
    Fits pinned.pinId ∧ noNul pinned.scanSql ∧ noNul pinned.attachSql := by
  cases pinned
  simp [cutPinned, cString_eq, sint_eq]

theorem cutDml_eq (dml : TierDBDmlResult) : dml.cut = dml ↔
    Fits dml.count ∧ noNul dml.attachSql ∧ ∀ statement ∈ dml.lakeSql, noNul statement := by
  cases dml
  simp [TierDBDmlResult.cut, cString_eq, sint_eq, map_eq_self]

/-- Exactly the plain replies arrive as they were sent. -/
theorem cut_eq_iff (request : Request) (reply : request.Reply) :
    request.cut reply = reply ↔ request.Plain reply := by
  cases request with
  | listTables => exact map_eq_self.trans (forall₂_congr fun ref _ => cutRef_eq ref)
  | tableSchema schema table =>
    cases reply with
    | none => exact ⟨fun _ => nofun,fun _ => rfl⟩
    | some s =>
      refine Option.some_inj.trans ((cutSchema_eq s).trans ⟨fun plain t found => ?_,fun plain => plain s rfl⟩)
      cases found
      exact plain
  | acquireReadScan schema table => exact cutPinned_eq reply
  | chunk kind schema table rowsJson => exact cutDml_eq reply
  | releaseReadPin pinId | txnBegin | txnCommit | txnRollback => exact ⟨fun _ => trivial,fun _ => rfl⟩

/-- The client's functions as the rest of the model has them, which leave the crossing out. -/
def Matches {α σ : Type} : Except Fault α → EStateM.Result String σ α → Prop
  | .ok a, .ok b _ => a = b
  | .error fault, .error message _ => fault = .exception message
  | _, _ => False

variable (c text) in
def Request.PlainAnswer (request : Request) : Except String request.Answer → Prop
  | .ok answer => request.Plain (request.reply c text answer)
  | .error e => noNul e

theorem receive_ok {request : Request} {answer : request.Answer}
    (plain : request.PlainAnswer c text (.ok answer)) :
    request.receive c text (.ok answer) = .ok (request.reply c text answer) :=
  congrArg Except.ok ((cut_eq_iff request _).mpr plain)

theorem receive_error {request : Request} {e : String}
    (plain : request.PlainAnswer c text (.error e)) :
    request.receive c text (.error e) = request.refuse e :=
  congrArg request.refuse (if_pos plain)

theorem attempt_ok {α : Type} {x : Pg α} {s t : Conn} {a : α} :
    Effect.attempt x s = .ok (.ok a) t ↔ x s = .ok a t := by
  cases ran : x s <;> simp [Effect.attempt, ran]

theorem attempt_error {α : Type} {x : Pg α} {s t : Conn} {e : String} :
    Effect.attempt x s = .ok (.error e) t ↔ x s = .error e t := by
  cases ran : x s <;> simp [Effect.attempt, ran]

section Calls

variable {schema table : String} (names : noNul schema ∧ noNul table)
include names

/-- Where the texts are plain, the call of the model is the one that crosses. -/
theorem acquireReadScan_matches {a : Attached} {conn : Conn}
    {answer : Except String (Request.acquireReadScan schema table).Answer}
    (asked : Effect.attempt (acquireScan c (cString schema) (cString table)) a.conn =
      .ok answer conn)
    (plain : (Request.acquireReadScan schema table).PlainAnswer c text answer) :
    Matches ((Request.acquireReadScan schema table).receive c text answer)
      (TierDb.acquireReadScan c schema table a) := by
  rw [(cString_eq schema).mpr names.1, (cString_eq table).mpr names.2] at asked
  cases answer with
  | ok pinned =>
    have ran : acquireScan c schema table a.conn = .ok pinned conn := attempt_ok.mp asked
    rw [receive_ok plain, TierDb.acquireReadScan, Effect.bind_apply, client_apply, ran]
    rfl
  | error e =>
    have ran : acquireScan c schema table a.conn = .error e conn := attempt_error.mp asked
    rw [receive_error plain, TierDb.acquireReadScan, Effect.bind_apply, client_apply, ran]
    rfl

theorem tryGetTableSchema_matches {conn after : Conn}
    {answer : Except String (Request.tableSchema schema table).Answer}
    (asked : Effect.attempt (TierDb.tableSchema c (cString schema) (cString table)) conn =
      .ok answer after)
    (plain : (Request.tableSchema schema table).PlainAnswer c text answer) :
    Matches ((Request.tableSchema schema table).receive c text answer)
      (tryGetTableSchema c schema table conn) := by
  rw [(cString_eq schema).mpr names.1, (cString_eq table).mpr names.2] at asked
  rw [tryGetTableSchema, Effect.bind_of_ok asked]
  cases answer with
  | ok s =>
    rw [receive_ok plain]
    rfl
  | error e =>
    rw [receive_error plain]
    by_cases missing : contains e "not registered" = true
    · simp only [Request.refuse, missing, if_true]
      rfl
    · simp only [Request.refuse, missing]
      rfl

end Calls

end Plain

end TierDb.Wire
