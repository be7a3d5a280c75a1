import TierDb.Projection
import TierDb.Resolution

/-! When a table is reported missing. Every failure of `table_schema` comes to the client as
one text, and the client looks for "not registered" in it. -/
namespace TierDb

/-- How `table_schema` fails. -/
inductive SchemaFailure where
  | tables (text : String)
  | unregistered
  | keyType (text : String)
  | columns (text : String)
  | noHeap
  deriving DecidableEq, Repr

def SchemaFailure.message (schema table : String) : SchemaFailure → String
  | .tables text => "tierdb.tables lookup failed: " ++ text
  | .unregistered => s!"table \"{schema}\".\"{table}\" is not registered with tierdb"
  | .keyType text => s!"table \"{schema}\".\"{table}\": " ++ text
  | .columns text =>
    let qualified := quoteIdent schema ++ "." ++ quoteIdent table
    s!"column lookup for {qualified} failed: " ++ text
  | .noHeap =>
    let qualified := quoteIdent schema ++ "." ++ quoteIdent table
    s!"heap relation {qualified} has no columns or does not exist"

/-- Whether the text is taken for that of an unregistered table. -/
def saysUnregistered (text : String) : Bool := contains text "not registered"

/-- A failure of a registered table that the client takes for the other one: the phrase is in
the text it comes with, or in a name that its message repeats. -/
def SchemaFailure.misread (schema table : String) : SchemaFailure → Bool
  | .tables text => saysUnregistered text
  | .unregistered => false
  | .keyType text | .columns text =>
    saysUnregistered schema || saysUnregistered table || saysUnregistered text
  | .noHeap => saysUnregistered schema || saysUnregistered table

section Messages

def phrase : List Char := ['n','o','t',' ','r','e','g','i','s','t','e','r','e','d']

theorem says_iff {text : String} : saysUnregistered text = true ↔ phrase <:+: text.toList :=
  decide_eq_true_iff

theorem phrase_blank {text : List Char} : phrase <:+: ' ' :: text ↔ phrase <:+: text := by
  rw [List.infix_cons_iff]
  apply or_iff_right
  intro starts
  have first : 'n' = ' ' := (List.cons_prefix_cons.mp starts).1
  exact absurd first (by decide)

/-- Two names between quotes, and the phrase somewhere in the text. -/
theorem phrase_names {front schema table after : List Char} :
    phrase <:+: front ++ '"' :: (schema ++ '"' :: '.' :: '"' :: (table ++ '"' :: after)) ↔
      phrase <:+: front ∨ phrase <:+: schema ∨ phrase <:+: table ∨ phrase <:+: after := by
  have unquoted : '"' ∉ phrase := by decide
  have dot : '.' ∉ phrase := by decide
  rw [Delimited.infix_mark_iff unquoted, Delimited.infix_mark_iff unquoted,
    Delimited.infix_mark_cons dot, Delimited.infix_mark_cons unquoted,
    Delimited.infix_mark_iff unquoted]

theorem phrase_colon {front text : List Char} :
    phrase <:+: front ++ ':' :: ' ' :: text ↔ phrase <:+: front ∨ phrase <:+: text := by
  have plain : ':' ∉ phrase := by decide
  rw [Delimited.infix_mark_iff plain, phrase_blank]

theorem phrase_doubled {name : List Char} :
    phrase <:+: Delimited.double '"' name ↔ phrase <:+: name :=
  Delimited.infix_double_iff (by decide)

/-- A text without the letter g does not hold the phrase. -/
theorem phrase_absent {text : List Char} (plain : 'g' ∉ text) : ¬phrase <:+: text := by
  intro inside
  have letter : 'g' ∈ phrase := by decide
  exact plain (inside.subset letter)

theorem message_misread {schema table : String} {failure : SchemaFailure}
    (other : failure ≠ .unregistered) :
    saysUnregistered (failure.message schema table) = failure.misread schema table := by
  rw [Bool.eq_iff_iff]
  cases failure with
  | tables text =>
    have parts : (SchemaFailure.message schema table (.tables text)).toList =
        "tierdb.tables lookup failed".toList ++ ':' :: ' ' :: text.toList := by
      unfold SchemaFailure.message
      simp
    have front : ¬phrase <:+: "tierdb.tables lookup failed".toList := phrase_absent (by decide)
    rw [says_iff, parts, phrase_colon, SchemaFailure.misread, says_iff]
    exact or_iff_right front
  | unregistered => exact absurd rfl other
  | keyType text =>
    have parts : (SchemaFailure.message schema table (.keyType text)).toList =
        "table ".toList ++ '"' :: (schema.toList ++ '"' :: '.' :: '"' ::
          (table.toList ++ '"' :: ([] ++ ':' :: ' ' :: text.toList))) := by
      unfold SchemaFailure.message
      simp [toString]
    have front : ¬phrase <:+: "table ".toList := phrase_absent (by decide)
    have empty : ¬phrase <:+: [] := phrase_absent (by decide)
    rw [says_iff, parts, phrase_names, phrase_colon, SchemaFailure.misread]
    simp only [front, empty, false_or, Bool.or_eq_true, says_iff, or_assoc]
  | columns text =>
    have parts : (SchemaFailure.message schema table (.columns text)).toList =
        "column lookup for ".toList ++ '"' :: (Delimited.double '"' schema.toList ++ '"' :: '.' :: '"' ::
          (Delimited.double '"' table.toList ++ '"' ::
            (" failed".toList ++ ':' :: ' ' :: text.toList))) := by
      unfold SchemaFailure.message
      simp [toString, quoteIdent_toList, Delimited.enclose]
    have front : ¬phrase <:+: "column lookup for ".toList := phrase_absent (by decide)
    have middle : ¬phrase <:+: " failed".toList := phrase_absent (by decide)
    rw [says_iff, parts, phrase_names, phrase_colon, phrase_doubled, phrase_doubled,
      SchemaFailure.misread]
    simp only [front, middle, false_or, Bool.or_eq_true, says_iff, or_assoc]
  | noHeap =>
    have parts : (SchemaFailure.message schema table .noHeap).toList =
        "heap relation ".toList ++ '"' :: (Delimited.double '"' schema.toList ++ '"' :: '.' :: '"' ::
          (Delimited.double '"' table.toList ++ '"' ::
            " has no columns or does not exist".toList)) := by
      unfold SchemaFailure.message
      simp [toString, quoteIdent_toList, Delimited.enclose]
    have front : ¬phrase <:+: "heap relation ".toList := phrase_absent (by decide)
    have back : ¬phrase <:+: " has no columns or does not exist".toList := phrase_absent (by decide)
    rw [says_iff, parts, phrase_names, phrase_doubled, phrase_doubled, SchemaFailure.misread]
    simp only [front, back, false_or, or_false, Bool.or_eq_true, says_iff]

end Messages

/-- The error that a statement sent now ends with before it runs. -/
def Conn.refusal (c : Conn) : Option String :=
  match c.client.session.block with
  | .aborted => some Sql.abortedMessage
  | _ => c.client.session.verdict

/-- How the column lookup fails on a connection, if it does. -/
def columnsFailure (schema table : String) (c : Conn) : Option SchemaFailure :=
  match c.refusal with
  | some text => some (.columns text)
  | none => if (c.db.attributes schema table).isEmpty then some .noHeap else none

/-- How `table_schema` fails on a connection, if it does. -/
def schemaFailure (core : Core) (schema table : String) (c : Conn) : Option SchemaFailure :=
  match c.refusal with
  | some text => some (.tables text)
  | none =>
    match c.db.findTable schema table with
    | .error text => some (.tables text)
    | .ok none => some .unregistered
    | .ok (some row) =>
      match core.tierKeyTypeFromName row.tierKeyType with
      | .error text => some (.keyType text)
      | .ok _ => columnsFailure schema table (c.skip 1)

section Lookups

variable {core : Core} {schema table : String} {c : Conn}

theorem query_refused {α : Type} {text : String} (read : Database → α)
    (refused : c.refusal = some text) : ∃ d, query (fun db => .ok (read db)) c = .error text d := by
  unfold Conn.refusal at refused
  refine ⟨c.setSession c.client.session.next.fail,onSession_error.mpr ⟨_,?_,rfl⟩⟩
  cases block : c.client.session.block with
  | aborted =>
    simp only [block, Option.some.injEq] at refused
    simp [Sql.query, Sql.statement, block, refused, Sql.Session.fail]
  | idle | «open» working =>
    simp only [block] at refused
    simp [Sql.query, Sql.statement, block, refused]

theorem query_accepted {α : Type} (read : Database → α) (accepted : c.refusal = none) :
    query (fun db => .ok (read db)) c = .ok (read c.db) (c.skip 1) := by
  apply (Asks.query read).found c _ _ rfl
  unfold Conn.refusal at accepted
  cases block : c.client.session.block with
  | aborted => simp [block] at accepted
  | idle | «open» working =>
    simp only [block] at accepted
    exact ⟨fun _ => by simp [block],c.client.session.verdict_none.mp accepted⟩

theorem registered_of_found {db : Database} {row : Registration}
    (found : db.findTable schema table = .ok (some row)) : db.Registered schema table := by
  obtain ⟨member,named⟩ := findTable_some found
  exact ⟨row,member,named⟩

theorem unregistered_of_none {db : Database} (found : db.findTable schema table = .ok none) :
    ¬db.Registered schema table := by
  rintro ⟨row,member,named⟩
  unfold Database.findTable at found
  split at found
  · rename_i empty
    have kept : row ∈ db.tables.filter fun row => row.schemaName = schema ∧ row.tableName = table :=
      List.mem_filter.mpr ⟨member,by simpa using named⟩
    rw [empty] at kept
    cases kept
  · cases found
  · cases found

theorem heapColumns_outcome (schema table : String) (c : Conn) :
    match heapColumns schema table c with
    | .ok _ _ => columnsFailure schema table c = none
    | .error e _ => ∃ failure, columnsFailure schema table c = some failure ∧
        e = failure.message schema table := by
  unfold heapColumns columnsFailure
  cases refused : c.refusal with
  | some text =>
    obtain ⟨d,sent⟩ := query_refused (fun db => db.attributes schema table) refused
    let qualified := quoteIdent schema ++ "." ++ quoteIdent table
    have first := Effect.mapError_error
      (f := (s!"column lookup for {qualified} failed: " ++ ·)).mpr ⟨text,sent,rfl⟩
    rw [Effect.bind_of_error first]
    exact ⟨_,rfl,rfl⟩
  | none =>
    have sent := query_accepted (fun db => db.attributes schema table) refused
    let qualified := quoteIdent schema ++ "." ++ quoteIdent table
    have first := Effect.mapError_ok
      (f := (s!"column lookup for {qualified} failed: " ++ ·)).mpr sent
    rw [Effect.bind_of_ok first]
    cases empty : (c.db.attributes schema table).isEmpty with
    | true => exact ⟨_,rfl,rfl⟩
    | false => simp

/-- `table_schema` returns the schema of a registered table or throws the text of its
failure. -/
theorem tableSchema_outcome (core : Core) (schema table : String) (c : Conn) :
    match tableSchema core schema table c with
    | .ok _ _ => schemaFailure core schema table c = none ∧ c.db.Registered schema table
    | .error e _ => ∃ failure, schemaFailure core schema table c = some failure ∧
        e = failure.message schema table := by
  unfold tableSchema schemaFailure
  cases refused : c.refusal with
  | some text =>
    obtain ⟨d,sent⟩ := query_refused (fun db => db.findTable schema table) refused
    have first := Effect.mapError_error (f := ("tierdb.tables lookup failed: " ++ ·)).mpr
      ⟨text,Effect.bind_of_error (f := Effect.ofExcept) sent,rfl⟩
    rw [Effect.bind_of_error first]
    exact ⟨_,rfl,rfl⟩
  | none =>
    have sent := query_accepted (fun db => db.findTable schema table) refused
    cases found : c.db.findTable schema table with
    | error text =>
      have first := Effect.mapError_error (f := ("tierdb.tables lookup failed: " ++ ·)).mpr
        ⟨text,(Effect.bind_of_ok (f := Effect.ofExcept) sent).trans (by rw [found]; rfl),rfl⟩
      rw [Effect.bind_of_error first]
      exact ⟨_,rfl,rfl⟩
    | ok answer =>
      have first := Effect.mapError_ok (f := ("tierdb.tables lookup failed: " ++ ·)).mpr
        ((Effect.bind_of_ok (f := Effect.ofExcept) sent).trans (by rw [found]; rfl))
      rw [Effect.bind_of_ok first]
      cases answer with
      | none => exact ⟨_,rfl,rfl⟩
      | some row =>
        dsimp only
        cases typed : core.tierKeyTypeFromName row.tierKeyType with
        | error text => exact ⟨_,rfl,rfl⟩
        | ok keyType =>
          have columns := heapColumns_outcome schema table (c.skip 1)
          have typed_step := Effect.mapError_ok (f := (s!"table \"{schema}\".\"{table}\": " ++ ·)).mpr
            (Effect.ofExcept_ok.mpr ⟨rfl,rfl⟩ : Effect.ofExcept (.ok keyType) (c.skip 1) =
              .ok keyType (c.skip 1))
          rw [Effect.bind_of_ok typed_step]
          cases read : heapColumns schema table (c.skip 1) with
          | ok attributes d =>
            rw [read] at columns
            rw [Effect.bind_of_ok read]
            exact ⟨columns,registered_of_found found⟩
          | error e d =>
            rw [read] at columns
            rw [Effect.bind_of_error read]
            exact columns

/-- What the client makes of a failure. -/
theorem tryGetTableSchema_outcome (core : Core) (schema table : String) (c : Conn) :
    match tryGetTableSchema core schema table c with
    | .ok none _ => ∃ failure, schemaFailure core schema table c = some failure ∧
        saysUnregistered (failure.message schema table) = true
    | .ok (some _) _ => schemaFailure core schema table c = none ∧ c.db.Registered schema table
    | .error e _ => ∃ failure, schemaFailure core schema table c = some failure ∧
        saysUnregistered (failure.message schema table) = false ∧
        e = "tierdb: " ++ failure.message schema table := by
  have outcome := tableSchema_outcome core schema table c
  unfold tryGetTableSchema
  cases read : tableSchema core schema table c with
  | ok ts d =>
    have tried : Effect.attempt (tableSchema core schema table) c = .ok (.ok ts) d := by
      simp [Effect.attempt, read]
    rw [read] at outcome
    rw [Effect.bind_of_ok tried]
    exact outcome
  | error e d =>
    have tried : Effect.attempt (tableSchema core schema table) c = .ok (.error e) d := by
      simp [Effect.attempt, read]
    rw [read] at outcome
    obtain ⟨failure,failed,rfl⟩ := outcome
    rw [Effect.bind_of_ok tried]
    dsimp only
    cases said : saysUnregistered (failure.message schema table) with
    | true =>
      rw [saysUnregistered] at said
      rw [if_pos said]
      exact ⟨failure,failed,said⟩
    | false =>
      have other := said
      rw [saysUnregistered] at other
      rw [if_neg (by simp [other])]
      exact ⟨failure,failed,said,rfl⟩

theorem unregistered_said : saysUnregistered (SchemaFailure.unregistered.message schema table) = true := by
  have parts : (SchemaFailure.message schema table .unregistered).toList =
      "table ".toList ++ '"' :: (schema.toList ++ '"' :: '.' :: '"' ::
        (table.toList ++ '"' :: (" is ".toList ++ phrase ++ " with tierdb".toList))) := by
    unfold SchemaFailure.message
    simp [toString, phrase]
  rw [says_iff, parts, phrase_names]
  exact .inr (.inr (.inr ⟨_,_,rfl⟩))

end Lookups

/-- A lookup answers truly: null means that the lookup found the name unregistered, an entry
that it is registered, and every other failure comes out as an exception. -/
def Answers (core : Core) (schema table : String) (c : Catalog) : Prop :=
  match lookupEntry core schema table c with
  | .ok none _ => ¬c.db.Registered schema table ∧
      schemaFailure core schema table c.sys.conn = some .unregistered
  | .ok (some _) _ => c.db.Registered schema table
  | .error e _ => ∃ failure, failure ≠ .unregistered ∧
      schemaFailure core schema table c.sys.conn = some failure ∧
      e = "tierdb: " ++ failure.message schema table

/-- The entry cached for a name is no longer that of a registered table, or a failure of the
lookup is taken for an unregistered table. -/
def Misled (core : Core) (schema table : String) (c : Catalog) : Prop :=
  match c.cached schema table with
  | some _ => ¬c.db.Registered schema table
  | none => ∃ failure, schemaFailure core schema table c.sys.conn = some failure ∧
      failure.misread schema table = true

theorem schemaFailure_unregistered {core : Core} {schema table : String} {c : Conn}
    (failed : schemaFailure core schema table c = some .unregistered) :
    ¬c.db.Registered schema table := by
  unfold schemaFailure columnsFailure at failed
  split at failed
  · cases failed
  · split at failed
    · cases failed
    · rename_i found
      exact unregistered_of_none found
    · split at failed
      · cases failed
      · split at failed
        · cases failed
        · split at failed <;> cases failed

theorem lookupEntry_fresh {core : Core} {schema table : String} {c : Catalog}
    (fresh : c.cached schema table = none) : lookupEntry core schema table c =
      match tryGetTableSchema core schema table c.sys.conn with
      | .error e d => .error e (c.setConn d)
      | .ok none d => .ok none (c.setConn d)
      | .ok (some entry) d => .ok (some entry)
          { c.setConn d with tables := c.tables ++ [((schema,lower table),entry)] } := by
  unfold lookupEntry
  rw [Effect.bind_of_ok (Effect.get_apply c)]
  dsimp only
  rw [fresh]
  dsimp only
  cases tried : tryGetTableSchema core schema table c.sys.conn with
  | error e d => exact Effect.bind_of_error (by simp [Effect.zoom, tried])
  | ok answer d =>
    have ran : Effect.zoom (fun catalog => catalog.sys.conn) Catalog.setConn
        (tryGetTableSchema core schema table) c = .ok answer (c.setConn d) := by
      simp [Effect.zoom, tried]
    rw [Effect.bind_of_ok ran]
    cases answer <;> rfl

theorem lookup_answers_iff (core : Core) (schema table : String) (c : Catalog) :
    Answers core schema table c ↔ ¬Misled core schema table c := by
  unfold Answers Misled
  cases cached : c.cached schema table with
  | some entry =>
    have found : lookupEntry core schema table c = .ok (some entry) c := by
      simp [lookupEntry, Effect.bind_apply, cached]
    rw [found]
    exact not_not.symm
  | none =>
    have outcome := tryGetTableSchema_outcome core schema table c.sys.conn
    rw [lookupEntry_fresh cached]
    cases tried : tryGetTableSchema core schema table c.sys.conn with
    | error e d =>
      rw [tried] at outcome
      obtain ⟨failure,failed,silent,rfl⟩ := outcome
      have other : failure ≠ .unregistered := by
        rintro rfl
        exact absurd (unregistered_said.symm.trans silent) (by decide)
      rw [message_misread other] at silent
      refine iff_of_true ⟨failure,other,failed,rfl⟩ ?_
      rintro ⟨found,failed',misread⟩
      obtain rfl := Option.some.inj (failed.symm.trans failed')
      exact absurd (misread.symm.trans silent) (by decide)
    | ok answer d =>
      rw [tried] at outcome
      cases answer with
      | some entry =>
        refine iff_of_true outcome.2 ?_
        rintro ⟨found,failed,_⟩
        cases outcome.1.symm.trans failed
      | none =>
        obtain ⟨failure,failed,said⟩ := outcome
        by_cases other : failure = .unregistered
        · subst other
          refine iff_of_true ⟨schemaFailure_unregistered failed,failed⟩ ?_
          rintro ⟨found,failed',misread⟩
          obtain rfl := Option.some.inj (failed.symm.trans failed')
          cases misread
        · rw [message_misread other] at said
          refine iff_of_false ?_ (not_not_intro ⟨failure,failed,said⟩)
          rintro ⟨_,failed'⟩
          exact other (Option.some.inj (failed.symm.trans failed'))

/-- The lookups that a scan makes, each with the catalog it finds. -/
def scanVisits (core : Core) (schema : String) :
    List (String × String) → TierDBCatalog → List (String × Catalog)
  | [], _ => []
  | ref :: rest, c =>
    if lower ref.1 ≠ lower schema then scanVisits core schema rest c
    else (ref.2,c.toCatalog) :: match onCatalog (lookupEntry core schema ref.2) c with
      | .ok _ d => scanVisits core schema rest d
      | .error _ _ => []

/-- The result is the entries that the lookups found, or what one of them threw. -/
def Gathers (core : Core) (schema : String) (visits : List (String × Catalog)) :
    EStateM.Result String TierDBCatalog (List TierDBTableSchema) → Prop
  | .ok entries _ => entries = visits.filterMap fun visit =>
      foundBy (lookupEntry core schema visit.1 visit.2)
  | .error e _ => ∃ visit ∈ visits, ∃ d, lookupEntry core schema visit.1 visit.2 = .error e d

section Gathering

variable {core : Core} {schema : String} {visit : String × Catalog}
  {visits : List (String × Catalog)} {d : Catalog}

theorem Gathers.skip {result : EStateM.Result String TierDBCatalog (List TierDBTableSchema)}
    (looked : lookupEntry core schema visit.1 visit.2 = .ok none d)
    (later : Gathers core schema visits result) : Gathers core schema (visit :: visits) result := by
  cases result with
  | ok entries after =>
    have none : foundBy (lookupEntry core schema visit.1 visit.2) = none := by rw [looked]; rfl
    simpa only [Gathers, List.filterMap_cons, none] using later
  | error e after =>
    obtain ⟨other,member,thrown⟩ := later
    exact ⟨other,List.mem_cons_of_mem _ member,thrown⟩

theorem Gathers.keep {entry : TierDBTableSchema} {x : Resolve (List TierDBTableSchema)}
    {c : TierDBCatalog} (looked : lookupEntry core schema visit.1 visit.2 = .ok (some entry) d)
    (later : Gathers core schema visits (x c)) :
    Gathers core schema (visit :: visits) ((do return entry :: (← x)) c) := by
  cases ran : x c with
  | ok entries after =>
    have found : foundBy (lookupEntry core schema visit.1 visit.2) = some entry := by
      rw [looked]; rfl
    rw [ran] at later
    rw [Effect.bind_of_ok ran]
    simpa only [Effect.pure_apply, Gathers, List.filterMap_cons, found] using
      congrArg (entry :: ·) later
  | error e after =>
    rw [ran] at later
    rw [Effect.bind_of_error ran]
    obtain ⟨other,member,thrown⟩ := later
    exact ⟨other,List.mem_cons_of_mem _ member,thrown⟩

end Gathering

/-- A scan returns the entries of its lookups, skipping exactly those that answer null, and
throws what one of them throws. -/
theorem scanRefs_gathers (core : Core) (schema : String) (refs : List (String × String))
    (c : TierDBCatalog) :
    Gathers core schema (scanVisits core schema refs c) (scanRefs core schema refs c) := by
  induction refs generalizing c with
  | nil => rfl
  | cons ref rest ih =>
    unfold scanRefs scanVisits
    by_cases apart : lower ref.1 ≠ lower schema
    · rw [if_pos apart, if_pos apart]
      exact ih c
    · rw [if_neg apart, if_neg apart]
      cases looked : lookupEntry core schema ref.2 c.toCatalog with
      | error e d =>
        have ran : onCatalog (lookupEntry core schema ref.2) c = .error e { c with toCatalog := d } := by
          simp [onCatalog, Effect.zoom, looked]
        rw [Effect.bind_of_error ran]
        exact ⟨_,List.mem_cons_self,d,looked⟩
      | ok answer d =>
        have ran : onCatalog (lookupEntry core schema ref.2) c = .ok answer { c with toCatalog := d } := by
          simp [onCatalog, Effect.zoom, looked]
        rw [Effect.bind_of_ok ran, ran]
        cases answer with
        | none => exact (ih _).skip looked
        | some entry => exact (ih _).keep looked

namespace Reference

/-- A table named after the phrase, registered while its heap relation is gone. -/
def misnamed : Catalog where
  sys := system { database "tiered" 10 [] with
    tables := [{ registration "tiered" with tableName := "not registered" }] }

end Reference

end TierDb
