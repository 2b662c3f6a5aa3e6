import McpSsh.AuditRoundTrip
import McpSsh.Lib.JsonSearch
import McpSsh.Lib.LineFilters

/-!
# Filters over the audit record

`logql` and its kin in `audit_history.rs`: what the dashboard asks for becomes
line filters over the text of entries. Whatever a caller put into an entry, a
filter keeps its line exactly if the field it names has the value it names.
-/

namespace McpSsh

namespace AuditHistory

/-! ## Queries -/

/-- The filters of a `Query`; an empty one is left out. -/
structure Filters where
  principal : String
  session : String
  host : String
  event : String
  accessClass : String
  verdict : String
  text : String

def logqlString (value : String) : String := String.ofList (Json.text (.str value))

def jsonFragment (field value : String) : String := "\"" ++ field ++ "\":" ++ logqlString value

/-- One filter more, for a text. -/
def pushContains (expression text : String) : String := expression ++ " |= " ++ logqlString text

/-- One filter more, for a pattern. -/
def pushFinds (expression pattern : String) : String := expression ++ " |~ " ++ logqlString pattern

/-- One filter more, for a field, unless the value is empty. -/
def pushField (field value expression : String) : String :=
  if value = "" then expression else pushContains expression (jsonFragment field value)

def auditLogql : String := " |= \"\\\"event\\\":\x7b\""

def logql (query : Filters) : String :=
  let expression := auditLogql
    |> pushField "principal" query.principal
    |> pushField "session" query.session
    |> pushField "host" query.host
    |> pushField "event" query.event
    |> pushField "access_class" query.accessClass
    |> pushField "verdict" query.verdict
  if query.text = "" then expression else pushContains expression query.text

def transcriptDecisionsLogql (session : SessionId) : String :=
  pushContains (pushContains auditLogql (jsonFragment "session" session.asStr))
    (jsonFragment "event" "decided")

def outputLogql (session : SessionId) (run : RunId) : String :=
  [("session", session.asStr), ("event", "completed"), ("run", run.asStr)].foldl
    (fun expression (field, value) => pushContains expression (jsonFragment field value)) auditLogql

def joinedNumbers (values : List Nat) : String := "|".intercalate (values.map toString)

def jsonNumberRelation (field : String) (values : List Nat) : String :=
  "\\\"" ++ field ++ "\\\":(" ++ joinedNumbers values ++ ")(,|\x7d)"

def transcriptRelationLogql (session : SessionId) (pattern : String) : String :=
  pushFinds (pushContains auditLogql (jsonFragment "session" session.asStr)) pattern

def digestRelation (digests : List String) : String :=
  "\\\"decision_digest\\\":\\\"(" ++ "|".intercalate digests ++ ")\\\""

/-- What of a decision its evidence names: its sequence and its digest. -/
def relationPattern (decisions : List AuditLine) : String :=
  "(" ++ jsonNumberRelation "decided" (decisions.map AuditLine.sequence) ++ "|" ++
    digestRelation (decisions.map AuditLine.digest) ++ ")"

def transcriptRelationsLogql (session : SessionId) (decisions : List AuditLine) : String :=
  transcriptRelationLogql session (relationPattern decisions)

def transcriptCompletionsLogql (session : SessionId) (approvals : List Nat) : String :=
  pushContains (transcriptRelationLogql session (jsonNumberRelation "decided" approvals))
    (jsonFragment "event" "completed")

end AuditHistory

/-! ## What an entry's members are -/

/-- The keys of an entry. -/
def entryKeys : List String :=
  ["sequence", "at", "session", "principal", "host", "role", "event", "previous", "digest"]

/-- The keys an event has after its tag. -/
def fieldKeys : List String := ["purpose", "access_class", "operation", "agent_intent", "argv",
  "program", "verdict", "policies", "decided", "request", "approver", "override_of", "standing",
  "mode", "agreement", "agreed", "run", "state", "stdout", "stderr", "file", "info", "operator",
  "artifact"]

/-- The keys of what an event holds, but for an artifact's. -/
def innerKeys : List String := ["kind", "text", "truncated", "bytes", "matched", "uri", "sha256",
  "permissions", "modified", "name", "metadata", "operation", "entries"]

def artifactKeys : List String := ["evaluation_id", "decision_digest", "evaluator", "model",
  "prompt_version", "verdict", "confidence", "rationale", "side_effects"]

theorem keyed_nullable {α : Type} {write : α → Json} {keys : String → Prop}
    (each : ∀ value, (write value).Keyed keys) (value : Option α) :
    (nullable write value).Keyed keys := by
  cases value with
  | none => exact Json.keyed_null keys
  | some value => exact each value

theorem keyed_strings (keys : String → Prop) (texts : List String) : (strings texts).Keyed keys := by
  simp [strings]

theorem Recorded.keyed (recorded : Recorded) : recorded.toJson.Keyed (· ∈ innerKeys) := by
  cases recorded <;> simp [toJson, innerKeys]

theorem FileIdentity.keyed (file : FileIdentity) : file.toJson.Keyed (· ∈ innerKeys) := by
  simp [toJson, innerKeys]

theorem Metadata.keyed (metadata : Metadata) : metadata.toJson.Keyed (· ∈ innerKeys) := by
  have bytes (value : UInt64) : (Json.num value.toNat).Keyed (· ∈ innerKeys) := Json.keyed_num _ _
  have small (value : UInt32) : (Json.num value.toNat).Keyed (· ∈ innerKeys) := Json.keyed_num _ _
  simp only [toJson, Json.keyed_obj, List.forall_mem_cons]
  simp [keyed_nullable bytes, keyed_nullable small]
  decide

theorem DirectoryEntry.keyed (entry : DirectoryEntry) : entry.toJson.Keyed (· ∈ innerKeys) := by
  have name (value : String) : (Json.str value).Keyed (· ∈ innerKeys) := Json.keyed_str _ _
  simp only [toJson, Json.keyed_obj, List.forall_mem_cons]
  simp [keyed_nullable name, entry.metadata.keyed]
  decide

theorem FileInfo.keyed (info : FileInfo) : info.toJson.Keyed (· ∈ innerKeys) := by
  cases info with
  | stat metadata =>
    simp only [toJson, Json.keyed_obj, List.forall_mem_cons]
    simp [metadata.keyed]
    decide
  | list entries truncated =>
    simp only [toJson, Json.keyed_obj, List.forall_mem_cons]
    simp [DirectoryEntry.keyed]
    decide
  | checksum bytes sha256 => simp [toJson, innerKeys]

theorem EvaluationArtifact.keyed (artifact : EvaluationArtifact) :
    artifact.toJson.Keyed (· ∈ artifactKeys) := by
  simp [toJson, artifactKeys, keyed_strings]

/-- What stands in an event's members, but for an artifact's. -/
theorem Event.fields_keyed (event : Event) : ∀ member ∈ event.fields, member.1 ∈ fieldKeys ∧
    (member.2.Keyed (· ∈ innerKeys) ∨
      ∃ what, event = .evaluated what ∧ member.2 = what.artifact.toJson) := by
  have text (value : String) : (Json.str value).Keyed (· ∈ innerKeys) := Json.keyed_str _ _
  have id (value : AgreementId) : (Json.str value.asStr).Keyed (· ∈ innerKeys) := Json.keyed_str _ _
  cases event with
  | sessionOpened purpose accessClass => simp [fields, fieldKeys]
  | decided what => simp [fields, fieldKeys, keyed_strings]
  | approved what =>
    simp [fields, answerFields, fieldKeys, keyed_nullable text, keyed_nullable id]
  | answered what =>
    simp [fields, answerFields, fieldKeys, keyed_nullable text, keyed_nullable id]
  | completed what =>
    have file : ∀ member ∈ skippable "file" FileIdentity.toJson what.file,
        member.1 ∈ fieldKeys ∧ member.2.Keyed (· ∈ innerKeys) := by
      cases what.file with
      | none => simp [skippable]
      | some file => simp [skippable, fieldKeys, file.keyed]
    have info : ∀ member ∈ skippable "info" FileInfo.toJson what.info,
        member.1 ∈ fieldKeys ∧ member.2.Keyed (· ∈ innerKeys) := by
      cases what.info with
      | none => simp [skippable]
      | some info => simp [skippable, fieldKeys, info.keyed]
    intro member listed
    rw [fields, List.mem_append, List.mem_append] at listed
    rcases listed with (plain | listed) | listed
    · simp only [List.mem_cons, List.not_mem_nil, or_false] at plain
      rcases plain with rfl | rfl | rfl | rfl | rfl
      · simp [fieldKeys]
      · simp [fieldKeys]
      · simp [fieldKeys]
      · exact ⟨by simp [fieldKeys], .inl what.stdout.keyed⟩
      · exact ⟨by simp [fieldKeys], .inl what.stderr.keyed⟩
    · exact ⟨(file member listed).1, .inl (file member listed).2⟩
    · exact ⟨(info member listed).1, .inl (info member listed).2⟩
  | cancellationRequested run sequence => simp [fields, fieldKeys]
  | sessionClosed => simp [fields]
  | sessionTerminated operator => simp [fields, fieldKeys]
  | evaluated what => simp [fields, fieldKeys, keyed_strings]

theorem Event.mem_pairs {event : Event} {key : String} {value : Json} (inner : key ∉ innerKeys) :
    (key, value) ∈ event.toJson.pairs ↔ (key = "event" ∧ value = .str event.asStr) ∨
      (key, value) ∈ event.fields ∨
        ∃ what, event = .evaluated what ∧ (key, value) ∈ what.artifact.toJson.pairs := by
  rw [toJson, Json.mem_pairs_obj, List.mem_cons, Prod.mk.injEq, or_assoc]
  refine or_congr_right (or_congr_right ?_)
  constructor
  · intro among
    obtain ⟨member, listed, within⟩ := among
    cases List.mem_cons.mp listed with
    | inl tag =>
      subst tag
      cases within
    | inr listed =>
      rcases (event.fields_keyed member listed).2 with keyed | ⟨what, is, artifact⟩
      · exact absurd (keyed _ within) inner
      · exact ⟨what, is, artifact ▸ within⟩
  · intro among
    obtain ⟨what, is, within⟩ := among
    subst is
    refine ⟨("artifact", what.artifact.toJson), List.mem_cons_of_mem _ ?_, within⟩
    simp [fields]

theorem Event.keyed (event : Event) :
    event.toJson.Keyed (· ∈ "event" :: fieldKeys ++ innerKeys ++ artifactKeys) := by
  intro pair listed
  by_cases inner : pair.1 ∈ innerKeys
  · exact List.mem_append_left _ (List.mem_append_right _ inner)
  · rcases (Event.mem_pairs inner).mp listed with ⟨tag, -⟩ | listed | ⟨what, -, within⟩
    · simp [tag]
    · exact List.mem_append_left _ (List.mem_append_left _
        (List.mem_cons_of_mem _ (event.fields_keyed pair listed).1))
    · exact List.mem_append_right _ (what.artifact.keyed pair within)

/-- An entry's own members, and those of its event. -/
theorem Entry.mem_pairs {entry : Entry} {key : String} {value : Json} :
    (key, value) ∈ entry.toJson.pairs ↔
      (key = "sequence" ∧ value = .num entry.sequence ∨ key = "at" ∧ value = .num entry.atMillis ∨
        key = "session" ∧ value = .str entry.who.session.asStr ∨
        key = "principal" ∧ value = .str entry.who.principal.name ∨
        key = "host" ∧ value = .str entry.who.host.name ∨
        key = "role" ∧ value = .str entry.who.role.name ∨
        key = "event" ∧ value = entry.event.toJson ∨
        key = "previous" ∧ value = .str (hex entry.previous.bytes) ∨
        key = "digest" ∧ value = .str (hex entry.digest.bytes)) ∨
      (key, value) ∈ entry.event.toJson.pairs := by
  rw [toJson, Json.mem_pairs_obj]
  simp

theorem Entry.keyed (entry : Entry) : entry.toJson.Keyed Json.Quiet := by
  have quiet : ∀ key ∈ entryKeys ++ ("event" :: fieldKeys ++ innerKeys ++ artifactKeys),
      Json.Quiet key := by
    unfold Json.Quiet
    decide
  intro pair listed
  rcases Entry.mem_pairs.mp listed with own | within
  · refine quiet _ (List.mem_append_left _ ?_)
    rcases own with ⟨is, -⟩ | ⟨is, -⟩ | ⟨is, -⟩ | ⟨is, -⟩ | ⟨is, -⟩ | ⟨is, -⟩ | ⟨is, -⟩ | ⟨is, -⟩ | ⟨is, -⟩ <;>
      simp [is, entryKeys]
  · exact quiet _ (List.mem_append_right _ (entry.event.keyed pair within))

/-! ## What of an event is searched for -/

/-- The access an event names. -/
def Event.accessClass : Event → Option AccessClass
  | .sessionOpened _ accessClass => some accessClass
  | .decided what => some what.accessClass
  | .evaluated what => some what.accessClass
  | _ => none

/-- The verdict an event names: policy's, or an evaluator's. -/
def Event.verdictStr : Event → Option String
  | .decided what => some what.verdict.asStr
  | .evaluated what => some what.artifact.verdict.asStr
  | _ => none

/-- The run an event names. -/
def Event.run : Event → Option RunId
  | .completed what => some what.run
  | .cancellationRequested run _ => some run
  | _ => none

/-- The entry an event says it is about. -/
def Event.about : Event → Option Nat
  | .approved what => some what.decided
  | .answered what => some what.decided
  | .completed what => some what.decided
  | .cancellationRequested _ sequence => some sequence
  | .evaluated what => some what.decided
  | _ => none

/-- The digest of a decision that an evaluation names. -/
def Event.assessed : Event → Option Digest
  | .evaluated what => some what.artifact.decisionDigest
  | _ => none

theorem mem_skippable {α : Type} {write : α → Json} {own key : String} {value : Json}
    {held : Option α} :
    (key, value) ∈ skippable own write held ↔ key = own ∧ ∃ what ∈ held, value = write what := by
  cases held <;> simp [skippable]

theorem Event.mem_accessClass {event : Event} {value : Json} :
    ("access_class", value) ∈ event.fields ↔
      ∃ accessClass ∈ event.accessClass, value = .str accessClass.asStr := by
  cases event <;> simp [fields, accessClass, answerFields, mem_skippable]

theorem Event.mem_run {event : Event} {value : Json} :
    ("run", value) ∈ event.fields ↔ ∃ run ∈ event.run, value = .str run.asStr := by
  cases event <;> simp [fields, run, answerFields, mem_skippable]

theorem EvaluationArtifact.mem_verdict {artifact : EvaluationArtifact} {value : Json} :
    ("verdict", value) ∈ artifact.toJson.pairs ↔ value = .str artifact.verdict.asStr := by
  rw [toJson, Json.mem_pairs_obj]
  simp [strings, Json.mem_pairs_arr]

section
variable {entry : Entry} {key : String} {value : Json} {text : String}

/-- A key that only an entry itself has. -/
theorem Entry.not_mem_event (outer : key ∉ "event" :: fieldKeys ++ innerKeys ++ artifactKeys) :
    (key, value) ∉ entry.event.toJson.pairs :=
  fun listed => outer (entry.event.keyed (key, value) listed)

/-- A key that only an event has. -/
theorem Entry.mem_event (outer : key ∉ entryKeys) (inner : key ∉ innerKeys) :
    (key, value) ∈ entry.toJson.pairs ↔ (key, value) ∈ entry.event.fields ∨
      ∃ what, entry.event = .evaluated what ∧ (key, value) ∈ what.artifact.toJson.pairs := by
  rw [Entry.mem_pairs, Event.mem_pairs inner]
  simp only [entryKeys, List.mem_cons, List.not_mem_nil, or_false, not_or] at outer
  simp [outer]

theorem Event.not_mem_fields {event : Event} (other : key ∉ fieldKeys) :
    (key, value) ∉ event.fields :=
  fun listed => other (event.fields_keyed (key, value) listed).1

theorem EvaluationArtifact.not_mem {artifact : EvaluationArtifact} (other : key ∉ artifactKeys) :
    (key, value) ∉ artifact.toJson.pairs :=
  fun listed => other (artifact.keyed (key, value) listed)

theorem Entry.search {leads : List (List Char)} {wanted : Json → Prop}
    (searchable : Json.Searchable key) (tells : Json.Tells leads wanted) :
    (∃ lead ∈ leads, Json.needle key lead <:+: entry.line.toList) ↔
      ∃ value, (key, value) ∈ entry.toJson.pairs ∧ wanted value := by
  rw [Entry.line, String.toList_ofList]
  exact Json.search_iff entry.keyed searchable tells

theorem Entry.search_str (searchable : Json.Searchable key) :
    Json.needle key (Json.Token.text (.str text)) <:+: entry.line.toList ↔
      (key, .str text) ∈ entry.toJson.pairs := by
  have searched := entry.search searchable (Json.tells_str text)
  simpa using searched

theorem searchable (key : String) (letters : key.toList.head?.any Char.isAlpha = true) :
    Json.Searchable key := by
  unfold Json.Searchable
  cases is : key.toList with
  | nil => rw [is] at letters; cases letters
  | cons c more =>
    rw [is] at letters
    exact ⟨c, more, rfl, letters⟩

theorem Entry.finds_session :
    Json.needle "session" (Json.Token.text (.str text)) <:+: entry.line.toList ↔
      entry.who.session.asStr = text := by
  rw [Entry.search_str (searchable _ (by decide)), Entry.mem_pairs]
  simp [Entry.not_mem_event (show "session" ∉ _ by decide), eq_comm]

theorem Entry.finds_principal :
    Json.needle "principal" (Json.Token.text (.str text)) <:+: entry.line.toList ↔
      entry.who.principal.name = text := by
  rw [Entry.search_str (searchable _ (by decide)), Entry.mem_pairs]
  simp [Entry.not_mem_event (show "principal" ∉ _ by decide), eq_comm]

theorem Entry.finds_host :
    Json.needle "host" (Json.Token.text (.str text)) <:+: entry.line.toList ↔
      entry.who.host.name = text := by
  rw [Entry.search_str (searchable _ (by decide)), Entry.mem_pairs]
  simp [Entry.not_mem_event (show "host" ∉ _ by decide), eq_comm]

theorem Event.mem_tag {event : Event} {value : Json} :
    ("event", value) ∈ event.toJson.pairs ↔ value = .str event.asStr := by
  have fields : "event" ∉ fieldKeys := by decide
  have artifact : "event" ∉ artifactKeys := by decide
  rw [Event.mem_pairs (by decide)]
  simp [Event.not_mem_fields fields, EvaluationArtifact.not_mem artifact]

theorem Entry.finds_event :
    Json.needle "event" (Json.Token.text (.str text)) <:+: entry.line.toList ↔
      entry.event.asStr = text := by
  rw [Entry.search_str (searchable _ (by decide)), Entry.mem_pairs, Event.mem_tag]
  simp [Event.toJson, eq_comm]

/-- Every entry is one of the audit record. -/
theorem Entry.finds_audit (entry : Entry) : Json.needle "event" ['{'] <:+: entry.line.toList := by
  have searched := entry.search (searchable "event" (by decide)) Json.tells_obj
  have own : ("event", entry.event.toJson) ∈ entry.toJson.pairs :=
    Entry.mem_pairs.mpr (.inl (by simp))
  have found := searched.mpr ⟨entry.event.toJson, own, _, rfl⟩
  simpa using found

theorem Entry.finds_accessClass :
    Json.needle "access_class" (Json.Token.text (.str text)) <:+: entry.line.toList ↔
      entry.event.accessClass.map AccessClass.asStr = some text := by
  have artifact : "access_class" ∉ artifactKeys := by decide
  rw [Entry.search_str (searchable _ (by decide)), Entry.mem_event (by decide) (by decide),
    Event.mem_accessClass]
  simp [EvaluationArtifact.not_mem artifact, eq_comm]

theorem Entry.finds_verdict :
    Json.needle "verdict" (Json.Token.text (.str text)) <:+: entry.line.toList ↔
      entry.event.verdictStr = some text := by
  rw [Entry.search_str (searchable _ (by decide)), Entry.mem_event (by decide) (by decide)]
  cases entry.event <;> simp [Event.fields, Event.verdictStr, answerFields, mem_skippable,
    EvaluationArtifact.mem_verdict, eq_comm]

theorem Entry.finds_run :
    Json.needle "run" (Json.Token.text (.str text)) <:+: entry.line.toList ↔
      entry.event.run.map RunId.asStr = some text := by
  have artifact : "run" ∉ artifactKeys := by decide
  rw [Entry.search_str (searchable _ (by decide)), Entry.mem_event (by decide) (by decide),
    Event.mem_run]
  simp [EvaluationArtifact.not_mem artifact, eq_comm]

end

/-! ## What queries keep -/

namespace AuditHistory

open LineFilters (Reads Word selects Branch Choices isPlain)

variable {expression : String} {filters : List (List Word)}

theorem logqlString_toList (value : String) :
    (logqlString value).toList = '"' :: (Json.escape value.toList ++ ['"']) := by
  simp [logqlString, Json.text, Json.tokens, Json.Token.text]

/-- A fragment is what a search for a key and a string looks for. -/
theorem jsonFragment_toList {field : String} (plain : Json.escape field.toList = field.toList)
    (value : String) :
    (jsonFragment field value).toList = Json.needle field (Json.Token.text (.str value)) := by
  simp [jsonFragment, logqlString_toList, Json.needle, Json.Token.text, plain]

theorem reads_pushContains (reads : Reads expression.toList filters) (text : String) :
    Reads (pushContains expression text).toList (filters ++ [[text.toList]]) := by
  have written : (pushContains expression text).toList =
      expression.toList ++ (" |= \"".toList ++ (Json.escape text.toList ++ ['"'])) := by
    simp [pushContains, logqlString_toList]
  rw [written]
  exact reads.append (.contains text.toList)

theorem reads_auditLogql : Reads auditLogql.toList [[Json.needle "event" ['{']]] := by
  have written : auditLogql.toList = " |= \"".toList ++
      (Json.escape (Json.needle "event" ['{']) ++ ['"']) := by decide
  rw [written]
  exact .contains _

theorem reads_pushField (reads : Reads expression.toList filters) (field : String)
    (plain : Json.escape field.toList = field.toList) (value : String) :
    Reads (pushField field value expression).toList (filters ++
      if value = "" then [] else [[Json.needle field (Json.Token.text (.str value))]]) := by
  unfold pushField
  split
  · rw [List.append_nil]
    exact reads
  · rw [← jsonFragment_toList plain]
    exact reads_pushContains reads _

/-- What an entry has to be for some filters. -/
structure Filters.Keeps (query : Filters) (entry : McpSsh.Entry) : Prop where
  principal : query.principal ≠ "" → entry.who.principal.name = query.principal
  session : query.session ≠ "" → entry.who.session.asStr = query.session
  host : query.host ≠ "" → entry.who.host.name = query.host
  event : query.event ≠ "" → entry.event.asStr = query.event
  accessClass : query.accessClass ≠ "" →
    entry.event.accessClass.map AccessClass.asStr = some query.accessClass
  verdict : query.verdict ≠ "" → entry.event.verdictStr = some query.verdict
  text : query.text.toList <:+: entry.line.toList

theorem keeps_field {value : String} {word : Word} {line : List Char} :
    (∀ words ∈ (if value = "" then [] else [[word]]), ∃ word ∈ words, word <:+: line) ↔
      (value ≠ "" → word <:+: line) := by
  split
  · rename_i empty
    simp [empty]
  · rename_i filled
    simp [filled]

theorem keeps_word {word : Word} {line : List Char} :
    (∀ words ∈ [[word]], ∃ word ∈ words, word <:+: line) ↔ word <:+: line := by simp

/-- **Filters are exact.** Whatever texts an entry holds, the query for some
filters keeps its line exactly if it has the values they name. -/
theorem logql_selects (query : Filters) (entry : McpSsh.Entry) :
    selects (logql query) entry.line = true ↔ query.Keeps entry := by
  have fields :=
    reads_pushField (reads_pushField (reads_pushField (reads_pushField (reads_pushField
      (reads_pushField reads_auditLogql "principal" (by decide) query.principal)
      "session" (by decide) query.session) "host" (by decide) query.host)
      "event" (by decide) query.event) "access_class" (by decide) query.accessClass)
      "verdict" (by decide) query.verdict
  have audit := entry.finds_audit
  unfold logql
  dsimp only
  split
  · rename_i empty
    have text : query.text.toList <:+: entry.line.toList := by rw [empty]; exact List.nil_infix
    rw [fields.selects]
    simp only [List.forall_mem_append, keeps_field, keeps_word, Entry.finds_principal,
      Entry.finds_session, Entry.finds_host, Entry.finds_event, Entry.finds_accessClass,
      Entry.finds_verdict, audit, true_and, and_assoc]
    exact ⟨fun ⟨principal, session, host, event, accessClass, verdict⟩ =>
        ⟨principal, session, host, event, accessClass, verdict, text⟩,
      fun keeps => ⟨keeps.principal, keeps.session, keeps.host, keeps.event, keeps.accessClass,
        keeps.verdict⟩⟩
  · rw [(reads_pushContains fields query.text).selects]
    simp only [List.forall_mem_append, keeps_field, keeps_word, Entry.finds_principal,
      Entry.finds_session, Entry.finds_host, Entry.finds_event, Entry.finds_accessClass,
      Entry.finds_verdict, audit, true_and, and_assoc]
    exact ⟨fun ⟨principal, session, host, event, accessClass, verdict, text⟩ =>
        ⟨principal, session, host, event, accessClass, verdict, text⟩,
      fun keeps => ⟨keeps.principal, keeps.session, keeps.host, keeps.event, keeps.accessClass,
        keeps.verdict, keeps.text⟩⟩

theorem outputLogql_selects (session : SessionId) (run : RunId) (entry : McpSsh.Entry) :
    selects (outputLogql session run) entry.line = true ↔
      entry.who.session.asStr = session.asStr ∧ entry.event.asStr = "completed" ∧
        entry.event.run.map RunId.asStr = some run.asStr := by
  have reads := reads_pushContains (reads_pushContains (reads_pushContains reads_auditLogql
    (jsonFragment "session" session.asStr)) (jsonFragment "event" "completed"))
    (jsonFragment "run" run.asStr)
  have audit := entry.finds_audit
  have selected := reads.selects entry.line
  rw [jsonFragment_toList (by decide), jsonFragment_toList (by decide),
    jsonFragment_toList (by decide)] at selected
  simp only [List.forall_mem_append, keeps_word, Entry.finds_session, Entry.finds_event,
    Entry.finds_run, audit, true_and, and_assoc] at selected
  exact selected

/-! ## Relations -/

/-- What evidence for some decisions is. -/
def Relates (decisions : List AuditLine) (event : Event) : Prop :=
  ∃ decision ∈ decisions, event.about = some decision.sequence ∨
    event.assessed.map (hex ·.bytes) = some decision.digest

end AuditHistory

end McpSsh
