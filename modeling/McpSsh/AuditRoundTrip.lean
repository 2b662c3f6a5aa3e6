import McpSsh.AuditEntries

/-!
# The audit history reads what the record ships

Two crates define the format apart from each other: `audit.rs` by what it
serializes, `audit_history.rs` by what it accepts. Each value within its bounds
is accepted as what it was, so the line of an entry reads back as that entry.
-/

namespace McpSsh.AuditHistory

/-! ## Values -/

theorem exactKeys_of {object : List (String × Json)} {keys : List String}
    (distinct : (object.map Prod.fst).Nodup) (same : (object.map Prod.fst).Perm keys) :
    exactKeys object keys = some () := by
  unfold exactKeys
  rw [Json.keyNames_of_nodup distinct]
  exact if_pos ⟨same.length_eq, fun key member => same.mem_iff.mp member⟩

theorem lowerHexId_spell {draw : Nat} (drawn : Drawn draw) :
    lowerHexId (String.ofList (spell 32 draw)) = some () := by
  have digits := spell_isLowerHex drawn
  refine if_pos ⟨?_, ?_⟩
  · rw [utf8ByteSize_of_lowerHex digits, spell_length]
  · rw [String.toList_ofList, digits]

theorem runId_asStr {run : RunId} (drawn : run.draw < 16 ^ 48) : runId run.asStr = some () := by
  have store : run.draw / 16 ^ 32 < 16 ^ 16 := Nat.div_lt_of_lt_mul (by rw [← Nat.pow_add]; exact drawn)
  have own : run.draw % 16 ^ 32 < 16 ^ 32 := Nat.mod_lt _ (by decide)
  have plain : ∀ c ∈ spell 16 (run.draw / 16 ^ 32), decide (c ≠ '-') = true := by
    intro c listed
    refine decide_eq_true fun dash => ?_
    have digit := List.all_eq_true.mp (spell_isLowerHex store) c listed
    rw [dash] at digit
    cases digit
  unfold runId RunId.asStr
  rw [String.toList_ofList, List.takeWhile_append_of_pos plain, List.dropWhile_append_of_pos plain]
  simp only [ne_eq, not_true_eq_false, decide_false, Bool.false_eq_true, not_false_eq_true,
    List.takeWhile_cons_of_neg, List.dropWhile_cons_of_neg, List.append_nil]
  exact if_pos ⟨spell_length _ _, spell_isLowerHex store, spell_length _ _, spell_isLowerHex own⟩

theorem accessClass_asStr (which : AccessClass) : accessClass which.asStr = some () := by
  cases which <;> decide

theorem mapM_strings (texts : List String) : (texts.map Json.str).mapM asString = some texts := by
  induction texts with
  | nil => rfl
  | cons text texts ih => simp [List.mapM_cons, asString, ih]

theorem validateRecorded_toJson {recorded : Recorded} (bounded : recorded.Bounded) :
    validateRecorded recorded.toJson = some () := by
  cases recorded with
  | kept text truncated bytes =>
    have fits := bytes.toNat_lt
    simp [Recorded.toJson, validateRecorded, asObject, requiredString, requiredBool, requiredU64,
      asU64, Json.get, exactKeys, Json.keyNames, guard, fits]
  | withheld bytes matched =>
    have fits := bytes.toNat_lt
    have named : isBlank matched = false := bounded
    simp [Recorded.toJson, validateRecorded, asObject, requiredString, requiredU64, asU64, Json.get,
      exactKeys, Json.keyNames, guard, fits, nonBlankString, named]

theorem validateFile_toJson {file : FileIdentity} (bounded : file.Bounded) :
    validateFile file.toJson = some () := by
  have fits := file.bytes.toNat_lt
  simp [FileIdentity.toJson, validateFile, asObject, requiredString, requiredU64, asU64, Json.get,
    exactKeys, Json.keyNames, guard, fits, nonBlankString, bounded.uri, lowerHexDigest,
    bounded.sha256]

theorem optionalNum_nullable {α : Type} {bound : Nat} {toNat : α → Nat} (fits : ∀ value, toNat value < bound)
    (value : Option α) :
    optionalNum bound (some (nullable (fun own => .num (toNat own)) value)) =
      some (value.map toNat) := by
  cases value with
  | none => rfl
  | some own => exact if_pos (fits own)

theorem metadataOf_toJson (metadata : Metadata) : metadataOf metadata.toJson = some metadata := by
  obtain ⟨kind, bytes, permissions, modified⟩ := metadata
  have kinds : Json.variantOf ["file", "directory", "other"] (.str kind.asStr) = some kind.asStr := by
    cases kind <;> decide
  have back : (if kind.asStr = "file" then FileKind.file
      else if kind.asStr = "directory" then .directory else .other) = kind := by
    cases kind <;> decide
  simp only [metadataOf, Metadata.toJson]
  rw [Json.fieldsOf_obj (by simp)]
  simp [Json.get, kinds, back, optionalNum_nullable UInt64.toNat_lt,
    optionalNum_nullable UInt32.toNat_lt, Function.comp_def]

theorem directoryEntryOf_toJson (entry : DirectoryEntry) :
    directoryEntryOf entry.toJson = some entry := by
  obtain ⟨name, metadata⟩ := entry
  simp only [directoryEntryOf, DirectoryEntry.toJson]
  rw [Json.fieldsOf_obj (by simp)]
  cases name <;> simp [Json.get, nullable, metadataOf_toJson]

theorem fileInfoOf_toJson (info : FileInfo) : fileInfoOf info.toJson = some info := by
  cases info with
  | stat metadata =>
    simp only [fileInfoOf, FileInfo.toJson, infoTag, requiredString, Json.get]
    simp [Json.fieldsOf, Json.keyNames, Json.get, metadataOf_toJson]
  | list entries truncated =>
    have each : (entries.map DirectoryEntry.toJson).mapM directoryEntryOf = some entries := by
      induction entries with
      | nil => rfl
      | cons entry entries ih => simp [List.mapM_cons, directoryEntryOf_toJson, ih]
    simp only [fileInfoOf, FileInfo.toJson, infoTag, requiredString, Json.get]
    simp [Json.fieldsOf, Json.keyNames, Json.get, each]
  | checksum bytes sha256 =>
    have fits := bytes.toNat_lt
    simp only [fileInfoOf, FileInfo.toJson, infoTag, requiredString, Json.get]
    simp [Json.fieldsOf, Json.keyNames, Json.get, requiredNum, fits]

theorem artifactOf_toJson (artifact : EvaluationArtifact) :
    artifactOf artifact.toJson = some (artifact.draft, artifact.evaluator) := by
  have verdicts : Json.variantOf ["supports_intent", "does_not_support_intent", "uncertain"]
      (.str artifact.verdict.asStr) = some artifact.verdict.asStr := by
    cases artifact.verdict <;> decide
  have back : (if artifact.verdict.asStr = "supports_intent" then EvaluationVerdict.supportsIntent
      else if artifact.verdict.asStr = "uncertain" then .uncertain else .doesNotSupportIntent) =
        artifact.verdict := by
    cases artifact.verdict <;> decide
  have fits := artifact.confidence.toNat_lt
  have effects := mapM_strings artifact.sideEffects
  simp only [artifactOf, EvaluationArtifact.toJson]
  rw [Json.fieldsOf_obj (by simp)]
  simp [Json.get, verdicts, back, strings, effects, requiredNum, fits, EvaluationArtifact.draft]

/-! ## Events -/

theorem asU64_num {number : Nat} (fits : number < 2 ^ 64) : asU64 (.num number) = some number :=
  if_pos fits

theorem nonBlankString_of {text : String} (stated : isBlank text = false) :
    nonBlankString text = some () := if_pos stated

theorem validateAnswerFields_of {object : List (String × Json)} {decided : Nat}
    {request : RequestId} {stated : Stated}
    (has : ∀ field ∈ answerFields decided request stated, Json.get object field.1 = some field.2)
    (fits : decided < 2 ^ 64) (drawn : Drawn request.draw) (bounded : stated.Bounded) :
    validateAnswerFields object = some () := by
  simp only [answerFields, List.forall_mem_cons, List.not_mem_nil, false_implies,
    implies_true, and_true] at has
  obtain ⟨decided', request', approver, overrideOf, standing, mode, agreement⟩ := has
  have request'' : lowerHexId request.asStr = some () := lowerHexId_spell drawn
  have approver' := nonBlankString_of bounded.approver
  have modes : oneOf stated.mode.asStr ["direct", "override", "session"] = some () := by
    cases stated.mode <;> decide
  simp only [validateAnswerFields, requiredU64, requiredString, optionalString, requiredBool, decided',
    request', approver, overrideOf, standing, mode, agreement, asU64, Option.bind_some, fits, if_true,
    request'', approver', modes, Option.bind_eq_bind]
  cases because : stated.overrideOf with
  | none =>
    cases under : stated.agreement with
    | none => rfl
    | some id => exact lowerHexId_spell (bounded.agreement id under)
  | some text =>
    simp only [nullable, nonBlankString_of (bounded.overrideOf text because), Option.bind_some]
    cases under : stated.agreement with
    | none => rfl
    | some id => exact lowerHexId_spell (bounded.agreement id under)

theorem forM_nonBlank {texts : List String} (each : ∀ text ∈ texts, isBlank text = false) :
    forM texts nonBlankString = some () := by
  induction texts with
  | nil => rfl
  | cons text texts ih =>
    obtain ⟨here, later⟩ := List.forall_mem_cons.mp each
    rw [List.forM_cons, nonBlankString_of here]
    exact ih later

theorem stringArray_of (object : List (String × Json)) (field : String) (texts : List String)
    (has : Json.get object field = some (strings texts)) :
    stringArray object field = some texts := by
  unfold stringArray
  rw [has]
  exact mapM_strings texts

theorem operationKeys_of (object : List (String × Json)) (keys : List String) (kind : ActionKind)
    (has : Json.get object "operation" = some (.str kind.asStr))
    (exact' : exactKeys object keys = some ()) : operationKeys object keys = some () := by
  have kinds : oneOf kind.asStr ["execute", "download", "upload", "stat", "list", "checksum"] =
      some () := by
    cases kind <;> decide
  simp only [operationKeys, has, asString, Option.bind_eq_bind, Option.bind_some, kinds, exact']

/-- The branch that checks an event. -/
def branchOf : Event → List (String × Json) → Option Unit
  | .sessionOpened .. => validateOpened
  | .decided _ => validateDecided
  | .approved _ => validateApproved
  | .answered _ => validateAnswered
  | .completed _ => validateCompleted
  | .cancellationRequested .. => validateCancellation
  | .sessionClosed => (exactKeys · ["event"])
  | .sessionTerminated _ => validateTerminated
  | .evaluated _ => validateEvaluated

/-- No event has a second tag. -/
theorem get_event (event : Event) : Json.get event.fields "event" = none := by
  cases event with
  | completed what =>
    obtain ⟨run, decided, state, stdout, stderr, file, info⟩ := what
    cases file <;> cases info <;> simp [Event.fields, skippable, Json.get]
  | _ => simp [Event.fields, answerFields, Json.get]

/-- An event is checked by what its tag says. -/
theorem validateEvent_branch (event : Event) :
    validateEvent event.toJson = branchOf event (("event", .str event.asStr) :: event.fields) := by
  have tag : requiredString (("event", .str event.asStr) :: event.fields) "event" =
      some event.asStr := by
    simp only [requiredString, Json.get, get_event, Option.none_or, if_true]
  unfold validateEvent Event.toJson
  simp only [asObject, Option.bind_eq_bind, Option.bind_some, tag]
  cases event <;> rfl

theorem validateOpened_fields {purpose : String} {accessClass : AccessClass}
    (bounded : Purpose.refusal purpose = none) :
    validateOpened (("event", .str "session_opened") ::
      (Event.sessionOpened purpose accessClass).fields) = some () := by
  have why : AuditHistory.purpose purpose = some () := if_pos bounded
  simp [Event.fields, validateOpened, requiredString, Json.get, exactKeys, Json.keyNames, why,
    accessClass_asStr, guard]

theorem validateDecided_fields {what : Decided} (bounded : what.Bounded) :
    validateDecided (("event", .str "decided") :: (Event.decided what).fields) = some () := by
  let object := ("event", .str "decided") :: (Event.decided what).fields
  have operation : operationKeys object ["event", "agent_intent", "argv", "program", "operation",
      "access_class", "purpose", "verdict", "policies"] = some () :=
    operationKeys_of object _ what.operation (by simp [object, Event.fields, Json.get])
      (exactKeys_of (by simp [object, Event.fields]) (by
        simp only [object, Event.fields, List.map_cons, List.map_nil]
        decide))
  have argv : stringArray object "argv" = some what.argv :=
    stringArray_of object _ _ (by simp [object, Event.fields, Json.get])
  have policies : stringArray object "policies" = some what.policies :=
    stringArray_of object _ _ (by simp [object, Event.fields, Json.get])
  have verdicts : oneOf what.verdict.asStr ["permit", "needs_approval", "deny"] = some () := by
    cases what.verdict <;> decide
  have program : what.program = what.argv.head?.getD "" := by
    rw [bounded.program, List.headD_eq_head?_getD]
  have each := forM_nonBlank bounded.policies
  have intent : agentIntent what.agentIntent = some () := if_pos bounded.agentIntent
  have vector : command what.argv = some () := if_pos bounded.argv
  have why : purpose what.purpose = some () := if_pos bounded.purpose
  simp only [object, Event.fields, program] at operation argv policies
  simp [Event.fields, validateDecided, requiredString, Json.get, operation, argv, policies, verdicts,
    program, each, intent, vector, why, accessClass_asStr, guard]

theorem validateApproved_fields {what : Approved}
    (bounded : what.decided < 2 ^ 64 ∧ Drawn what.request.draw ∧ what.stated.Bounded) :
    validateApproved (("event", .str "approved") :: (Event.approved what).fields) = some () := by
  let object := ("event", .str "approved") :: (Event.approved what).fields
  have answer : validateAnswerFields object = some () :=
    validateAnswerFields_of (by simp [object, Event.fields, answerFields, Json.get]) bounded.1
      bounded.2.1 bounded.2.2
  have keys : exactKeys object ["event", "decided", "request", "approver", "override_of", "standing",
      "mode", "agreement"] = some () :=
    exactKeys_of (by simp [object, Event.fields, answerFields]) (by
      simp only [object, Event.fields, answerFields, List.map_cons, List.map_nil]
      decide)
  simp only [object] at answer keys
  simp only [validateApproved, answer, keys, Option.bind_eq_bind, Option.bind_some]

theorem validateAnswered_fields {what : Answered}
    (bounded : what.decided < 2 ^ 64 ∧ Drawn what.request.draw ∧ what.stated.Bounded) :
    validateAnswered (("event", .str "answered") :: (Event.answered what).fields) = some () := by
  let object := ("event", .str "answered") :: (Event.answered what).fields
  have answer : validateAnswerFields object = some () :=
    validateAnswerFields_of (by simp [object, Event.fields, answerFields, Json.get]) bounded.1
      bounded.2.1 bounded.2.2
  have agreed : requiredBool object "agreed" = some what.agreed := by
    simp [object, requiredBool, Event.fields, answerFields, Json.get]
  have keys : exactKeys object ["event", "decided", "request", "approver", "override_of", "standing",
      "mode", "agreement", "agreed"] = some () :=
    exactKeys_of (by simp [object, Event.fields, answerFields]) (by
      simp only [object, Event.fields, answerFields, List.map_cons, List.map_nil, List.cons_append,
        List.nil_append]
      decide)
  simp only [object] at answer keys agreed
  simp only [validateAnswered, answer, keys, agreed, Option.bind_eq_bind, Option.bind_some,
    Option.pure_def]

theorem validateCompleted_fields {what : Completed} (bounded : what.Bounded) :
    validateCompleted (("event", .str "completed") :: (Event.completed what).fields) = some () := by
  obtain ⟨run, decided, state, stdout, stderr, file, info⟩ := what
  have own : runId run.asStr = some () := runId_asStr bounded.run
  have authorized : asU64 (.num decided) = some decided := asU64_num bounded.decided
  have said : nonBlankString state = some () := nonBlankString_of bounded.state
  have out : validateRecorded stdout.toJson = some () := validateRecorded_toJson bounded.stdout
  have err : validateRecorded stderr.toJson = some () := validateRecorded_toJson bounded.stderr
  have moved : ∀ value ∈ file, validateFile value.toJson = some () :=
    fun value is => validateFile_toJson (bounded.file value is)
  have told : ∀ value ∈ info, fileInfoOf value.toJson = some value ∧ value.isBounded = true :=
    fun value is => ⟨fileInfoOf_toJson value, bounded.info value is⟩
  have keys (object : List (String × Json)) (is : object.map Prod.fst = completedKeys object)
      (distinct : (completedKeys object).Nodup) :
      exactKeys object (completedKeys object) = some () :=
    exactKeys_of (is ▸ distinct) (is ▸ List.Perm.refl _)
  cases file <;> cases info <;> simp only [Event.fields, skippable, List.cons_append, List.nil_append]
  case none.none =>
    rw [validateCompleted, keys _ (by simp [completedKeys, Json.get]) (by simp [completedKeys, Json.get])]
    simp [requiredString, requiredU64, Json.get, own, authorized, said, out, err]
  case none.some info =>
    obtain ⟨reads, fits⟩ := told info rfl
    rw [validateCompleted, keys _ (by simp [completedKeys, Json.get]) (by simp [completedKeys, Json.get])]
    simp [requiredString, requiredU64, Json.get, own, authorized, said, out, err, reads, fits, guard]
  case some.none file =>
    have ok := moved file rfl
    rw [validateCompleted, keys _ (by simp [completedKeys, Json.get]) (by simp [completedKeys, Json.get])]
    simp [requiredString, requiredU64, Json.get, own, authorized, said, out, err, ok]
  case some.some file info =>
    have ok := moved file rfl
    obtain ⟨reads, fits⟩ := told info rfl
    rw [validateCompleted, keys _ (by simp [completedKeys, Json.get]) (by simp [completedKeys, Json.get])]
    simp [requiredString, requiredU64, Json.get, own, authorized, said, out, err, ok, reads, fits, guard]

theorem validateEvaluated_fields {what : Evaluated} (bounded : what.Bounded) :
    validateEvaluated (("event", .str "evaluated") :: (Event.evaluated what).fields) = some () := by
  let object := ("event", .str "evaluated") :: (Event.evaluated what).fields
  have operation : operationKeys object ["event", "artifact", "operation", "decided", "argv",
      "agent_intent", "purpose", "access_class"] = some () :=
    operationKeys_of object _ what.operation (by simp [object, Event.fields, Json.get])
      (exactKeys_of (by simp [object, Event.fields]) (by
        simp only [object, Event.fields, List.map_cons, List.map_nil]
        decide))
  have argv : stringArray object "argv" = some what.argv :=
    stringArray_of object _ _ (by simp [object, Event.fields, Json.get])
  have artifact := artifactOf_toJson what.artifact
  have authorized := asU64_num bounded.decided
  have intent : agentIntent what.agentIntent = some () := if_pos bounded.agentIntent
  have vector : command what.argv = some () := if_pos bounded.argv
  have why : purpose what.purpose = some () := if_pos bounded.purpose
  simp only [object, Event.fields] at operation argv
  simp [Event.fields, validateEvaluated, requiredString, requiredU64, Json.get, operation, argv,
    artifact, authorized, intent, vector, why, accessClass_asStr, bounded.artifact, guard]

/-- Every event is accepted as it is written. -/
theorem validateEvent_toJson {event : Event} (bounded : event.Bounded) :
    validateEvent event.toJson = some () := by
  rw [validateEvent_branch]
  cases event with
  | sessionOpened purpose accessClass => exact validateOpened_fields bounded
  | decided what => exact validateDecided_fields bounded
  | approved what => exact validateApproved_fields bounded
  | answered what => exact validateAnswered_fields bounded
  | completed what => exact validateCompleted_fields bounded
  | cancellationRequested run sequence =>
    have own : runId run.asStr = some () := runId_asStr bounded.1
    have authorized := asU64_num bounded.2
    simp [branchOf, Event.asStr, Event.fields, validateCancellation, requiredString, requiredU64,
      Json.get, exactKeys, Json.keyNames, guard, own, authorized]
  | sessionClosed => exact exactKeys_of (by simp [Event.fields]) (List.Perm.refl _)
  | sessionTerminated operator =>
    simp [branchOf, Event.asStr, Event.fields, validateTerminated, requiredString, Json.get, exactKeys,
      Json.keyNames, guard, operator.accepted]
  | evaluated what => exact validateEvaluated_fields bounded

/-! ## Entries -/

/-- What a reader is shown of an entry. -/
def AuditLine.of (entry : McpSsh.Entry) : AuditLine where
  sequence := entry.sequence
  at' := entry.atMillis
  session := entry.who.session.asStr
  principal := entry.who.principal.name
  host := entry.who.host.name
  role := entry.who.role.name
  event := entry.event.toJson
  previous := hex entry.previous.bytes
  digest := hex entry.digest.bytes

theorem validateEntry_of {entry : McpSsh.Entry} (bounded : entry.Bounded) :
    validateEntry (.of entry) = some () := by
  have session : lowerHexId entry.who.session.asStr = some () := lowerHexId_spell bounded.session
  have event := validateEvent_toJson bounded.event
  have previous := hex_isLowerHexDigest bounded.previous
  have digest := hex_isLowerHexDigest bounded.digest
  simp [validateEntry, AuditLine.of, session, event, lowerHexDigest, previous, digest, guard,
    entry.who.principal.accepted, entry.who.host.accepted, entry.who.role.accepted]

/-- What a reader is shown, as it was written. -/
def AuditLine.toJson (line : AuditLine) : Json := .obj [
  ("sequence", .num line.sequence),
  ("at", .num line.at'),
  ("session", .str line.session),
  ("principal", .str line.principal),
  ("host", .str line.host),
  ("role", .str line.role),
  ("event", line.event),
  ("previous", .str line.previous),
  ("digest", .str line.digest)]

def AuditLine.text (line : AuditLine) : String := String.ofList line.toJson.text

/-- What reading a line can come to. -/
structure AuditLine.Valid (line : AuditLine) : Prop where
  sequence : line.sequence < 2 ^ 64
  at' : line.at' < 2 ^ 64
  accepted : validateEntry line = some ()

theorem requiredNum_lt {bound number : Nat} {json : Option Json}
    (is : requiredNum bound json = some number) : number < bound := by
  unfold requiredNum at is
  split at is
  · split at is
    · cases is
      assumption
    · cases is
  · cases is

theorem entryOf_bounds {json : Json} {line : AuditLine} (is : entryOf json = some line) :
    line.sequence < 2 ^ 64 ∧ line.at' < 2 ^ 64 := by
  unfold entryOf at is
  split at is
  all_goals
    simp only [Option.bind_eq_bind, Option.bind_eq_some_iff] at is
    obtain ⟨-, -, fields, -, is⟩ := is
    split at is
    · simp only [Option.bind_eq_some_iff] at is
      obtain ⟨sequence, sequenced, at', timed, is⟩ := is
      cases is
      exact ⟨requiredNum_lt sequenced, requiredNum_lt timed⟩
    · cases is

/-- Only what is valid is read. -/
theorem valid_of_readLine {text : String} {line : AuditLine} (is : readLine text = some line) :
    line.Valid := by
  unfold readLine at is
  obtain ⟨json, -, is⟩ := Option.bind_eq_some_iff.mp is
  obtain ⟨own, entry, is⟩ := Option.bind_eq_some_iff.mp is
  obtain ⟨checked, accepted, is⟩ := Option.bind_eq_some_iff.mp is
  cases is
  obtain ⟨sequence, at'⟩ := entryOf_bounds entry
  exact ⟨sequence, at', accepted⟩

theorem entryOf_toJson {line : AuditLine} (sequence : line.sequence < 2 ^ 64)
    (at' : line.at' < 2 ^ 64) : entryOf line.toJson = some line := by
  have sequence' : requiredNum (2 ^ 64) (some (.num line.sequence)) = some line.sequence :=
    if_pos sequence
  have at'' : requiredNum (2 ^ 64) (some (.num line.at')) = some line.at' := if_pos at'
  simp only [entryOf, AuditLine.toJson, Option.bind_eq_bind]
  rw [Json.fieldsOf_obj (by simp [entryFields])]
  simp [-Nat.reducePow, entryFields, Json.get, guard, sequence', at'']

/-- What is valid reads back. -/
theorem readLine_text {line : AuditLine} (valid : line.Valid) : readLine line.text = some line := by
  unfold readLine AuditLine.text
  rw [String.toList_ofList, Json.parse_text]
  simp only [Option.bind_eq_bind, Option.bind_some, entryOf_toJson valid.sequence valid.at',
    valid.accepted]
  rfl

theorem AuditLine.Valid.of {entry : McpSsh.Entry} (bounded : entry.Bounded) :
    (AuditLine.of entry).Valid :=
  ⟨bounded.sequence, bounded.atMillis, validateEntry_of bounded⟩

theorem AuditLine.text_of (entry : McpSsh.Entry) : (AuditLine.of entry).text = entry.line := rfl

/-- The line of an entry reads back as the entry. -/
theorem readLine_line {entry : McpSsh.Entry} (bounded : entry.Bounded) :
    readLine entry.line = some (.of entry) := by
  rw [← AuditLine.text_of]
  exact readLine_text (.of bounded)

end McpSsh.AuditHistory
