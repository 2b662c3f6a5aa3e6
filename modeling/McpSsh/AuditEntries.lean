import McpSsh.Audit.Line

/-!
# What the audit history takes for an entry

`audit_history.rs` reads lines back that another crate wrote, long after. It has
its own idea of the format: the fields an entry has and, in `validate_event`, the
keys and values of every event. Every refusal is alike to its caller, so a check
is an option.
-/

namespace McpSsh.AuditHistory

/-- One audit line, without the source's timestamp. -/
structure AuditLine where
  sequence : Nat
  at' : Nat
  session : String
  principal : String
  host : String
  role : String
  event : Json
  previous : String
  digest : String

/-! ## Fields -/

section
variable (object : List (String × Json)) (field : String)

def requiredString : Option String :=
  match Json.get object field with
  | some (.str value) => some value
  | _ => none

/-- The field may say `null`, but it has to be there. -/
def optionalString : Option (Option String) :=
  match Json.get object field with
  | some .null => some none
  | some (.str value) => some (some value)
  | _ => none

def asU64 : Json → Option Nat
  | .num value => if value < 2 ^ 64 then some value else none
  | _ => none

def requiredU64 : Option Nat := (Json.get object field).bind asU64

def requiredBool : Option Bool :=
  match Json.get object field with
  | some (.bool value) => some value
  | _ => none

def asString : Json → Option String
  | .str value => some value
  | _ => none

def stringArray : Option (List String) :=
  match Json.get object field with
  | some (.arr items) => items.mapM asString
  | _ => none

def asObject : Json → Option (List (String × Json))
  | .obj members => some members
  | _ => none

end

def exactKeys (object : List (String × Json)) (keys : List String) : Option Unit :=
  guard ((Json.keyNames object).length = keys.length ∧ ∀ key ∈ Json.keyNames object, key ∈ keys)

def nonBlankString (value : String) : Option Unit := guard (isBlank value = false)

def oneOf (value : String) (choices : List String) : Option Unit := guard (value ∈ choices)

def accessClass (value : String) : Option Unit := oneOf value ["read_only", "privileged"]

def lowerHexDigest (value : String) : Bool := isLowerHexDigest value

/-- The shape of a session, a request and an agreement identifier. -/
def lowerHexId (value : String) : Option Unit :=
  guard (value.utf8ByteSize = 32 ∧ value.toList.all isLowerHex)

/-- `RunId::parse`. -/
def runId (value : String) : Option Unit :=
  let store := value.toList.takeWhile (· ≠ '-')
  match value.toList.dropWhile (· ≠ '-') with
  | [] => none
  | _ :: run =>
    guard (store.length = 16 ∧ store.all isLowerHex ∧ run.length = 32 ∧ run.all isLowerHex)

/-- Optional operation metadata: it may be missing, but not be something else. -/
def operationKeys (object : List (String × Json)) (keys : List String) : Option Unit :=
  match Json.get object "operation" with
  | some operation => do
    oneOf (← asString operation) ["execute", "download", "upload", "stat", "list", "checksum"]
    exactKeys object keys
  | none => exactKeys object (keys.filter (· ≠ "operation"))

/-! ## What serde reads -/

/-- An optional number, below a bound. -/
def optionalNum (bound : Nat) : Option Json → Option (Option Nat)
  | none | some .null => some none
  | some (.num value) => if value < bound then some (some value) else none
  | _ => none

def requiredNum (bound : Nat) : Option Json → Option Nat
  | some (.num value) => if value < bound then some value else none
  | _ => none

/-- `Metadata`. -/
def metadataOf (json : Json) : Option Metadata := do
  match ← Json.fieldsOf ["kind", "bytes", "permissions", "modified"] json with
  | [some kind, bytes, permissions, modified] => do
    let kind ← Json.variantOf ["file", "directory", "other"] kind
    let bytes ← optionalNum (2 ^ 64) bytes
    let permissions ← optionalNum (2 ^ 32) permissions
    let modified ← optionalNum (2 ^ 32) modified
    return {
      kind := if kind = "file" then .file else if kind = "directory" then .directory else .other
      bytes := bytes.map UInt64.ofNat
      permissions := permissions.map UInt32.ofNat
      modified := modified.map UInt32.ofNat }
  | _ => none

/-- `DirectoryEntry`. -/
def directoryEntryOf (json : Json) : Option DirectoryEntry := do
  match ← Json.fieldsOf ["name", "metadata"] json with
  | [name, some metadata] => do
    let name ← match name with
      | none | some .null => some none
      | some (.str name) => some (some name)
      | _ => none
    return ⟨name, ← metadataOf metadata⟩
  | _ => none

/-- The tag of a `FileInfo`, and the rest of it. -/
def infoTag : Json → Option (String × Json)
  | .obj members => do
    let tag ← requiredString members "operation"
    return (tag, .obj (members.filter (·.1 ≠ "operation")))
  | .arr (.str tag :: items) => some (tag, .arr items)
  | _ => none

/-- `FileInfo`. -/
def fileInfoOf (json : Json) : Option FileInfo := do
  match ← infoTag json with
  | ("stat", rest) => do
    match ← Json.fieldsOf ["metadata"] rest with
    | [some metadata] => return .stat (← metadataOf metadata)
    | _ => none
  | ("list", rest) => do
    match ← Json.fieldsOf ["entries", "truncated"] rest with
    | [some (.arr entries), some (.bool truncated)] => do
      return .list (← entries.mapM directoryEntryOf) truncated
    | _ => none
  | ("checksum", rest) => do
    match ← Json.fieldsOf ["bytes", "sha256"] rest with
    | [bytes, some (.str sha256)] => do
      return .checksum (UInt64.ofNat (← requiredNum (2 ^ 64) bytes)) sha256
    | _ => none
  | _ => none

/-- `Artifact`: what it was drafted as, and by whom. -/
def artifactOf (json : Json) : Option (EvaluationDraft × String) := do
  match ← Json.fieldsOf ["evaluation_id", "decision_digest", "evaluator", "model",
      "prompt_version", "verdict", "confidence", "rationale", "side_effects"] json with
  | [some (.str evaluationId), some (.str decisionDigest), some (.str evaluator),
      some (.str model), some (.str promptVersion), some verdict, confidence,
      some (.str rationale), some (.arr sideEffects)] => do
    let verdict ←
      Json.variantOf ["supports_intent", "does_not_support_intent", "uncertain"] verdict
    let confidence ← requiredNum (2 ^ 8) confidence
    return ({
      evaluationId, decisionDigest, model, promptVersion, rationale
      verdict :=
        if verdict = "supports_intent" then .supportsIntent
        else if verdict = "uncertain" then .uncertain else .doesNotSupportIntent
      confidence := UInt8.ofNat confidence
      sideEffects := ← sideEffects.mapM asString }, evaluator)
  | _ => none

/-! ## Events -/

def validateAnswerFields (object : List (String × Json)) : Option Unit := do
  let _ ← requiredU64 object "decided"
  lowerHexId (← requiredString object "request")
  nonBlankString (← requiredString object "approver")
  match ← optionalString object "override_of" with
  | some because => nonBlankString because
  | none => some ()
  let _ ← requiredBool object "standing"
  oneOf (← requiredString object "mode") ["direct", "override", "session"]
  match ← optionalString object "agreement" with
  | some agreement => lowerHexId agreement
  | none => some ()

def validateRecorded (value : Json) : Option Unit := do
  let object ← asObject value
  match ← requiredString object "kind" with
  | "kept" => do
    exactKeys object ["kind", "text", "truncated", "bytes"]
    let _ ← requiredString object "text"
    let _ ← requiredBool object "truncated"
    let _ ← requiredU64 object "bytes"
  | "withheld" => do
    exactKeys object ["kind", "bytes", "matched"]
    let _ ← requiredU64 object "bytes"
    nonBlankString (← requiredString object "matched")
  | _ => none

/-- The keys a completion has, by which of its optional ones it has. -/
def completedKeys (object : List (String × Json)) : List String :=
  ["event", "run", "decided", "state", "stdout", "stderr"] ++
    (if (Json.get object "file").isSome then ["file"] else []) ++
    if (Json.get object "info").isSome then ["info"] else []

def validateFile (value : Json) : Option Unit := do
  let file ← asObject value
  exactKeys file ["uri", "bytes", "sha256"]
  nonBlankString (← requiredString file "uri")
  let _ ← requiredU64 file "bytes"
  guard (lowerHexDigest (← requiredString file "sha256"))

/-- `Purpose::parse`, `CommandIntent::parse` and `Command::new`. -/
def purpose (value : String) : Option Unit := guard (Purpose.refusal value = none)
def agentIntent (value : String) : Option Unit := guard (CommandIntent.refusal value = none)
def command (argv : List String) : Option Unit := guard (Command.refusal argv = none)

/-! One branch of `validate_event` for each kind of event. -/

section
variable (object : List (String × Json))

def validateOpened : Option Unit := do
  exactKeys object ["event", "purpose", "access_class"]
  purpose (← requiredString object "purpose")
  accessClass (← requiredString object "access_class")

def validateDecided : Option Unit := do
  operationKeys object ["event", "agent_intent", "argv", "program", "operation", "access_class",
    "purpose", "verdict", "policies"]
  agentIntent (← requiredString object "agent_intent")
  let argv ← stringArray object "argv"
  command argv
  guard ((← requiredString object "program") = argv.headD "")
  accessClass (← requiredString object "access_class")
  purpose (← requiredString object "purpose")
  oneOf (← requiredString object "verdict") ["permit", "needs_approval", "deny"]
  (← stringArray object "policies").forM nonBlankString

def validateApproved : Option Unit := do
  exactKeys object ["event", "decided", "request", "approver", "override_of", "standing", "mode",
    "agreement"]
  validateAnswerFields object

def validateAnswered : Option Unit := do
  exactKeys object ["event", "decided", "request", "approver", "override_of", "standing", "mode",
    "agreement", "agreed"]
  validateAnswerFields object
  let _ ← requiredBool object "agreed"

def validateCompleted : Option Unit := do
  exactKeys object (completedKeys object)
  match Json.get object "info" with
  | some info => guard ((← fileInfoOf info).isBounded)
  | none => some ()
  match Json.get object "file" with
  | some file => validateFile file
  | none => some ()
  runId (← requiredString object "run")
  let _ ← requiredU64 object "decided"
  nonBlankString (← requiredString object "state")
  validateRecorded (← Json.get object "stdout")
  validateRecorded (← Json.get object "stderr")

def validateCancellation : Option Unit := do
  exactKeys object ["event", "run", "decided"]
  runId (← requiredString object "run")
  let _ ← requiredU64 object "decided"

def validateTerminated : Option Unit := do
  exactKeys object ["event", "operator"]
  guard (PrincipalId.refusal (← requiredString object "operator") = none)

def validateEvaluated : Option Unit := do
  if (Json.get object "decided").isSome then
    operationKeys object ["event", "artifact", "operation", "decided", "argv", "agent_intent",
      "purpose", "access_class"]
    let _ ← requiredU64 object "decided"
    command (← stringArray object "argv")
    agentIntent (← requiredString object "agent_intent")
    purpose (← requiredString object "purpose")
    accessClass (← requiredString object "access_class")
  else
    -- Missing context is shown as unavailable: the reader invents no facts.
    exactKeys object ["event", "artifact"]
  let (draft, evaluator) ← artifactOf (← Json.get object "artifact")
  guard (draft.refusal evaluator = none)

end

def validateEvent (event : Json) : Option Unit := do
  let object ← asObject event
  match ← requiredString object "event" with
  | "session_opened" => validateOpened object
  | "decided" => validateDecided object
  | "approved" => validateApproved object
  | "answered" => validateAnswered object
  | "completed" => validateCompleted object
  | "cancellation_requested" => validateCancellation object
  | "session_closed" => exactKeys object ["event"]
  | "session_terminated" => validateTerminated object
  | "evaluated" => validateEvaluated object
  | _ => none

def validateEntry (entry : AuditLine) : Option Unit := do
  lowerHexId entry.session
  guard (PrincipalId.refusal entry.principal = none)
  guard (validate entry.host "host" 253 = none)
  guard (validate entry.role "role" 64 = none)
  guard (lowerHexDigest entry.previous ∧ lowerHexDigest entry.digest)
  validateEvent entry.event

/-- The fields of an entry. -/
def entryFields : List String :=
  ["sequence", "at", "session", "principal", "host", "role", "event", "previous", "digest"]

/-- Reading an entry: a repeated field is refused here, where no map has merged
them. -/
def entryOf (json : Json) : Option AuditLine := do
  match json with
  | .obj members => guard ((members.map Prod.fst).Nodup)
  | _ => some ()
  match ← Json.fieldsOf entryFields json with
  | [sequence, at', some (.str session), some (.str principal), some (.str host),
      some (.str role), some event, some (.str previous), some (.str digest)] => do
    return ⟨← requiredNum (2 ^ 64) sequence, ← requiredNum (2 ^ 64) at', session, principal, host,
      role, event, previous, digest⟩
  | _ => none

/-- What `fetch` makes of a line. -/
def readLine (line : String) : Option AuditLine := do
  let entry ← entryOf (← Json.parse line.toList)
  validateEntry entry
  return entry

end McpSsh.AuditHistory
