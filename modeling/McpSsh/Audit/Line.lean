import McpSsh.Audit.Event
import McpSsh.Dashboard
import McpSsh.Lib.Json
import McpSsh.SessionSnapshots
import McpSsh.Sftp.Listing

/-!
# The line an entry ships as

The derived `Serialize` of an entry and of what it holds, in the order the fields
are declared, and the bounds under which each value of a field is made. Within
those bounds the line determines the entry (`Entry.line_inj`).
-/

namespace McpSsh

/-! ## Names -/

/-- `AgreementId::as_str`. -/
def AgreementId.asStr (id : AgreementId) : String := String.ofList (spell 32 id.draw)

/-- `RunId::as_str`: the store's name, and the run's within it. -/
def RunId.asStr (id : RunId) : String :=
  String.ofList (spell 16 (id.draw / 16 ^ 32) ++ '-' :: spell 32 (id.draw % 16 ^ 32))

def AccessClass.asStr : AccessClass → String
  | .readOnly => "read_only"
  | .privileged => "privileged"

def Verdict.asStr : Verdict → String
  | .permit => "permit"
  | .needsApproval => "needs_approval"
  | .deny => "deny"

def ApprovalMode.asStr : ApprovalMode → String
  | .direct => "direct"
  | .override => "override"
  | .session => "session"

def EvaluationVerdict.asStr : EvaluationVerdict → String
  | .supportsIntent => "supports_intent"
  | .doesNotSupportIntent => "does_not_support_intent"
  | .uncertain => "uncertain"

def FileKind.asStr : FileKind → String
  | .file => "file"
  | .directory => "directory"
  | .other => "other"

/-! ## Values -/

/-- An `Option`, as a value or `null`. -/
def nullable {α : Type} (write : α → Json) : Option α → Json
  | some value => write value
  | none => .null

def strings (texts : List String) : Json := .arr (texts.map .str)

def Recorded.toJson : Recorded → Json
  | .kept text truncated bytes => .obj [
      ("kind", .str "kept"),
      ("text", .str text),
      ("truncated", .bool truncated),
      ("bytes", .num bytes.toNat)]
  | .withheld bytes matched => .obj [
      ("kind", .str "withheld"),
      ("bytes", .num bytes.toNat),
      ("matched", .str matched)]

def FileIdentity.toJson (file : FileIdentity) : Json := .obj [
  ("uri", .str file.uri),
  ("bytes", .num file.bytes.toNat),
  ("sha256", .str file.sha256)]

def Metadata.toJson (metadata : Metadata) : Json := .obj [
  ("kind", .str metadata.kind.asStr),
  ("bytes", nullable (fun bytes => .num bytes.toNat) metadata.bytes),
  ("permissions", nullable (fun mode => .num mode.toNat) metadata.permissions),
  ("modified", nullable (fun seconds => .num seconds.toNat) metadata.modified)]

def DirectoryEntry.toJson (entry : DirectoryEntry) : Json := .obj [
  ("name", nullable .str entry.name),
  ("metadata", entry.metadata.toJson)]

def FileInfo.toJson : FileInfo → Json
  | .stat metadata => .obj [
      ("operation", .str "stat"),
      ("metadata", metadata.toJson)]
  | .list entries truncated => .obj [
      ("operation", .str "list"),
      ("entries", .arr (entries.map DirectoryEntry.toJson)),
      ("truncated", .bool truncated)]
  | .checksum bytes sha256 => .obj [
      ("operation", .str "checksum"),
      ("bytes", .num bytes.toNat),
      ("sha256", .str sha256)]

def EvaluationArtifact.toJson (artifact : EvaluationArtifact) : Json := .obj [
  ("evaluation_id", .str artifact.evaluationId),
  ("decision_digest", .str (hex artifact.decisionDigest.bytes)),
  ("evaluator", .str artifact.evaluator),
  ("model", .str artifact.model),
  ("prompt_version", .str artifact.promptVersion),
  ("verdict", .str artifact.verdict.asStr),
  ("confidence", .num artifact.confidence.toNat),
  ("rationale", .str artifact.rationale),
  ("side_effects", strings artifact.sideEffects)]

/-- The fields `Approved` and `Answered` share. -/
def answerFields (decided : Nat) (request : RequestId) (stated : Stated) : List (String × Json) := [
  ("decided", .num decided),
  ("request", .str request.asStr),
  ("approver", .str stated.approver),
  ("override_of", nullable .str stated.overrideOf),
  ("standing", .bool stated.standing),
  ("mode", .str stated.mode.asStr),
  ("agreement", nullable (fun id => .str id.asStr) stated.agreement)]

/-- A field that is skipped when there is nothing to say. -/
def skippable {α : Type} (key : String) (write : α → Json) : Option α → List (String × Json)
  | some value => [(key, write value)]
  | none => []

/-- The tag of an event. -/
def Event.asStr : Event → String
  | .sessionOpened .. => "session_opened"
  | .decided _ => "decided"
  | .approved _ => "approved"
  | .answered _ => "answered"
  | .completed _ => "completed"
  | .cancellationRequested .. => "cancellation_requested"
  | .sessionClosed => "session_closed"
  | .sessionTerminated _ => "session_terminated"
  | .evaluated _ => "evaluated"

/-- What an event's object holds after its tag. -/
def Event.fields : Event → List (String × Json)
  | .sessionOpened purpose accessClass => [
      ("purpose", .str purpose),
      ("access_class", .str accessClass.asStr)]
  | .decided what => [
      ("operation", .str what.operation.asStr),
      ("agent_intent", .str what.agentIntent),
      ("argv", strings what.argv),
      ("program", .str what.program),
      ("access_class", .str what.accessClass.asStr),
      ("purpose", .str what.purpose),
      ("verdict", .str what.verdict.asStr),
      ("policies", strings what.policies)]
  | .approved what => answerFields what.decided what.request what.stated
  | .answered what =>
    answerFields what.decided what.request what.stated ++ [("agreed", .bool what.agreed)]
  | .completed what => [
      ("run", .str what.run.asStr),
      ("decided", .num what.decided),
      ("state", .str what.state),
      ("stdout", what.stdout.toJson),
      ("stderr", what.stderr.toJson)] ++
      skippable "file" FileIdentity.toJson what.file ++ skippable "info" FileInfo.toJson what.info
  | .cancellationRequested run sequence => [
      ("run", .str run.asStr),
      ("decided", .num sequence)]
  | .sessionClosed => []
  | .sessionTerminated operator => [("operator", .str operator.name)]
  | .evaluated what => [
      ("operation", .str what.operation.asStr),
      ("artifact", what.artifact.toJson),
      ("decided", .num what.decided),
      ("argv", strings what.argv),
      ("agent_intent", .str what.agentIntent),
      ("purpose", .str what.purpose),
      ("access_class", .str what.accessClass.asStr)]

def Event.toJson (event : Event) : Json := .obj (("event", .str event.asStr) :: event.fields)

def Entry.toJson (entry : Entry) : Json := .obj [
  ("sequence", .num entry.sequence),
  ("at", .num entry.atMillis),
  ("session", .str entry.who.session.asStr),
  ("principal", .str entry.who.principal.name),
  ("host", .str entry.who.host.name),
  ("role", .str entry.who.role.name),
  ("event", entry.event.toJson),
  ("previous", .str (hex entry.previous.bytes)),
  ("digest", .str (hex entry.digest.bytes))]

/-- `serde_json::to_string` of an entry. -/
def Entry.line (entry : Entry) : String := String.ofList entry.toJson.text

/-- The record's format: its hash, and this rendering. -/
def Format.json (sha256 : List UInt8 → Digest) : Format where
  sha256
  encode entry := asBytes entry.line

/-! ## Bounds -/

/-- Untrusted JSON accepted from the separately authenticated evaluator. -/
structure EvaluationDraft where
  evaluationId : String
  decisionDigest : String
  model : String
  promptVersion : String
  verdict : EvaluationVerdict
  confidence : UInt8
  rationale : String
  sideEffects : List String

inductive EvaluationError
  | blank (field : String)
  | tooLong (field : String) (max : Nat)
  | invalidId
  | invalidDigest
  | invalidConfidence
  | tooManySideEffects
  deriving DecidableEq, Repr

/-- Why `bounded` refuses a value, if it does. -/
def boundedRefusal (field value : String) (max : Nat) : Option EvaluationError :=
  if isBlank value then some (.blank field)
  else if max < value.utf8ByteSize then some (.tooLong field max)
  else none

/-- Sixty-four lowercase hexadecimal digits. -/
def isLowerHexDigest (text : String) : Bool := text.utf8ByteSize = 64 && text.toList.all isLowerHex

/-- Why `EvaluationArtifact::from_draft` refuses a draft, if it does. -/
def EvaluationDraft.refusal (draft : EvaluationDraft) (evaluator : String) :
    Option EvaluationError :=
  let plain := fun c : Char => c.isAlphanum || c = '-' || c = '_' || c = '.' || c = ':'
  (boundedRefusal "evaluation_id" draft.evaluationId 128).or <|
  (if draft.evaluationId.toList.all plain then none else some .invalidId).or <|
  (if isLowerHexDigest draft.decisionDigest then none else some .invalidDigest).or <|
  (boundedRefusal "evaluator" evaluator 128).or <|
  (boundedRefusal "model" draft.model 128).or <|
  (boundedRefusal "prompt_version" draft.promptVersion 128).or <|
  (boundedRefusal "rationale" draft.rationale 2048).or <|
  (if 100 < draft.confidence then some .invalidConfidence else none).or <|
  (if 16 < draft.sideEffects.length then some .tooManySideEffects else none).or <|
  draft.sideEffects.findSome? fun effect => boundedRefusal "side_effect" effect 256

/-- The draft an artifact was made of. -/
def EvaluationArtifact.draft (artifact : EvaluationArtifact) : EvaluationDraft where
  evaluationId := artifact.evaluationId
  decisionDigest := hex artifact.decisionDigest.bytes
  model := artifact.model
  promptVersion := artifact.promptVersion
  verdict := artifact.verdict
  confidence := artifact.confidence
  rationale := artifact.rationale
  sideEffects := artifact.sideEffects

/-- An identifier of sixteen bytes. -/
def Drawn (draw : Nat) : Prop := draw < 16 ^ 32

def Recorded.Bounded : Recorded → Prop
  | .kept .. => True
  | .withheld _ matched => isBlank matched = false

/-- A statement that `Approver::is_stated` let through. -/
structure Stated.Bounded (stated : Stated) : Prop where
  approver : isBlank stated.approver = false
  overrideOf : ∀ because ∈ stated.overrideOf, isBlank because = false
  agreement : ∀ id ∈ stated.agreement, Drawn id.draw

structure Decided.Bounded (what : Decided) : Prop where
  agentIntent : CommandIntent.refusal what.agentIntent = none
  argv : Command.refusal what.argv = none
  program : what.program = what.argv.headD ""
  purpose : Purpose.refusal what.purpose = none
  policies : ∀ policy ∈ what.policies, isBlank policy = false

structure FileIdentity.Bounded (file : FileIdentity) : Prop where
  uri : isBlank file.uri = false
  sha256 : isLowerHexDigest file.sha256 = true

structure Completed.Bounded (what : Completed) : Prop where
  run : what.run.draw < 16 ^ 48
  decided : what.decided < 2 ^ 64
  state : isBlank what.state = false
  stdout : what.stdout.Bounded
  stderr : what.stderr.Bounded
  file : ∀ file ∈ what.file, file.Bounded
  info : ∀ info ∈ what.info, info.isBounded = true

structure Evaluated.Bounded (what : Evaluated) : Prop where
  artifact : what.artifact.draft.refusal what.artifact.evaluator = none
  decided : what.decided < 2 ^ 64
  argv : Command.refusal what.argv = none
  agentIntent : CommandIntent.refusal what.agentIntent = none
  purpose : Purpose.refusal what.purpose = none

def Event.Bounded : Event → Prop
  | .sessionOpened purpose _ => Purpose.refusal purpose = none
  | .decided what => what.Bounded
  | .approved what => what.decided < 2 ^ 64 ∧ Drawn what.request.draw ∧ what.stated.Bounded
  | .answered what => what.decided < 2 ^ 64 ∧ Drawn what.request.draw ∧ what.stated.Bounded
  | .completed what => what.Bounded
  | .cancellationRequested run sequence => run.draw < 16 ^ 48 ∧ sequence < 2 ^ 64
  | .sessionClosed => True
  | .sessionTerminated _ => True
  | .evaluated what => what.Bounded

structure Entry.Bounded (entry : Entry) : Prop where
  sequence : entry.sequence < 2 ^ 64
  atMillis : entry.atMillis < 2 ^ 64
  session : Drawn entry.who.session.draw
  event : entry.event.Bounded
  previous : entry.previous.bytes.length = 32
  digest : entry.digest.bytes.length = 32

/-! ## Hex -/

theorem hexDigit_isLowerHex : ∀ digit < 16, isLowerHex (hexDigit digit) = true := by decide

theorem isLowerHex_utf8Size {c : Char} (digit : isLowerHex c = true) : c.utf8Size = 1 := by
  rw [Char.utf8Size_eq_one_iff, UInt32.le_iff_toNat_le]
  simp only [isLowerHex, Char.isDigit, Char.le_def, UInt32.le_iff_toNat_le, Bool.or_eq_true,
    Bool.and_eq_true, decide_eq_true_eq] at digit
  rcases digit with ⟨-, small⟩ | ⟨-, small⟩
  · exact small.trans (by decide)
  · exact small.trans (by decide)

theorem utf8ByteSize_of_lowerHex {chars : List Char} (digits : chars.all isLowerHex = true) :
    (String.ofList chars).utf8ByteSize = chars.length := by
  rw [← asBytes_length, asBytes_eq_flatMap, String.toList_ofList]
  induction chars with
  | nil => rfl
  | cons c chars ih =>
    rw [List.all_cons, Bool.and_eq_true] at digits
    rw [List.flatMap_cons, List.length_append, ih digits.2, String.length_utf8EncodeChar,
      isLowerHex_utf8Size digits.1, List.length_cons, Nat.add_comm]

theorem spell_length (width number : Nat) : (spell width number).length = width := by
  induction width generalizing number with
  | zero => rfl
  | succ width ih => rw [spell, List.length_cons, ih]

theorem spell_isLowerHex {width number : Nat} (fits : number < 16 ^ width) :
    (spell width number).all isLowerHex = true := by
  induction width generalizing number with
  | zero => rfl
  | succ width ih =>
    have positive : 0 < 16 ^ width := Nat.pow_pos (by decide)
    rw [Nat.pow_succ] at fits
    rw [spell, List.all_cons, ih (Nat.mod_lt _ positive),
      hexDigit_isLowerHex _ (Nat.div_lt_of_lt_mul fits)]
    rfl

/-- Two numbers of one width that are spelt alike are the same. -/
theorem spell_inj {width a b : Nat} (ha : a < 16 ^ width) (hb : b < 16 ^ width)
    (same : spell width a = spell width b) : a = b := by
  have before : ¬ a < b := by
    rw [← spell_lt ha hb, same]
    exact lt_irrefl _
  have after : ¬ b < a := by
    rw [← spell_lt hb ha, same]
    exact lt_irrefl _
  omega

theorem hex_isLowerHex (bytes : List UInt8) : (hex bytes).toList.all isLowerHex = true := by
  unfold hex
  rw [String.toList_ofList, List.all_flatMap]
  refine List.all_eq_true.mpr fun byte _ => ?_
  have small := byte.toNat_lt
  simp only [List.all_cons, List.all_nil, Bool.and_true]
  rw [hexDigit_isLowerHex _ (by omega), hexDigit_isLowerHex _ (by omega)]
  rfl

theorem hex_length (bytes : List UInt8) : (hex bytes).toList.length = 2 * bytes.length := by
  unfold hex
  rw [String.toList_ofList]
  induction bytes with
  | nil => rfl
  | cons byte bytes ih => rw [List.flatMap_cons, List.length_append, ih]; simp; omega

theorem hex_isLowerHexDigest {bytes : List UInt8} (long : bytes.length = 32) :
    isLowerHexDigest (hex bytes) = true := by
  have size := utf8ByteSize_of_lowerHex (hex_isLowerHex bytes)
  rw [String.ofList_toList, hex_length, long] at size
  simp only [isLowerHexDigest, size, hex_isLowerHex, Bool.and_true]
  rfl

/-- Bytes that are written alike are the same. -/
theorem hex_inj {bytes others : List UInt8} (same : hex bytes = hex others) : bytes = others := by
  unfold hex at same
  have chars := congrArg String.toList same
  rw [String.toList_ofList, String.toList_ofList] at chars
  clear same
  induction bytes generalizing others with
  | nil =>
    cases others with
    | nil => rfl
    | cons other others => cases chars
  | cons byte bytes ih =>
    cases others with
    | nil => cases chars
    | cons other others =>
      have small := byte.toNat_lt
      have small' := other.toNat_lt
      rw [List.flatMap_cons, List.flatMap_cons] at chars
      obtain ⟨first, chars⟩ := List.cons.inj chars
      obtain ⟨second, chars⟩ := List.cons.inj chars
      rw [hexDigit_inj _ (by omega) _ (by omega)] at first second
      have same : byte = other := UInt8.toNat_inj.mp (by omega)
      rw [same, ih chars]

/-! ## A line determines its entry -/

/-- The identifiers an event names are of the length they are drawn with. -/
def Event.Identified : Event → Prop
  | .approved what => Drawn what.request.draw ∧ ∀ id ∈ what.stated.agreement, Drawn id.draw
  | .answered what => Drawn what.request.draw ∧ ∀ id ∈ what.stated.agreement, Drawn id.draw
  | .completed what => what.run.draw < 16 ^ 48
  | .cancellationRequested run _ => run.draw < 16 ^ 48
  | _ => True

/-- The identifiers an entry names are of the length they are drawn with. -/
structure Entry.Identified (entry : Entry) : Prop where
  session : Drawn entry.who.session.draw
  event : entry.event.Identified

theorem Event.Bounded.identified {event : Event} (bounded : event.Bounded) : event.Identified := by
  cases event with
  | approved what => exact ⟨bounded.2.1, bounded.2.2.agreement⟩
  | answered what => exact ⟨bounded.2.1, bounded.2.2.agreement⟩
  | completed what => exact bounded.run
  | cancellationRequested run sequence => exact bounded.1
  | _ => trivial

theorem Entry.Bounded.identified {entry : Entry} (bounded : entry.Bounded) : entry.Identified :=
  ⟨bounded.session, bounded.event.identified⟩

theorem RequestId.asStr_inj {id other : RequestId} (drawn : Drawn id.draw)
    (drawn' : Drawn other.draw) (same : id.asStr = other.asStr) : id = other :=
  congrArg RequestId.mk (spell_inj drawn drawn' (String.ofList_injective same))

theorem AgreementId.asStr_inj {id other : AgreementId} (drawn : Drawn id.draw)
    (drawn' : Drawn other.draw) (same : id.asStr = other.asStr) : id = other :=
  congrArg AgreementId.mk (spell_inj drawn drawn' (String.ofList_injective same))

theorem RunId.asStr_inj {id other : RunId} (drawn : id.draw < 16 ^ 48)
    (drawn' : other.draw < 16 ^ 48) (same : id.asStr = other.asStr) : id = other := by
  have width : 16 ^ 48 = 16 ^ 32 * 16 ^ 16 := by decide
  have positive : 0 < 16 ^ 32 := by decide
  obtain ⟨store, rest⟩ := List.append_inj (String.ofList_injective same)
    (by rw [spell_length, spell_length])
  have stores := spell_inj (Nat.div_lt_of_lt_mul (width ▸ drawn))
    (Nat.div_lt_of_lt_mul (width ▸ drawn')) store
  have runs := spell_inj (Nat.mod_lt _ positive) (Nat.mod_lt _ positive) (List.cons.inj rest).2
  have draws : id.draw = other.draw := by
    rw [← Nat.div_add_mod id.draw (16 ^ 32), ← Nat.div_add_mod other.draw (16 ^ 32), stores, runs]
  exact congrArg RunId.mk draws

theorem AccessClass.asStr_inj {rank other : AccessClass} (same : rank.asStr = other.asStr) :
    rank = other := by
  revert same; cases rank <;> cases other <;> decide

theorem Verdict.asStr_inj {verdict other : Verdict} (same : verdict.asStr = other.asStr) :
    verdict = other := by
  revert same; cases verdict <;> cases other <;> decide

theorem ApprovalMode.asStr_inj {mode other : ApprovalMode} (same : mode.asStr = other.asStr) :
    mode = other := by
  revert same; cases mode <;> cases other <;> decide

theorem EvaluationVerdict.asStr_inj {verdict other : EvaluationVerdict}
    (same : verdict.asStr = other.asStr) : verdict = other := by
  revert same; cases verdict <;> cases other <;> decide

theorem FileKind.asStr_inj {kind kind' : FileKind} (same : kind.asStr = kind'.asStr) :
    kind = kind' := by
  revert same; cases kind <;> cases kind' <;> decide

theorem Digest.hex_inj {digest other : Digest} (same : hex digest.bytes = hex other.bytes) :
    digest = other :=
  congrArg Digest.mk (McpSsh.hex_inj same)

theorem nullable_inj {α : Type} {write : α → Json} {value other : Option α}
    (present : ∀ a ∈ value, ∀ b ∈ other, write a = write b → a = b)
    (something : ∀ a, write a ≠ .null) (same : nullable write value = nullable write other) :
    value = other := by
  cases value with
  | none =>
    cases other with
    | none => rfl
    | some b => exact absurd same.symm (something b)
  | some a =>
    cases other with
    | none => exact absurd same (something a)
    | some b => rw [present a rfl b rfl same]

theorem nullable_str_inj {value other : Option String}
    (same : nullable .str value = nullable .str other) : value = other :=
  nullable_inj (fun _ _ _ _ same => Json.str.inj same) (fun _ is => by cases is) same

theorem strings_inj {texts others : List String} (same : strings texts = strings others) :
    texts = others :=
  List.map_injective_iff.mpr (fun _ _ same => Json.str.inj same) (Json.arr.inj same)

theorem Recorded.toJson_inj {recorded other : Recorded} (same : recorded.toJson = other.toJson) :
    recorded = other := by
  cases recorded with
  | kept text truncated bytes =>
    cases other with
    | kept text' truncated' bytes' =>
      simpa [toJson, UInt64.toNat_inj] using same
    | withheld bytes' matched' => simp [toJson] at same
  | withheld bytes matched =>
    cases other with
    | kept text' truncated' bytes' => simp [toJson] at same
    | withheld bytes' matched' => simpa [toJson, UInt64.toNat_inj] using same

theorem FileIdentity.toJson_inj {file other : FileIdentity} (same : file.toJson = other.toJson) :
    file = other := by
  cases file
  cases other
  simpa [toJson, UInt64.toNat_inj] using same

theorem Metadata.toJson_inj {metadata other : Metadata} (same : metadata.toJson = other.toJson) :
    metadata = other := by
  cases metadata
  cases other
  simp only [toJson, Json.obj.injEq, List.cons.injEq, Prod.mk.injEq, Json.str.injEq, true_and,
    and_true] at same
  obtain ⟨kind, bytes, permissions, modified⟩ := same
  cases FileKind.asStr_inj kind
  cases nullable_inj (fun _ _ _ _ same => UInt64.toNat_inj.mp (Json.num.inj same))
    (fun _ is => by cases is) bytes
  cases nullable_inj (fun _ _ _ _ same => UInt32.toNat_inj.mp (Json.num.inj same))
    (fun _ is => by cases is) permissions
  cases nullable_inj (fun _ _ _ _ same => UInt32.toNat_inj.mp (Json.num.inj same))
    (fun _ is => by cases is) modified
  rfl

theorem DirectoryEntry.toJson_inj {entry other : DirectoryEntry}
    (same : entry.toJson = other.toJson) : entry = other := by
  cases entry
  cases other
  simp only [toJson, Json.obj.injEq, List.cons.injEq, Prod.mk.injEq, true_and, and_true] at same
  cases nullable_str_inj same.1
  cases Metadata.toJson_inj same.2
  rfl

theorem FileInfo.toJson_inj {info other : FileInfo} (same : info.toJson = other.toJson) :
    info = other := by
  cases info with
  | stat metadata =>
    cases other with
    | stat metadata' =>
      simp only [toJson, Json.obj.injEq, List.cons.injEq, Prod.mk.injEq, true_and, and_true] at same
      rw [Metadata.toJson_inj same]
    | _ => simp [toJson] at same
  | list entries truncated =>
    cases other with
    | list entries' truncated' =>
      simp only [toJson, Json.obj.injEq, List.cons.injEq, Prod.mk.injEq, Json.arr.injEq,
        Json.bool.injEq, true_and, and_true] at same
      rw [List.map_injective_iff.mpr (fun _ _ => DirectoryEntry.toJson_inj) same.1, same.2]
    | _ => simp [toJson] at same
  | checksum bytes sha256 =>
    cases other with
    | checksum bytes' sha256' => simpa [toJson, UInt64.toNat_inj] using same
    | _ => simp [toJson] at same

theorem EvaluationArtifact.toJson_inj {artifact other : EvaluationArtifact}
    (same : artifact.toJson = other.toJson) : artifact = other := by
  cases artifact
  cases other
  simp only [toJson, Json.obj.injEq, List.cons.injEq, Prod.mk.injEq, Json.str.injEq,
    Json.num.injEq, UInt8.toNat_inj, true_and, and_true] at same
  obtain ⟨rfl, digest, rfl, rfl, rfl, verdict, rfl, rfl, effects⟩ := same
  cases EvaluationVerdict.asStr_inj verdict
  cases strings_inj effects
  cases Digest.hex_inj digest
  rfl

theorem answerFields_inj {decided other : Nat} {request request' : RequestId}
    {stated stated' : Stated} (drawn : Drawn request.draw) (drawn' : Drawn request'.draw)
    (agreed : ∀ id ∈ stated.agreement, Drawn id.draw)
    (agreed' : ∀ id ∈ stated'.agreement, Drawn id.draw)
    (same : answerFields decided request stated = answerFields other request' stated') :
    decided = other ∧ request = request' ∧ stated = stated' := by
  cases stated
  cases stated'
  simp only [answerFields, List.cons.injEq, Prod.mk.injEq, Json.str.injEq, Json.num.injEq,
    Json.bool.injEq, true_and, and_true] at same
  obtain ⟨rfl, requests, rfl, because, rfl, mode, agreements⟩ := same
  cases RequestId.asStr_inj drawn drawn' requests
  cases nullable_str_inj because
  cases ApprovalMode.asStr_inj mode
  cases nullable_inj
    (fun a is b is' same => AgreementId.asStr_inj (agreed a is) (agreed' b is') (Json.str.inj same))
    (fun _ is => by cases is) agreements
  exact ⟨rfl, rfl, rfl⟩

/-- What is skipped can be told from what is there. -/
theorem lookup_skippable (file : Option FileIdentity) (info : Option FileInfo) :
    let members := skippable "file" FileIdentity.toJson file ++
      skippable "info" FileInfo.toJson info
    members.lookup "file" = file.map FileIdentity.toJson ∧
      members.lookup "info" = info.map FileInfo.toJson := by
  cases file <;> cases info <;> exact ⟨rfl, rfl⟩

theorem skippable_inj {file file' : Option FileIdentity} {info info' : Option FileInfo}
    (same : skippable "file" FileIdentity.toJson file ++ skippable "info" FileInfo.toJson info =
      skippable "file" FileIdentity.toJson file' ++ skippable "info" FileInfo.toJson info') :
    file = file' ∧ info = info' := by
  obtain ⟨files, infos⟩ := lookup_skippable file info
  obtain ⟨files', infos'⟩ := lookup_skippable file' info'
  rw [same] at files infos
  exact ⟨Option.map_injective (fun _ _ => FileIdentity.toJson_inj) (files.symm.trans files'),
    Option.map_injective (fun _ _ => FileInfo.toJson_inj) (infos.symm.trans infos')⟩

theorem Completed.fields_inj {what other : Completed} (drawn : what.run.draw < 16 ^ 48)
    (drawn' : other.run.draw < 16 ^ 48)
    (same : (Event.completed what).fields = (Event.completed other).fields) : what = other := by
  cases what
  cases other
  simp only [Event.fields, List.cons_append, List.nil_append, List.cons.injEq, Prod.mk.injEq,
    Json.str.injEq, Json.num.injEq, true_and] at same
  obtain ⟨run, rfl, rfl, stdout, stderr, rest⟩ := same
  cases RunId.asStr_inj drawn drawn' run
  cases Recorded.toJson_inj stdout
  cases Recorded.toJson_inj stderr
  obtain ⟨rfl, rfl⟩ := skippable_inj rest
  rfl

/-- The tag is the event's kind, and the fields are its values. -/
theorem Event.toJson_inj {event other : Event} (identified : event.Identified)
    (identified' : other.Identified) (same : event.toJson = other.toJson) : event = other := by
  obtain ⟨tags, fields⟩ : event.asStr = other.asStr ∧ event.fields = other.fields := by
    simpa [toJson] using same
  cases event with
  | sessionOpened purpose accessClass =>
    cases other with
    | sessionOpened purpose' accessClass' =>
      simp only [Event.fields, List.cons.injEq, Prod.mk.injEq, Json.str.injEq, true_and,
        and_true] at fields
      rw [fields.1, AccessClass.asStr_inj fields.2]
    | _ => simp [Event.asStr] at tags
  | decided what =>
    cases other with
    | decided what' =>
      cases what
      cases what'
      simp only [Event.fields, List.cons.injEq, Prod.mk.injEq, Json.str.injEq, true_and,
        and_true] at fields
      obtain ⟨operation, rfl, argv, rfl, accessClass, rfl, verdict, policies⟩ := fields
      cases ActionKind.asStr_inj operation
      cases strings_inj argv
      cases AccessClass.asStr_inj accessClass
      cases Verdict.asStr_inj verdict
      cases strings_inj policies
      rfl
    | _ => simp [Event.asStr] at tags
  | approved what =>
    cases other with
    | approved what' =>
      cases what
      cases what'
      obtain ⟨rfl, rfl, rfl⟩ := answerFields_inj identified.1 identified'.1 identified.2
        identified'.2 fields
      rfl
    | _ => simp [Event.asStr] at tags
  | answered what =>
    cases other with
    | answered what' =>
      cases what
      cases what'
      obtain ⟨shared, agreed⟩ := List.append_inj fields rfl
      obtain ⟨rfl, rfl, rfl⟩ := answerFields_inj identified.1 identified'.1 identified.2
        identified'.2 shared
      cases agreed
      rfl
    | _ => simp [Event.asStr] at tags
  | completed what =>
    cases other with
    | completed what' => rw [Completed.fields_inj identified identified' fields]
    | _ => simp [Event.asStr] at tags
  | cancellationRequested run sequence =>
    cases other with
    | cancellationRequested run' sequence' =>
      simp only [Event.fields, List.cons.injEq, Prod.mk.injEq, Json.str.injEq, Json.num.injEq,
        true_and, and_true] at fields
      rw [RunId.asStr_inj identified identified' fields.1, fields.2]
    | _ => simp [Event.asStr] at tags
  | sessionClosed =>
    cases other with
    | sessionClosed => rfl
    | _ => simp [Event.asStr] at tags
  | sessionTerminated operator =>
    cases other with
    | sessionTerminated operator' =>
      simp only [Event.fields, List.cons.injEq, Prod.mk.injEq, Json.str.injEq, true_and,
        and_true] at fields
      cases operator
      cases operator'
      cases fields
      rfl
    | _ => simp [Event.asStr] at tags
  | evaluated what =>
    cases other with
    | evaluated what' =>
      cases what
      cases what'
      simp only [Event.fields, List.cons.injEq, Prod.mk.injEq, Json.str.injEq, Json.num.injEq,
        true_and, and_true] at fields
      obtain ⟨operation, artifact, rfl, argv, rfl, rfl, accessClass⟩ := fields
      cases ActionKind.asStr_inj operation
      cases EvaluationArtifact.toJson_inj artifact
      cases strings_inj argv
      cases AccessClass.asStr_inj accessClass
      rfl
    | _ => simp [Event.asStr] at tags

/-- A line is the line of one entry. -/
theorem Entry.line_inj {entry other : Entry} (identified : entry.Identified)
    (identified' : other.Identified) (same : entry.line = other.line) : entry = other := by
  have objects := Json.text_inj (String.ofList_injective same)
  obtain ⟨sequence, atMillis, ⟨session, principal, host, role⟩, event, previous, digest⟩ := entry
  obtain ⟨sequence', atMillis', ⟨session', principal', host', role'⟩, event', previous', digest'⟩ :=
    other
  simp only [toJson, Json.obj.injEq, List.cons.injEq, Prod.mk.injEq, Json.str.injEq,
    Json.num.injEq, true_and, and_true] at objects
  obtain ⟨rfl, rfl, sessions, principals, hosts, roles, events, previouses, digests⟩ := objects
  cases SessionId.asStr_inj identified.session identified'.session sessions
  cases principal
  cases principal'
  cases principals
  cases host
  cases host'
  cases hosts
  cases role
  cases role'
  cases roles
  cases Event.toJson_inj identified.event identified'.event events
  cases Digest.hex_inj previouses
  cases Digest.hex_inj digests
  rfl

end McpSsh
