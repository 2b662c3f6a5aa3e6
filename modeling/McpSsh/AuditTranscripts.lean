import McpSsh.AuditFilters
import McpSsh.AuditHistory
import McpSsh.AuditReadback

/-!
# Transcripts and outputs

`read_transcript` and `read_output`: a session's commands by pages, each with
all evidence about it, and what one run wrote. Over a source that keeps the
lines a ledger shipped and answers each query with the lines its text selects,
the pages hold what the fields of the entries say they should.
-/

namespace McpSsh.AuditHistory

/-! ## Reading -/

structure OutputQuery where
  (start end' : Nat)
  session : SessionId
  run : RunId

structure TranscriptPage where
  entries : List (Entry Durable)
  nextBefore : Option Nat
  windowStart : Nat
  windowEnd : Nat

/-- `Value::get`. -/
def member (key : String) : Json → Option Json
  | .obj members => Json.get members key
  | _ => none

def eventName (line : AuditLine) : Option String := (member "event" line.event).bind asString

def eventDecided (line : AuditLine) : Option Nat := (member "decided" line.event).bind asU64

/-- When an entry was kept, and its place in its ledger. -/
def place (entry : Entry Durable) : Nat ×ₗ Nat := toLex (entry.sourceNanos, entry.record.val.sequence)

/-- What tells an entry of a transcript from another. -/
def identity (entry : Entry Durable) : Nat × String := (entry.sourceNanos, entry.record.val.digest)

/-- `sort_unstable_by_key` with the place reversed. -/
structure PlaceOrder where
  sort : List (Entry Durable) → List (Entry Durable)
  perm : ∀ lines, (sort lines).Perm lines
  sorted : ∀ lines, Newest.Descending place (sort lines)

section

variable (decode : List UInt8 → Option LokiResponse) (order : NewestFirst Durable)
  (places : PlaceOrder) (now : Except ReadError Nat)

/-- The approvals among evidence about some decisions, by their sequences. -/
def approvalsOf (decisions related : List (Entry Durable)) : List Nat :=
  (related.filter fun entry => eventName entry.record.val = some "approved" ∧
    (eventDecided entry.record.val).any fun decided =>
      decided ∈ decisions.map (·.record.val.sequence)).map (·.record.val.sequence)

/-- `Loki::read_output`, once it has its permit. -/
def readOutput (answer : (logql : String) → (start end' limit : Nat) → Response)
    (query : OutputQuery) : Except ReadError (Option (Entry Durable)) := do
  let (start, end') ← readWindow none (some query.start) (some query.end') .month now
  let entries ← fetch (durable decode) order 2
    (answer (outputLogql query.session query.run) start end' 2)
  if 1 < entries.length then throw .malformedResponse
  match entries.getLast? with
  | none => return none
  | some entry =>
    let exact := entry.record.val.session = query.session.asStr ∧
      eventName entry.record.val = some "completed" ∧
      (member "run" entry.record.val.event).bind asString = some query.run.asStr
    if exact then return some entry else throw .malformedResponse

end

/-! ## What lines say -/

/-- The run an event names. -/
def eventRun (line : AuditLine) : Option String := (member "run" line.event).bind asString

/-- The digest of the decision an evaluation names. -/
def eventAssessed (line : AuditLine) : Option String :=
  ((member "artifact" line.event).bind (member "decision_digest")).bind asString

theorem get_skippable {α : Type} {own key : String} {write : α → Json} (other : own ≠ key)
    (held : Option α) (members : List (String × Json)) :
    Json.get (skippable own write held ++ members) key = Json.get members key := by
  cases held <;> simp [skippable, Json.get, other]

theorem get_skippable' {α : Type} {own key : String} {write : α → Json} (other : own ≠ key)
    (held : Option α) : Json.get (skippable own write held) key = none := by
  cases held <;> simp [skippable, Json.get, other]

theorem eventName_of (entry : McpSsh.Entry) : eventName (.of entry) = some entry.event.asStr := by
  unfold eventName AuditLine.of
  cases entry.event <;> simp [member, Event.toJson, Event.fields, Event.asStr, answerFields, Json.get,
    get_skippable, get_skippable', asString]

theorem eventRun_of (entry : McpSsh.Entry) :
    eventRun (.of entry) = entry.event.run.map RunId.asStr := by
  unfold eventRun AuditLine.of
  cases entry.event <;> simp [member, Event.toJson, Event.fields, Event.run, answerFields, Json.get,
    get_skippable, get_skippable', asString]

theorem session_of (entry : McpSsh.Entry) :
    (AuditLine.of entry).session = entry.who.session.asStr := rfl

/-- A decision in a session. -/
def isDecision (session : SessionId) (line : AuditLine) : Bool :=
  line.session = session.asStr ∧ eventName line = some "decided"

/-- An entry in a session that is about one of some decisions. -/
def isEvidence (session : SessionId) (decisions : List (Entry Durable)) (line : AuditLine) : Bool :=
  line.session = session.asStr ∧ ∃ decision ∈ decisions,
    eventDecided line = some decision.record.val.sequence ∨
      eventAssessed line = some decision.record.val.digest

/-- A completion in a session that is about one of some approvals. -/
def isCompletion (session : SessionId) (approvals : List Nat) (line : AuditLine) : Bool :=
  line.session = session.asStr ∧ (∃ approval ∈ approvals, eventDecided line = some approval) ∧
    eventName line = some "completed"

/-- The completion of one run in a session. -/
def isOutput (query : OutputQuery) (line : AuditLine) : Bool :=
  line.session = query.session.asStr ∧ eventName line = some "completed" ∧
    eventRun line = some query.run.asStr

/-- What was kept of some kind in a window. -/
def kept (which : AuditLine → Bool) (start end' : Nat) (stored : List (Entry Durable)) :
    List (Entry Durable) :=
  wanted (fun entry => which entry.record.val) start end' stored

/-- Every entry is one that a ledger wrote. -/
def Ledgered (stored : List (Entry Durable)) : Prop :=
  ∀ entry ∈ stored, ∃ own : McpSsh.Entry, own.Bounded ∧ entry.record.val = .of own

variable {decode : List UInt8 → Option LokiResponse} {stored : List (Entry Durable)}

/-- A source answers a query with lines its text selects. -/
def LogSource.Searches (source : LogSource (durable decode) stored) : Prop :=
  ∀ logql entry, source.selects logql entry = LineFilters.selects logql entry.record.val.text

section

variable {source : LogSource (durable decode) stored} (searches : source.Searches) (ledgered : Ledgered stored)

include searches ledgered

theorem selects_output (query : OutputQuery) : ∀ entry ∈ stored,
    source.selects (outputLogql query.session query.run) entry = isOutput query entry.record.val := by
  intro entry listed
  obtain ⟨own, -, is⟩ := ledgered entry listed
  rw [searches, is, Bool.eq_iff_iff, AuditLine.text_of, outputLogql_selects]
  simp [isOutput, session_of, eventName_of, eventRun_of]

end

theorem wanted_congr {selects selects' : Entry Durable → Bool}
    (same : ∀ entry ∈ stored, selects entry = selects' entry) (start end' : Nat) :
    wanted selects start end' stored = wanted selects' start end' stored := by
  unfold wanted
  rw [List.filter_congr same]

/-! ## Lines a ledger shipped -/

/-- What a log keeps of the lines a ledger shipped is ledgered. -/
theorem ledgered_of_shipped {sha256 : List UInt8 → Digest} {genesis : Digest}
    {limits : Ledger.Limits} {shipping : Shipped.Shipping}
    (hashes : ∀ bytes, (sha256 bytes).bytes.length = 32) (rooted : genesis.bytes.length = 32)
    (run : Shipped.Shipping.WithinBounds (Format.json sha256) limits genesis shipping)
    (shipped : ∀ entry ∈ stored, ∃ own ∈ shipping.record.committed, entry.record.val = .of own) :
    Ledgered stored := by
  obtain ⟨reached, phase⟩ := run.reachable.phase
  obtain ⟨further, beyond⟩ := phase.beyond (Shipped.newline_not_mem_json sha256) reached
  intro entry listed
  obtain ⟨own, committed, is⟩ := shipped entry listed
  exact ⟨own, run.bounded hashes rooted beyond own (List.mem_append_left _ committed), is⟩

/-- A stable sort, newest place first. -/
def PlaceOrder.stable : PlaceOrder where
  sort lines := lines.mergeSort fun a b => place b ≤ place a
  perm lines := lines.mergeSort_perm _
  sorted lines := by
    refine (List.pairwise_mergeSort ?_ ?_ lines).imp fun ordered => of_decide_eq_true ordered
    · intro a b c newer older
      rw [decide_eq_true_eq] at newer older ⊢
      exact le_trans older newer
    · intro a b
      rw [Bool.or_eq_true, decide_eq_true_eq, decide_eq_true_eq]
      exact le_total _ _

/-- A source that keeps some lines and searches their text. -/
def LogSource.searching (stored : List (Entry Durable))
    (fits : ∀ entry ∈ stored, entry.sourceNanos < 2 ^ 64) :
    LogSource (durable LokiResponse.ofBody) stored :=
  .oneStream (durable LokiResponse.ofBody) (durable_response _) stored
    (fun logql entry => LineFilters.selects logql entry.record.val.text) fits

namespace Sample

def entryOf (sequence : Nat) (event : Event) : McpSsh.Entry where
  sequence := sequence
  atMillis := sequence
  who := default
  event := event
  previous := ⟨List.replicate 32 0⟩
  digest := ⟨List.replicate 32 0⟩

/-- A command that was held, its approval and its completion. -/
def held : McpSsh.Entry := entryOf 0 (Ledger.decidedEvent default default)

def agreed : McpSsh.Entry := entryOf 1 (.approved ⟨0, default, Approver.stated (.human "operator")⟩)

def done : McpSsh.Entry := entryOf 2 (.completed {
  run := default
  decided := 1
  state := RunState.debug (.exited 0)
  stdout := .kept "up 3 days" false 9
  stderr := .kept "" false 0
  file := none
  info := none })

theorem entryOf_bounded {sequence : Nat} {event : Event} (small : sequence < 2 ^ 64)
    (bounded : event.Bounded) : (entryOf sequence event).Bounded where
  sequence := small
  atMillis := small
  session := by
    change 0 < 16 ^ 32
    decide
  event := bounded
  previous := List.length_replicate
  digest := List.length_replicate

theorem held_bounded : held.Bounded :=
  entryOf_bounded (by decide) (Ledger.decidedEvent_bounded default fun _ listed => nomatch listed)

theorem agreed_bounded : agreed.Bounded := by
  refine entryOf_bounded (by decide) ⟨by decide, ?_, by decide, nofun, nofun⟩
  change 0 < 16 ^ 32
  decide

theorem done_bounded : done.Bounded :=
  entryOf_bounded (by decide) ⟨by decide, by decide, by decide, trivial, trivial, nofun, nofun⟩

def first : Entry Durable := ⟨3, ⟨.of held, .of held_bounded⟩⟩

def second : Entry Durable := ⟨4, ⟨.of agreed, .of agreed_bounded⟩⟩

def third : Entry Durable := ⟨5, ⟨.of done, .of done_bounded⟩⟩

def history : List (Entry Durable) := [first, second, third]

theorem history_fits : ∀ entry ∈ history, entry.sourceNanos < 2 ^ 64 := by
  simp [history, first, second, third]

theorem history_ledgered : Ledgered history := by
  intro entry listed
  simp only [history, List.mem_cons, List.not_mem_nil, or_false] at listed
  rcases listed with rfl | rfl | rfl
  · exact ⟨held, held_bounded, rfl⟩
  · exact ⟨agreed, agreed_bounded, rfl⟩
  · exact ⟨done, done_bounded, rfl⟩

/-- Its lines are short. -/
theorem history_short : ∀ entry ∈ history,
    ((durable LokiResponse.ofBody).render entry).1.length +
      ((durable LokiResponse.ofBody).render entry).2.length ≤ 2000 := by
  have lines : held.toJson.text.length ≤ 1999 ∧ agreed.toJson.text.length ≤ 1999 ∧
      done.toJson.text.length ≤ 1999 := by decide +kernel
  have row (nanos : Nat) (short : (toString nanos).length = 1) {own : McpSsh.Entry}
      (bounded : own.Bounded) (line : own.toJson.text.length ≤ 1999) (entry : Entry Durable)
      (is : entry = ⟨nanos, ⟨.of own, .of bounded⟩⟩) :
      ((durable LokiResponse.ofBody).render entry).1.length +
        ((durable LokiResponse.ofBody).render entry).2.length ≤ 2000 := by
    rw [is]
    change (toString nanos).length + (String.ofList own.toJson.text).length ≤ 2000
    rw [short, String.length_ofList]
    omega
  intro entry listed
  simp only [history, List.mem_cons, List.not_mem_nil, or_false] at listed
  rcases listed with is | is | is
  · exact row 3 (by decide) held_bounded lines.1 entry is
  · exact row 4 (by decide) agreed_bounded lines.2.1 entry is
  · exact row 5 (by decide) done_bounded lines.2.2 entry is

/-- So are the answers. -/
theorem history_small {limit : Nat} (few : limit ≤ fetchLimit) (call : Nat) (logql : String)
    (start end' : Nat) :
    ¬ ((LogSource.searching history history_fits).answer call logql start end' limit).TooLarge := by
  have bytes : 4 * (fetchLimit * (6 * 2000 + 8) + 100) ≤ responseBytes := by decide
  have rows := Nat.mul_le_mul_right (6 * 2000 + 8) few
  exact LogSource.oneStream_small history_short
    ((Nat.mul_le_mul_left 4 (Nat.add_le_add_right rows 100)).trans bytes) call logql start end'

end Sample

/-! ## One page of a transcript -/

section

variable {decode : List UInt8 → Option LokiResponse} {order : NewestFirst Durable}
  {places : PlaceOrder} {stored : List (Entry Durable)}
  {source : LogSource (durable decode) stored} {session : SessionId}

theorem mem_kept {which : AuditLine → Bool} {start end' : Nat} {entry : Entry Durable} :
    entry ∈ kept which start end' stored ↔ entry ∈ stored ∧ which entry.record.val = true ∧
      start ≤ entry.sourceNanos ∧ entry.sourceNanos ≤ end' := by
  unfold kept wanted
  rw [List.mem_filter, List.mem_filter, decide_eq_true_eq, and_assoc]

/-- All evidence about some decisions. -/
def evidenceOf (stored : List (Entry Durable)) (session : SessionId) (start end' : Nat)
    (decisions : List (Entry Durable)) : List (Entry Durable) :=
  kept (isEvidence session decisions) start end' stored

/-- The completions of what was approved. -/
def completionsOf (stored : List (Entry Durable)) (session : SessionId) (start end' : Nat)
    (decisions : List (Entry Durable)) : List (Entry Durable) :=
  kept (isCompletion session (approvalsOf decisions (evidenceOf stored session start end' decisions)))
    start end' stored

/-- A page holds some decisions, all evidence about them and the completions of
what was approved; each once, and nothing else. -/
structure TranscriptPage.Holds (page : TranscriptPage) (stored : List (Entry Durable))
    (session : SessionId) (decisions : List (Entry Durable)) : Prop where
  sorted : Newest.Descending place page.entries
  once : (page.entries.map identity).Nodup
  none' : ∀ entry ∈ page.entries, entry ∈ decisions ∨
    entry ∈ evidenceOf stored session page.windowStart page.windowEnd decisions ∨
    entry ∈ completionsOf stored session page.windowStart page.windowEnd decisions
  all : ∀ entry, entry ∈ decisions ∨
      entry ∈ evidenceOf stored session page.windowStart page.windowEnd decisions ∨
      entry ∈ completionsOf stored session page.windowStart page.windowEnd decisions →
    identity entry ∈ page.entries.map identity

/-- There is more about some decisions than a ledger can have written. -/
def Overfull (stored : List (Entry Durable)) (session : SessionId) (start end' : Nat)
    (decisions : List (Entry Durable)) : Prop :=
  decisions.length * 4 < (evidenceOf stored session start end' decisions).length ∨
    (approvalsOf decisions (evidenceOf stored session start end' decisions)).length <
      (completionsOf stored session start end' decisions).length

/-- The answers that reading a page of a transcript asks for: decisions, evidence
about those on the page, and the completions of what was approved. -/
inductive Asks (source : LogSource (durable decode) stored) (session : SessionId)
    (start before end' : Nat) : Response → Prop
  | decisions {call} : Asks source session start before end'
      (source.answer call (transcriptDecisionsLogql session) start before fetchLimit)
  | evidence {call decisions next}
      (cut : Cut (kept (isDecision session) start before stored) (.ok (decisions, next))) :
      Asks source session start before end' (source.answer call
        (transcriptRelationsLogql session (decisions.map (·.record.val))) start end'
        (decisions.length * 4 + 1))
  | completions {call decisions next related}
      (cut : Cut (kept (isDecision session) start before stored) (.ok (decisions, next)))
      (evident : related.Perm (evidenceOf stored session start end' decisions)) :
      Asks source session start before end' (source.answer call
        (transcriptCompletionsLogql session (approvalsOf decisions related)) start end'
        ((approvalsOf decisions related).length + 1))

/-- What following a session's history brought, and what stopped it. -/
structure Followed where
  pages : List TranscriptPage
  stopped : Option ReadError

/-- Pages hold decisions by parts, each with all evidence about its own. The
parts are all decisions, each once and newest first; or they stop where a page
cannot be cut, where there is more about some decisions than can be, or where an
answer is too large. -/
structure Tells (source : LogSource (durable decode) stored) (session : SessionId)
    (start before end' : Nat) (walk : Followed) (parts : List (List (Entry Durable))) : Prop where
  pages : List.Forall₂ (fun page decisions => (page.windowStart = start ∧ page.windowEnd = end') ∧
    page.Holds stored session decisions ∧ ¬ Overfull stored session start end' decisions)
    walk.pages parts
  newestFirst : Newest.Descending Entry.sourceNanos parts.flatten
  among : parts.flatten ⊆ kept (isDecision session) start before stored
  whole : walk.stopped = none → parts.flatten.Perm (kept (isDecision session) start before stored)
  stopped : ∀ cause, walk.stopped = some cause →
    (cause = .unpageableTimestamp ∧ ∃ nanos,
      pageSize < ((kept (isDecision session) start before stored).filter
        (·.sourceNanos = nanos)).length) ∨
    (cause = .malformedResponse ∧ ∃ decisions ⊆ kept (isDecision session) start before stored,
      Overfull stored session start end' decisions) ∨
    cause = .responseTooLarge ∧ ∃ reached ≤ before, ∃ answer,
      Asks source session start reached end' answer ∧ answer.TooLarge

theorem Cut.subset {ε : Type} {all entries : List (Entry ε)} {next : Option Nat}
    (cut : Cut all (.ok (entries, next))) : entries ⊆ all := by
  cases cut with
  | last _ whole => exact whole.subset
  | more _ newer =>
    intro entry listed
    exact List.mem_of_mem_filter (newer.subset listed)

theorem Cut.length_le {ε : Type} {all entries : List (Entry ε)} {next : Option Nat}
    (cut : Cut all (.ok (entries, next))) : entries.length ≤ all.length := by
  cases cut with
  | last _ whole => exact whole.length_eq.le
  | more _ newer => exact newer.length_eq.le.trans List.filter_sublist.length_le

theorem kept_older {which : AuditLine → Bool} {start end' before : Nat} (earlier : before ≤ end') :
    (kept which start end' stored).filter (·.sourceNanos ≤ before) = kept which start before stored :=
  wanted_older earlier

/-- A page, and what follows its cursor. -/
theorem Tells.page {start before boundary end' : Nat} {page : TranscriptPage}
    {decisions : List (Entry Durable)} {walk : Followed} {parts : List (List (Entry Durable))}
    (rest : Tells source session start boundary end' walk parts) (earlier : boundary ≤ before)
    (sorted : Newest.Descending Entry.sourceNanos decisions)
    (newer : decisions.Perm
      ((kept (isDecision session) start before stored).filter (boundary < ·.sourceNanos)))
    (windowed : page.windowStart = start ∧ page.windowEnd = end')
    (holds : page.Holds stored session decisions)
    (fits : ¬ Overfull stored session start end' decisions) :
    Tells source session start before end' { walk with pages := page :: walk.pages }
      (decisions :: parts) := by
  have older := @kept_older stored (isDecision session) start before boundary earlier
  have fewer : kept (isDecision session) start boundary stored ⊆
      kept (isDecision session) start before stored := by
    rw [← older]
    exact List.filter_sublist.subset
  constructor
  case pages => exact .cons ⟨windowed, holds, fits⟩ rest.pages
  case newestFirst =>
    have above : ∀ entry ∈ decisions, boundary < entry.sourceNanos := by
      intro entry listed
      exact of_decide_eq_true (List.mem_filter.mp (newer.subset listed)).2
    refine sorted.append rest.newestFirst above ?_
    intro entry listed
    exact (mem_kept.mp (rest.among listed)).2.2.2
  case among =>
    intro entry listed
    rcases List.mem_append.mp listed with listed | listed
    · exact List.mem_of_mem_filter (newer.subset listed)
    · exact fewer (rest.among listed)
  case whole =>
    intro ended
    have brought := rest.whole ended
    rw [← older] at brought
    exact (newer.append brought).trans (Newest.split Entry.sourceNanos boundary _)
  case stopped =>
    intro cause stopped
    rcases rest.stopped cause stopped with ⟨rfl, nanos, crowded⟩ | ⟨rfl, decisions, some', many⟩ |
      ⟨rfl, reached, short, large⟩
    · refine .inl ⟨rfl, nanos, crowded.trans_le ?_⟩
      rw [← older]
      exact (List.filter_sublist.filter _).length_le
    · exact .inr (.inl ⟨rfl, decisions, fun _ listed => fewer (some' listed), many⟩)
    · exact .inr (.inr ⟨rfl, reached, short.trans earlier, large⟩)

end

namespace Sample

end Sample

namespace Sample

end Sample

/-- What reading the output of a run comes to, of all its completions, where the
answer is too large or is not. -/
inductive Found (large : Prop) (all : List (Entry Durable)) :
    Except ReadError (Option (Entry Durable)) → Prop
  | tooLarge (too : large) : Found large all (.error .responseTooLarge)
  | none' (fits : ¬ large) (unfinished : all = []) : Found large all (.ok none)
  | one {entry} (fits : ¬ large) (only : all = [entry]) : Found large all (.ok (some entry))
  | many (fits : ¬ large) (several : 1 < all.length) : Found large all (.error .malformedResponse)

/-- **An output.** -/
theorem output_exact (source : LogSource (durable decode) stored) (searches : source.Searches)
    (ledgered : Ledgered stored) (order : NewestFirst Durable) (now : Except ReadError Nat)
    (call : Nat) (query : OutputQuery) (start end' : Nat)
    (opened : readWindow none (some query.start) (some query.end') .month now = .ok (start, end')) :
    Found (source.answer call (outputLogql query.session query.run) start end' 2).TooLarge
      (kept (isOutput query) start end' stored)
      (readOutput decode order now (source.answer call) query) := by
  unfold readOutput
  rw [opened]
  dsimp only [bind, Except.bind]
  rcases @fetch_newest _ _ order _ source call (outputLogql query.session query.run) start end' 2 with
    ⟨large, fetched⟩ | ⟨small, lines, fetched, -, newest⟩
  · rw [fetched]
    exact .tooLarge large
  rw [wanted_congr (selects_output searches ledgered query)] at newest
  have counted := newest.counted
  have exact' : ∀ entry ∈ lines, isOutput query entry.record.val = true := by
    intro entry listed
    exact (mem_kept.mp (newest.subset listed)).2.1
  rw [fetched]
  dsimp only [pure, Except.pure]
  by_cases several : 1 < lines.length
  · rw [if_pos several]
    refine .many small ?_
    unfold kept
    omega
  rw [if_neg several]
  have whole : lines.Perm (kept (isOutput query) start end' stored) := newest.whole (by omega)
  match lines with
  | [] => exact .none' small (List.nil_perm.mp whole)
  | [entry] =>
    have is := of_decide_eq_true (exact' entry List.mem_cons_self)
    dsimp only [List.getLast?_singleton]
    split
    case isTrue => exact .one small (List.singleton_perm.mp whole).symm
    case isFalse other => exact absurd is other
  | _ :: _ :: _ =>
    rw [List.length_cons, List.length_cons] at several
    omega

/-- What the one run of the history wrote is found among its lines. -/
theorem Sample.output_found :
    readOutput LokiResponse.ofBody (.stable Durable) (.ok 9)
      ((LogSource.searching history history_fits).answer 0) ⟨0, 9, default, default⟩ =
        .ok (some third) := by
  have found := output_exact (.searching history history_fits) (fun _ _ => rfl) history_ledgered
    (.stable Durable) (.ok 9) 0 ⟨0, 9, default, default⟩ 0 9 (by decide)
  have outputs : kept (isOutput ⟨0, 9, default, default⟩) 0 9 history = [third] := by
    have own (entry : McpSsh.Entry) : isOutput ⟨0, 9, default, default⟩ (.of entry) =
        decide (entry.who.session.asStr = (default : SessionId).asStr ∧
          entry.event.asStr = "completed" ∧
          entry.event.run.map RunId.asStr = some (default : RunId).asStr) := by
      unfold isOutput
      rw [session_of, eventName_of, eventRun_of]
      simp only [Option.some.injEq]
    have not₁ : isOutput ⟨0, 9, default, default⟩ first.record.val = false :=
      (own held).trans (decide_eq_false fun is => absurd is.2.1 (by decide))
    have not₂ : isOutput ⟨0, 9, default, default⟩ second.record.val = false :=
      (own agreed).trans (decide_eq_false fun is => absurd is.2.1 (by decide))
    have is₃ : isOutput ⟨0, 9, default, default⟩ third.record.val = true :=
      (own done).trans (decide_eq_true ⟨rfl, rfl, rfl⟩)
    have time : third.sourceNanos = 5 := rfl
    simp [kept, wanted, history, not₁, not₂, is₃, time]
  rw [outputs] at found
  generalize readOutput LokiResponse.ofBody (.stable Durable) (.ok 9)
    ((LogSource.searching history history_fits).answer 0) ⟨0, 9, default, default⟩ = outcome at found ⊢
  cases found with
  | tooLarge too => exact absurd too (history_small (by decide) 0 _ 0 9)
  | none' fits unfinished => cases unfinished
  | one fits only =>
    cases only
    rfl
  | many fits several => exact absurd several (by decide)

end McpSsh.AuditHistory
