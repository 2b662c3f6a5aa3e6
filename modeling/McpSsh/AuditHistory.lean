import McpSsh.AuditResponses
import McpSsh.AuditRoundTrip
import McpSsh.Lib.Newest
import Mathlib.Data.Nat.Digits.Defs

/-!
# Durable audit pages

`audit_history.rs`: pages of the deployment's audit record, read from the log
service that keeps it. The service answers with the newest so many lines of a
window, in a body whose size is bounded; a page is cut where the timestamp
changes, and the next query ends there.
-/

namespace McpSsh.AuditHistory

/-- `PAGE_SIZE`. -/
def pageSize : Nat := 20

/-- `FETCH_LIMIT`. -/
def fetchLimit : Nat := pageSize + 1

/-- A bounded look-back selected by an operator. -/
inductive Window
  | hour
  | day
  | week
  | month
  deriving DecidableEq, Repr

/-- `Window::duration`, in nanoseconds; each fits a `u64`. -/
def Window.nanos : Window → Nat
  | .hour => 60 * 60 * 10 ^ 9
  | .day => 24 * 60 * 60 * 10 ^ 9
  | .week => 7 * 24 * 60 * 60 * 10 ^ 9
  | .month => 30 * 24 * 60 * 60 * 10 ^ 9

/-- What is asked for. `logql` is what the filters come to in the source's
language; the cursor leaves it alone. -/
structure Query where
  before : Option Nat
  start : Option Nat
  window : Window
  logql : String

/-- One audit line with the source's timestamp. -/
structure Entry (ε : Type) where
  sourceNanos : Nat
  record : ε
  deriving DecidableEq

structure Page (ε : Type) where
  entries : List (Entry ε)
  nextBefore : Option Nat
  windowStart : Nat

/-- How an audit line is written, how `serde_json::from_str` with
`validate_entry` reads one, and how `serde_json::from_slice` reads an answer. -/
structure LineFormat (ε : Type) where
  line : ε → String
  read : String → Option ε
  reads : ∀ record, read (line record) = some record
  response : List UInt8 → Option LokiResponse

/-- `sort_unstable_by_key` with the timestamp reversed: the order of equally old
entries is left open. -/
structure NewestFirst (ε : Type) where
  sort : List (Entry ε) → List (Entry ε)
  perm : ∀ lines, (sort lines).Perm lines
  sorted : ∀ lines, Newest.Descending Entry.sourceNanos (sort lines)

/-- A number's digits after its sign. -/
def unsigned : List Char → List Char
  | '+' :: digits => digits
  | digits => digits

/-- `str::parse::<u64>`. -/
def parseU64 (text : String) : Option Nat :=
  let digits := unsigned text.toList
  if digits ≠ [] ∧ digits.all Char.isDigit ∧ Nat.ofDigitChars 10 digits 0 < 2 ^ 64 then
    some (Nat.ofDigitChars 10 digits 0)
  else none

section

variable {ε : Type} (format : LineFormat ε) (order : NewestFirst ε)

/-- The body of `fetch`'s inner loop. -/
def pushLine (limit : Nat) (lines : List (Entry ε)) :
    String × String → Except ReadError (List (Entry ε))
  | (timestamp, line) =>
    match parseU64 timestamp with
    | none => .error .malformedResponse
    | some sourceNanos =>
      match format.read line with
      | none => .error .malformedEntry
      | some record =>
        let lines := lines ++ [⟨sourceNanos, record⟩]
        if limit < lines.length then .error .malformedResponse else .ok lines

/-- `Loki::fetch`, with what comes of its request. -/
def fetch (limit : Nat) (answer : Response) : Except ReadError (List (Entry ε)) :=
  if answer.success = false then .error .unavailable
  else
    match boundedBody answer.whole [] answer.chunks with
    | .error cause => .error cause
    | .ok bytes =>
      match format.response bytes with
      | none => .error .malformedResponse
      | some response =>
        if response.status ≠ "success" ∨ response.resultType ≠ "streams" then
          .error .malformedResponse
        else
          (response.result.foldlM (fun lines => List.foldlM (pushLine format limit) lines) []).map
            order.sort

/-- `read_window`, with the clock reading it takes if it has no end. -/
def readWindow (before start fixedEnd : Option Nat) (window : Window)
    (now : Except ReadError Nat) : Except ReadError (Nat × Nat) :=
  match (fixedEnd.or before).elim now .ok with
  | .error cause => .error cause
  | .ok end' =>
    let earliest := end' - window.nanos
    let start := max (start.getD earliest) earliest
    if start ≤ end' then .ok (start, end') else .error .invalidWindow

/-- `collision_safe_page`: the lines that stay, and the next cursor. -/
def collisionSafePage (lines : List (Entry ε)) :
    Except ReadError (List (Entry ε) × Option Nat) :=
  if lines.length ≤ pageSize then .ok (lines, none)
  else
    match lines[pageSize]? with
    | none => .error .malformedResponse
    | some boundary =>
      match lines.findIdx? (·.sourceNanos = boundary.sourceNanos) with
      | none => .error .malformedResponse
      | some 0 => .error .unpageableTimestamp
      | some first => .ok (lines.take first, some boundary.sourceNanos)

/-- `Loki::read`, once it has its permit. -/
def read (now : Except ReadError Nat) (answer : (start end' limit : Nat) → Response)
    (query : Query) : Except ReadError (Page ε) :=
  match readWindow query.before query.start none query.window now with
  | .error cause => .error cause
  | .ok (start, end') =>
    match fetch format order fetchLimit (answer start end' fetchLimit) with
    | .error cause => .error cause
    | .ok lines =>
      match collisionSafePage lines with
      | .error cause => .error cause
      | .ok (entries, nextBefore) => .ok ⟨entries, nextBefore, start⟩

end

/-! ## A log source -/

/-- An entry as the source writes it. -/
def LineFormat.render {ε : Type} (format : LineFormat ε) (entry : Entry ε) : String × String :=
  (toString entry.sourceNanos, format.line entry.record)

/-- What a query is after. -/
def wanted {ε : Type} (selects : Entry ε → Bool) (start end' : Nat) (stored : List (Entry ε)) :
    List (Entry ε) :=
  (stored.filter selects).filter fun entry => start ≤ entry.sourceNanos ∧ entry.sourceNanos ≤ end'

/-- A response that brings some entries, whatever its size. -/
structure Response.Brings {ε : Type} (format : LineFormat ε) (answer : Response)
    (entries : List (Entry ε)) : Prop where
  success : answer.success = true
  whole : answer.whole = true
  read : ∃ response, format.response answer.chunks.flatten = some response ∧
    response.status = "success" ∧ response.resultType = "streams" ∧
      response.result.flatten = entries.map format.render

/-- A source that keeps some entries and answers each query with the newest of
those it is after. Which of equally old ones it leaves out, in which order and
streams they come, and how the body is written may differ from call to call. -/
structure LogSource {ε : Type} (format : LineFormat ε) (stored : List (Entry ε)) where
  selects : String → Entry ε → Bool
  answer : (call : Nat) → (logql : String) → (start end' limit : Nat) → Response
  fits : ∀ entry ∈ stored, entry.sourceNanos < 2 ^ 64
  newest : ∀ call logql start end' limit, ∃ chosen,
    (answer call logql start end' limit).Brings format chosen ∧
      Newest.Of Entry.sourceNanos limit (wanted (selects logql) start end' stored) chosen

/-! ## Following the cursor -/

/-- What pages have brought, and what stopped them if there was no last one. -/
structure Walk (ε : Type) where
  entries : List (Entry ε)
  stopped : Option ReadError

section

variable {ε : Type} {format : LineFormat ε} {stored : List (Entry ε)}
  (source : LogSource format stored) (order : NewestFirst ε) (clock : Nat → Except ReadError Nat)

/-- Some number of pages that start where the cursor is; `none` if there are
more. -/
def older (start : Nat) (query : Query) : (pages call before : Nat) → Option (Walk ε)
  | 0, _, _ => none
  | pages + 1, call, before =>
    match read format order (clock call) (source.answer call query.logql)
        { query with before := some before, start := some start } with
    | .error cause => some ⟨[], some cause⟩
    | .ok page =>
      match page.nextBefore with
      | none => some ⟨page.entries, none⟩
      | some before =>
        (older start query pages (call + 1) before).map fun walk =>
          { walk with entries := page.entries ++ walk.entries }

/-- The first page, and those that follow with its `window_start`. -/
def follow (query : Query) (pages : Nat) : Option (Walk ε) :=
  match read format order (clock 0) (source.answer 0 query.logql) query with
  | .error cause => some ⟨[], some cause⟩
  | .ok page =>
    match page.nextBefore with
    | none => some ⟨page.entries, none⟩
    | some before =>
      (older source order clock page.windowStart query pages 1 before).map fun walk =>
        { walk with entries := page.entries ++ walk.entries }

end

/-! ## One page -/

section

variable {ε : Type} {format : LineFormat ε} {order : NewestFirst ε} {stored lines : List (Entry ε)}

/-- What was written as a number reads back as it. -/
theorem parseU64_toString {number : Nat} (fits : number < 2 ^ 64) :
    parseU64 (toString number) = some number := by
  have digits : (toString number).toList = Nat.toDigits 10 number := Nat.toList_repr
  have plain : ∀ c ∈ Nat.toDigits 10 number, c.isDigit = true :=
    fun c listed => Nat.isDigit_of_mem_toDigits (by decide) (by decide) listed
  have value : Nat.ofDigitChars 10 (Nat.toDigits 10 number) 0 = number :=
    Nat.ofDigitChars_toDigits (by decide) (by decide)
  have some' : Nat.toDigits 10 number ≠ [] := Nat.toDigits_ne_nil
  have unsigned : unsigned (Nat.toDigits 10 number) = Nat.toDigits 10 number := by
    unfold unsigned
    split
    case h_1 signed =>
      have sign := plain '+' (signed ▸ List.mem_cons_self)
      exact absurd sign (by decide)
    case h_2 => rfl
  unfold parseU64
  rw [digits, unsigned]
  dsimp only
  rw [value, if_pos ⟨some', List.all_eq_true.mpr plain, fits⟩]

/-- Streams are read as if they were one. -/
theorem foldlM_streams {α β σ : Type} (step : β → α → Except σ β) (streams : List (List α))
    (start : β) :
    streams.foldlM (fun sofar => List.foldlM step sofar) start =
      streams.flatten.foldlM step start := by
  induction streams generalizing start with
  | nil => rfl
  | cons stream streams ih =>
    rw [List.foldlM_cons, List.flatten_cons, List.foldlM_append]
    exact bind_congr ih

theorem pushLine_render {limit : Nat} {entry : Entry ε} (fits : entry.sourceNanos < 2 ^ 64)
    (room : lines.length < limit) :
    pushLine format limit lines (format.render entry) = .ok (lines ++ [entry]) := by
  unfold LineFormat.render pushLine
  dsimp only
  rw [parseU64_toString fits]
  dsimp only
  rw [format.reads]
  dsimp only
  rw [if_neg]
  rw [List.length_append, List.length_singleton]
  omega

theorem pushLines_render {limit : Nat} {chosen : List (Entry ε)}
    (fits : ∀ entry ∈ chosen, entry.sourceNanos < 2 ^ 64)
    (room : lines.length + chosen.length ≤ limit) :
    (chosen.map format.render).foldlM (pushLine format limit) lines = .ok (lines ++ chosen) := by
  induction chosen generalizing lines with
  | nil =>
    rw [List.append_nil]
    rfl
  | cons entry chosen ih =>
    rw [List.length_cons] at room
    rw [List.map_cons, List.foldlM_cons, pushLine_render (fits entry List.mem_cons_self) (by omega)]
    have rest := @ih (lines ++ [entry]) (fun other listed => fits other (List.mem_cons_of_mem _ listed))
      (by rw [List.length_append, List.length_singleton]; omega)
    rw [List.append_assoc] at rest
    exact rest

/-- What a fetch makes of a response: too much, or its entries in order. -/
theorem fetch_brings {answer : Response} {limit : Nat} {chosen : List (Entry ε)}
    (brings : answer.Brings format chosen) (fits : ∀ entry ∈ chosen, entry.sourceNanos < 2 ^ 64)
    (room : chosen.length ≤ limit) :
    (answer.TooLarge ∧ fetch format order limit answer = .error .responseTooLarge) ∨
      ¬ answer.TooLarge ∧ fetch format order limit answer = .ok (order.sort chosen) := by
  obtain ⟨response, read, status, kind, written⟩ := brings.read
  unfold fetch
  rw [brings.success, if_neg Bool.true_eq_false.mp, brings.whole,
    boundedBody_whole (Nat.zero_le _), List.nil_append]
  by_cases large : responseBytes < answer.chunks.flatten.length
  · rw [if_pos large]
    exact .inl ⟨large, rfl⟩
  · rw [if_neg large]
    dsimp only
    rw [read]
    dsimp only
    rw [if_neg (by rw [status, kind]; decide), foldlM_streams, written,
      pushLines_render fits (by rw [List.length_nil]; omega)]
    exact .inr ⟨large, rfl⟩

/-- A fetch brings the newest of what the query is after, in order, unless they
are too much. -/
theorem fetch_newest (source : LogSource format stored) (call : Nat) (logql : String)
    (start end' limit : Nat) :
    ((source.answer call logql start end' limit).TooLarge ∧
      fetch format order limit (source.answer call logql start end' limit) =
        .error .responseTooLarge) ∨
    ¬ (source.answer call logql start end' limit).TooLarge ∧
      ∃ lines, fetch format order limit (source.answer call logql start end' limit) = .ok lines ∧
        Newest.Descending Entry.sourceNanos lines ∧
        Newest.Of Entry.sourceNanos limit (wanted (source.selects logql) start end' stored) lines := by
  obtain ⟨chosen, brings, newest⟩ := source.newest call logql start end' limit
  have fits : ∀ entry ∈ chosen, entry.sourceNanos < 2 ^ 64 := by
    intro entry listed
    obtain ⟨rest, split, -⟩ := newest.newest
    have kept := split.subset (List.mem_append_left rest listed)
    exact source.fits entry (List.mem_of_mem_filter (List.mem_of_mem_filter kept))
  have room : chosen.length ≤ limit := newest.counted.trans_le (Nat.min_le_left _ _)
  rcases @fetch_brings _ _ order _ _ _ brings fits room with large | ⟨small, fetched⟩
  · exact .inl large
  · exact .inr ⟨small, _, fetched, order.sorted chosen, newest.perm (order.perm chosen)⟩

/-- What a cut page is: all of what is wanted if there is no cursor, all that is
newer than the cursor if there is one; or there was no place to cut. -/
inductive Cut (all : List (Entry ε)) : Except ReadError (List (Entry ε) × Option Nat) → Prop
  | last {entries} (sorted : Newest.Descending Entry.sourceNanos entries)
      (whole : entries.Perm all) : Cut all (.ok (entries, none))
  | more {entries boundary} (sorted : Newest.Descending Entry.sourceNanos entries)
      (newer : entries.Perm (all.filter (boundary < ·.sourceNanos))) (some' : entries ≠ [])
      (listed : ∃ entry ∈ all, entry.sourceNanos = boundary) :
      Cut all (.ok (entries, some boundary))
  | level {nanos} (crowded : pageSize < (all.filter (·.sourceNanos = nanos)).length)
      (newest : all.filter (nanos < ·.sourceNanos) = []) : Cut all (.error .unpageableTimestamp)

/-- A page is cut where the timestamp changes. -/
theorem collisionSafePage_cut {all : List (Entry ε)}
    (sorted : Newest.Descending Entry.sourceNanos lines)
    (newest : Newest.Of Entry.sourceNanos fetchLimit all lines) :
    Cut all (collisionSafePage lines) := by
  unfold collisionSafePage
  split
  case isTrue few => exact .last sorted (newest.whole (Nat.lt_succ_of_le few))
  case isFalse many =>
    obtain ⟨boundary, found⟩ : ∃ boundary, lines[pageSize]? = some boundary :=
      ⟨_, List.getElem?_eq_getElem (Nat.lt_of_not_le many)⟩
    have listed := List.mem_of_getElem? found
    have position : lines.findIdx? (·.sourceNanos = boundary.sourceNanos) =
        some (lines.findIdx (·.sourceNanos = boundary.sourceNanos)) := by
      rw [List.findIdx?_eq_some_iff_findIdx_eq]
      exact ⟨List.findIdx_lt_length_of_exists ⟨boundary, listed, decide_eq_true rfl⟩, rfl⟩
    have front := sorted.take_findIdx listed
    have above := newest.above listed
    rw [found]
    dsimp only
    rw [position]
    generalize lines.findIdx (·.sourceNanos = boundary.sourceNanos) = first at front
    rw [← front] at above
    cases first with
    | zero =>
      have top : ∀ entry ∈ lines, entry.sourceNanos ≤ boundary.sourceNanos := by
        intro entry listed
        have older := List.filter_eq_nil_iff.mp front.symm entry listed
        rw [decide_eq_true_eq] at older
        exact Nat.le_of_not_lt older
      have level := sorted.level found top
      have length : lines.length = fetchLimit := by
        have counted := newest.counted
        unfold fetchLimit at counted ⊢
        omega
      rw [show pageSize + 1 = lines.length from length.symm, List.take_length] at level
      have crowded := newest.length_filter_le (·.sourceNanos = boundary.sourceNanos)
      rw [List.filter_eq_self.mpr fun entry listed => decide_eq_true (level entry listed),
        length] at crowded
      exact .level crowded (List.nil_perm.mp above)
    | succ first =>
      refine .more (sorted.sublist (List.take_sublist _ _)) above ?_
        ⟨boundary, newest.subset listed, rfl⟩
      intro none
      have length := congrArg List.length none
      rw [List.length_take, List.length_nil] at length
      omega

/-- A window that was opened reaches back no further than it may. -/
theorem readWindow_within {before start : Option Nat} {window : Window}
    {now : Except ReadError Nat} {from' end' : Nat}
    (opened : readWindow before start none window now = .ok (from', end')) :
    from' ≤ end' ∧ end' - window.nanos ≤ from' := by
  unfold readWindow at opened
  split at opened
  case h_1 => exact nomatch opened
  case h_2 last _ =>
    dsimp only at opened
    split at opened
    case isFalse => exact nomatch opened
    case isTrue ordered =>
      obtain ⟨rfl, rfl⟩ := Prod.mk.inj (Except.ok.inj opened)
      exact ⟨ordered, Nat.le_max_right _ _⟩

/-- The start of the first window is that of every older one. -/
theorem readWindow_older {before start : Nat} {window : Window} (now : Except ReadError Nat)
    (ordered : start ≤ before) (within : before - window.nanos ≤ start) :
    readWindow (some before) (some start) none window now = .ok (start, before) := by
  unfold readWindow
  dsimp only [Option.none_or, Option.elim_some, Option.getD_some]
  rw [Nat.max_eq_left within, if_pos ordered]

/-- A read is a cut of what is wanted in its window, unless that is too much. -/
theorem read_cut (source : LogSource format stored) (call : Nat) (now : Except ReadError Nat)
    {query : Query} {start end' : Nat}
    (opened : readWindow query.before query.start none query.window now = .ok (start, end')) :
    ((source.answer call query.logql start end' fetchLimit).TooLarge ∧
      read format order now (source.answer call query.logql) query = .error .responseTooLarge) ∨
    ¬ (source.answer call query.logql start end' fetchLimit).TooLarge ∧
      ∃ cut, Cut (wanted (source.selects query.logql) start end' stored) cut ∧
        read format order now (source.answer call query.logql) query =
          cut.map fun (entries, nextBefore) => ⟨entries, nextBefore, start⟩ := by
  unfold read
  rw [opened]
  dsimp only
  rcases @fetch_newest _ _ order _ source call query.logql start end' fetchLimit with
    ⟨large, fetched⟩ | ⟨small, lines, fetched, sorted, newest⟩
  · left
    rw [fetched]
    exact ⟨large, rfl⟩
  · right
    refine ⟨small, _, collisionSafePage_cut sorted newest, ?_⟩
    rw [fetched]
    dsimp only
    cases collisionSafePage lines <;> rfl

/-! ## The whole walk -/

/-- A walk brought all entries once each, newest first; or it stopped at a
timestamp that more entries share than fit a page, or where a response was too
large, and brought what is newer. -/
structure Lossless (large : Nat → Prop) (end' : Nat) (all : List (Entry ε)) (walk : Walk ε) :
    Prop where
  newestFirst : Newest.Descending Entry.sourceNanos walk.entries
  whole : walk.stopped = none → walk.entries.Perm all
  stopped : ∀ cause, walk.stopped = some cause →
    (cause = .unpageableTimestamp ∧
      ∃ nanos, pageSize < (all.filter (·.sourceNanos = nanos)).length ∧
        walk.entries.Perm (all.filter (nanos < ·.sourceNanos))) ∨
    cause = .responseTooLarge ∧ ∃ before ≤ end',
      large before ∧ walk.entries.Perm (all.filter (before < ·.sourceNanos))

variable {large : Nat → Prop} {end' : Nat}

theorem lossless_last {all entries : List (Entry ε)}
    (sorted : Newest.Descending Entry.sourceNanos entries) (whole : entries.Perm all) :
    Lossless large end' all ⟨entries, none⟩ :=
  ⟨sorted, fun _ => whole, nofun⟩

theorem lossless_level {all : List (Entry ε)} {nanos : Nat}
    (crowded : pageSize < (all.filter (·.sourceNanos = nanos)).length)
    (newest : all.filter (nanos < ·.sourceNanos) = []) :
    Lossless large end' all ⟨[], some .unpageableTimestamp⟩ where
  newestFirst := List.Pairwise.nil
  whole := nofun
  stopped cause stopped := by
    cases stopped
    exact .inl ⟨rfl, nanos, crowded, newest ▸ List.Perm.nil⟩

theorem lossless_large {all : List (Entry ε)} (too : large end')
    (newest : all.filter (end' < ·.sourceNanos) = []) :
    Lossless large end' all ⟨[], some .responseTooLarge⟩ where
  newestFirst := List.Pairwise.nil
  whole := nofun
  stopped cause stopped := by
    cases stopped
    exact .inr ⟨rfl, end', Nat.le_refl _, too, newest ▸ List.Perm.nil⟩

/-- Only entries that are wanted are brought. -/
theorem Lossless.subset {all : List (Entry ε)} {walk : Walk ε}
    (lossless : Lossless large end' all walk) : walk.entries ⊆ all := by
  intro entry listed
  cases stopped : walk.stopped with
  | none => exact (lossless.whole stopped).subset listed
  | some cause =>
    rcases lossless.stopped cause stopped with ⟨-, nanos, -, brought⟩ | ⟨-, before, -, -, brought⟩
    · exact List.mem_of_mem_filter (brought.subset listed)
    · exact List.mem_of_mem_filter (brought.subset listed)

/-- A page, and a walk through what is no newer than its cursor. -/
theorem Lossless.page {all entries : List (Entry ε)} {boundary : Nat} {walk : Walk ε}
    (rest : Lossless large boundary (all.filter (·.sourceNanos ≤ boundary)) walk)
    (earlier : boundary ≤ end') (sorted : Newest.Descending Entry.sourceNanos entries)
    (newer : entries.Perm (all.filter (boundary < ·.sourceNanos))) :
    Lossless large end' all { walk with entries := entries ++ walk.entries } := by
  have above : ∀ entry ∈ entries, boundary < entry.sourceNanos := by
    intro entry listed
    exact of_decide_eq_true (List.mem_filter.mp (newer.subset listed)).2
  constructor
  case newestFirst =>
    refine sorted.append rest.newestFirst above ?_
    intro entry listed
    exact of_decide_eq_true (List.mem_filter.mp (rest.subset listed)).2
  case whole =>
    intro ended
    exact (newer.append (rest.whole ended)).trans (Newest.split Entry.sourceNanos boundary all)
  case stopped =>
    intro cause stopped
    rcases rest.stopped cause stopped with ⟨rfl, nanos, crowded, brought⟩ |
      ⟨rfl, before, below, too, brought⟩
    · have some' : (all.filter (·.sourceNanos ≤ boundary)).filter (·.sourceNanos = nanos) ≠ [] :=
        List.ne_nil_of_length_pos (Nat.lt_of_le_of_lt (Nat.zero_le _) crowded)
      obtain ⟨entry, listed⟩ := List.exists_mem_of_ne_nil _ some'
      have below : nanos ≤ boundary := by
        obtain ⟨listed, same⟩ := List.mem_filter.mp listed
        rw [← of_decide_eq_true same]
        exact of_decide_eq_true (List.mem_filter.mp listed).2
      refine .inl ⟨rfl, nanos, Nat.lt_of_lt_of_le crowded ?_, ?_⟩
      · exact (List.filter_sublist.filter _).length_le
      · exact (newer.append brought).trans (Newest.split_above below all)
    · exact .inr ⟨rfl, before, below.trans earlier, too,
        (newer.append brought).trans (Newest.split_above below all)⟩

/-- What is wanted up to an earlier end. -/
theorem wanted_older {selects : Entry ε → Bool} {start end' before : Nat} (earlier : before ≤ end') :
    (wanted selects start end' stored).filter (·.sourceNanos ≤ before) =
      wanted selects start before stored := by
  unfold wanted
  rw [List.filter_filter]
  apply List.filter_congr
  intro entry _
  rw [← Bool.decide_and]
  apply decide_eq_decide.mpr
  omega

/-- An entry that is wanted lies in the window. -/
theorem mem_wanted {selects : Entry ε → Bool} {start end' : Nat} {entry : Entry ε}
    (listed : entry ∈ wanted selects start end' stored) :
    start ≤ entry.sourceNanos ∧ entry.sourceNanos ≤ end' :=
  of_decide_eq_true (List.mem_filter.mp listed).2

/-- A page that is not the last leaves less for the ones after it. -/
theorem fewer {all entries : List (Entry ε)} {boundary : Nat} (some' : entries ≠ [])
    (newer : entries.Perm (all.filter (boundary < ·.sourceNanos))) :
    (all.filter (·.sourceNanos ≤ boundary)).length < all.length := by
  have total := (Newest.split Entry.sourceNanos boundary all).length_eq
  have brought := newer.length_eq
  have positive := List.length_pos_iff.mpr some'
  rw [List.length_append] at total
  omega

variable (source : LogSource format stored) (clock : Nat → Except ReadError Nat)

/-- Some answer to the query that ends there is too large. -/
def LogSource.Overflows (source : LogSource format stored) (logql : String) (start before : Nat) :
    Prop :=
  ∃ call, (source.answer call logql start before fetchLimit).TooLarge

/-- Nothing that is wanted is newer than the window. -/
theorem wanted_newer (selects : Entry ε → Bool) (start end' : Nat) :
    (wanted selects start end' stored).filter (end' < ·.sourceNanos) = [] := by
  rw [List.filter_eq_nil_iff]
  intro entry listed
  rw [decide_eq_true_eq]
  exact Nat.not_lt.mpr (mem_wanted listed).2

/-- What a read comes to: a walk stops or ends with it, or goes on from an earlier
cursor to less than there was. -/
inductive Leads (source : LogSource format stored) (logql : String) (start end' : Nat) :
    Except ReadError (Page ε) → Prop
  | stops {cause}
      (lossless : Lossless (source.Overflows logql start) end'
        (wanted (source.selects logql) start end' stored) ⟨[], some cause⟩) :
      Leads source logql start end' (.error cause)
  | ends {entries}
      (lossless : Lossless (source.Overflows logql start) end'
        (wanted (source.selects logql) start end' stored) ⟨entries, none⟩) :
      Leads source logql start end' (.ok ⟨entries, none, start⟩)
  | goes {entries boundary} (window : start ≤ boundary ∧ boundary ≤ end')
      (shorter : (wanted (source.selects logql) start boundary stored).length <
        (wanted (source.selects logql) start end' stored).length)
      (joins : ∀ walk, Lossless (source.Overflows logql start) boundary
          (wanted (source.selects logql) start boundary stored) walk →
        Lossless (source.Overflows logql start) end'
          (wanted (source.selects logql) start end' stored)
          { walk with entries := entries ++ walk.entries }) :
      Leads source logql start end' (.ok ⟨entries, some boundary, start⟩)

theorem read_leads (order : NewestFirst ε) (call : Nat) (now : Except ReadError Nat) {query : Query}
    {start end' : Nat}
    (opened : readWindow query.before query.start none query.window now = .ok (start, end')) :
    Leads source query.logql start end' (read format order now (source.answer call query.logql) query) := by
  rcases @read_cut _ _ order _ source call now query start end' opened with
    ⟨large, went⟩ | ⟨-, cut, cuts, went⟩
  · rw [went]
    exact .stops (lossless_large ⟨call, large⟩ (wanted_newer _ start end'))
  rw [went]
  cases cuts with
  | last sorted whole => exact .ends (lossless_last sorted whole)
  | level crowded newest => exact .stops (lossless_level crowded newest)
  | @more entries _ sorted newer some' listed =>
    obtain ⟨entry, listed, rfl⟩ := listed
    obtain ⟨after, earlier⟩ := mem_wanted listed
    have rest := @wanted_older _ stored (source.selects query.logql) start _ _ earlier
    refine .goes ⟨after, earlier⟩ (rest ▸ fewer some' newer) fun walk lossless => ?_
    rw [← rest] at lossless
    exact lossless.page earlier sorted newer

/-- With a page for each entry that is left and one more, a walk ends. -/
theorem older_lossless {query : Query} {start before : Nat} (pages call : Nat)
    (ordered : start ≤ before) (within : before - query.window.nanos ≤ start)
    (enough : (wanted (source.selects query.logql) start before stored).length < pages) :
    ∃ walk, older source order clock start query pages call before = some walk ∧
      Lossless (source.Overflows query.logql start) before
        (wanted (source.selects query.logql) start before stored) walk := by
  induction pages generalizing call before with
  | zero => omega
  | succ pages ih =>
    have leads : Leads source query.logql start before _ := @read_leads _ _ _ source order call
      (clock call) { query with before := some before, start := some start } start before
      (readWindow_older _ ordered within)
    rw [older]
    generalize read format order (clock call) (source.answer call query.logql)
      { query with before := some before, start := some start } = outcome at leads
    cases leads with
    | stops lossless => exact ⟨_, rfl, lossless⟩
    | ends lossless => exact ⟨_, rfl, lossless⟩
    | goes window shorter joins =>
      obtain ⟨walk, walked, lossless⟩ := ih (call + 1) window.1 (by omega) (by omega)
      exact ⟨_, congrArg (Option.map _) walked, joins walk lossless⟩

/-- **Pagination.** Whatever entries there are and however their timestamps
collide, following the cursor ends and brings every entry that is wanted in the
first page's window exactly once, newest first; or it stops at a timestamp that
more entries share than fit a page, or where the source's answer is too large,
and brings what is newer. -/
theorem pagination_lossless (order : NewestFirst ε) (query : Query) (start end' : Nat)
    (opened : readWindow query.before query.start none query.window (clock 0) =
      .ok (start, end')) :
    ∃ walk, follow source order clock query (stored.length + 1) = some walk ∧
      Newest.Descending Entry.sourceNanos walk.entries ∧
      (walk.stopped = none →
        walk.entries.Perm (wanted (source.selects query.logql) start end' stored)) ∧
      ∀ cause, walk.stopped = some cause →
        (cause = .unpageableTimestamp ∧
          ∃ nanos, pageSize < ((wanted (source.selects query.logql) start end' stored).filter
              (·.sourceNanos = nanos)).length ∧
            walk.entries.Perm ((wanted (source.selects query.logql) start end' stored).filter
              (nanos < ·.sourceNanos))) ∨
        cause = .responseTooLarge ∧ ∃ before ≤ end',
          (∃ call, (source.answer call query.logql start before fetchLimit).TooLarge) ∧
            walk.entries.Perm ((wanted (source.selects query.logql) start end' stored).filter
              (before < ·.sourceNanos)) := by
  suffices walks : ∃ walk, follow source order clock query (stored.length + 1) = some walk ∧
      Lossless (source.Overflows query.logql start) end'
        (wanted (source.selects query.logql) start end' stored) walk by
    obtain ⟨walk, walked, lossless⟩ := walks
    exact ⟨walk, walked, lossless.newestFirst, lossless.whole, lossless.stopped⟩
  obtain ⟨ordered, within⟩ := readWindow_within opened
  have leads := read_leads source order 0 (clock 0) opened
  rw [follow]
  generalize read format order (clock 0) (source.answer 0 query.logql) query = outcome at leads
  cases leads with
  | stops lossless => exact ⟨_, rfl, lossless⟩
  | ends lossless => exact ⟨_, rfl, lossless⟩
  | @goes _ boundary window shorter joins =>
    have few : (wanted (source.selects query.logql) start boundary stored).length ≤ stored.length :=
      (List.filter_sublist.trans List.filter_sublist).length_le
    obtain ⟨walk, walked, lossless⟩ := @older_lossless _ _ order _ source clock query start
      boundary (stored.length + 1) 1 window.1 (by omega) (by omega)
    exact ⟨_, congrArg (Option.map _) walked, joins walk lossless⟩

end

/-! ## Lines of a ledger -/

/-- A line that was read: its timestamp is the source's. -/
def Durable : Type := { line : AuditLine // line.Valid }

/-- The lines of a ledger, in responses that are read in some way. -/
def durable (response : List UInt8 → Option LokiResponse) : LineFormat Durable where
  line record := record.val.text
  read text := (readLine text).pmap Subtype.mk fun _ is => valid_of_readLine is
  reads record := by
    simp only [readLine_text record.property]
    rfl
  response := response

@[simp] theorem durable_response (response : List UInt8 → Option LokiResponse) :
    (durable response).response = response := rfl

/-- The line of a completion is no shorter than its outputs, escaped. -/
theorem outputs_le_line {entry : McpSsh.Entry} {what : Completed} {out err : String}
    {cut cut' : Bool} {bytes bytes' : UInt64} (completed : entry.event = .completed what)
    (stdout : what.stdout = .kept out cut bytes) (stderr : what.stderr = .kept err cut' bytes') :
    (Json.escape out.toList).length + (Json.escape err.toList).length ≤
      entry.line.toList.length := by
  have kept (text : String) (cut : Bool) (bytes : UInt64) :
      (Json.escape text.toList).length ≤ (Recorded.kept text cut bytes).toJson.text.length := by
    rw [Recorded.toJson, Json.length_text_obj]
    simp only [List.map_cons, List.sum_cons, Json.length_text_str]
    omega
  have first := kept out cut bytes
  have second := kept err cut' bytes'
  rw [Entry.line, String.toList_ofList, Entry.toJson, Json.length_text_obj, completed,
    Event.toJson]
  simp only [List.map_cons, List.sum_cons, Event.fields, List.cons_append, Json.length_text_obj,
    stdout, stderr]
  omega

/-! ## A source that keeps its entries in one stream -/

/-- A stable sort leaves equally old entries in the order they came in. -/
def NewestFirst.stable (ε : Type) : NewestFirst ε where
  sort lines := lines.mergeSort fun a b => b.sourceNanos ≤ a.sourceNanos
  perm lines := lines.mergeSort_perm _
  sorted lines := by
    refine (List.pairwise_mergeSort ?_ ?_ lines).imp fun ordered => of_decide_eq_true ordered
    · intro a b c newer older
      rw [decide_eq_true_eq] at newer older ⊢
      exact Nat.le_trans older newer
    · intro a b
      rw [Bool.or_eq_true, decide_eq_true_eq, decide_eq_true_eq]
      exact Nat.le_total _ _

/-- The newest of some entries. -/
def firstFew {ε : Type} (limit : Nat) (entries : List (Entry ε)) : List (Entry ε) :=
  ((NewestFirst.stable ε).sort entries).take limit

theorem firstFew_subset {ε : Type} (limit : Nat) (entries : List (Entry ε)) :
    firstFew limit entries ⊆ entries := by
  intro entry listed
  exact ((NewestFirst.stable ε).perm _).subset (List.mem_of_mem_take listed)

theorem firstFew_length {ε : Type} (limit : Nat) (entries : List (Entry ε)) :
    (firstFew limit entries).length = min limit entries.length := by
  rw [firstFew, List.length_take, ((NewestFirst.stable ε).perm _).length_eq]

/-- A source that answers with one stream, in one chunk. -/
def LogSource.oneStream {ε : Type} (format : LineFormat ε)
    (reads : format.response = LokiResponse.ofBody) (stored : List (Entry ε))
    (selects : String → Entry ε → Bool)
    (fits : ∀ entry ∈ stored, entry.sourceNanos < 2 ^ 64) : LogSource format stored where
  selects := selects
  answer _ logql start end' limit :=
    ⟨true, [(LokiResponse.ofStream
      ((firstFew limit (wanted (selects logql) start end' stored)).map format.render)).body], true⟩
  fits := fits
  newest _ logql start end' limit := by
    refine ⟨firstFew limit (wanted (selects logql) start end' stored),
      ⟨rfl, rfl, LokiResponse.ofStream _, ?_, rfl, rfl, List.append_nil _⟩, ?_⟩
    · rw [List.flatten_singleton, reads, LokiResponse.ofBody_body]
    · exact ((NewestFirst.stable ε).sorted _).of_take ((NewestFirst.stable ε).perm _) limit

section

variable {ε : Type} {format : LineFormat ε} {reads : format.response = LokiResponse.ofBody}
  {stored : List (Entry ε)} {selects : String → Entry ε → Bool}
  {fits : ∀ entry ∈ stored, entry.sourceNanos < 2 ^ 64} {size limit : Nat}

theorem mem_firstFew_wanted {select : Entry ε → Bool} {start end' : Nat} {entry : Entry ε}
    (listed : entry ∈ firstFew limit (wanted select start end' stored)) : entry ∈ stored :=
  List.mem_of_mem_filter (List.mem_of_mem_filter (firstFew_subset _ _ listed))

/-- An answer is too large once the lines in it, escaped, come to too much. -/
theorem LogSource.oneStream_large {logql : String} {start end' : Nat}
    (long : ∀ entry ∈ stored, size ≤ (Json.escape (format.line entry.record).toList).length)
    (many : responseBytes < min limit (wanted (selects logql) start end' stored).length * size)
    (call : Nat) :
    ((oneStream format reads stored selects fits).answer call logql start end' limit).TooLarge := by
  let values := (firstFew limit (wanted (selects logql) start end' stored)).map format.render
  have each : ∀ length ∈ values.map fun value => (Json.escape value.2.toList).length,
      size ≤ length := by
    intro length listed
    obtain ⟨value, written, rfl⟩ := List.mem_map.mp listed
    obtain ⟨entry, among, rfl⟩ := List.mem_map.mp written
    exact long entry (mem_firstFew_wanted among)
  have total := List.card_nsmul_le_sum _ size each
  rw [List.length_map, List.length_map, firstFew_length] at total
  unfold Response.TooLarge oneStream
  rw [List.flatten_singleton]
  exact many.trans_le (total.trans (LokiResponse.lines_le_body values))

/-- While all lines it keeps are short, none of its answers is too large. -/
theorem LogSource.oneStream_small
    (short : ∀ entry ∈ stored, (format.render entry).1.length + (format.render entry).2.length ≤ size)
    (few : 4 * (limit * (6 * size + 8) + 100) ≤ responseBytes)
    (call : Nat) (logql : String) (start end' : Nat) :
    ¬ ((oneStream format reads stored selects fits).answer call logql start end' limit).TooLarge := by
  let values := (firstFew limit (wanted (selects logql) start end' stored)).map format.render
  have each : ∀ value ∈ values, value.1.length + value.2.length ≤ size := by
    intro value listed
    obtain ⟨entry, among, rfl⟩ := List.mem_map.mp listed
    exact short entry (mem_firstFew_wanted among)
  have small := LokiResponse.body_le each
  have count : values.length ≤ limit := by
    rw [List.length_map, firstFew_length]
    exact Nat.min_le_left _ _
  have rows := Nat.mul_le_mul_right (6 * size + 8) count
  unfold Response.TooLarge oneStream
  rw [List.flatten_singleton, Nat.not_lt]
  exact small.trans (by omega)

end

namespace Sample

/-- Lines as they are. -/
def format : LineFormat String := ⟨id, some, fun _ => rfl, LokiResponse.ofBody⟩

/-- Entries that share each timestamp by twos, on two pages. -/
def stored : List (Entry String) := (List.range 22).map fun index => ⟨index / 2, "entry"⟩

def source : LogSource format stored :=
  .oneStream format rfl stored (fun _ _ => true) (by decide)

theorem pagination_lossless_sample :
    ∃ walk, follow source (.stable String) (fun _ => .ok 30) ⟨none, none, .hour, ""⟩ 23 =
        some walk ∧
      walk.stopped = none ∧ walk.entries.Perm stored := by
  obtain ⟨walk, walked, -, whole, crowded⟩ := pagination_lossless source (fun _ => .ok 30)
    (.stable String) ⟨none, none, .hour, ""⟩ 0 30 rfl
  have all : wanted (source.selects "") 0 30 stored = stored := by decide
  have spread : ∀ nanos ∈ stored.map Entry.sourceNanos,
      (stored.filter (·.sourceNanos = nanos)).length ≤ pageSize := by decide
  have short : ∀ entry ∈ stored,
      (format.render entry).1.length + (format.render entry).2.length ≤ 7 := by decide
  rw [all] at whole crowded
  have ended : walk.stopped = none := by
    cases stopped : walk.stopped with
    | none => rfl
    | some cause =>
      rcases crowded cause stopped with ⟨-, nanos, many, -⟩ | ⟨-, before, -, ⟨call, large⟩, -⟩
      · obtain ⟨entry, listed⟩ := List.exists_mem_of_length_pos (Nat.zero_lt_of_lt many)
        obtain ⟨listed, same⟩ := List.mem_filter.mp listed
        have few := spread nanos (of_decide_eq_true same ▸ List.mem_map_of_mem listed)
        exact absurd many (Nat.not_lt.mpr few)
      · exact absurd large (LogSource.oneStream_small short (by decide) call "" 0 before)
  exact ⟨walk, walked, ended, whole ended⟩

/-- So many control characters. -/
def noise (count : Nat) : String := String.ofList (List.replicate count (Char.ofNat 1))

theorem length_noise (count : Nat) : (Json.escape (noise count).toList).length = count * 6 := by
  rw [noise, String.toList_ofList, Json.length_escape_replicate]
  congr 1

/-- A command that wrote nothing else, as much to each of its outputs as is kept. -/
def loud (sequence : Nat) : McpSsh.Entry where
  sequence := sequence
  atMillis := sequence
  who := default
  event := .completed {
    run := default
    decided := 0
    state := RunState.debug (.exited 0)
    stdout := .kept (noise (2 ^ 20)) false 1048576
    stderr := .kept (noise (2 ^ 20)) false 1048576
    file := none
    info := none }
  previous := ⟨List.replicate 32 0⟩
  digest := ⟨List.replicate 32 0⟩

theorem loud_bounded {sequence : Nat} (small : sequence < 2 ^ 64) : (loud sequence).Bounded where
  sequence := small
  atMillis := small
  session := by
    change 0 < 16 ^ 32
    decide
  event := ⟨by decide, by decide, by decide, trivial, trivial, nofun, nofun⟩
  previous := List.length_replicate
  digest := List.length_replicate

/-- Five such commands, one after another. -/
def crowd : List (Entry Durable) :=
  (List.finRange 5).map fun nth : Fin 5 =>
    ⟨nth, ⟨.of (loud nth), .of (loud_bounded (nth.isLt.trans (by decide)))⟩⟩

theorem crowd_fits : ∀ entry ∈ crowd, entry.sourceNanos < 2 ^ 64 := by
  intro entry listed
  obtain ⟨nth, -, rfl⟩ := List.mem_map.mp listed
  exact nth.isLt.trans (by decide)

def noisy : LogSource (durable LokiResponse.ofBody) crowd :=
  .oneStream (durable LokiResponse.ofBody) (durable_response _) crowd (fun _ _ => true) crowd_fits

/-- Reading five entries of different timestamps stops: each is what a ledger
writes of a command whose outputs fit, and all would fit a page. -/
theorem pages_overflow :
    (∀ entry ∈ crowd, ∃ own : McpSsh.Entry, own.Bounded ∧ entry.record.val = .of own) ∧
    (crowd.map Entry.sourceNanos).Nodup ∧ crowd.length ≤ pageSize ∧
    wanted (noisy.selects "") 0 30 crowd = crowd ∧
    follow noisy (.stable Durable) (fun _ => .ok 30) ⟨none, none, .hour, ""⟩ (crowd.length + 1) =
      some ⟨[], some .responseTooLarge⟩ := by
  have few : crowd.length = 5 := by rw [crowd, List.length_map, List.length_finRange]
  have times : crowd.map Entry.sourceNanos = [0, 1, 2, 3, 4] := by
    rw [crowd, List.map_map]
    rfl
  have all : wanted (noisy.selects "") 0 30 crowd = crowd := by
    unfold wanted
    rw [List.filter_filter, List.filter_eq_self]
    intro entry listed
    have time := List.mem_map_of_mem (f := Entry.sourceNanos) listed
    rw [times] at time
    have early : ∀ nanos ∈ [0, 1, 2, 3, 4], 0 ≤ nanos ∧ nanos ≤ 30 := by decide
    rw [decide_eq_true (early _ time)]
    rfl
  have long : ∀ entry ∈ crowd, 12 * 2 ^ 20 ≤
      (Json.escape ((durable LokiResponse.ofBody).line entry.record).toList).length := by
    intro entry listed
    obtain ⟨nth, -, rfl⟩ := List.mem_map.mp listed
    have line := @outputs_le_line (loud nth) _ (noise (2 ^ 20)) (noise (2 ^ 20)) _ _ _ _ rfl rfl rfl
    rw [length_noise] at line
    have escaped := Json.length_le_escape (loud nth).line.toList
    change _ ≤ (Json.escape (loud nth).line.toList).length
    omega
  have large : (noisy.answer 0 "" 0 30 fetchLimit).TooLarge :=
    LogSource.oneStream_large long (by
      change responseBytes < min fetchLimit (wanted (noisy.selects "") 0 30 crowd).length * _
      rw [all, few]
      decide) 0
  refine ⟨?_, ?_, ?_, all, ?_⟩
  · intro entry listed
    obtain ⟨nth, -, rfl⟩ := List.mem_map.mp listed
    exact ⟨loud nth, loud_bounded (nth.isLt.trans (by decide)), rfl⟩
  · rw [times]
    decide
  · rw [few]
    decide
  · have opened : readWindow none none none .hour (.ok 30) = .ok (0, 30) := rfl
    rcases @read_cut _ _ (.stable Durable) _ noisy 0 (.ok 30) ⟨none, none, .hour, ""⟩ 0 30 opened with
      ⟨-, went⟩ | ⟨small, -⟩
    · rw [follow, went]
    · exact absurd large small

end Sample

end McpSsh.AuditHistory
