import McpSsh.Audit.Budget
import McpSsh.Lib.Newest

/-!
# Session activity

`Ledger::session_activity`: a page of a session's decisions, newest first, with
what was answered, approved, done and made of each. The cursor is the sequence
of a page's last decision.
-/

namespace McpSsh

/-- Whether an entry is a decision. -/
def Entry.isDecided (entry : Entry) : Bool :=
  match entry.event with
  | .decided _ => true
  | _ => false

namespace Ledger

/-- Whether an entry is selected for a page: it is one of the page's decisions,
or it refers to one. -/
def selects (sequences : List Nat) (digests : List Digest) (approvals : List Nat)
    (entry : Entry) : Bool :=
  entry.sequence ∈ sequences ||
    match entry.event with
    | .answered what => what.decided ∈ sequences
    | .approved what => what.decided ∈ sequences
    | .completed what => what.decided ∈ sequences || what.decided ∈ approvals
    | .evaluated what => what.artifact.decisionDigest ∈ digests
    | _ => false

/-- Whether an entry approves one of some decisions. -/
def approves (sequences : List Nat) (entry : Entry) : Bool :=
  match entry.event with
  | .approved what => what.decided ∈ sequences
  | _ => false

/-- An entry of a session, while it can be read. -/
def Held.readableOf (session : SessionId) : Held → Option Entry
  | .intact entry => if entry.who.session = session then some entry else none
  | .sealed .. => none

namespace State

/-- What can be read of a session, newest first. -/
def readableOf (state : State) (session : SessionId) : List Entry :=
  state.entries.reverse.filterMap (Held.readableOf session)

/-- `Ledger::session_activity`. A window never holds as many entries as a
`usize` can count, so one more than a page is never too many to ask for. -/
def sessionActivity (state : State) (session : SessionId) (before : Option Nat) (limit : Nat) :
    List Entry × Option Nat :=
  let entries := state.readableOf session
  let found := (entries.filter fun entry =>
    entry.isDecided && before.all (entry.sequence < ·)).take (limit + 1)
  let more := limit < found.length
  let decisions := found.take limit
  let next := if more then decisions.getLast?.map (·.sequence) else none
  let sequences := decisions.map (·.sequence)
  let digests := decisions.map (·.digest)
  let approvals := (entries.filter (approves sequences)).map (·.sequence)
  (entries.filter (selects sequences digests approvals), next)

/-- Some number of pages that start where a cursor is; `none` if there are
more. -/
def activityPages (state : State) (session : SessionId) (limit : Nat) :
    (pages : Nat) → (before : Option Nat) → Option (List (List Entry))
  | 0, _ => none
  | pages + 1, before =>
    match state.sessionActivity session before limit with
    | (page, none) => some [page]
    | (page, some before) => (state.activityPages session limit pages (some before)).map (page :: ·)

end State

/-! ## What belongs to a decision -/

/-- An entry answers, approves or evaluates a decision, or completes it: the
decision itself, or an approval of it that can be read. -/
inductive Relates (readable : List Entry) (decision : Entry) : Entry → Prop
  | answered {entry what} (event : entry.event = .answered what)
      (names : what.decided = decision.sequence) : Relates readable decision entry
  | approved {entry what} (event : entry.event = .approved what)
      (names : what.decided = decision.sequence) : Relates readable decision entry
  | completed {entry what} (event : entry.event = .completed what)
      (names : what.decided = decision.sequence) : Relates readable decision entry
  | completedApproved {entry what approval granted} (event : entry.event = .completed what)
      (listed : approval ∈ readable) (approves : approval.event = .approved granted)
      (names : granted.decided = decision.sequence) (rests : what.decided = approval.sequence) :
      Relates readable decision entry
  | evaluated {entry what} (event : entry.event = .evaluated what)
      (names : what.artifact.decisionDigest = decision.digest) : Relates readable decision entry

section

variable {readable decisions : List Entry} {entry : Entry}

theorem mem_approvals {sequence : Nat} {sequences : List Nat} :
    sequence ∈ (readable.filter (approves sequences)).map (·.sequence) ↔
      ∃ approval ∈ readable, ∃ granted, approval.event = .approved granted ∧
        granted.decided ∈ sequences ∧ approval.sequence = sequence := by
  rw [List.mem_map]
  constructor
  · rintro ⟨approval, listed, same⟩
    obtain ⟨listed, approves'⟩ := List.mem_filter.mp listed
    unfold approves at approves'
    split at approves'
    case h_1 granted event =>
      exact ⟨approval, listed, granted, event, of_decide_eq_true approves', same⟩
    case h_2 => exact nomatch approves'
  · rintro ⟨approval, listed, granted, event, names, same⟩
    refine ⟨approval, List.mem_filter.mpr ⟨listed, ?_⟩, same⟩
    unfold approves
    rw [event]
    exact decide_eq_true names

/-- What is selected is the decisions and what relates to them. -/
theorem selects_iff :
    selects (decisions.map (·.sequence)) (decisions.map (·.digest))
        ((readable.filter (approves (decisions.map (·.sequence)))).map (·.sequence)) entry = true ↔
      entry.sequence ∈ decisions.map (·.sequence) ∨
        ∃ decision ∈ decisions, Relates readable decision entry := by
  unfold selects
  rw [Bool.or_eq_true, decide_eq_true_eq]
  refine or_congr_right ?_
  constructor
  · intro refers
    split at refers
    case h_1 what event =>
      obtain ⟨decision, listed, names⟩ := List.mem_map.mp (of_decide_eq_true refers)
      exact ⟨decision, listed, .answered event names.symm⟩
    case h_2 what event =>
      obtain ⟨decision, listed, names⟩ := List.mem_map.mp (of_decide_eq_true refers)
      exact ⟨decision, listed, .approved event names.symm⟩
    case h_3 what event =>
      rw [Bool.or_eq_true, decide_eq_true_eq, decide_eq_true_eq, mem_approvals] at refers
      rcases refers with direct | ⟨approval, held, granted, approves, names, rests⟩
      · obtain ⟨decision, listed, names⟩ := List.mem_map.mp direct
        exact ⟨decision, listed, .completed event names.symm⟩
      · obtain ⟨decision, listed, names⟩ := List.mem_map.mp names
        exact ⟨decision, listed, .completedApproved event held approves names.symm rests.symm⟩
    case h_4 what event =>
      obtain ⟨decision, listed, names⟩ := List.mem_map.mp (of_decide_eq_true refers)
      exact ⟨decision, listed, .evaluated event names.symm⟩
    case h_5 => exact nomatch refers
  · rintro ⟨decision, listed, relates⟩
    have sequences : decision.sequence ∈ decisions.map (·.sequence) := List.mem_map_of_mem listed
    cases relates with
    | answered event names =>
      rw [event]
      exact decide_eq_true (names ▸ sequences)
    | approved event names =>
      rw [event]
      exact decide_eq_true (names ▸ sequences)
    | completed event names =>
      rw [event]
      exact Bool.or_eq_true_iff.mpr (.inl (decide_eq_true (names ▸ sequences)))
    | completedApproved event held approves names rests =>
      rw [event]
      refine Bool.or_eq_true_iff.mpr (.inr (decide_eq_true (mem_approvals.mpr ?_)))
      exact ⟨_, held, _, approves, names ▸ sequences, rests.symm⟩
    | evaluated event names =>
      rw [event]
      exact decide_eq_true (names ▸ List.mem_map_of_mem listed)

end

/-! ## Pages -/

variable {format : Format} {genesis : Digest} {limits : Limits} {committed : List Entry}
variable {state : State} {session : SessionId} {record : Record}

theorem Held.readableOf_eq_some {held : Held} {entry : Entry} :
    held.readableOf session = some entry ↔ held = .intact entry ∧ entry.who.session = session := by
  cases held with
  | intact held =>
    rw [Held.readableOf]
    split
    case isTrue same =>
      rw [Option.some_inj, Held.intact.injEq]
      exact ⟨fun found => ⟨found, found ▸ same⟩, And.left⟩
    case isFalse other =>
      refine ⟨nofun, ?_⟩
      rintro ⟨found, same⟩
      cases found
      exact absurd same other
  | «sealed» => exact ⟨nofun, nofun⟩

namespace State

theorem mem_readableOf {entry : Entry} :
    entry ∈ state.readableOf session ↔ .intact entry ∈ state.entries ∧ entry.who.session = session := by
  unfold readableOf
  rw [List.mem_filterMap]
  constructor
  · rintro ⟨held, listed, found⟩
    obtain ⟨rfl, same⟩ := Held.readableOf_eq_some.mp found
    exact ⟨List.mem_reverse.mp listed, same⟩
  · rintro ⟨listed, same⟩
    exact ⟨_, List.mem_reverse.mpr listed, if_pos same⟩

/-- A session's decisions that can be read, newest first. -/
def decisionsOf (state : State) (session : SessionId) (before : Option Nat) : List Entry :=
  (state.readableOf session).filter fun entry =>
    entry.isDecided && before.all (entry.sequence < ·)

end State

/-- A sequence is that of an entry's place, so no two are of one. -/
theorem Represents.readable_strictly (rep : Represents format genesis committed state)
    (session : SessionId) : Newest.Strictly Entry.sequence (state.readableOf session) := by
  have places : ∀ index held, state.entries[index]? = some held →
      held.sequence = state.issued.retired + index := by
    intro index held found
    obtain ⟨entry, at', shows⟩ := rep.shows index held found
    rw [shows.sequence]
    exact (rep.chained _ _ at').1
  have ordered : state.entries.Pairwise fun older newer => older.sequence < newer.sequence := by
    rw [List.pairwise_iff_getElem]
    intro i j early late before
    have first := places i _ (List.getElem?_eq_getElem early)
    have second := places j _ (List.getElem?_eq_getElem late)
    omega
  unfold State.readableOf
  refine List.Pairwise.filterMap _ ?_ (List.pairwise_reverse.mpr ordered)
  intro newer older below entry found entry' found'
  obtain ⟨rfl, -⟩ := Held.readableOf_eq_some.mp found
  obtain ⟨rfl, -⟩ := Held.readableOf_eq_some.mp found'
  exact below

/-- What is left of the decisions before a cursor when it moves to one of them. -/
theorem State.decisionsOf_cursor {before : Option Nat} {entry : Entry}
    (listed : entry ∈ state.decisionsOf session before) :
    state.decisionsOf session (some entry.sequence) =
      (state.decisionsOf session before).filter (·.sequence < entry.sequence) := by
  unfold State.decisionsOf at listed ⊢
  obtain ⟨-, -, earlier⟩ : _ ∧ entry.isDecided = true ∧
      before.all (entry.sequence < ·) = true := by
    simpa [List.mem_filter] using listed
  rw [List.filter_filter]
  apply List.filter_congr
  intro other _
  rw [Option.all_some]
  cases before with
  | none => rw [Option.all_none, Bool.and_true, Bool.and_comm]
  | some before =>
    rw [Option.all_some, decide_eq_true_eq] at earlier
    rw [Option.all_some]
    by_cases older : other.sequence < entry.sequence
    · rw [decide_eq_true older, decide_eq_true (Nat.lt_trans older earlier), Bool.and_true,
        Bool.true_and]
    · rw [decide_eq_false older, Bool.and_false, Bool.false_and]

/-- The cursor of a page, where there are more decisions than fit. -/
theorem State.next_eq {before : Option Nat} {limit : Nat} (positive : 0 < limit) :
    (state.sessionActivity session before limit).2 =
      if limit < (state.decisionsOf session before).length then
        (state.decisionsOf session before)[limit - 1]?.map Entry.sequence
      else none := by
  unfold State.sessionActivity
  change (if limit < ((state.decisionsOf session before).take (limit + 1)).length then
    (((state.decisionsOf session before).take (limit + 1)).take limit).getLast?.map Entry.sequence
    else none) = _
  generalize state.decisionsOf session before = decisions
  rw [List.take_take, Nat.min_eq_left (Nat.le_succ _), List.length_take]
  by_cases many : limit < decisions.length
  · rw [if_pos (by omega), if_pos many, List.getLast?_eq_getElem?, List.length_take,
      Nat.min_eq_left (Nat.le_of_lt many), List.getElem?_take, if_pos (by omega)]
  · rw [if_neg (by omega), if_neg many]

/-- After a page come the decisions that were left, if there is a cursor; if
there is none, they were all on it. -/
theorem State.next_cases {before : Option Nat} {limit : Nat} (positive : 0 < limit)
    (strict : Newest.Strictly Entry.sequence (state.readableOf session)) :
    (state.sessionActivity session before limit).2 = none ∧
        (state.decisionsOf session before).drop limit = [] ∨
      ∃ cursor, (state.sessionActivity session before limit).2 = some cursor ∧
        state.decisionsOf session (some cursor) = (state.decisionsOf session before).drop limit ∧
        limit < (state.decisionsOf session before).length := by
  rw [State.next_eq positive]
  by_cases many : limit < (state.decisionsOf session before).length
  · obtain ⟨last, found⟩ : ∃ last, (state.decisionsOf session before)[limit - 1]? = some last :=
      ⟨_, List.getElem?_eq_getElem (by omega)⟩
    have strict' : Newest.Strictly Entry.sequence (state.decisionsOf session before) :=
      strict.sublist List.filter_sublist
    refine .inr ⟨last.sequence, ?_, ?_, many⟩
    · rw [if_pos many, found]
      rfl
    · rw [State.decisionsOf_cursor (List.mem_of_getElem? found), strict'.filter_lt found,
        Nat.sub_add_cancel positive]
  · rw [if_neg many]
    exact .inl ⟨rfl, List.drop_eq_nil_of_le (Nat.le_of_not_lt many)⟩

/-- A page is what is selected for its decisions. -/
theorem State.page_eq {before : Option Nat} {limit : Nat} :
    (state.sessionActivity session before limit).1 =
      let decisions := (state.decisionsOf session before).take limit
      (state.readableOf session).filter (selects (decisions.map (·.sequence))
        (decisions.map (·.digest)) (((state.readableOf session).filter
          (approves (decisions.map (·.sequence)))).map (·.sequence))) := by
  have taken : ((state.decisionsOf session before).take (limit + 1)).take limit =
      (state.decisionsOf session before).take limit := by
    rw [List.take_take, Nat.min_eq_left (Nat.le_succ _)]
  dsimp only
  rw [← taken]
  rfl

/-- A page holds its decisions and what relates to them. -/
theorem State.mem_page {before : Option Nat} {limit : Nat} {entry : Entry} :
    entry ∈ (state.sessionActivity session before limit).1 ↔
      entry ∈ state.readableOf session ∧
        (entry.sequence ∈ ((state.decisionsOf session before).take limit).map (·.sequence) ∨
          ∃ decision ∈ (state.decisionsOf session before).take limit,
            Relates (state.readableOf session) decision entry) := by
  rw [State.page_eq, List.mem_filter]
  exact and_congr_right fun _ => selects_iff

/-- Nothing else on a page is a decision. -/
theorem State.page_decisions {before : Option Nat} {limit : Nat}
    (strict : Newest.Strictly Entry.sequence (state.readableOf session)) :
    (state.sessionActivity session before limit).1.filter Entry.isDecided =
      (state.decisionsOf session before).take limit := by
  have strict' : Newest.Strictly Entry.sequence
      ((state.readableOf session).filter Entry.isDecided) := strict.sublist List.filter_sublist
  have part : ((state.decisionsOf session before).take limit).Sublist
      ((state.readableOf session).filter Entry.isDecided) := by
    refine (List.take_sublist _ _).trans ?_
    unfold State.decisionsOf
    rw [← List.filter_filter]
    exact List.filter_sublist.filter _
  rw [← strict'.filter_mem part, State.page_eq, List.filter_comm]
  apply List.filter_congr
  intro entry listed
  have decided := (List.mem_filter.mp listed).2
  unfold Entry.isDecided at decided
  unfold selects
  cases event : entry.event with
  | decided what => exact Bool.or_false _
  | _ =>
    rw [event] at decided
    exact nomatch decided

/-- With a page for each decision that is left and one more, the pages end. -/
theorem State.activityPages_cut {limit : Nat} (positive : 0 < limit)
    (strict : Newest.Strictly Entry.sequence (state.readableOf session)) (pages : Nat)
    (before : Option Nat) (enough : (state.decisionsOf session before).length < pages) :
    ∃ walk, state.activityPages session limit pages before = some walk ∧
      (walk.map (·.filter Entry.isDecided)).flatten = state.decisionsOf session before ∧
      ∀ page ∈ walk, ∃ cursor, page = (state.sessionActivity session cursor limit).1 := by
  induction pages generalizing before with
  | zero => omega
  | succ pages ih =>
    have here := @State.page_decisions _ _ before limit strict
    have cuts := @State.next_cases _ _ before limit positive strict
    have whole := List.take_append_drop limit (state.decisionsOf session before)
    rw [State.activityPages]
    generalize same : state.sessionActivity session before limit = activity at here cuts
    obtain ⟨page, next⟩ := activity
    have from' : page = (state.sessionActivity session before limit).1 := by rw [same]
    rcases cuts with ⟨rfl, none⟩ | ⟨cursor, rfl, left, many⟩
    · rw [none, List.append_nil] at whole
      refine ⟨[page], rfl, ?_, ?_⟩
      · rw [List.map_singleton, List.flatten_singleton, here, whole]
      · intro other listed
        exact ⟨before, (List.mem_singleton.mp listed).trans from'⟩
    · have length := congrArg List.length left
      rw [List.length_drop] at length
      obtain ⟨walk, walked, decisions, pages'⟩ := ih (some cursor) (by omega)
      refine ⟨page :: walk, congrArg (Option.map _) walked, ?_, ?_⟩
      · rw [List.map_cons, List.flatten_cons, here, decisions, left, whole]
      · intro other listed
        rcases List.mem_cons.mp listed with rfl | listed
        · exact ⟨before, from'⟩
        · exact pages' other listed

/-- **Session activity.** Following the cursor of a ledger that is left as it is
ends. Its pages' decisions are the session's decisions that can be read, each
once and newest first; and a page holds its decisions and what can be read of
the session that relates to one of them, and nothing else. -/
theorem Record.Reachable.activity (reached : Record.Reachable format limits genesis record)
    (session : SessionId) (limit : Nat) (positive : 1 ≤ limit) :
    ∃ pages,
      record.state.activityPages session limit (record.state.entries.length + 1) none =
        some pages ∧
      (pages.map (·.filter Entry.isDecided)).flatten =
        (record.state.readableOf session).filter Entry.isDecided ∧
      (record.state.readableOf session).Pairwise
        (fun newer older => older.sequence < newer.sequence) ∧
      (∀ entry, entry ∈ record.state.readableOf session ↔
        .intact entry ∈ record.state.entries ∧ entry.who.session = session) ∧
      ∀ page ∈ pages,
        page.Sublist (record.state.readableOf session) ∧
        (page.filter Entry.isDecided).length ≤ limit ∧
        ∀ entry ∈ record.state.readableOf session, entry ∈ page ↔
          entry ∈ page.filter Entry.isDecided ∨
            ∃ decision ∈ page.filter Entry.isDecided,
              Relates (record.state.readableOf session) decision entry := by
  have strict := reached.represents.readable_strictly session
  have all : record.state.decisionsOf session none =
      (record.state.readableOf session).filter Entry.isDecided := by
    apply List.filter_congr
    intro entry _
    rw [Option.all_none, Bool.and_true]
  have enough : (record.state.decisionsOf session none).length < record.state.entries.length + 1 := by
    have listed := (List.length_filter_le Entry.isDecided (record.state.readableOf session))
    have read := List.length_filterMap_le (Held.readableOf session) record.state.entries.reverse
    rw [List.length_reverse] at read
    rw [all]
    exact Nat.lt_succ_of_le (listed.trans read)
  obtain ⟨pages, walked, decisions, each⟩ :=
    State.activityPages_cut positive strict _ none enough
  refine ⟨pages, walked, decisions.trans all, strict, fun entry => State.mem_readableOf, ?_⟩
  intro page listed
  obtain ⟨cursor, rfl⟩ := each page listed
  have own := @State.page_decisions _ _ cursor limit strict
  refine ⟨?_, ?_, ?_⟩
  · rw [State.page_eq]
    exact List.filter_sublist
  · rw [own]
    exact List.length_take_le _ _
  · intro entry readable
    rw [own, State.mem_page, and_iff_right readable]
    refine or_congr_left ?_
    constructor
    · intro named
      obtain ⟨decision, listed, same⟩ := List.mem_map.mp named
      have held := List.mem_of_mem_filter (List.mem_of_mem_take listed)
      exact strict.inj held readable same ▸ listed
    · exact List.mem_map_of_mem

namespace Sample

/-- A window of four entries. -/
def roomy : Limits := { Sample.limits with entries := 4 }

/-- A command that was done, and the decision on another. -/
def twice : Record :=
  (((Record.new ⟨[]⟩).perform Sample.format roomy (.recordIntent permitted default) 0 true).perform
    Sample.format roomy (.recordOutcome outcome) 1 true).perform Sample.format roomy
      (.recordIntent permitted default) 2 true

theorem twice_reachable : Record.Reachable Sample.format roomy ⟨[]⟩ twice :=
  .tail (.tail (.single ⟨.recordIntent permitted default, 0, true, trivial, rfl⟩)
    ⟨.recordOutcome outcome, 1, true, .inr ⟨rfl, by decide, by decide⟩, rfl⟩)
    ⟨.recordIntent permitted default, 2, true, trivial, rfl⟩

/-- One decision on a page: the newer comes first, and the older with what it
came to. -/
theorem activity_sample :
    ∃ pages, twice.state.activityPages default 1 4 none = some pages ∧
      pages.map (·.map Entry.sequence) = [[2], [1, 0]] ∧
      (pages.map (·.filter Entry.isDecided)).flatten =
        (twice.state.readableOf default).filter Entry.isDecided := by
  have read : (twice.state.activityPages default 1 4 none).map (·.map (·.map Entry.sequence)) =
      some [[2], [1, 0]] := by decide +kernel
  obtain ⟨pages, walked, decisions, -⟩ :=
    Record.Reachable.activity twice_reachable default 1 (Nat.le_refl 1)
  have three : twice.state.entries.length = 3 := by decide +kernel
  rw [three] at walked
  rw [walked] at read
  exact ⟨pages, walked, Option.some.inj read, decisions⟩

end Sample

end Ledger

end McpSsh
