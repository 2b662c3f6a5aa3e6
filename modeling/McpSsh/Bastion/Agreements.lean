import McpSsh.Bastion.Authority

/-!
# Where standing agreements come from

A standing agreement answers in the name of the person who gave it, for the
session it was given in. Behind every answer it gives there is a direct answer
of that person, in the record before the agreement was granted.
-/

namespace McpSsh.Bastion

open History Interleaving
open Approvals (StandingApproval)

variable {deployment : Deployment} {journal past : Journal} {tid : Nat}

/-- Who answered, of an entry that says so. -/
def Event.stated : Event → Option Stated
  | .answered what => some what.stated
  | .approved what => some what.stated
  | _ => none

/-- The request an entry is about. -/
def Event.request : Event → Option RequestId
  | .answered what => some what.request
  | .approved what => some what.request
  | _ => none

/-- A person's own agreement, given in a session. -/
def Entry.AgreesDirectly (entry : Entry) (session : SessionId) (who : String) : Prop :=
  entry.who.session = session ∧ ∃ what, entry.event = .answered what ∧ what.agreed = true ∧
    what.stated = (Approver.human who).stated

/-- A selection of a standing agreement: in time, while it stood, and after it
was granted on a person's own answer and within its bounds. -/
structure Selection (deployment : Deployment) (past : Journal) (agreement : StandingApproval)
    (reading : Nat) (direct : Entry) (granted : Granted) : Prop where
  early : reading < agreement.until_
  stands : Note.withdrew agreement.id ∉ past
  grant : granted.agreement = agreement
  origin : ∃ before tid, before ++ [.granted tid granted] <+: past ∧ Note.committed direct ∈ before
  direct : Entry.AgreesDirectly direct agreement.session agreement.who
  cap : agreement.until_ ≤ satAdd granted.grantedAt deployment.standingCap
  live : ∀ session, granted.live = some session → session.id = agreement.session ∧
    past.Opened session ∧ session.lifetime = deployment.lifetime ∧
    agreement.until_ ≤ satAdd session.openedAt deployment.lifetime.max

/-- Sessions are opened with the lifetime of the deployment. -/
theorem HistoryOk.opened_lifetime (history : HistoryOk deployment journal) {session : Session}
    (opened : journal.Opened session) : session.lifetime = deployment.lifetime := by
  obtain ⟨opener, lastUsed, member⟩ := opened
  obtain ⟨before, -, lifetime, -⟩ := history.of_mem member
  exact lifetime

theorem HistoryOk.selection (history : HistoryOk deployment journal) {agreement : StandingApproval}
    {reading : Nat} (stands : past ++ [.selected tid agreement reading] <+: journal) :
    ∃ direct granted, Selection deployment past agreement reading direct granted := by
  have earlier := history.of_prefix (HistoryOk.prefix_of_append stands)
  obtain ⟨early, unwithdrawn, granter, grantedAt, live, granted⟩ := history.warranted.of_stands stands
  obtain ⟨before, origin, ⟨answer, redeemBy, agreed, by_, about⟩, cap, bounds⟩ :=
    earlier.of_mem granted
  have grows := HistoryOk.prefix_of_append origin
  obtain ⟨yes, -, direct, committed, event, who⟩ := agreed
  refine ⟨direct, _, early, unwithdrawn, rfl, ⟨before, granter, origin, committed⟩,
    ⟨?_, _, event, yes, ?_⟩, cap, ?_⟩
  · rw [who]
    exact about
  · rw [by_]
  · intro session lives
    obtain ⟨same, opened, bound⟩ := bounds session lives
    have lifetime := earlier.opened_lifetime (opened.grow grows)
    exact ⟨same, opened.grow grows, lifetime, lifetime ▸ bound⟩

/-- An answer a standing agreement gave. -/
theorem HistoryOk.answered_standing (history : HistoryOk deployment journal) {answer : Answer}
    {redeemBy : Nat} {who : String} {id : AgreementId}
    (answered : Note.answered tid answer redeemBy ∈ journal)
    (by_ : answer.approver = .sessionStanding who id) :
    ∃ past agreement reading, past ++ [.selected tid agreement reading] <+: journal ∧
      agreement.id = id ∧ agreement.who = who ∧ agreement.session = answer.asked.session := by
  obtain ⟨before, stands, -, -, -, selects⟩ := history.of_mem answered
  obtain ⟨-, agreement, reading, selected, as, about⟩ := selects id (by rw [by_]; rfl)
  rw [by_, StandingApproval.approver] at as
  cases as
  obtain ⟨past, stands', -⟩ := history.of_mem ((HistoryOk.prefix_of_append stands).subset selected)
  exact ⟨past, agreement, reading, stands', rfl, rfl, about⟩

/-- The answer an entry is, or collects. -/
theorem HistoryOk.stated_answer (history : HistoryOk deployment journal) {entry : Entry}
    {stated : Stated} (stands : past ++ [.committed entry] <+: journal)
    (states : Event.stated entry.event = some stated) :
    ∃ tid answer redeemBy, Note.answered tid answer redeemBy ∈ past ∧
      answer.approver.stated = stated ∧ answer.asked.session = entry.who.session ∧
      Event.request entry.event = some answer.asked.id := by
  have rests := history.warranted.of_stands stands
  cases event : entry.event with
  | answered what =>
    rw [Warrant, event] at rests
    obtain ⟨tid, answer, redeemBy, answered, same, who⟩ := rests
    rw [event, same] at states
    exact ⟨tid, answer, redeemBy, answered, Option.some.inj states, by rw [who]; rfl,
      by rw [same]; rfl⟩
  | approved what =>
    rw [Warrant, event] at rests
    obtain ⟨tid, intended, grant, grants, same, who⟩ := rests
    rw [event, same] at states
    obtain ⟨-, -, answer, redeemBy, -, agreed, id, -, session, -, by_⟩ := grants.request
    obtain ⟨answerer, answered⟩ := agreed.2.1
    exact ⟨answerer, answer, redeemBy, answered, by rw [← by_]; exact Option.some.inj states,
      by rw [session, who]; rfl, by rw [same, id]; rfl⟩
  | _ =>
    rw [event] at states
    cases states

/-- **A standing agreement has a human origin and stays in scope.** An answer
or approval it gave is preceded by its person's own answer in its session, from
before it was granted; the call that answered selected it before it ran out,
while it had not been withdrawn, within the bounds its grant had; and a session
has one at most. -/
theorem standing_human_origin {world : World} (reached : Reachable deployment world) :
    (∀ entry ∈ world.shared.journal.entries, ∀ stated, Event.stated entry.event = some stated →
      ∀ id, stated.mode = .session → stated.agreement = some id →
        ∃ past tid agreement reading direct granted,
          past ++ [.selected tid agreement reading] <+: world.shared.journal ∧
          (∃ answer redeemBy, Note.answered tid answer redeemBy ∈ world.shared.journal ∧
            Event.request entry.event = some answer.asked.id) ∧
          Selection deployment past agreement reading direct granted ∧
          agreement.id = id ∧ agreement.who = stated.approver ∧
          agreement.session = entry.who.session ∧
          [direct, entry].Sublist world.shared.journal.entries) ∧
    (world.shared.standing.map (·.session)).Nodup := by
  refine ⟨fun entry member stated states id _ named => ?_, reached.inv.standing.oneEach⟩
  have history := reached.history
  obtain ⟨past, stands, -⟩ := history.of_mem (Journal.mem_entries.mp member)
  have grows := HistoryOk.prefix_of_append stands
  have earlier := history.of_prefix grows
  obtain ⟨tid, answer, redeemBy, answered, same, about, request⟩ := history.stated_answer stands states
  rw [← same] at named
  obtain ⟨before, agreement, reading, selected, sameId, sameWho, session⟩ :=
    earlier.answered_standing answered (Approver.stated_session named)
  obtain ⟨direct, granted, selection⟩ := earlier.selection selected
  refine ⟨before, tid, agreement, reading, direct, granted, selected.trans grows,
    ⟨answer, redeemBy, grows.subset answered, request⟩, selection, sameId, by rw [sameWho, same], session.trans about, ?_⟩
  obtain ⟨origin, granter, stands', committed⟩ := selection.origin
  have inPast := (((HistoryOk.prefix_of_append stands').trans
    (HistoryOk.prefix_of_append selected))).subset committed
  exact Journal.sublist_committed (List.singleton_sublist.mpr (Journal.mem_entries.mpr inPast)) stands

/-- A person agrees to a command and to its session, and the agreement answers
the command after it. -/
def Sample.standing : List BastionMove :=
  let ask : BastionMove := .spawn (.authorize alice ⟨5⟩ default (.ok default))
  opening ++ ask :: turns 1 10 6 ++ .spawn (.approveSession ⟨13⟩ "bob" none) :: turns 2 20 11 ++
    ask :: turns 3 40 8 ++ ask :: turns 4 50 17

/-- The agreement an entry names, with who gave it. -/
def Entry.standing (entry : Entry) : Option (Stated × AgreementId) :=
  (Event.stated entry.event).bind (fun stated =>
    if stated.mode = .session then stated.agreement.map (stated, ·) else none)

/-- The sample's standing answer has its origin in bob's own. -/
theorem standing_human_origin_standing :
    ∃ entry ∈ (Sample.run Sample.standing).shared.journal.entries,
      ∃ past tid agreement reading direct granted,
        past ++ [.selected tid agreement reading] <+: (Sample.run Sample.standing).shared.journal ∧
        Selection Sample.reviewed past agreement reading direct granted ∧
        [direct, entry].Sublist (Sample.run Sample.standing).shared.journal.entries := by
  have one : ((Sample.run Sample.standing).shared.journal.entries.findSome? Entry.standing).isSome :=
    by decide +kernel
  obtain ⟨⟨stated, id⟩, found⟩ := Option.isSome_iff_exists.mp one
  obtain ⟨entry, member, names⟩ := List.exists_of_findSome?_eq_some found
  obtain ⟨stated', states, named⟩ := Option.bind_eq_some_iff.mp names
  split at named
  · rename_i mode
    obtain ⟨id', sameId, same⟩ := Option.map_eq_some_iff.mp named
    cases same
    obtain ⟨past, tid, agreement, reading, direct, granted, stands, -, selection, -, -, -, order⟩ :=
      (standing_human_origin (Sample.run_reachable Sample.standing)).1 entry member stated states id
        mode sameId
    exact ⟨entry, member, past, tid, agreement, reading, direct, granted, stands, selection, order⟩
  · cases named

end McpSsh.Bastion
