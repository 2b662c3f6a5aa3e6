import McpSsh.Bastion.Worlds

/-!
# Where receipts come from

A receipt for an action that needed a human rests on three entries, written in
this order: the decision its request was first raised for, a human's agreement
to that request, and the approval it was minted as. The decision may be older
than the one being collected; both are about the same action, which is what the
request was looked up by.
-/

namespace McpSsh.Bastion

open History Interleaving

variable {deployment : Deployment} {journal later past : Journal} {tid : Nat}
variable {intended : Intended} {receipt : Receipt}

/-! ## Orders of entries -/

theorem Journal.entries_mono (grows : journal <+: later) : journal.entries <+: later.entries :=
  grows.filterMap _

/-- What was committed before an entry, and the entry. -/
theorem Journal.sublist_committed {entries : List Entry} {entry : Entry}
    (before : entries.Sublist past.entries) (stands : past ++ [.committed entry] <+: journal) :
    (entries ++ [entry]).Sublist journal.entries := by
  refine sublist_growth (sublist_concat before entry) ?_
  have grown := Journal.entries_mono stands
  rw [Journal.entries_append] at grown
  exact grown

/-- Two entries of the record with one sequence are one. -/
theorem Inv.entry_unique {service : Service} (inv : Inv deployment service) {a b : Entry}
    (ma : Note.committed a ∈ service.journal) (mb : Note.committed b ∈ service.journal)
    (same : a.sequence = b.sequence) : a = b := by
  obtain ⟨place, atA⟩ := List.getElem?_of_mem (Journal.mem_entries.mpr ma)
  obtain ⟨place', atB⟩ := List.getElem?_of_mem (Journal.mem_entries.mpr mb)
  have placeA := (inv.record.represents.chained place a atA).1
  have placeB := (inv.record.represents.chained place' b atB).1
  rw [← placeA, same] at atA
  rw [← placeB, atA] at atB
  exact Option.some.inj atB

/-! ## Backing -/

/-- No two actions that were recorded have one digest without having one
preimage. -/
def Journal.CollisionFree (sha256 : List UInt8 → Digest) (journal : Journal) : Prop :=
  ∀ tid intended tid' intended', Note.recorded tid intended ∈ journal →
    Note.recorded tid' intended' ∈ journal →
    digestAction sha256 intended.decision.action intended.agentIntent =
      digestAction sha256 intended'.decision.action intended'.agentIntent →
    actionPreimage intended.decision.action intended.agentIntent =
      actionPreimage intended'.decision.action intended'.agentIntent

/-- The three entries a receipt rests on. -/
structure Backing (journal : Journal) (intended : Intended) (receipt : Receipt)
    (request : RequestId) (decided answered approved : Entry) (what : Decided) (stated : Stated) :
    Prop where
  order : [decided, answered, approved].Sublist journal.entries
  decidedIs : decided.event = .decided what
  verdict : what.verdict = .needsApproval
  operation : what.operation = receipt.action.kind
  argv : what.argv = receipt.action.command.argv
  agentIntent : what.agentIntent = intended.agentIntent.text
  answeredIs : answered.event = .answered ⟨decided.sequence, request, stated, true⟩
  approvedIs : approved.event = .approved ⟨decided.sequence, request, stated⟩
  session : ∀ entry ∈ [decided, answered, approved],
    entry.who.session = receipt.authorization.who.session
  minted : receipt.authorization.sequence = approved.sequence ∧
    receipt.authorization.digest = approved.digest

/-- A receipt is backed by an agreement to a request, and that agreement was
found before it lapsed. -/
structure Backed (journal : Journal) (tid : Nat) (intended : Intended) (receipt : Receipt)
    (request : RequestId) : Prop where
  entries : ∃ decided answered approved what stated,
    Backing journal intended receipt request decided answered approved what stated
  inTime : ∃ reading, Note.found tid request reading ∈ journal ∧
    ∃ answerer answer redeemBy, Note.answered answerer answer redeemBy ∈ journal ∧
      answer.asked.id = request ∧ answer.agreed = true ∧ reading < redeemBy

/-- What happened up to some point is a history too. -/
theorem HistoryOk.of_prefix (history : HistoryOk deployment journal) (grows : past <+: journal) :
    HistoryOk deployment past := by
  have keyed : ∀ {κ : Type} {key : Note → Option κ}, Keyed key journal → Keyed key past :=
    fun keyed => keyed.sublist (grows.sublist.filterMap _)
  obtain ⟨rest, rfl⟩ := grows
  refine ⟨fun before event after split => ?_, keyed history.drawn, keyed history.answered,
    keyed history.collected, keyed history.minted, keyed history.registered⟩
  exact history.warranted before event (after ++ rest) (by rw [split]; simp)

/-- An answer in the record comes after the decision its request was raised
for. -/
theorem HistoryOk.answered_order (history : HistoryOk deployment journal) {raiser answerer : Nat}
    {root : Intended} {answer : Answer} {redeemBy : Nat} {answered : Entry}
    (raised : Note.raised raiser root answer.asked ∈ journal)
    (given : Note.answered answerer answer redeemBy ∈ journal)
    (committed : Note.committed answered ∈ journal) (event : answered.event = answer.event) :
    [root.entry, answered].Sublist journal.entries := by
  obtain ⟨past, stands, rests⟩ := history.of_mem committed
  have grows := HistoryOk.prefix_of_append stands
  have earlier := history.of_prefix grows
  rw [Warrant, event] at rests
  obtain ⟨tid', given', redeemBy', noted, same, -⟩ := rests
  have sameAsked : given'.asked.id = answer.asked.id := by
    simp only [Answer.event, Event.answered.injEq, Answered.mk.injEq] at same
    exact same.2.1.symm
  obtain ⟨-, rfl, -⟩ := history.answered_unique (grows.subset noted) given sameAsked
  obtain ⟨raiser', root', raised'⟩ := earlier.answered_raised noted
  obtain ⟨-, rfl, -⟩ := history.raised_unique raised (grows.subset raised') rfl
  have recorded := (earlier.recorded (earlier.raised raised').1).1
  exact Journal.sublist_committed (List.singleton_sublist.mpr (Journal.mem_entries.mpr recorded))
    stands

/-- An approval in the record comes after the agreement it collects. -/
theorem HistoryOk.approved_order (history : HistoryOk deployment journal) {raiser : Nat}
    {root : Intended} {answer : Answer} {redeemBy : Nat} {approved : Entry} {grant : Grant}
    (raised : Note.raised raiser root answer.asked ∈ journal)
    (agreed : journal.Agreed answer redeemBy) (same : answer.asked.id = grant.request)
    (committed : Note.committed approved ∈ journal) (event : approved.event = grant.event) :
    ∃ answered, [root.entry, answered, approved].Sublist journal.entries ∧
      answered.event = answer.event ∧ answered.who = answer.asked.attribution := by
  obtain ⟨past, stands, rests⟩ := history.of_mem committed
  have grows := HistoryOk.prefix_of_append stands
  have earlier := history.of_prefix grows
  rw [Warrant, event] at rests
  obtain ⟨tid, collecting, grant', grants, sameEvent, -⟩ := rests
  obtain ⟨raiser', root', answer', redeemBy', raised', agreed', id', -⟩ := grants.request
  have sameRequest : grant.request = grant'.request := by
    simp only [Grant.event, Event.approved.injEq, Approved.mk.injEq] at sameEvent
    exact sameEvent.2.1
  have sameId := same.trans (sameRequest.trans id'.symm)
  obtain ⟨answerer, given⟩ := agreed.2.1
  obtain ⟨answerer', given'⟩ := agreed'.2.1
  obtain ⟨-, rfl, -⟩ := history.answered_unique given (grows.subset given') sameId
  obtain ⟨-, rfl, -⟩ := history.raised_unique raised (grows.subset raised') rfl
  obtain ⟨-, -, answered, inRecord, answeredIs, who⟩ := agreed'
  have order := earlier.answered_order raised' given' inRecord answeredIs
  exact ⟨answered, Journal.sublist_committed order stands, answeredIs, who⟩

/-- What a receipt for an action that was held rests on. -/
theorem HistoryOk.minted_held (history : HistoryOk deployment journal)
    (minted : journal.Minted tid intended receipt)
    (held : intended.decision.verdict = .needsApproval) :
    ∃ grant, Note.collected tid intended grant receipt ∈ journal := by
  rcases minted with ⟨recorded, same⟩ | collected
  · obtain ⟨-, -, -, -, -, permitted⟩ := history.recorded recorded
    have verdict := (permitted receipt same).1
    rw [held] at verdict
    cases verdict
  · exact collected

/-- What a decision entry holds. -/
theorem decidedEvent_holds (decision : Decision) (agentIntent : CommandIntent) :
    ∃ what, Ledger.decidedEvent decision agentIntent = .decided what ∧
      what.verdict = decision.verdict ∧ what.operation = decision.action.kind ∧
      what.argv = decision.action.command.argv ∧ what.agentIntent = agentIntent.text :=
  ⟨_, rfl, rfl, rfl, rfl, rfl⟩

/-- The decision a request was raised for is about any action that has its
digest. -/
theorem HistoryOk.root_decides (history : HistoryOk deployment journal)
    (free : journal.CollisionFree deployment.format.sha256) {raiser : Nat} {root : Intended}
    {asked : Asked} (raised : Note.raised raiser root asked ∈ journal)
    (recorded : Note.recorded tid intended ∈ journal)
    (action : deployment.approvals.actionOf root = deployment.approvals.actionOf intended) :
    asked.decided = root.entry.sequence ∧ Note.committed root.entry ∈ journal ∧
      root.entry.who.session = asked.session ∧
      ∃ what, root.entry.event = .decided what ∧ what.verdict = .needsApproval ∧
        what.operation = intended.decision.action.kind ∧
        what.argv = intended.decision.action.command.argv ∧
        what.agentIntent = intended.agentIntent.text := by
  obtain ⟨recordedRoot, verdict, now, askedIs⟩ := history.raised raised
  obtain ⟨committed, rootIs, rootWho, -⟩ := history.recorded recordedRoot
  obtain ⟨kinds, vectors, intents⟩ := digestParts_inj
    (free raiser root tid intended recordedRoot recorded action)
  obtain ⟨what, whatIs, whatVerdict, whatKind, whatArgv, whatIntent⟩ :=
    decidedEvent_holds root.decision root.agentIntent
  exact ⟨by rw [askedIs]; rfl, committed, by rw [askedIs, rootWho]; rfl, what, rootIs.trans whatIs,
    whatVerdict.trans verdict, whatKind.trans kinds, whatArgv.trans vectors,
    whatIntent.trans (congrArg CommandIntent.text intents)⟩

theorem HistoryOk.collected_backed (history : HistoryOk deployment journal)
    (free : journal.CollisionFree deployment.format.sha256) {grant : Grant}
    (collected : Note.collected tid intended grant receipt ∈ journal) :
    Backed journal tid intended receipt grant.request := by
  obtain ⟨grants, approved, committed, event, who, rfl⟩ := history.collected_grants collected
  obtain ⟨reading, found⟩ := grants.found
  obtain ⟨raiser, root, answer, redeemBy, raised, agreed, id, action, session, decided, by_⟩ :=
    grants.request
  obtain ⟨answered, order, answeredIs, answeredWho⟩ :=
    history.approved_order raised agreed id committed event
  obtain ⟨decidedBy, -, rootSession, what, rootIs, verdict, kind, argv, agentIntent⟩ :=
    history.root_decides free raised grants.recorded action
  refine ⟨⟨root.entry, answered, approved, what, answer.approver.stated, ?_⟩, reading, found, ?_⟩
  · refine ⟨order, rootIs, verdict, kind, argv, agentIntent, ?_, ?_, ?_, rfl, rfl⟩
    · rw [answeredIs, Answer.event, decidedBy, id, agreed.1]
    · rw [event, Grant.event, decided, decidedBy, by_]
    · intro entry member
      simp only [List.mem_cons, List.not_mem_nil, or_false] at member
      rcases member with rfl | rfl | rfl
      · exact rootSession.trans session
      · rw [answeredWho]
        exact session
      · rw [who]
        rfl
  · obtain ⟨past, stands, answer', redeemBy', agreed', id', early⟩ := history.of_mem found
    have grows := HistoryOk.prefix_of_append stands
    obtain ⟨answerer, given⟩ := agreed'.2.1
    exact ⟨answerer, answer', redeemBy', grows.subset given, id', agreed'.1, early⟩

/-- The request a backed receipt was collected from. -/
theorem Inv.backed_request {service : Service} (inv : Inv deployment service) {grant : Grant}
    {request : RequestId} (collected : Note.collected tid intended grant receipt ∈ service.journal)
    (backed : Backed service.journal tid intended receipt request) : grant.request = request := by
  obtain ⟨-, approved, committed, event, -, rfl⟩ := inv.history.collected_grants collected
  obtain ⟨decided, answered, other, what, stated, backing⟩ := backed.entries
  have member : other ∈ service.journal.entries := backing.order.subset (by simp)
  have same := inv.entry_unique committed (Journal.mem_entries.mp member) backing.minted.1
  subst same
  have names := event.symm.trans backing.approvedIs
  simp only [Grant.event, Event.approved.injEq, Approved.mk.injEq] at names
  exact names.2.1

/-- **Receipt provenance.** However calls interleave, whatever the clock does
and whichever records are refused, a receipt for an action that was held is
backed by a decision, an agreement to a request raised for that decision and
the approval, in this order, found before the agreement lapsed; and no other
receipt is backed by the same request. -/
theorem receipt_provenance {world : World} (reached : Reachable deployment world)
    (free : world.shared.journal.CollisionFree deployment.format.sha256)
    (minted : world.shared.journal.Minted tid intended receipt)
    (held : intended.decision.verdict = .needsApproval) :
    ∃ request, Backed world.shared.journal tid intended receipt request ∧
      ∀ tid' intended' receipt', world.shared.journal.Minted tid' intended' receipt' →
        intended'.decision.verdict = .needsApproval →
        Backed world.shared.journal tid' intended' receipt' request →
        tid' = tid ∧ intended' = intended ∧ receipt' = receipt := by
  obtain ⟨grant, collected⟩ := reached.history.minted_held minted held
  refine ⟨grant.request, reached.history.collected_backed free collected, ?_⟩
  intro tid' intended' receipt' minted' held' backed'
  obtain ⟨grant', collected'⟩ := reached.history.minted_held minted' held'
  have same := reached.inv.backed_request collected' backed'
  have once := reached.history.collected.unique collected collected' rfl (congrArg some same)
  simp only [Note.collected.injEq] at once
  exact ⟨once.1.symm, once.2.1.symm, once.2.2.2.symm⟩

/-- A command is asked for, agreed to by a person, and run. -/
def Sample.approval : List BastionMove :=
  let ask : BastionMove := .spawn (.submit alice ⟨5⟩ default (.exec ["true"]))
  opening ++ ask :: turns 1 10 7 ++
    .spawn (.decide ⟨14⟩ (.human "bob") true bob_agreement) :: turns 2 20 7 ++ ask :: turns 3 30 18

/-- What a note says was collected, and for whom. -/
def Note.collection : Note → Option (Nat × Intended × Grant × Receipt)
  | .collected tid intended grant receipt => some (tid, intended, grant, receipt)
  | _ => none

theorem Journal.collected_of_head {handed : Nat × Intended × Grant × Receipt}
    (first : (journal.filterMap Note.collection).head? = some handed) :
    Note.collected handed.1 handed.2.1 handed.2.2.1 handed.2.2.2 ∈ journal := by
  obtain ⟨note, member, is⟩ := List.mem_filterMap.mp (List.mem_of_head? first)
  cases note with
  | collected =>
    cases is
    exact member
  | _ => cases is

/-- A digest that is the preimage collides with nothing. -/
theorem Journal.CollisionFree.of_injective {sha256 : List UInt8 → Digest}
    (injective : Function.Injective sha256) (journal : Journal) : journal.CollisionFree sha256 :=
  fun _ _ _ _ _ _ same => injective same

/-- The receipt of the sample's second call is backed. -/
theorem receipt_provenance_approval :
    ∃ tid intended receipt request,
      (Sample.run Sample.approval).shared.journal.Minted tid intended receipt ∧
      Backed (Sample.run Sample.approval).shared.journal tid intended receipt request := by
  have one : (((Sample.run Sample.approval).shared.journal.filterMap Note.collection).head?.map
      (fun handed => handed.2.1.decision.verdict)) = some .needsApproval := by decide +kernel
  obtain ⟨handed, first, held⟩ := Option.map_eq_some_iff.mp one
  have minted : (Sample.run Sample.approval).shared.journal.Minted handed.1 handed.2.1
      handed.2.2.2 := .inr ⟨handed.2.2.1, Journal.collected_of_head first⟩
  obtain ⟨request, backed, -⟩ := receipt_provenance (Sample.run_reachable Sample.approval)
    (.of_injective (fun _ _ same => congrArg Digest.bytes same) _) minted held
  exact ⟨handed.1, handed.2.1, handed.2.2.2, request, minted, backed⟩

end McpSsh.Bastion
