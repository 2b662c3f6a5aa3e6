import McpSsh.Bastion.Preserved.Standing

/-!
# Ledger steps keep the invariant

An append extends what the ledger stands for by the entry the journal notes,
under a sequence no receipt has yet, and keeps every proof a request or a call
holds.
-/

namespace McpSsh.Bastion

variable {deployment : Deployment} {tid : Nat} {choice : Choice} {service after : Service}
variable {journal : Journal} {β : Type} {answer : β}

/-- What a ledger step has to leave for the invariant to hold of the rest. -/
structure LedgerKept (deployment : Deployment) (tid : Nat) (service : Service)
    (effect : Effect Ledger.State β) : Prop where
  history : HistoryOk deployment (service.journal ++ effect.notes)
  record : RecordOk deployment (service.journal ++ effect.notes) service.approvals.requests
    (effect.proofs.map (tid, ·) ++ service.proofs) effect.part
  requests : RequestsOk deployment (service.journal ++ effect.notes) service.approvals
  stay : ∀ note ∈ effect.notes, ∀ id, note ≠ .withdrew id

/-! ## What is committed -/

/-- An entry's sequence is one of those issued. -/
theorem RecordOk.sequence_lt {requests : Approvals.Requests} {proofs : List (Nat × Nat)}
    {ledger : Ledger.State} (ok : RecordOk deployment journal requests proofs ledger) {entry : Entry}
    (committed : Note.committed entry ∈ journal) : entry.sequence < journal.entries.length := by
  obtain ⟨index, found⟩ := List.getElem?_of_mem (Journal.mem_entries.mpr committed)
  rw [(ok.represents.chained index entry found).1]
  exact (List.getElem?_eq_some_iff.mp found).1

/-- A receipt is of an entry that was committed. -/
theorem HistoryOk.mints_committed (history : HistoryOk deployment journal) {note : Note}
    (member : note ∈ journal) {sequence : Nat} (mints : note.mints = some sequence) :
    ∃ entry, Note.committed entry ∈ journal ∧ entry.sequence = sequence := by
  cases note with
  | recorded tid intended => exact ⟨_, (history.recorded member).1, by simpa [Note.mints] using mints⟩
  | collected tid intended grant receipt =>
    obtain ⟨-, entry, committed, -, -, rfl⟩ := history.collected_grants member
    exact ⟨entry, committed, by simpa [Note.mints, Ledger.receiptFor] using mints⟩
  | _ => cases mints

/-- The sequence an append uses is that of no receipt. -/
theorem Inv.unminted (inv : Inv deployment service) {note : Note} (member : note ∈ service.journal) :
    note.mints ≠ some service.journal.entries.length := by
  intro mints
  obtain ⟨entry, committed, same⟩ := inv.history.mints_committed member mints
  have lt := inv.record.sequence_lt committed
  omega

/-! ## Proofs that are kept -/

/-- A proof that a request or a call holds is alive. -/
theorem Service.alive_of_needed (service : Service) (extra : Nat → Bool) {sequence : Nat}
    (needed : Needed service.approvals.requests service.proofs sequence) :
    service.alive extra sequence = true := by
  simp only [Service.alive, Bool.or_eq_true, List.any_eq_true, decide_eq_true_eq]
  rcases needed with ⟨held, member, holds⟩ | ⟨caller, member⟩
  · exact .inl (.inl ⟨held, member, holds⟩)
  · exact .inl (.inr ⟨_, member, rfl⟩)

/-- A ledger that drops no live proof has every proof that is needed. -/
theorem Inv.still_pinned (inv : Inv deployment service) {extra : Nat → Bool} {ledger : Ledger.State}
    (kept : ∀ proof ∈ service.ledger.proofs,
      service.alive extra proof.entry.sequence = true → proof ∈ ledger.proofs) :
    ∀ sequence, Needed service.approvals.requests service.proofs sequence →
      ∃ proof ∈ ledger.proofs, proof.entry.sequence = sequence := by
  intro sequence needed
  obtain ⟨proof, member, rfl⟩ := inv.record.pinned sequence needed
  exact ⟨proof, kept proof member (service.alive_of_needed extra needed), rfl⟩

/-! ## Steps that commit nothing -/

theorem LedgerKept.still (inv : Inv deployment service) {answer : β} {ledger : Ledger.State}
    {extra : Nat → Bool} (represents : Ledger.Represents deployment.format deployment.genesis
      service.journal.entries ledger)
    (kept : Ledger.Kept (service.alive extra) service.ledger ledger) :
    LedgerKept deployment tid service (.plain answer ledger) where
  history := by simpa [Effect.plain] using inv.history
  record := by
    simp only [Effect.plain, List.append_nil, List.map_nil, List.nil_append]
    exact ⟨represents, inv.still_pinned kept.pinned⟩
  requests := by simpa [Effect.plain] using inv.requests
  stay := by simp [Effect.plain]

/-! ## Steps that commit an entry -/

/-- What an append of an entry leaves of the record. -/
theorem Inv.committed (inv : Inv deployment service) {extra : Nat → Bool} {entry : Entry}
    {ledger : Ledger.State} (represents : Ledger.Represents deployment.format deployment.genesis
      (service.journal.entries ++ [entry]) ledger)
    (kept : ∀ proof ∈ service.ledger.proofs,
      service.alive extra proof.entry.sequence = true → proof ∈ ledger.proofs)
    (rest : List Note) (none' : ∀ note ∈ rest, note.entry = none) :
    RecordOk deployment (service.journal ++ .committed entry :: rest) service.approvals.requests
      service.proofs ledger where
  represents := by
    have entries : (Note.committed entry :: rest).filterMap Note.entry = [entry] := by
      simp [Note.entry, List.filterMap_eq_nil_iff.mpr none']
    rw [Journal.entries_append, entries]
    exact represents
  pinned := inv.still_pinned kept

/-- Committing an entry that authorizes nothing. -/
theorem LedgerKept.committed (inv : Inv deployment service) {extra : Nat → Bool} {answer : β}
    {entry : Entry} {ledger : Ledger.State}
    (warrant : Warrant deployment service.journal (.committed entry))
    (represents : Ledger.Represents deployment.format deployment.genesis
      (service.journal.entries ++ [entry]) ledger)
    (kept : ∀ proof ∈ service.ledger.proofs,
      service.alive extra proof.entry.sequence = true → proof ∈ ledger.proofs) :
    LedgerKept deployment tid service ⟨answer, ledger, false, [.committed entry], []⟩ where
  history := inv.history.append_plain warrant rfl rfl rfl rfl rfl
  record := inv.committed represents kept [] (by simp)
  requests := inv.requests.grow (by simp [Note.quiet])
  stay := by simp

theorem LedgerStep.recordIntent_keeps (inv : Inv deployment service) {decision : Decision}
    {agentIntent : CommandIntent}
    (guard : (LedgerStep.recordIntent decision agentIntent).Guard deployment tid service) :
    LedgerKept deployment tid service
      ((LedgerStep.recordIntent decision agentIntent).effect deployment tid service.clock
        choice.accepts (service.alive choice.extra) service.ledger) := by
  obtain ⟨opened, decided⟩ := guard
  simp only [LedgerStep.effect]
  rcases inv.record.represents.recordIntent deployment.limits (service.alive choice.extra)
    service.clock choice.accepts decision agentIntent with
    ⟨error, ledger, refused, -, represents, kept⟩ |
    ⟨-, ledger, intended, recorded, sequence, event, who, sameDecision, sameIntent, receipt, proof,
      represents, kept, pinned⟩
  · rw [refused]
    exact .still inv represents kept
  · rw [recorded]
    simp only
    -- The decision is committed first, and what was recorded rests on it.
    have committed : HistoryOk deployment (service.journal ++ [.committed intended.entry]) :=
      inv.history.append_plain (by simp [Warrant, Rests, event, Ledger.decidedEvent])
        rfl rfl rfl rfl rfl
    refine ⟨?_, ?_, inv.requests.grow (by simp [Note.quiet]), by simp⟩
    · rw [show [Note.committed intended.entry, .recorded tid intended] =
        [.committed intended.entry] ++ [.recorded tid intended] from rfl, ← List.append_assoc]
      refine committed.append ⟨List.mem_append_right _ (List.mem_singleton_self _), ?_, ?_, ?_, ?_, ?_⟩
        (by simp [Note.drawn]) (by simp [Note.answers]) (by simp [Note.collects]) ?_
        (by simp [Note.registers])
      · rw [event, sameDecision, sameIntent]
      · rw [who, sameDecision]
      · rw [sameDecision]
        exact opened.grow (List.prefix_append _ _)
      · rw [sameDecision]
        exact decided
      · intro given same
        rw [receipt] at same
        split at same
        · rename_i permits
          rw [sameDecision]
          exact ⟨permits, (Option.some.inj same).symm⟩
        · cases same
      · intro minted mints earlier member
        cases mints
        rcases List.mem_append.mp member with old | new
        · rw [sequence]
          exact inv.unminted old
        · rw [List.mem_singleton] at new
          subst new
          simp [Note.mints]
    · have record := inv.committed represents kept [.recorded tid intended]
        (by simp [Note.entry])
      refine ⟨record.represents, fun number needed => ?_⟩
      rcases needed with held | ⟨caller, member⟩
      · exact record.pinned number (.inl held)
      · rcases List.mem_append.mp member with new | old
        · obtain ⟨own, has, eq⟩ := List.mem_map.mp new
          cases eq
          rw [Option.mem_toList, proof] at has
          split at has
          · rename_i pins
            cases has
            obtain ⟨found, inside, same⟩ := pinned pins
            exact ⟨found, inside, by rw [same]⟩
          · cases has
        · exact record.pinned number (.inr ⟨caller, old⟩)

theorem LedgerStep.recordApproval_keeps (inv : Inv deployment service) {intended : Intended}
    {grant : Grant}
    (guard : (LedgerStep.recordApproval intended grant).Guard deployment tid service) :
    LedgerKept deployment tid service
      ((LedgerStep.recordApproval intended grant).effect deployment tid service.clock
        choice.accepts (service.alive choice.extra) service.ledger) := by
  have collecting : Collecting deployment tid intended grant service := guard
  simp only [LedgerStep.effect]
  rcases inv.record.represents.append deployment.limits (service.alive choice.extra) service.clock
    choice.accepts intended.decision.session.attribution grant.event with
    ⟨error, ledger, refused, -, represents, kept⟩ |
    ⟨-, ledger, entry, appended, sequence, -, who, event, represents, kept, -⟩
  · rw [refused]
    exact .still inv represents kept
  · rw [appended]
    simp only
    generalize same : Ledger.receiptFor entry intended.decision.session intended.decision.action =
      receipt
    have approves : Rests deployment service.journal entry.who entry.event := by
      rw [who, event]
      exact ⟨tid, intended, grant, collecting.grants, rfl, rfl⟩
    have committed : HistoryOk deployment (service.journal ++ [.committed entry]) :=
      inv.history.append_plain approves rfl rfl rfl rfl rfl
    refine ⟨?_, inv.committed represents kept _ (by simp [Note.entry]), ?_, by simp⟩
    · rw [show [Note.committed entry, .collected tid intended grant receipt] =
        [.committed entry] ++ [.collected tid intended grant receipt] from rfl, ← List.append_assoc]
      refine committed.append ⟨collecting.grants.grow (List.prefix_append _ _), entry,
        List.mem_append_right _ (List.mem_singleton_self _), event, who, same.symm⟩
        (by simp [Note.drawn]) (by simp [Note.answers]) ?_ ?_ (by simp [Note.registers])
      · intro id collects earlier member
        cases collects
        rcases List.mem_append.mp member with old | new
        · exact collecting.uncollected earlier old
        · rw [List.mem_singleton] at new
          subst new
          simp [Note.collects]
      · intro minted mints earlier member
        rw [Note.mints, ← same] at mints
        cases mints
        rcases List.mem_append.mp member with old | new
        · simp only [Ledger.receiptFor, sequence]
          exact inv.unminted old
        · rw [List.mem_singleton] at new
          subst new
          simp [Note.mints]
    · -- The request collected is the one its call has yet to mark.
      obtain ⟨owner, tidy, owns⟩ := inv.requests.tidy
      refine ⟨⟨owner, tidy, fun session opened => owns session ?_⟩, fun held member =>
        (inv.requests.held held member).grow (by simp [Note.answers]),
        fun held member opened note inside collects => ?_⟩
      · obtain ⟨opener, lastUsed, member⟩ := opened
        exact ⟨opener, lastUsed, by simpa using member⟩
      · rcases List.mem_append.mp inside with old | new
        · exact inv.requests.unspent held member opened note old collects
        · simp only [List.mem_cons, List.not_mem_nil, or_false] at new
          rcases new with rfl | rfl
          · cases collects
          · simp only [Note.collects, Option.some.injEq] at collects
            rw [← collects]
            exact collecting.collecting

/-- An append of one entry that authorizes nothing. -/
theorem LedgerStep.append_keeps (inv : Inv deployment service) {who : Attribution} {event : Event}
    (rests : Rests deployment service.journal who event) {β : Type} (refuse : AuditError → β)
    (accept : Entry → β) :
    LedgerKept deployment tid service
      (match service.ledger.append deployment.format deployment.limits
          (service.alive choice.extra) service.clock choice.accepts who event with
        | .error (error, ledger) => Effect.plain (refuse error) ledger
        | .ok (ledger, entry) => ⟨accept entry, ledger, false, [.committed entry], []⟩) := by
  rcases inv.record.represents.append deployment.limits (service.alive choice.extra) service.clock
    choice.accepts who event with
    ⟨error, ledger, refused, -, represents, kept⟩ |
    ⟨-, ledger, entry, appended, -, -, sameWho, sameEvent, represents, kept, -⟩
  · rw [refused]
    exact .still inv represents kept
  · rw [appended]
    have warrant : Warrant deployment service.journal (.committed entry) := by
      rw [← sameWho, ← sameEvent] at rests
      exact rests
    exact .committed inv warrant represents kept

/-- An entry that neither decides nor answers rests on nothing. -/
theorem Rests.of_plain {who : Attribution} {event : Event} (plain : event.isPlain = true) :
    Rests deployment journal who event := by
  cases event <;> trivial

theorem LedgerStep.keeps {step : LedgerStep β} (choice : Choice) (inv : Inv deployment service)
    (guard : step.Guard deployment tid service) :
    LedgerKept deployment tid service
      (step.effect deployment tid service.clock choice.accepts (service.alive choice.extra)
        service.ledger) := by
  cases step with
  | recordIntent => exact LedgerStep.recordIntent_keeps inv guard
  | thisDeliberation =>
    have kept : Ledger.Kept (service.alive choice.extra) service.ledger service.ledger := .refl _
    exact .still inv inv.record.represents kept
  | recordApproval => exact LedgerStep.recordApproval_keeps inv guard
  | recordAnswer given =>
    obtain ⟨redeemBy, answered⟩ := guard
    have rests : Rests deployment service.journal given.asked.attribution given.event :=
      ⟨_, given, redeemBy, answered, rfl, rfl⟩
    exact LedgerStep.append_keeps inv rests Except.error Except.ok
  | record who event =>
    exact LedgerStep.append_keeps inv (Rests.of_plain guard) Except.error Except.ok
  | reclaim =>
    obtain ⟨ledger, reclaimed, represents, kept⟩ := inv.record.represents.reclaim deployment.limits
      (service.alive choice.extra) service.clock
    simp only [LedgerStep.effect, reclaimed]
    exact .still inv represents kept

/-! ## What a step writes -/

/-- The entry a step would write: whom it is about, and what happened. -/
def LedgerStep.writes {β : Type} : LedgerStep β → Option (Attribution × Event)
  | .recordIntent decision agentIntent =>
    some (decision.session.attribution, Ledger.decidedEvent decision agentIntent)
  | .recordApproval intended grant => some (intended.decision.session.attribution, grant.event)
  | .recordAnswer answer => some (answer.asked.attribution, answer.event)
  | .record who event => some (who, event)
  | _ => none

/-- What a step commits is what it writes. -/
theorem LedgerStep.committed {step : LedgerStep β} (choice : Choice) (inv : Inv deployment service)
    {entry : Entry} (committed : Note.committed entry ∈ (step.effect deployment tid service.clock
      choice.accepts (service.alive choice.extra) service.ledger).notes) :
    step.writes = some (entry.who, entry.event) := by
  have append := inv.record.represents.append deployment.limits (service.alive choice.extra)
    service.clock choice.accepts
  cases step with
  | recordIntent decision agentIntent =>
    rcases inv.record.represents.recordIntent deployment.limits (service.alive choice.extra)
      service.clock choice.accepts decision agentIntent with
      ⟨error, ledger, refused, -⟩ | ⟨-, ledger, intended, recorded, -, event, who, -⟩
    · simp only [LedgerStep.effect, refused] at committed
      cases committed
    · simp only [LedgerStep.effect, recorded, List.mem_cons, Note.committed.injEq,
        List.not_mem_nil, or_false, reduceCtorEq] at committed
      rw [committed, who, event]
      rfl
  | recordApproval intended grant =>
    rcases append intended.decision.session.attribution grant.event with
      ⟨error, ledger, refused, -⟩ | ⟨-, ledger, written, appended, -, -, who, event, -⟩
    · simp only [LedgerStep.effect, refused] at committed
      cases committed
    · simp only [LedgerStep.effect, appended, List.mem_cons, Note.committed.injEq,
        List.not_mem_nil, or_false, reduceCtorEq] at committed
      rw [committed, who, event]
      rfl
  | recordAnswer answer =>
    rcases append answer.asked.attribution answer.event with
      ⟨error, ledger, refused, -⟩ | ⟨-, ledger, written, appended, -, -, who, event, -⟩
    · simp only [LedgerStep.effect, refused] at committed
      cases committed
    · simp only [LedgerStep.effect, appended, List.mem_singleton, Note.committed.injEq] at committed
      rw [committed, who, event]
      rfl
  | record who event =>
    rcases append who event with
      ⟨error, ledger, refused, -⟩ | ⟨-, ledger, written, appended, -, -, sameWho, sameEvent, -⟩
    · simp only [LedgerStep.effect, refused] at committed
      cases committed
    · simp only [LedgerStep.effect, appended, List.mem_singleton, Note.committed.injEq] at committed
      rw [committed, sameWho, sameEvent]
      rfl
  | thisDeliberation => cases committed
  | reclaim =>
    obtain ⟨ledger, reclaimed, -⟩ := inv.record.represents.reclaim deployment.limits
      (service.alive choice.extra) service.clock
    simp only [LedgerStep.effect, reclaimed] at committed
    cases committed

/-- A record that was made is in the journal. -/
theorem LedgerStep.record_ok {who : Attribution} {event : Event} {entry : Entry}
    (inv : Inv deployment service)
    (ran : (Step.ledger (.record who event)).run deployment tid choice service =
      some (.ok entry, after)) :
    after.journal = service.journal ++ [.committed entry] ∧ entry.who = who ∧
      entry.event = event := by
  obtain ⟨-, -, is, rfl⟩ := Step.ran ran
  rcases inv.record.represents.append deployment.limits (service.alive choice.extra) service.clock
    choice.accepts who event with
    ⟨error, ledger, refused, -⟩ | ⟨-, ledger, written, appended, -, -, sameWho, sameEvent, -⟩
  · simp only [Step.effect, LedgerStep.effect, refused, Effect.plain] at is
    cases is
  · simp only [Step.effect, LedgerStep.effect, appended] at is ⊢
    cases is
    exact ⟨rfl, sameWho, sameEvent⟩

/-- One that was refused left it alone. -/
theorem LedgerStep.record_refused {who : Attribution} {event : Event} {error : AuditError}
    (ran : (Step.ledger (.record who event)).run deployment tid choice service =
      some (.error error, after)) : after.journal = service.journal := by
  obtain ⟨-, -, is, rfl⟩ := Step.ran ran
  simp only [Step.effect, LedgerStep.effect] at is ⊢
  split at is
  · simp only [Effect.plain, List.append_nil]
  · cases is

/-- **Ledger steps keep the invariant.** -/
theorem LedgerStep.preserves {step : LedgerStep β} (inv : Inv deployment service)
    (guard : (Step.ledger step).Guard deployment tid service)
    (ran : (Step.ledger step).run deployment tid choice service = some (answer, after)) :
    Inv deployment after := by
  obtain ⟨unused, permits, rfl, rfl⟩ := Step.ran ran
  have kept := step.keeps choice inv guard.2
  have grows : service.journal <+: service.journal ++ _ := List.prefix_append service.journal
    (step.effect deployment tid service.clock choice.accepts (service.alive choice.extra)
      service.ledger).notes
  exact {
    history := kept.history
    sessions := inv.sessions.grow grows
    requests := kept.requests
    collecting := inv.collecting
    standing := inv.standing.grow kept.stay
    record := kept.record
    links := inv.links.grow grows
    runs := inv.runs.grow grows }

end McpSsh.Bastion
