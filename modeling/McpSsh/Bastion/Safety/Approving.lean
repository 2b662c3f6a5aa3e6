import McpSsh.Bastion.Discipline

/-!
# Asking, answering and collecting

The programs that meet a request. What an ask found is still there when its
agreement is recorded, because the request lock is held; what a standing
agreement answers is a request of its own session, because the standing lock
is held.
-/

namespace McpSsh.Bastion

open Interleaving
open Approvals (AskCase)

variable {deployment : Deployment} {tid : Nat} {choice : Choice} {service after : Service}
variable {past : List Took} {held : List Lock} {intended : Intended} {grant : Grant}

/-! ## Recording an agreement -/

/-- What is known of an agreement to collect lies in the requests, their lock and
the journal. -/
theorem Collecting.of_eq (collecting : Collecting deployment tid intended grant service)
    (lock : after.locks .requests = service.locks .requests)
    (approvals : after.approvals = service.approvals) (journal : after.journal = service.journal) :
    Collecting deployment tid intended grant after where
  lock := lock.trans collecting.lock
  collecting := approvals ▸ collecting.collecting
  grants := journal ▸ collecting.grants
  held := approvals ▸ collecting.held
  uncollected := journal ▸ collecting.uncollected

theorem Collecting.deliberated {decided : Nat} {digest : Digest} {session : SessionId}
    {answer : Except AuditError Unit} (collecting : Collecting deployment tid intended grant service)
    (ran : (Step.ledger (.thisDeliberation decided digest session)).run deployment tid choice service =
      some (answer, after)) : Collecting deployment tid intended grant after := by
  obtain ⟨-, -, -, rfl⟩ := Step.ran ran
  exact collecting.of_eq rfl rfl (List.append_nil _)

/-- What recording an agreement leaves: the agreement to be collected still, or
the note that it was. -/
def Recorded (deployment : Deployment) (tid : Nat) (intended : Intended) (grant : Grant)
    (after : Service) : Except AuditError (Receipt × Approver) → Prop
  | .error _ => Collecting deployment tid intended grant after
  | .ok (receipt, approver) => after.approvals.collecting = some grant.request ∧
    Note.collected tid intended grant receipt ∈ after.journal ∧ approver = grant.approver

theorem Collecting.recorded {result : Except AuditError (Receipt × Approver)}
    (collecting : Collecting deployment tid intended grant service)
    (ran : (Step.ledger (.recordApproval intended grant)).run deployment tid choice service =
      some (result, after)) : Recorded deployment tid intended grant after result := by
  obtain ⟨-, -, rfl, rfl⟩ := Step.ran ran
  clear ran
  simp only [Step.effect, LedgerStep.effect]
  generalize service.ledger.append deployment.format deployment.limits (service.alive choice.extra)
    service.clock choice.accepts intended.decision.session.attribution grant.event = appended
  rcases appended with ⟨error, ledger⟩ | ⟨ledger, entry⟩
  · exact collecting.of_eq rfl rfl (List.append_nil _)
  · exact ⟨collecting.collecting, by simp, rfl⟩

theorem Recorded.rely {result : Except AuditError (Receipt × Approver)}
    (recorded : Recorded deployment tid intended grant service result)
    (lock : service.locks .requests = some tid) (moved : Rely tid service after) :
    Recorded deployment tid intended grant after result := by
  cases result with
  | error error => exact Collecting.rely recorded moved
  | ok minted =>
    obtain ⟨collecting, collected, same⟩ := recorded
    exact ⟨moved.requests lock ▸ collecting, moved.journal.subset collected, same⟩

theorem recordApproval_safe (at' : At tid (.requests :: held) service)
    (collecting : Collecting deployment tid intended grant service) :
    Safely deployment tid
      (fun _ result after => Since service after ∧ At tid (.requests :: held) after ∧
        Recorded deployment tid intended grant after result)
      (recordApproval deployment intended grant) past service := by
  have lock : ∀ {now}, At tid (.requests :: held) now → now.locks .requests = some tid :=
    fun at' => (at'.locks _).mpr List.mem_cons_self
  unfold recordApproval
  split
  · exact fun later _ moved => ⟨moved.since, at'.rely moved, collecting.rely moved⟩
  refine .passing at' trivial fun choice before answer after passed => ?_
  have still := (collecting.rely passed.moved).deliberated passed.ran
  cases answer with
  | error error =>
    exact fun later _ moved => ⟨passed.since.trans moved.since, passed.at'.rely moved,
      still.rely moved⟩
  | ok _ =>
    refine .act passed.at' not_false (fun later _ moved _ => ⟨trivial, still.rely moved⟩) ?_
    intro choice' later result last passed'
    have recorded := (still.rely passed'.moved).recorded passed'.ran
    exact fun last' _ moved' => ⟨(passed.since.trans passed'.since).trans moved'.since,
      passed'.at'.rely moved', recorded.rely (lock passed'.at') moved'⟩

/-- Collecting under the request lock gives it back: the request is spent, or is
as it was. -/
theorem collect_safe (below : Below held .requests) (inv : Inv deployment service)
    (at' : At tid (.requests :: held) service)
    (collecting : Collecting deployment tid intended grant service) :
    Safely deployment tid
      (Ends tid held service (fun result journal => ∀ receipt approver,
        result = .ok (receipt, approver) →
          Note.collected tid intended grant receipt ∈ journal ∧ approver = grant.approver))
      (collect deployment intended grant) past service := by
  unfold collect
  refine .bind (recordApproval_safe at' collecting) inv fun past result after inv ⟨since, at', recorded⟩ => ?_
  have member : Lock.requests ∈ Lock.requests :: held := List.mem_cons_self
  have lock := (at'.locks .requests).mpr member
  cases result with
  | error error =>
    have collecting : Collecting deployment tid intended grant after := recorded
    refine .act at' not_false (fun later _ moved at' => ⟨at'.has member, fun id same note inside collects => ?_⟩)
      (fun choice later answer last passed => .done (since.trans passed.since)
        (below.given ▸ passed.at') (by intro _ _ _ _ same; cases same))
    have collecting := collecting.rely moved
    rw [collecting.collecting] at same
    cases same
    exact collecting.uncollected note inside collects
  | ok minted =>
    obtain ⟨receipt, approver⟩ := minted
    obtain ⟨spending, collected, same⟩ := recorded
    refine .act at' not_false (fun later _ moved at' => ⟨at'.has member, ?_, _,
        moved.journal.subset collected, rfl⟩)
      (fun choice later answer last passed => .done (since.trans passed.since)
        (below.given ▸ passed.at') ?_)
    · rw [moved.requests lock]
      exact spending
    · intro journal grows receipt' approver' result
      cases result
      refine ⟨grows.subset (passed.since.journal.subset collected), same⟩

/-! ## Finding an agreement -/

/-- An agreement in the record, for this very action in this very session, can be
collected for it. -/
theorem HeldOk.grants {request : Approvals.Held} {by_ : Approver} {journal : Journal} {reading : Nat}
    (ok : HeldOk deployment journal request) (state : request.state = .approved by_ true)
    (action : request.action = deployment.approvals.actionOf intended)
    (session : request.asked.session = intended.decision.session.id)
    (recorded : Note.recorded tid intended ∈ journal)
    (verdict : intended.decision.verdict = .needsApproval) :
    Journal.Grants deployment.approvals (journal ++ [.found tid request.asked.id reading]) tid
      intended (request.grant by_) := by
  obtain ⟨raiser, root, raised, same⟩ := ok.raised
  obtain ⟨answerer, answer, -, asked, approver, -, inRecord⟩ := ok.approved _ _ state
  refine ⟨List.mem_append_left _ recorded, verdict, ⟨reading, by simp [Approvals.Held.grant]⟩,
    raiser, root, answer, request.redeemBy, ?_, (inRecord rfl).grow (List.prefix_append _ _), ?_,
    same.symm.trans action, ?_, ?_, ?_⟩ <;> simp [asked, raised, session, approver, Approvals.Held.grant]

/-- What is found under the request lock is held by it. -/
theorem Inv.found (inv : Inv deployment service) {request : Approvals.Held} {by_ : Approver}
    (free : service.locks .requests = none) (member : request ∈ service.approvals.requests)
    (state : request.state = .approved by_ true)
    (action : request.action = deployment.approvals.actionOf intended)
    (session : request.asked.session = intended.decision.session.id)
    (recorded : Note.recorded tid intended ∈ service.journal)
    (verdict : intended.decision.verdict = .needsApproval)
    (lock : after.locks .requests = some tid)
    (collecting : after.approvals.collecting = some request.asked.id)
    (still : request ∈ after.approvals.requests) {reading : Nat}
    (journal : after.journal = service.journal ++ [.found tid request.asked.id reading]) :
    Collecting deployment tid intended (request.grant by_) after where
  lock := lock
  collecting := collecting
  grants := journal ▸ (inv.requests.held request member).grants state action session recorded verdict
  held := ⟨request, still, by_, state, rfl⟩
  uncollected := by
    intro note inside collects
    rw [journal] at inside
    rcases List.mem_append.mp inside with old | new
    · have opened : request.isOpen = true := by
        simp [Approvals.Held.isOpen, state, Approvals.State.isRedeemed]
      have busy := inv.requests.unspent request member opened note old collects
      rw [inv.collecting free] at busy
      cases busy
    · rw [List.mem_singleton] at new
      subst new
      cases collects

/-! ## Asking -/

/-- A request a call is to see answered: it raised or joined it, in the session
its own decision is about. -/
structure Journal.Awaits (journal : Journal) (tid : Nat) (intended : Intended) (asked : Asked) :
    Prop where
  pursues : journal.Pursues tid asked.id
  raised : ∃ raiser root, Note.raised raiser root asked ∈ journal
  session : asked.session = intended.decision.session.id

theorem Journal.Awaits.grow {journal later : Journal} {asked : Asked}
    (awaits : journal.Awaits tid intended asked) (grows : journal <+: later) :
    later.Awaits tid intended asked where
  pursues := awaits.pursues.grow grows
  raised := by
    obtain ⟨raiser, root, raised⟩ := awaits.raised
    exact ⟨raiser, root, grows.subset raised⟩
  session := awaits.session

/-- What an ask leaves, by what it finds. -/
def AskLeft (deployment : Deployment) (tid : Nat) (intended : Intended) (after : Service) :
    Approvals.Asking → Prop
  | .collect grant => Collecting deployment tid intended grant after
  | .answered (.ok (.waiting ask)) | .answered (.ok (.lapsed ask _)) =>
    after.journal.Awaits tid intended ask.asked
  | _ => True

/-- Whether an ask keeps the request lock. -/
def holdsAfter : Approvals.Asking → Bool
  | .collect _ => true
  | _ => false

theorem RequestStep.ask_left {asking : Approvals.Asking} (inv : Inv deployment service)
    (recorded : Note.recorded tid intended ∈ service.journal)
    (verdict : intended.decision.verdict = .needsApproval)
    (ran : (Step.requests (.ask intended)).run deployment tid choice service = some (asking, after)) :
    ((Step.requests (.ask intended)).effect deployment tid choice service).holds = holdsAfter asking ∧
      AskLeft deployment tid intended after asking := by
  obtain ⟨unused, permits, rfl, rfl⟩ := Step.ran ran
  have free : service.locks .requests = none := of_decide_eq_true permits
  have outcome := deployment.approvals.ask_case service.clock ⟨choice.draw⟩ intended
    service.approvals.requests
  clear ran
  simp only [Step.effect, RequestStep.effect]
  generalize deployment.approvals.ask service.clock ⟨choice.draw⟩ intended
    service.approvals.requests = result at outcome
  obtain ⟨asking, requests⟩ := result
  simp only at outcome
  cases outcome with
  | @collect found by_ member mine within state =>
    have old := (List.mem_filter.mp member).1
    rw [Approvals.Held.isFor_iff] at mine
    refine ⟨rfl, inv.found free old state mine.1.2 mine.1.1 recorded verdict ?_ rfl member rfl⟩
    simp [Service.locksAfter, Step.use, RequestStep.use]
  | refused | full => exact ⟨rfl, trivial⟩
  | @pending found member about =>
    obtain ⟨raiser, root, raised, -⟩ := (inv.requests.held found (List.mem_filter.mp member).1).raised
    simp only [Approvals.Held.isAbout, Bool.and_eq_true, decide_eq_true_eq] at about
    exact ⟨rfl, .inr (by simp [askNotes, Ask.asked]), ⟨raiser, root, List.mem_append_left _ raised⟩,
      about.1⟩
  | raised =>
    exact ⟨rfl, .inl ⟨intended, _, List.mem_append_right _ (List.mem_singleton_self _), rfl⟩,
      ⟨tid, intended, List.mem_append_right _ (List.mem_singleton_self _)⟩, rfl⟩
  | @lapsed gone by_ _ _ _ _ found =>
    have noted : Note.raised tid intended (deployment.approvals.raise service.clock ⟨choice.draw⟩
        intended) ∈ askNotes deployment.approvals tid service.clock intended
          service.approvals.requests (.answered (.ok (.lapsed (.new (deployment.approvals.raise
            service.clock ⟨choice.draw⟩ intended)) by_))) := by
      simp [askNotes, found, Ask.asked]
    exact ⟨rfl, .inl ⟨intended, _, List.mem_append_right _ noted, rfl⟩,
      ⟨tid, intended, List.mem_append_right _ noted⟩, rfl⟩

/-- What asking comes to. -/
def Journal.Answered (tid : Nat) (intended : Intended) (journal : Journal) :
    Except MediationError (Approvals.Standing (Receipt × Approver)) → Prop
  | .ok (.ready (receipt, _)) => journal.Minted tid intended receipt
  | .ok (.waiting ask) | .ok (.lapsed ask _) => journal.Awaits tid intended ask.asked
  | _ => True

theorem askWith_safe (below : Below held .requests) (at' : At tid held service)
    (recorded : Note.recorded tid intended ∈ service.journal)
    (proof : intended.proof = some intended.entry.sequence)
    (mine : (tid, intended.entry.sequence) ∈ service.proofs) :
    Safely deployment tid
      (Ends tid held service (fun result journal => journal.Answered tid intended result))
      (askWith deployment intended) past service := by
  unfold askWith
  split
  · exact .done (.refl service) at' (fun _ _ => trivial)
  rename_i verdict
  have verdict : intended.decision.verdict = .needsApproval := by simpa using verdict
  refine .act at' not_false (fun later _ moved at' => ⟨at'.takes below, moved.journal.subset recorded,
    verdict, proof, moved.proofs _ mine⟩) (fun choice later asking after passed => ?_)
  obtain ⟨holds, left⟩ := RequestStep.ask_left passed.inv (passed.moved.journal.subset recorded)
    verdict passed.ran
  have stands := passed.at'
  rw [holds] at stands
  match asking with
  | .answered (.error error) => exact .done passed.since stands (fun _ _ => trivial)
  | .answered (.ok (.refused by_)) => exact .done passed.since stands (fun _ _ => trivial)
  | .answered (.ok (.waiting ask)) =>
    exact .done passed.since stands (fun _ grows => Journal.Awaits.grow left grows)
  | .answered (.ok (.lapsed ask by_)) =>
    exact .done passed.since stands (fun _ grows => Journal.Awaits.grow left grows)
  | .collect grant =>
    change Safely _ _ _ (collect deployment intended grant >>= _) _ _
    refine .bind (collect_safe below passed.kept stands left) passed.kept
      fun past result last inv ⟨since, at', collected⟩ => ?_
    refine .done (passed.since.trans since) at' (fun journal grows => ?_)
    match result with
    | .error error => trivial
    | .ok (receipt, approver) =>
      exact .inr ⟨grant, grows.subset (collected receipt approver rfl).1⟩

/-! ## Redeeming -/

theorem RequestStep.redeem_left {asked : Asked} {principal : PrincipalId}
    {result : Except ApprovalError Grant} (inv : Inv deployment service)
    (recorded : Note.recorded tid intended ∈ service.journal)
    (verdict : intended.decision.verdict = .needsApproval)
    (awaits : service.journal.Awaits tid intended asked)
    (ran : (Step.requests (.redeem asked.id principal (deployment.approvals.actionOf intended))).run
      deployment tid choice service = some (result, after)) :
    ((Step.requests (.redeem asked.id principal (deployment.approvals.actionOf intended))).effect
        deployment tid choice service).holds = result.toBool ∧
      ∀ grant, result = .ok grant → Collecting deployment tid intended grant after := by
  obtain ⟨unused, permits, rfl, rfl⟩ := Step.ran ran
  have free : service.locks .requests = none := of_decide_eq_true permits
  clear ran
  simp only [Step.effect, RequestStep.effect]
  cases redeemed : service.approvals.requests.redeem service.clock asked.id principal
      (deployment.approvals.actionOf intended) with
  | error error => exact ⟨rfl, fun _ same => by cases same⟩
  | ok grant =>
    obtain ⟨found, member, by_, id, -, action, within, state, rfl⟩ :=
      Approvals.Requests.redeem_eq_ok redeemed
    refine ⟨rfl, fun _ same => ?_⟩
    cases same
    -- The identifier names the request this call awaits.
    obtain ⟨raiser, root, raised⟩ := awaits.raised
    obtain ⟨raiser', root', raised', -⟩ := (inv.requests.held found member).raised
    obtain ⟨-, -, rfl⟩ := inv.history.raised_unique raised' raised id
    refine inv.found free member state action awaits.session recorded verdict ?_ rfl member rfl
    simp [Service.locksAfter, Step.use, RequestStep.use]

theorem redeemActionWith_safe {asked : Asked} {principal : PrincipalId}
    (below : Below held .requests) (at' : At tid held service)
    (recorded : Note.recorded tid intended ∈ service.journal)
    (verdict : intended.decision.verdict = .needsApproval)
    (awaits : service.journal.Awaits tid intended asked) :
    Safely deployment tid
      (Ends tid held service (fun result journal => ∀ receipt approver,
        result = .ok (receipt, approver) → journal.Minted tid intended receipt))
      (redeemActionWith deployment asked.id principal intended.decision.action intended)
      past service := by
  unfold redeemActionWith
  refine .act at' not_false (fun later _ moved at' =>
    ⟨at'.takes below, awaits.pursues.grow moved.journal⟩) (fun choice later result after passed => ?_)
  have grows := passed.moved.journal
  obtain ⟨holds, left⟩ := RequestStep.redeem_left passed.inv (grows.subset recorded) verdict
    (awaits.grow grows) passed.ran
  have stands := passed.at'
  rw [show deployment.format.sha256 = deployment.approvals.sha256 from rfl,
    show digestAction deployment.approvals.sha256 intended.decision.action intended.agentIntent =
      deployment.approvals.actionOf intended from rfl, holds] at stands
  cases result with
  | error error => exact .done passed.since stands (by intro _ _ _ _ same; cases same)
  | ok grant =>
    change Safely _ _ _ (collect deployment intended grant) _ _
    refine Safe.weaken (collect_safe below passed.kept stands (left grant rfl)) ?_
    intro past result last _ ⟨since, at', collected⟩
    exact ⟨passed.since.trans since, at', fun receipt approver same =>
      .inr ⟨grant, (collected receipt approver same).1⟩⟩

end McpSsh.Bastion
