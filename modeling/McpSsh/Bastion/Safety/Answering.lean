import McpSsh.Bastion.Safety.Approving

/-!
# Answers, and what they lead to

An answer is applied under the request lock and recorded after it. A standing
agreement answers while the standing lock keeps it in the table, so it cannot be
withdrawn between its answer and the mark that the answer is in the record.
-/

namespace McpSsh.Bastion

open Interleaving

variable {deployment : Deployment} {tid : Nat} {choice : Choice} {service after : Service}
variable {past : List Took} {held : List Lock} {intended : Intended} {β : Type} {answer : β}

/-! ## What a step of one kind leaves of the others -/

theorem RequestStep.standing_eq {step : RequestStep β}
    (ran : (Step.requests step).run deployment tid choice service = some (answer, after)) :
    after.standing = service.standing := by
  obtain ⟨-, -, -, rfl⟩ := Step.ran ran
  rfl

theorem SessionStep.approvals_eq {step : SessionStep β}
    (ran : (Step.sessions step).run deployment tid choice service = some (answer, after)) :
    after.approvals = service.approvals ∧ after.standing = service.standing := by
  obtain ⟨-, -, -, rfl⟩ := Step.ran ran
  exact ⟨rfl, rfl⟩

theorem LedgerStep.standing_eq {step : LedgerStep β}
    (ran : (Step.ledger step).run deployment tid choice service = some (answer, after)) :
    after.standing = service.standing := by
  obtain ⟨-, -, -, rfl⟩ := Step.ran ran
  rfl

/-! ## In whose name -/

/-- An approver of a request is a person, or the agreement its call has selected
for the session of a request it pursues. -/
def Voices (tid : Nat) (request : RequestId) (approver : Approver) (service : Service) : Prop :=
  ∀ id, approver.agreement = some id → service.journal.Pursues tid request ∧
    ∃ raiser root asked, Note.raised raiser root asked ∈ service.journal ∧ asked.id = request ∧
      Speaks tid service approver asked.session

theorem Voices.of_person {request : RequestId} {approver : Approver}
    (person : approver.agreement = none) : Voices tid request approver service := by
  intro id named
  rw [person] at named
  cases named

theorem Voices.rely {request : RequestId} {approver : Approver}
    (voices : Voices tid request approver service) (moved : Rely tid service after) :
    Voices tid request approver after := by
  intro id named
  obtain ⟨pursues, raiser, root, asked, raised, same, speaks⟩ := voices id named
  exact ⟨pursues.grow moved.journal, raiser, root, asked, moved.journal.subset raised, same,
    speaks.rely moved⟩

/-- An approver's own call leaves its agreement in the table. -/
theorem Voices.passed {request : RequestId} {approver : Approver} {later : List Lock}
    {step : Step β} {before : Service} (voices : Voices tid request approver service)
    (at' : At tid held service)
    (passed : Passed deployment tid later step choice service before answer after)
    (standing : after.standing = before.standing)
    (keeps : Lock.standing ∈ held → Lock.standing ∈ later) :
    Voices tid request approver after := by
  intro id named
  obtain ⟨pursues, raiser, root, asked, raised, same, speaks⟩ := voices.rely passed.moved id named
  have grows := (Step.since passed.inv passed.ran).journal
  refine ⟨pursues.grow grows, raiser, root, asked, grows.subset raised, same, fun id named => ?_⟩
  obtain ⟨lock, agreement, member, id', answersAs, session, reading, selected⟩ := speaks id named
  exact ⟨(passed.at'.locks _).mpr (keeps (((at'.rely passed.moved).locks _).mp lock)), agreement,
    standing ▸ member, id', answersAs, session, reading, grows.subset selected⟩

/-- What an approver says of a request, it says in the request's session. -/
theorem Voices.speaks {approver : Approver} {asked : Asked} (inv : Inv deployment service)
    (voices : Voices tid asked.id approver service)
    (raised : ∃ raiser root, Note.raised raiser root asked ∈ service.journal) :
    (approver.agreement ≠ none → service.journal.Pursues tid asked.id) ∧
      Speaks tid service approver asked.session := by
  constructor
  · intro named
    obtain ⟨id, same⟩ := Option.ne_none_iff_exists'.mp named
    exact (voices id same).1
  · intro id named
    obtain ⟨-, raiser, root, other, raisedOther, same, speaks⟩ := voices id named
    obtain ⟨raiser', root', raised⟩ := raised
    obtain ⟨-, -, rfl⟩ := inv.history.raised_unique raisedOther raised same
    exact speaks id named

/-! ## Applying an answer -/

theorem RequestStep.decidable_left {request : RequestId}
    {result : Except ApprovalError (Approvals.Held × Nat)} (inv : Inv deployment service)
    (ran : (Step.requests (.decidable request)).run deployment tid choice service =
      some (result, after)) :
    ((Step.requests (.decidable request)).effect deployment tid choice service).holds =
        result.toBool ∧
      ∀ found reading, result = .ok (found, reading) → found ∈ after.approvals.requests ∧
        after.approvals.collecting = none ∧ found.asked.id = request ∧ found.state = .waiting ∧
        ∃ raiser root, Note.raised raiser root found.asked ∈ after.journal := by
  obtain ⟨unused, permits, rfl, rfl⟩ := Step.ran ran
  have free : service.locks .requests = none := of_decide_eq_true permits
  clear ran
  simp only [Step.effect, RequestStep.effect]
  cases decidable : service.approvals.requests.decidable service.clock request with
  | error error => exact ⟨rfl, fun _ _ same => by cases same⟩
  | ok found =>
    obtain ⟨member, id, waiting, -⟩ := Approvals.Requests.decidable_eq_ok decidable
    refine ⟨rfl, fun _ _ same => ?_⟩
    cases same
    obtain ⟨raiser, root, raised, -⟩ := (inv.requests.held found member).raised
    exact ⟨member, inv.collecting free, id, waiting, raiser, root, List.mem_append_left _ raised⟩

/-- What an answer that was applied is, and where it is. -/
def Journal.Applied (journal : Journal) (request : RequestId) (approver : Approver) (agreed : Bool) :
    Except MediationError Answer → Prop
  | .ok answer => answer.approver = approver ∧ answer.asked.id = request ∧
    (agreed = true → ∃ redeemBy, journal.Agreed answer redeemBy)
  | .error _ => True

theorem LedgerStep.recordAnswer_left {given : Answer} {result : Except AuditError Entry}
    (ran : (Step.ledger (.recordAnswer given)).run deployment tid choice service =
      some (result, after)) (inv : Inv deployment service) :
    ∀ entry, result = .ok entry → Note.committed entry ∈ after.journal ∧ entry.event = given.event ∧
      entry.who = given.asked.attribution := by
  obtain ⟨unused, permits, rfl, rfl⟩ := Step.ran ran
  clear ran
  simp only [Step.effect, LedgerStep.effect]
  rcases inv.record.represents.append deployment.limits (service.alive choice.extra) service.clock
    choice.accepts given.asked.attribution given.event with
    ⟨error, ledger, refused, -⟩ | ⟨-, ledger, entry, appended, -, -, who, event, -⟩
  · rw [refused]
    intro entry same
    cases same
  · rw [appended]
    intro entry' same
    cases same
    exact ⟨by simp, event, who⟩

/-- An answer that agrees is an agreement once its record is committed. -/
theorem recordAnswer_safe {given : Answer} {redeemBy : Nat} (at' : At tid held service)
    (answered : Note.answered tid given redeemBy ∈ service.journal)
    {request : RequestId} {approver : Approver} (voices : Voices tid request approver service) :
    Safely deployment tid
      (fun _ result after => (Since service after ∧ At tid held after ∧
        Voices tid request approver after) ∧ ∀ entry, result = .ok entry → given.agreed = true →
          after.journal.Agreed given redeemBy)
      (recordAnswer given) past service := by
  unfold recordAnswer
  refine .passing at' trivial fun choice before result first passed => ?_
  have voices := voices.passed at' passed (LedgerStep.standing_eq passed.ran) id
  have answered := passed.since.journal.subset answered
  match result with
  | .error error =>
    exact fun later _ moved => ⟨⟨passed.since.trans moved.since, passed.at'.rely moved,
      voices.rely moved⟩, fun _ same => by cases same⟩
  | .ok () =>
    refine .act passed.at' not_false (fun later _ moved _ => ⟨trivial, redeemBy,
      moved.journal.subset answered⟩) fun choice' before' result last passed' => ?_
    have voices := voices.passed passed.at' passed' (LedgerStep.standing_eq passed'.ran) id
    have at' : At tid held last := passed'.at'
    have left := LedgerStep.recordAnswer_left passed'.ran passed'.inv
    refine fun later _ moved => ⟨⟨(passed.since.trans passed'.since).trans moved.since,
      at'.rely moved, voices.rely moved⟩, fun entry same agreed => ?_⟩
    obtain ⟨committed, event, who⟩ := left entry same
    exact ⟨agreed, ⟨tid, moved.journal.subset (passed'.since.journal.subset answered)⟩, entry,
      moved.journal.subset committed, event, who⟩

theorem applyAnswer_safe {request : RequestId} {approver : Approver} {agreed : Bool}
    (below : Below held .requests) (at' : At tid held service)
    (voices : Voices tid request approver service) :
    Safely deployment tid
      (Ends tid held service (fun result journal => journal.Applied request approver agreed result))
      (applyAnswer request approver agreed) past service := by
  have member : Lock.requests ∈ Lock.requests :: held := List.mem_cons_self
  have sessions : Below (.requests :: held) .sessions := by
    intro other inside
    rcases List.mem_cons.mp inside with rfl | old
    · decide
    · exact (below other old).trans (by decide)
  unfold applyAnswer
  split
  · exact .done (.refl service) at' (fun _ _ => trivial)
  rename_i stated
  have stated : approver.isStated = true := by simpa using stated
  refine .act at' not_false (fun later _ moved at' => ⟨at'.takes below, trivial⟩) ?_
  intro choice before result first passed
  obtain ⟨holds, left⟩ := RequestStep.decidable_left passed.inv passed.ran
  match result with
  | .error error =>
    exact .done passed.since (passed.leaves holds rfl).at' (fun _ _ => trivial)
  | .ok (found, reading) =>
  obtain ⟨inside, idle, rfl, waiting, raised⟩ := left found reading rfl
  have passed := passed.leaves holds (show _ = .requests :: held from rfl)
  have voices := voices.passed at' passed (RequestStep.standing_eq passed.ran)
    (List.mem_cons_of_mem _)
  -- Whether the session can still redeem, under both locks.
  refine .passing passed.at' sessions fun choice' before' lives second passed' => ?_
  have lock := (passed.at'.locks _).mpr member
  have same : second.approvals = first.approvals :=
    (SessionStep.approvals_eq passed'.ran).1.trans (passed'.moved.requests lock)
  rw [← same] at inside idle
  have voices := voices.passed passed.at' passed' (SessionStep.approvals_eq passed'.ran).2 id
  have lock := (passed'.at'.locks _).mpr member
  have since := passed.since.trans passed'.since
  cases lives with
  | false =>
    refine .act passed'.at' not_false (fun later _ moved at' => ⟨at'.has member, fun id busy => ?_⟩)
      fun choice₃ before₃ _ third passed₃ => .done (since.trans passed₃.since)
        (below.given ▸ passed₃.at') (fun _ _ => trivial)
    rw [moved.requests lock, idle] at busy
    cases busy
  | true =>
    obtain ⟨raiser, root, raised⟩ := raised
    have raised := passed'.since.journal.subset raised
    refine .act passed'.at' not_false (fun later inv moved at' => ?_) fun choice₃ before₃ given third passed₃ => ?_
    · obtain ⟨pursues, speaks⟩ := (voices.rely moved).speaks inv
        ⟨raiser, root, moved.journal.subset raised⟩
      refine ⟨at'.has member, ?_, ?_, waiting, stated, pursues, speaks⟩ <;>
        rw [moved.requests lock]
      · exact idle
      · exact inside
    have passed₃ := passed₃.leaves rfl below.given
    have voices := voices.passed passed'.at' passed₃ (RequestStep.standing_eq passed₃.ran)
      (fun inside => by
        rcases List.mem_cons.mp inside with same | old
        · cases same
        · exact old)
    have since := since.trans passed₃.since
    obtain ⟨answered, about⟩ : (∃ redeemBy, Note.answered tid given redeemBy ∈ third.journal) ∧
        given.asked = found.asked ∧ given.approver = approver ∧ given.agreed = agreed := by
      obtain ⟨-, -, rfl, rfl⟩ := Step.ran passed₃.ran
      exact ⟨⟨_, List.mem_append_right _ (List.mem_singleton_self _)⟩, rfl, rfl, rfl⟩
    obtain ⟨redeemBy, answered⟩ := answered
    obtain ⟨asked, by_, yes⟩ := about
    change Safely _ _ _ (recordAnswer given >>= _) _ _
    refine .bind (recordAnswer_safe passed₃.at' answered voices) passed₃.kept ?_
    intro past result fourth inv ⟨⟨since', at', voices⟩, recorded⟩
    match result with
    | .error error => exact .done (since.trans since') at' (fun _ _ => trivial)
    | .ok entry =>
    cases agreed with
    | false =>
      exact .done (since.trans since') at' (fun _ _ => ⟨by_, by rw [asked], fun no => by cases no⟩)
    | true =>
      have inRecord := recorded entry rfl yes
      have answered := since'.journal.subset answered
      refine .act at' not_false (fun later inv moved at' => ?_) fun choice₅ before₅ _ fifth passed₅ => ?_
      · refine ⟨at'.takes below, given, redeemBy, moved.journal.subset answered,
          inRecord.grow moved.journal, by rw [asked], ?_⟩
        rw [asked, by_]
        exact ((voices.rely moved).speaks inv ⟨raiser, root, (since'.trans moved.since).journal.subset
          (passed₃.since.journal.subset raised)⟩).2
      · exact .done ((since.trans since').trans passed₅.since) passed₅.at' (fun _ grows =>
          ⟨by_, by rw [asked], fun _ => ⟨redeemBy, (inRecord.grow passed₅.since.journal).grow grows⟩⟩)

/-! ## Under a standing agreement -/

theorem StandingStep.select_left {session : SessionId}
    {result : Option Approvals.StandingApproval}
    (ran : (Step.standing (.select session)).run deployment tid choice service =
      some (result, after)) :
    ((Step.standing (.select session)).effect deployment tid choice service).holds = result.isSome ∧
      ∀ agreement, result = some agreement → agreement ∈ after.standing ∧
        agreement.session = session ∧ ∃ reading, Note.selected tid agreement reading ∈ after.journal := by
  obtain ⟨unused, permits, rfl, rfl⟩ := Step.ran ran
  clear ran
  simp only [Step.effect, StandingStep.effect]
  cases selected : service.standing.select service.clock session with
  | none => exact ⟨rfl, fun _ same => by cases same⟩
  | some agreement =>
    have about := List.find?_some selected
    simp only [Bool.and_eq_true, decide_eq_true_eq] at about
    refine ⟨rfl, fun _ same => ?_⟩
    cases same
    exact ⟨List.mem_of_find?_eq_some selected, about.1, service.clock,
      List.mem_append_right _ (List.mem_singleton_self _)⟩

/-- A standing agreement answers a request of its session, and the answer is
collected, before the agreement can be withdrawn. -/
theorem useStanding_safe {principal : PrincipalId} {asked : Asked} (at' : At tid [] service)
    (recorded : Note.recorded tid intended ∈ service.journal)
    (verdict : intended.decision.verdict = .needsApproval)
    (awaits : service.journal.Awaits tid intended asked) :
    Safely deployment tid
      (Ends tid [] service (fun result journal => ∀ receipt approver,
        result = some (.ok (receipt, approver)) → journal.Minted tid intended receipt))
      (useStanding deployment principal intended.decision.session.id intended.decision.action
        intended asked.id) past service := by
  have below : Below [.standing] .requests := .single (by decide)
  have bottom := Below.nil .standing
  -- Whatever came of it, the standing lock is given back.
  have given : ∀ {past : List Took} {start now : Service} (result : Option (Except MediationError
      (Receipt × Approver))), Since start now → At tid [.standing] now →
      (∀ receipt approver, result = some (.ok (receipt, approver)) →
        now.journal.Minted tid intended receipt) →
      Safely deployment tid (Ends tid [] start (fun result journal => ∀ receipt approver,
        result = some (.ok (receipt, approver)) → journal.Minted tid intended receipt))
        (Prog.standing .unlock >>= fun _ => pure result) past now := by
    intro past start now result since at' minted
    refine .act at' not_false (fun later _ moved at' => ⟨at'.has (List.mem_singleton_self _), trivial⟩)
      fun choice before _ after passed => .done (since.trans passed.since)
        (passed.leaves rfl bottom.given).at' (fun journal grows receipt approver same => ?_)
    exact ((minted receipt approver same).grow passed.since.journal).grow grows
  unfold useStanding
  refine .act at' not_false (fun later _ moved at' => ⟨at'.takes bottom, trivial⟩) ?_
  intro choice before result first passed
  obtain ⟨holds, left⟩ := StandingStep.select_left passed.ran
  match result with
  | none => exact .done passed.since (passed.leaves holds rfl).at' (by intro _ _ _ _ same; cases same)
  | some agreement =>
  obtain ⟨member, session, reading, selected⟩ := left agreement rfl
  have passed := passed.leaves holds (show _ = [.standing] from rfl)
  have lock : first.locks .standing = some tid :=
    (passed.at'.locks _).mpr (List.mem_singleton_self _)
  have awaits := awaits.grow passed.since.journal
  obtain ⟨raiser, root, raised⟩ := awaits.raised
  have voices : Voices tid asked.id agreement.approver first := by
    intro id _
    refine ⟨awaits.pursues, raiser, root, asked, raised, rfl, fun id' named => ?_⟩
    cases named
    exact ⟨lock, agreement, member, rfl, rfl, by rw [session, awaits.session], reading, selected⟩
  change Safely _ _ _ (applyAnswer asked.id agreement.approver true >>= _) _ _
  refine .bind (applyAnswer_safe below passed.at' voices) passed.kept ?_
  intro past result second inv ⟨since, at', _⟩
  have awaits := awaits.grow since.journal
  have since := passed.since.trans since
  match result with
  | .error error => exact given _ since at' (by intro _ _ same; cases same)
  | .ok answer =>
    change Safely _ _ _ (redeemActionWith deployment asked.id principal intended.decision.action
      intended >>= _) _ _
    refine .bind (redeemActionWith_safe below at' (since.journal.subset recorded) verdict awaits) inv ?_
    intro past result third inv ⟨since', at', minted⟩
    exact given _ (since.trans since') at' (by
      intro receipt approver same
      cases same
      exact minted receipt approver rfl)

/-! ## Admission -/

/-- What is ready to run has a receipt its call was handed, and what is held has
not run. -/
def Journal.Admits (journal : Journal) (tid : Nat) (intended : Intended) :
    Except MediationError Admission → Prop
  | .ok (.ready decision receipt _) =>
    decision = intended.decision ∧ journal.Minted tid intended receipt
  | .ok (.held (.ran ..)) => False
  | _ => True

theorem awaitApproval_safe {principal : PrincipalId} {ask : Ask} {lapsedFrom : Option Approver}
    (inv : Inv deployment service) (at' : At tid [] service)
    (recorded : Note.recorded tid intended ∈ service.journal)
    (verdict : intended.decision.verdict = .needsApproval)
    (awaits : service.journal.Awaits tid intended ask.asked) :
    Safely deployment tid
      (Ends tid [] service (fun result journal => journal.Admits tid intended result))
      (awaitApproval deployment principal intended.decision.session.id intended.decision.action
        intended ask lapsedFrom) past service := by
  unfold awaitApproval
  refine .bind (useStanding_safe at' recorded verdict awaits) inv ?_
  intro past result after _ ⟨since, at', minted⟩
  match result with
  | some (.error error) => exact .done since at' (fun _ _ => trivial)
  | some (.ok (receipt, approver)) =>
    exact .done since at' (fun _ grows => ⟨rfl, (minted receipt approver rfl).grow grows⟩)
  | none => cases lapsedFrom <;> exact .done since at' (fun _ _ => trivial)

theorem admission_safe {principal : PrincipalId} (inv : Inv deployment service)
    (at' : At tid [] service) (recorded : Note.recorded tid intended ∈ service.journal)
    (proof : intended.decision.verdict = .needsApproval →
      intended.proof = some intended.entry.sequence ∧
        (tid, intended.entry.sequence) ∈ service.proofs) :
    Safely deployment tid
      (Ends tid [] service (fun result journal => journal.Admits tid intended result))
      (admission deployment principal intended.decision.session.id intended.decision.action intended)
      past service := by
  unfold admission
  cases verdict : intended.decision.verdict with
  | deny => exact .done (.refl service) at' (fun _ _ => trivial)
  | permit =>
    cases same : intended.receipt with
    | none => exact .done (.refl service) at' (fun _ _ => trivial)
    | some receipt =>
      exact .done (.refl service) at' (fun _ grows => ⟨rfl, .inl ⟨grows.subset recorded, same⟩⟩)
  | needsApproval =>
    obtain ⟨proof, mine⟩ := proof verdict
    have bottom := Below.nil .requests
    refine .bind (askWith_safe bottom at' recorded proof mine) inv ?_
    intro past result after inv ⟨since, at', answered⟩
    have recorded := since.journal.subset recorded
    have from_ : ∀ {ask lapsedFrom}, after.journal.Awaits tid intended ask.asked →
        Safely deployment tid
          (Ends tid [] service (fun result journal => journal.Admits tid intended result))
          (awaitApproval deployment principal intended.decision.session.id
            intended.decision.action intended ask lapsedFrom) past after := by
      intro ask lapsedFrom awaits
      exact Safe.weaken (awaitApproval_safe inv at' recorded verdict awaits)
        (fun _ _ _ _ ends => ⟨since.trans ends.1, ends.2⟩)
    match result with
    | .error error => exact .done since at' (fun _ _ => trivial)
    | .ok (.ready (receipt, approver)) =>
      exact .done since at' (fun _ grows => ⟨rfl, Journal.Minted.grow answered grows⟩)
    | .ok (.refused by_) => exact .done since at' (fun _ _ => trivial)
    | .ok (.waiting ask) => exact from_ answered
    | .ok (.lapsed ask by_) => exact from_ answered

/-! ## Authorizing -/

theorem SessionStep.useSession_left {id : SessionId} {principal : PrincipalId} {session : Session}
    (inv : Inv deployment service)
    (ran : (Step.sessions (.useSession id principal)).run deployment tid choice service =
      some (.ok session, after)) :
    after.journal.Opened session ∧ session.id = id ∧ session.principal = principal := by
  obtain ⟨unused, permits, used, rfl⟩ := Step.ran ran
  have taken : service.sessions.store.useSession service.clock id principal =
      (.ok session, (service.sessions.store.useSession service.clock id principal).2) :=
    Prod.ext used.symm rfl
  obtain ⟨known, member, same, mine, -, rfl, -⟩ := Sessions.useSession_ok taken
  exact ⟨((inv.sessions.opened known member).used _).grow (List.prefix_append _ _), same, mine⟩

theorem LedgerStep.recordIntent_left {decision : Decision} {agentIntent : CommandIntent}
    (inv : Inv deployment service)
    (ran : (Step.ledger (.recordIntent decision agentIntent)).run deployment tid choice service =
      some (.ok intended, after)) :
    intended.decision = decision ∧ intended.agentIntent = agentIntent ∧
      Note.recorded tid intended ∈ after.journal ∧
      (decision.verdict = .needsApproval → intended.proof = some intended.entry.sequence ∧
        (tid, intended.entry.sequence) ∈ after.proofs) := by
  obtain ⟨unused, permits, same, rfl⟩ := Step.ran ran
  clear ran
  simp only [Step.effect, LedgerStep.effect] at same ⊢
  rcases inv.record.represents.recordIntent deployment.limits (service.alive choice.extra)
    service.clock choice.accepts decision agentIntent with
    ⟨error, ledger, refused, -⟩ |
    ⟨-, ledger, taken, done, -, -, -, sameDecision, sameIntent, -, proof, -⟩
  · rw [refused] at same
    cases same
  · rw [done] at same ⊢
    cases same
    refine ⟨sameDecision, sameIntent, by simp, fun held => ?_⟩
    have pins : intended.proof = some intended.entry.sequence := by
      rw [proof, if_pos]
      simp [Ledger.decidedEvent, Event.pins, held]
    exact ⟨pins, by simp [pins]⟩

/-- What an authorization comes to. -/
def Journal.Authorized (journal : Journal) (tid : Nat) :
    Except MediationError (Session × Admission) → Prop
  | .ok (session, admission) => journal.Opened session ∧
    ∃ intended, intended.decision.session = session ∧ journal.Admits tid intended (.ok admission)
  | .error _ => True

theorem Journal.Authorized.grow {journal later : Journal}
    {result : Except MediationError (Session × Admission)}
    (authorized : journal.Authorized tid result) (grows : journal <+: later) :
    later.Authorized tid result := by
  match result, authorized with
  | .error error, _ => trivial
  | .ok (session, .held executed), ⟨opened, intended, same, held⟩ =>
    exact ⟨opened.grow grows, intended, same, by cases executed <;> exact held⟩
  | .ok (session, .ready decision receipt approvedBy), ⟨opened, intended, same, decided, minted⟩ =>
    exact ⟨opened.grow grows, intended, same, decided, minted.grow grows⟩

theorem authorizeAction_safe {principal : PrincipalId} {id : SessionId} {agentIntent : CommandIntent}
    {action : Except MediationError Action} (at' : At tid [] service) :
    Safely deployment tid
      (Ends tid [] service (fun result journal => journal.Authorized tid result))
      (authorizeAction deployment principal id agentIntent action) past service := by
  have bottom := Below.nil .sessions
  unfold authorizeAction
  refine .passing at' trivial fun choice before stopping first passed => ?_
  cases stopping with
  | true => exact .done passed.since passed.at' (fun _ _ => trivial)
  | false =>
  refine .passing passed.at' bottom fun choice₂ before₂ result second passed₂ => ?_
  have since := passed.since.trans passed₂.since
  match result with
  | .error error => exact .done since passed₂.at' (fun _ _ => trivial)
  | .ok session =>
  obtain ⟨opened, -, -⟩ := SessionStep.useSession_left passed₂.inv passed₂.ran
  match action with
  | .error error => exact .done since passed₂.at' (fun _ _ => trivial)
  | .ok action =>
  refine .act passed₂.at' not_false (fun later _ moved _ => ⟨trivial, ?_, ?_⟩) ?_
  · rw [ReviewMode.decideAction_session]
    exact opened.grow moved.journal
  · rw [ReviewMode.decideAction_session, ReviewMode.decideAction_action]
  intro choice₃ before₃ result third passed₃
  have since := since.trans passed₃.since
  have at₃ : At tid [] third := passed₃.at'
  match result with
  | .error error => exact .done since at₃ (fun _ _ => trivial)
  | .ok intended =>
  obtain ⟨decided, -, recorded, proof⟩ := LedgerStep.recordIntent_left passed₃.inv passed₃.ran
  have about : intended.decision.session = session := by rw [decided, ReviewMode.decideAction_session]
  have action' : intended.decision.action = action := by rw [decided, ReviewMode.decideAction_action]
  subst about action'
  rw [← decided] at proof
  change Safely _ _ _ (admission deployment principal intended.decision.session.id
    intended.decision.action intended >>= _) _ _
  refine .bind (admission_safe passed₃.kept at₃ recorded proof) passed₃.kept ?_
  intro past result fourth inv ⟨since', at', admits⟩
  have opened := opened.grow (passed₃.since.trans since').journal
  refine .passing at' trivial fun choice₅ before₅ _ fifth passed₅ => ?_
  refine .done ((since.trans since').trans passed₅.since) passed₅.at' (fun journal grows => ?_)
  have grows := passed₅.since.journal.trans grows
  match result with
  | .error error => trivial
  | .ok admission =>
    have authorized : fourth.journal.Authorized tid (.ok (intended.decision.session, admission)) :=
      ⟨opened, intended, rfl, admits⟩
    exact authorized.grow grows

/-! ## Human answers -/

theorem decide_safe {request : RequestId} {approver : Approver} {agreed : Bool}
    (inv : Inv deployment service) (at' : At tid [] service) (person : approver.agreement = none) :
    Safely deployment tid (Ends tid [] service (fun _ _ => True))
      (Bastion.decide request approver agreed) past service := by
  have bottom := Below.nil .requests
  unfold Bastion.decide
  refine .bind (applyAnswer_safe bottom at' (Voices.of_person person)) inv ?_
  intro past result after _ ⟨since, at', _⟩
  exact .passing at' trivial fun choice before _ last passed =>
    .done (since.trans passed.since) passed.at' (fun _ _ => trivial)

/-- How long a standing agreement may last, as far as its grant is concerned. -/
structure Bounded (deployment : Deployment) (session : SessionId) (until_ : Nat)
    (service : Service) : Prop where
  cap : until_ ≤ satAdd service.clock deployment.standingCap
  owner : ∃ owner, service.journal.Opened owner ∧ owner.id = session ∧
    (service.sessions.store.usable service.clock session = none ∨
      until_ ≤ satAdd owner.openedAt owner.lifetime.max)

theorem Bounded.since {session : SessionId} {until_ : Nat}
    (bounded : Bounded deployment session until_ service) (since : Since service after) :
    Bounded deployment session until_ after where
  cap := bounded.cap.trans (satAdd_le_satAdd since.clock (Nat.le_refl _))
  owner := by
    obtain ⟨owner, opened, rfl, gone | ends⟩ := bounded.owner
    · exact ⟨owner, opened.grow since.journal, rfl, .inl (since.gone owner opened gone)⟩
    · exact ⟨owner, opened.grow since.journal, rfl, .inr ends⟩

/-- While the session can be used it is the one whose end was read. -/
theorem Bounded.live {session : SessionId} {until_ : Nat}
    (bounded : Bounded deployment session until_ service) (inv : Inv deployment service)
    {live : Session} (usable : service.sessions.store.usable service.clock session = some live) :
    until_ ≤ satAdd live.openedAt live.lifetime.max := by
  obtain ⟨owner, opened, same, gone | ends⟩ := bounded.owner
  · rw [gone] at usable
    cases usable
  · obtain ⟨member, id, -⟩ := (Sessions.usable_eq_some inv.sessions.ids).mp usable
    rw [inv.history.opened_unique (inv.sessions.opened live member) opened (id.trans same.symm)]
    exact ends

theorem standingUntil_safe {owner : Session} {forMillis : Option Nat} (at' : At tid [] service)
    (opened : service.journal.Opened owner) :
    Safely deployment tid
      (fun _ until_ after => (Since service after ∧ At tid [] after) ∧
        Bounded deployment owner.id until_ after)
      (standingUntil deployment owner.id forMillis) past service := by
  have bottom := Below.nil .sessions
  unfold standingUntil
  refine .passing at' trivial fun choice before reading first passed => ?_
  have read : reading ≤ first.clock := by
    obtain ⟨-, -, rfl, rfl⟩ := Step.ran passed.ran
    exact Nat.le_refl _
  refine .passing passed.at' bottom fun choice₂ before₂ ends second passed₂ => ?_
  have since := passed.since.trans passed₂.since
  have le : satAdd reading (min (forMillis.getD deployment.standingCap) deployment.standingCap) ≤
      satAdd second.clock deployment.standingCap :=
    satAdd_le_satAdd (read.trans passed₂.since.clock) (Nat.min_le_right _ _)
  have bounded : ∀ until_, until_ ≤ satAdd reading (min (forMillis.getD deployment.standingCap)
      deployment.standingCap) → (second.sessions.store.usable second.clock owner.id = none ∨
        until_ ≤ satAdd owner.openedAt owner.lifetime.max) →
      Bounded deployment owner.id until_ second := fun until_ within ends =>
    ⟨within.trans le, owner, opened.grow since.journal, rfl, ends⟩
  have left : ends = second.sessions.store.endsBy second.clock owner.id := by
    obtain ⟨-, -, rfl, rfl⟩ := Step.ran passed₂.ran
    rfl
  have finish : ∀ {past : List Took} until_, Bounded deployment owner.id until_ second →
      Safely deployment tid (fun _ until_ after => (Since service after ∧ At tid [] after) ∧
        Bounded deployment owner.id until_ after) (.done until_) past second :=
    fun until_ bounded later _ moved => ⟨⟨since.trans moved.since, passed₂.at'.rely moved⟩,
      bounded.since moved.since⟩
  cases ends with
  | none =>
    refine finish _ (bounded _ (Nat.le_refl _) (.inl ?_))
    simpa [Sessions.endsBy] using left.symm
  | some ends =>
    refine finish _ (bounded _ (Nat.min_le_left _ _) (.inr ?_))
    obtain ⟨known, usable, rfl⟩ := Option.map_eq_some_iff.mp left.symm
    obtain ⟨member, id, -⟩ := (Sessions.usable_eq_some passed₂.kept.sessions.ids).mp usable
    rw [passed₂.kept.history.opened_unique (passed₂.kept.sessions.opened known member)
      (opened.grow since.journal) id]
    exact Nat.min_le_right _ _

theorem approveSession_safe {request : RequestId} {who : String} {forMillis : Option Nat}
    (inv : Inv deployment service) (at' : At tid [] service) :
    Safely deployment tid (Ends tid [] service (fun _ _ => True))
      (Bastion.approveSession deployment request who forMillis) past service := by
  have bottom := Below.nil .requests
  have bottom' := Below.nil .standing
  unfold Bastion.approveSession
  refine .bind (applyAnswer_safe bottom at' (Voices.of_person rfl)) inv ?_
  intro past result first inv ⟨since, at', applied⟩
  match result with
  | .error error =>
    exact .passing at' trivial fun choice before _ last passed =>
      .done (since.trans passed.since) passed.at' (fun _ _ => trivial)
  | .ok answer =>
  obtain ⟨by_, -, agreed⟩ := applied
  obtain ⟨redeemBy, agreed⟩ := agreed rfl
  obtain ⟨-, ⟨answerer, answered⟩, -⟩ := id agreed
  obtain ⟨raiser, root, raised⟩ := inv.history.answered_raised answered
  obtain ⟨owner, opened, same, -⟩ := inv.history.raised_opened raised
  change Safely _ _ _ (standingUntil deployment answer.asked.session forMillis >>= _) _ _
  rw [← same]
  refine .bind (standingUntil_safe at' opened) inv ?_
  intro past until_ second inv ⟨⟨since', at'⟩, bounded⟩
  have since := since.trans since'
  have agreed := agreed.grow since'.journal
  refine .passing at' trivial fun choice₃ before₃ reading third passed₃ => ?_
  have since := since.trans passed₃.since
  have bounded := bounded.since passed₃.since
  have agreed := agreed.grow passed₃.since.journal
  refine .act passed₃.at' not_false (fun later inv moved at' => ?_) fun choice₄ before₄ agreement fourth passed₄ => ?_
  · have bounded := bounded.since moved.since
    exact ⟨at'.takes bottom', ⟨answer, redeemBy, agreed.grow moved.journal, by_, same.symm⟩,
      bounded.cap, fun live usable => bounded.live inv usable⟩
  · have at₄ : At tid [] fourth := passed₄.at'
    exact .passing at₄ trivial fun choice₅ before₅ _ fifth passed₅ =>
      .done ((since.trans passed₄.since).trans passed₅.since) passed₅.at' (fun _ _ => trivial)

end McpSsh.Bastion
