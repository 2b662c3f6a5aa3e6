import McpSsh.Approval.Collection
import McpSsh.Bastion.Worlds

/-!
# What a failed collection costs

A collection records the agreement it found while the request lock is held. If
the record is refused the request is as it was. The decision it is about may
have been sealed or retired since: the request keeps its proof, so the record
can be refused for want of room or by the recording boundary only.
-/

namespace McpSsh.Bastion

open Interleaving
open Approvals (Requests Standing Config)

variable {deployment : Deployment} {service : Service}

/-- `record_approval`, taken where the service stands, fails with an error. -/
def ApprovalFails (deployment : Deployment) (service : Service) (extra : Nat → Bool)
    (accepts : Bool) (intended : Intended) (grant : Grant) (error : AuditError) : Prop :=
  let alive := service.alive extra
  Ledger.approvalRefusal deployment.format.sha256 intended grant = some error ∨
  service.ledger.thisDeliberation alive grant.decided grant.decidedDigest
      intended.decision.session.id = .error error ∨
  ∃ ledger, service.ledger.append deployment.format deployment.limits alive service.clock accepts
    intended.decision.session.attribution grant.event = .error (error, ledger)

/-- A request with an agreement is about a decision that can be found. -/
theorem Inv.deliberated (inv : Inv deployment service) {held : Approvals.Held}
    (member : held ∈ service.approvals.requests) {by_ : Approver} {recorded : Bool}
    (state : held.state = .approved by_ recorded) (extra : Nat → Bool) :
    service.ledger.thisDeliberation (service.alive extra) held.asked.decided
      held.asked.decidedDigest held.asked.session = .ok () := by
  have ok := inv.requests.held held member
  obtain ⟨raiser, root, raised, -⟩ := ok.raised
  obtain ⟨recordedRoot, verdict, now, askedIs⟩ := inv.history.raised raised
  obtain ⟨committed, event, who, -⟩ := inv.history.recorded recordedRoot
  have place : held.asked.decided = root.entry.sequence := by rw [askedIs]; rfl
  have digest : held.asked.decidedDigest = root.entry.digest := by rw [askedIs]; rfl
  have session : held.asked.session = root.entry.who.session := by rw [askedIs, who]; rfl
  have proof := ok.proof (.inr (by simp [state, Approvals.State.agreedBy]))
  have needed : Needed service.approvals.requests service.proofs root.entry.sequence :=
    .inl ⟨held, member, by rw [proof, place]⟩
  rw [place, digest, session]
  exact inv.record.represents.thisDeliberation (Journal.mem_entries.mpr committed) event verdict
    (service.alive_of_needed extra needed) (inv.record.pinned _ needed)

/-- The record of an agreement can only be refused for want of room or by the
recording boundary. -/
theorem Inv.approvalFails (inv : Inv deployment service) {held : Approvals.Held}
    (member : held ∈ service.approvals.requests) {by_ : Approver}
    (state : held.state = .approved by_ true) {intended : Intended}
    (needs : intended.decision.verdict = .needsApproval)
    (mine : held.isFor intended.decision.session (deployment.approvals.actionOf intended) = true)
    {extra : Nat → Bool} {accepts : Bool} {error : AuditError}
    (fails : ApprovalFails deployment service extra accepts intended (held.grant by_) error) :
    error = .full ∨ error = .notRecorded := by
  obtain ⟨⟨session, action⟩, -⟩ := (Approvals.Held.isFor_iff).mp mine
  rcases fails with refused | lost | ⟨ledger, refused⟩
  · have fits : Ledger.approvalRefusal deployment.format.sha256 intended (held.grant by_) = none := by
      have sameAction : (held.grant by_).action = digestAction deployment.format.sha256
          intended.decision.action intended.agentIntent := action
      have sameSession : (held.grant by_).session = intended.decision.session.id := session
      unfold Ledger.approvalRefusal
      rw [if_neg (not_not.mpr needs), if_neg (not_not.mpr sameAction),
        if_neg (not_not.mpr sameSession)]
    rw [fits] at refused
    cases refused
  · have found := inv.deliberated member state extra
    rw [session] at found
    cases found.symm.trans lost
  · rcases inv.record.represents.append deployment.limits (service.alive extra) service.clock accepts
      intended.decision.session.attribution (held.grant by_).event with
      ⟨error', ledger', failed, why, -⟩ | ⟨-, ledger', entry, done, -⟩
    · rw [failed] at refused
      cases refused
      exact why
    · rw [done] at refused
      cases refused

/-- **A failed collection costs nothing.** Where the callback of `ask_with` or
`redeem_action_with` fails, the request is exactly as it was, and the same call
collects it later, while it is there and its window lasts. For a request raised
and agreed to here, whatever the record holds by now, `record_approval` fails
for want of room or at the recording boundary only. -/
theorem failed_collection_costs_nothing {world : World} (reached : Reachable deployment world)
    {ε ρ : Type} (ofError : ApprovalError → ε) :
    (∀ fresh (intended : Intended) grant left (consume : Grant → Except ε ρ) error,
      intended.decision.verdict = .needsApproval →
      deployment.approvals.ask world.shared.clock fresh intended world.shared.approvals.requests =
        (.collect grant, left) →
      consume grant = .error error →
      deployment.approvals.askWith ofError world.shared.clock fresh intended consume
        world.shared.approvals.requests = (.error error, left) ∧
      ∃ held, world.shared.approvals.requests.find grant.request = some held ∧
        left.find grant.request = some held ∧
        ∀ later : Requests, (later = left ∨
            ∃ world, Reachable deployment world ∧ later = world.shared.approvals.requests) →
          later.find grant.request = some held → ∀ now, now < held.redeemBy →
          ∀ fresh (consume : Grant → Except ε ρ) ready, consume grant = .ok ready →
            deployment.approvals.askWith ofError now fresh intended consume later =
              (.ok (.ready ready), (later.retain now).spend grant.request)) ∧
    (∀ id principal action agentIntent grant (consume : Grant → Except ε ρ) error,
      world.shared.approvals.requests.redeem world.shared.clock id principal
        (digestAction deployment.format.sha256 action agentIntent) = .ok grant →
      consume grant = .error error →
      deployment.approvals.redeemActionWith ofError world.shared.clock id principal action agentIntent
        consume world.shared.approvals.requests = (.error error, world.shared.approvals.requests) ∧
      ∃ held, world.shared.approvals.requests.find id = some held ∧
        ∀ later : Requests, later.find id = some held → ∀ now, now < held.redeemBy →
          ∀ (consume : Grant → Except ε ρ) ready, consume grant = .ok ready →
            deployment.approvals.redeemActionWith ofError now id principal action agentIntent consume
              later = (.ok ready, later.spend id)) ∧
    (∀ held ∈ world.shared.approvals.requests, ∀ by_, held.state = .approved by_ true →
      ∀ intended : Intended, intended.decision.verdict = .needsApproval →
        held.isFor intended.decision.session (deployment.approvals.actionOf intended) = true →
        ∀ extra accepts error,
          ApprovalFails deployment world.shared extra accepts intended (held.grant by_) error →
          error = .full ∨ error = .notRecorded) := by
  have inv := reached.inv
  refine ⟨fun fresh intended grant left consume error needs asked failed => ?_,
    fun id principal action agentIntent grant consume error redeemed failed =>
      Config.redeemActionWith_failed ofError redeemed failed,
    fun held member by_ state intended needs mine extra accepts error fails =>
      inv.approvalFails member state needs mine fails⟩
  obtain ⟨owner, tidy, -⟩ := inv.requests.tidy
  obtain ⟨left', held, found, still, tidy', collects⟩ :=
    Config.askWith_failed ofError tidy needs asked failed
  refine ⟨left', held, found, still, fun later from_ again now within fresh consume ready succeeds => ?_⟩
  rcases from_ with rfl | ⟨world', reached', rfl⟩
  · exact collects _ owner tidy' again now within fresh consume ready succeeds
  · obtain ⟨owner', tidy'', -⟩ := reached'.inv.requests.tidy
    exact collects _ owner' tidy'' again now within fresh consume ready succeeds

/-- A command is asked for, and a person agrees to it. -/
def Sample.agreed : List BastionMove :=
  opening ++ .spawn (.authorize alice ⟨5⟩ default (.ok default)) :: turns 1 10 6 ++
    .spawn (.decide ⟨13⟩ (.human "bob") true bob_agreement) :: turns 2 20 7

/-- The intent a call recorded. -/
def Note.intent : Note → Option Intended
  | .recorded _ intended => some intended
  | _ => none

/-- The sample's agreement survives a collection that fails, and the same call
collects it at the next instant. -/
theorem failed_collection_costs_nothing_agreed : ∃ fresh intended grant left,
    Sample.reviewed.approvals.ask (Sample.run Sample.agreed).shared.clock fresh intended
      (Sample.run Sample.agreed).shared.approvals.requests = (.collect grant, left) ∧
    Sample.reviewed.approvals.askWith id (Sample.run Sample.agreed).shared.clock fresh intended
      (fun _ => (.error .unrecorded : Except ApprovalError Unit))
      (Sample.run Sample.agreed).shared.approvals.requests = (.error .unrecorded, left) ∧
    Sample.reviewed.approvals.askWith id ((Sample.run Sample.agreed).shared.clock + 1) fresh
      intended (fun _ => (.ok () : Except ApprovalError Unit)) left =
        (.ok (.ready ()), (left.retain ((Sample.run Sample.agreed).shared.clock + 1)).spend
          grant.request) := by
  let intended := ((Sample.run Sample.agreed).shared.journal.findSome? Note.intent).getD default
  have needs : intended.decision.verdict = .needsApproval := by decide +kernel
  have collects : holdsAfter (Sample.reviewed.approvals.ask (Sample.run Sample.agreed).shared.clock
      ⟨99⟩ intended (Sample.run Sample.agreed).shared.approvals.requests).1 = true := by
    decide +kernel
  have lasts : ∀ held ∈ (Sample.run Sample.agreed).shared.approvals.requests,
      (Sample.run Sample.agreed).shared.clock + 1 < held.redeemBy := by
    decide +kernel
  rcases asked : Sample.reviewed.approvals.ask (Sample.run Sample.agreed).shared.clock ⟨99⟩ intended
    (Sample.run Sample.agreed).shared.approvals.requests with ⟨grant | answered, left⟩
  · obtain ⟨fails, held, found, still, retried⟩ :=
      (failed_collection_costs_nothing (Sample.run_reachable Sample.agreed) id).1 ⟨99⟩ intended grant
        left (fun _ => (.error .unrecorded : Except ApprovalError Unit)) _ needs asked rfl
    exact ⟨⟨99⟩, intended, grant, left, asked, fails, retried left (.inl rfl) still _
      (lasts held (List.mem_of_find?_eq_some found)) ⟨99⟩ _ () rfl⟩
  · rw [asked] at collects
    cases collects

end McpSsh.Bastion
