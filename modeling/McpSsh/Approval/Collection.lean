import McpSsh.Approval.Runs

/-!
# Collecting an agreement

What collecting finds, and what a collection that could not be recorded costs:
nothing. The request is as it was, and any later call for the same action
collects it while its window lasts.
-/

namespace McpSsh.Approvals

variable {ε ρ : Type} {config : Config} {owner : Owner}
variable {requests : Requests}

/-- An ask collects the agreement its action has, while the window lasts. -/
theorem Config.ask_collects {limit : Nat} (tidy : requests.Tidy limit owner) {held : Held}
    (member : held ∈ requests) {intended : Intended} {now : Nat} {by_ : Approver}
    (mine : held.isFor intended.decision.session (config.actionOf intended) = true)
    (state : held.state = .approved by_ true) (within : now < held.redeemBy) (fresh : RequestId) :
    config.ask now fresh intended requests = (.collect (held.grant by_), requests.retain now) := by
  have member' : held ∈ requests.retain now :=
    Requests.mem_retain member (by simp [Held.forgettable, state])
  have tidy := tidy.retain now
  have agreed : (requests.retain now).agreed now intended.decision.session
      (config.actionOf intended) = some (held.grant by_) := by
    cases found : (requests.retain now).agreed now intended.decision.session
        (config.actionOf intended) with
    | none =>
      have late := Requests.agreed_eq_none found member' mine state
      omega
    | some grant =>
      obtain ⟨other, mo, approver, mine', -, state', rfl⟩ := Requests.agreed_eq_some found
      simp only [Held.isFor_iff] at mine mine'
      have same : other = held := tidy.sole other mo held member'
        (mine'.1.1.trans mine.1.1.symm) (mine'.1.2.trans mine.1.2.symm)
        (by simp [Held.isOpen, state', State.isRedeemed])
        (by simp [Held.isOpen, state, State.isRedeemed])
      subst same
      rw [state] at state'
      cases state'
      rfl
  unfold Config.ask
  simp only [agreed]

/-- An ask whose collection fails leaves its request alone, and any later ask
for the same action collects it, if it is still there and its window lasts. -/
theorem Config.askWith_failed (ofError : ApprovalError → ε) {limit now : Nat} (tidy : requests.Tidy limit owner)
    {fresh : RequestId} {intended : Intended} (needs : intended.decision.verdict = .needsApproval)
    {grant : Grant} {left : Requests}
    (asked : config.ask now fresh intended requests = (.collect grant, left))
    {consume : Grant → Except ε ρ} {error : ε} (failed : consume grant = .error error) :
    config.askWith ofError now fresh intended consume requests = (.error error, left) ∧
    ∃ held, requests.find grant.request = some held ∧ left.find grant.request = some held ∧
      left.Tidy limit owner ∧
      ∀ (later : Requests) (owner : Owner), later.Tidy limit owner →
        later.find grant.request = some held → ∀ now, now < held.redeemBy →
        ∀ (fresh : RequestId) (consume : Grant → Except ε ρ) (ready : ρ),
          consume grant = .ok ready →
          config.askWith ofError now fresh intended consume later =
            (.ok (.ready ready), (later.retain now).spend grant.request) := by
  obtain ⟨rfl, held, member, by_, mine, -, state, rfl⟩ := Config.ask_collect asked
  refine ⟨by simp only [Config.askWith, needs, asked, failed, ne_eq, not_true_eq_false, if_false],
    held, tidy.find_eq (List.mem_of_mem_filter member), (tidy.retain _).find_eq member,
    tidy.retain _, ?_⟩
  intro later owner tidy' found now within fresh' consume' ready succeeds
  obtain ⟨still, -⟩ := Requests.find_eq_some found
  have collects := Config.ask_collects tidy' still mine state within fresh'
  simp only [Config.askWith, needs, collects, succeeds, ne_eq, not_true_eq_false, if_false]

/-- The same for a redemption, which changes nothing at all when it fails. -/
theorem Config.redeemActionWith_failed (ofError : ApprovalError → ε) {now : Nat} {id : RequestId} {principal : PrincipalId}
    {action : Action} {agentIntent : CommandIntent} {grant : Grant}
    (redeemed : requests.redeem now id principal
      (digestAction config.sha256 action agentIntent) = .ok grant)
    {consume : Grant → Except ε ρ} {error : ε} (failed : consume grant = .error error) :
    config.redeemActionWith ofError now id principal action agentIntent consume requests =
        (.error error, requests) ∧
    ∃ held, requests.find id = some held ∧
      ∀ later : Requests, later.find id = some held → ∀ now, now < held.redeemBy →
        ∀ (consume : Grant → Except ε ρ) (ready : ρ), consume grant = .ok ready →
          config.redeemActionWith ofError now id principal action agentIntent consume later =
            (.ok ready, later.spend id) := by
  refine ⟨by simp only [Config.redeemActionWith, redeemed, failed], ?_⟩
  unfold Requests.redeem at redeemed
  split at redeemed
  · cases redeemed
  rename_i held found
  refine ⟨held, found, fun later still now within consume' ready succeeds => ?_⟩
  split at redeemed
  · cases redeemed
  rename_i principals
  split at redeemed
  · cases redeemed
  · cases redeemed
  · cases redeemed
  · cases redeemed
  rename_i by_ state
  split at redeemed
  · cases redeemed
  split at redeemed
  · cases redeemed
  rename_i actions
  cases redeemed
  have again : later.redeem now id principal
      (digestAction config.sha256 action agentIntent) = .ok (held.grant by_) := by
    unfold Requests.redeem
    rw [still]
    simp only [principals, if_false, state, actions]
    rw [if_neg (by omega)]
  simp only [Config.redeemActionWith, again, succeeds]

end McpSsh.Approvals
