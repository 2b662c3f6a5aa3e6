import McpSsh.Bastion.Safety.Running

/-!
# Housekeeping and endings

A sweep drops a request only if nothing can happen to it or its session was
found gone under the request lock, and a session that is gone stays gone.
-/

namespace McpSsh.Bastion

open Interleaving

variable {deployment : Deployment} {tid : Nat} {choice : Choice} {service after : Service}
variable {past : List Took} {held : List Lock} {α β : Type} {answer : β}

/-! ## Sweeping -/

/-- What is forgettable stays so. -/
theorem Held.forgettable_mono {request : Approvals.Held} {now later : Nat} (le : now ≤ later)
    (done : request.forgettable now = true) : request.forgettable later = true := by
  unfold Approvals.Held.forgettable at done ⊢
  split at done <;> simp_all <;> omega

/-- A request a sweep may drop. -/
def Droppable (service : Service) (request : Approvals.Held) : Prop :=
  request.forgettable service.clock = true ∨
    service.sessions.store.usable service.clock request.asked.session = none

theorem Droppable.since {request : Approvals.Held} {owner : Session}
    (droppable : Droppable service request) (opened : service.journal.Opened owner)
    (same : owner.id = request.asked.session) (since : Since service after) :
    Droppable after request := by
  rcases droppable with done | gone
  · exact .inl (Held.forgettable_mono since.clock done)
  · rw [← same] at gone
    exact .inr (same ▸ since.gone owner opened gone)

theorem livingRequests_safe {reading : Nat} {requests : Approvals.Requests}
    (at' : At tid [.requests] service) (read : reading ≤ service.clock)
    (owned : ∀ request ∈ requests, ∃ owner, service.journal.Opened owner ∧
      owner.id = request.asked.session) :
    Safely deployment tid
      (fun _ kept after => (Since service after ∧ At tid [.requests] after ∧
        after.approvals = service.approvals) ∧
        ∀ request ∈ requests, request.asked.id ∉ kept → Droppable after request)
      (livingRequests reading requests) past service := by
  have locked : ∀ {now}, At tid [.requests] now → now.locks .requests = some tid :=
    fun at' => (at'.locks _).mpr (List.mem_singleton_self _)
  induction requests generalizing past service with
  | nil =>
    exact fun _ _ moved => ⟨⟨moved.since, at'.rely moved, moved.requests (locked at')⟩,
      fun _ member => by cases member⟩
  | cons request rest ih =>
    obtain ⟨owner, opened, same⟩ := owned request List.mem_cons_self
    have owned := fun other member => owned other (List.mem_cons_of_mem _ member)
    unfold livingRequests
    split
    · rename_i done
      refine Safe.weaken (ih at' read owned) fun past kept last _ ⟨ends, dropped⟩ => ⟨ends, ?_⟩
      intro other member missing
      rcases List.mem_cons.mp member with rfl | old
      · exact .inl (Held.forgettable_mono (read.trans ends.1.clock) done)
      · exact dropped other old missing
    · refine .passing at' (Below.single (by decide)) fun choice before lives first passed => ?_
      have asked : lives = first.sessions.store.holds first.clock request.asked.session := by
        obtain ⟨-, -, rfl, rfl⟩ := Step.ran passed.ran
        rfl
      have approvals : first.approvals = service.approvals :=
        (SessionStep.approvals_eq passed.ran).1.trans (passed.moved.requests (locked at'))
      have grows := passed.since.journal
      change Safely _ _ _ (livingRequests reading rest >>= _) _ _
      refine .bind (ih passed.at' (read.trans passed.since.clock) fun other member => ?_) passed.kept ?_
      · obtain ⟨owner, opened, same⟩ := owned other member
        exact ⟨owner, opened.grow grows, same⟩
      intro past kept second _ ⟨⟨since, at₂, same₂⟩, dropped⟩
      have finish : ∀ later, Rely tid second later → Since service later ∧
          At tid [.requests] later ∧ later.approvals = service.approvals := fun later moved =>
        ⟨(passed.since.trans since).trans moved.since, at₂.rely moved,
          (moved.requests (locked at₂)).trans (same₂.trans approvals)⟩
      have still : ∀ later, Rely tid second later → ∀ other ∈ rest, other.asked.id ∉ kept →
          Droppable later other := by
        intro later moved other member missing
        obtain ⟨owner, opened, same⟩ := owned other member
        exact (dropped other member missing).since
          (opened.grow (passed.since.trans since).journal) same moved.since
      cases lives with
      | true =>
        refine fun later _ moved => ⟨finish later moved, fun other member missing => ?_⟩
        rcases List.mem_cons.mp member with rfl | old
        · exact absurd List.mem_cons_self missing
        · exact still later moved other old (fun inside => missing (List.mem_cons_of_mem _ inside))
      | false =>
        refine fun later _ moved => ⟨finish later moved, fun other member missing => ?_⟩
        rcases List.mem_cons.mp member with rfl | old
        · have gone : Droppable first other := .inr (by simpa [Sessions.holds] using asked.symm)
          exact gone.since (opened.grow grows) same (since.trans moved.since)
        · exact still later moved other old missing

theorem livingAgreements_safe {reading : Nat} {agreements : Approvals.Agreements}
    (at' : At tid [.standing] service) (inv : Inv deployment service) :
    Safely deployment tid (Ends tid [.standing] service (fun _ _ => True))
      (livingAgreements reading agreements) past service := by
  induction agreements generalizing past service with
  | nil => exact .done (.refl service) at' (fun _ _ => trivial)
  | cons agreement rest ih =>
    unfold livingAgreements
    split
    · exact ih at' inv
    · refine .passing at' (Below.single (by decide)) fun choice before lives first passed => ?_
      change Safely _ _ _ (livingAgreements reading rest >>= _) _ _
      refine .bind (ih passed.at' passed.kept) passed.kept ?_
      intro past kept second _ ⟨since, at₂, _⟩
      have since := passed.since.trans since
      cases lives <;> exact .done since at₂ (fun _ _ => trivial)

theorem sweepApprovals_safe (at' : At tid [] service) :
    Safely deployment tid (Ends tid [] service (fun _ _ => True)) sweepApprovals past service := by
  have bottom := Below.nil .requests
  have bottom' := Below.nil .standing
  unfold sweepApprovals
  refine .passing at' trivial fun choice before reading first passed => ?_
  have read : reading ≤ first.clock := by
    obtain ⟨-, -, rfl, rfl⟩ := Step.ran passed.ran
    exact Nat.le_refl _
  refine .act passed.at' not_false (fun later _ moved at' => ⟨at'.takes bottom, trivial⟩) ?_
  intro choice₂ before₂ requests second passed₂
  have passed₂ := passed₂.leaves rfl (show _ = [.requests] from rfl)
  have lock := (passed₂.at'.locks .requests).mpr (List.mem_singleton_self _)
  obtain ⟨found, idle⟩ : requests = second.approvals.requests ∧ second.approvals.collecting = none := by
    obtain ⟨-, permits, rfl, rfl⟩ := Step.ran passed₂.ran
    exact ⟨rfl, passed₂.inv.collecting (of_decide_eq_true permits)⟩
  subst found
  have since := passed.since.trans passed₂.since
  change Safely _ _ _ (livingRequests reading second.approvals.requests >>= _) _ _
  refine .bind (livingRequests_safe passed₂.at' (read.trans passed₂.since.clock) ?_) passed₂.kept ?_
  · intro request member
    obtain ⟨raiser, root, raised, -⟩ := (passed₂.kept.requests.held request member).raised
    obtain ⟨owner, opened, same, -⟩ := passed₂.kept.history.raised_opened raised
    exact ⟨owner, opened, same⟩
  intro past kept third inv ⟨⟨since₃, at₃, same₃⟩, dropped⟩
  have owned : ∀ request ∈ second.approvals.requests, ∃ owner, third.journal.Opened owner ∧
      owner.id = request.asked.session := by
    intro request member
    obtain ⟨raiser, root, raised, -⟩ := (passed₂.kept.requests.held request member).raised
    obtain ⟨owner, opened, same, -⟩ := passed₂.kept.history.raised_opened raised
    exact ⟨owner, opened.grow since₃.journal, same⟩
  have lock₃ := (at₃.locks .requests).mpr (List.mem_singleton_self _)
  refine .act at₃ not_false (fun later _ moved at' =>
    ⟨at'.has (List.mem_singleton_self _), ?_, fun request member missing => ?_⟩) ?_
  · rw [moved.requests lock₃, same₃]
    exact idle
  · rw [moved.requests lock₃, same₃] at member
    obtain ⟨owner, opened, same⟩ := owned request member
    exact (dropped request member missing).since opened same moved.since
  intro choice₄ before₄ _ fourth passed₄
  have passed₄ := passed₄.leaves rfl bottom.given
  have since := (since.trans since₃).trans passed₄.since
  refine .act passed₄.at' not_false (fun later _ moved at' => ⟨at'.takes bottom', trivial⟩) ?_
  intro choice₅ before₅ agreements fifth passed₅
  have passed₅ := passed₅.leaves rfl (show _ = [.standing] from rfl)
  have since := since.trans passed₅.since
  change Safely _ _ _ (livingAgreements reading agreements >>= _) _ _
  refine .bind (livingAgreements_safe passed₅.at' passed₅.kept) passed₅.kept ?_
  intro past kept sixth inv ⟨since₆, at₆, _⟩
  refine .act at₆ not_false (fun later _ moved at' =>
    ⟨at'.has (List.mem_singleton_self _), trivial⟩) fun choice₇ before₇ _ seventh passed₇ => ?_
  exact .done ((since.trans since₆).trans passed₇.since) (passed₇.leaves rfl bottom'.given).at'
    (fun _ _ => trivial)

/-! ## Reclaiming -/

/-- Giving back the publishing lock. -/
theorem publishing_given {start : Service} {value : α} (since : Since start service)
    (at' : At tid [.publishing] service) :
    Safely deployment tid (Ends tid [] start (fun _ _ => True))
      (Prog.service (.unlock .publishing) >>= fun _ => pure value) past service := by
  refine .act at' not_false (fun later _ moved at' =>
    ⟨at'.has (List.mem_singleton_self _), .inl rfl⟩) fun choice before _ after passed => ?_
  exact .done (since.trans passed.since) (passed.leaves rfl (Below.nil .publishing).given).at'
    (fun _ _ => trivial)

theorem closeOrphaned_safe (at' : At tid [] service) :
    Safely deployment tid (Ends tid [] service (fun _ _ => True)) closeOrphaned past service := by
  have bottom := Below.nil .publishing
  unfold closeOrphaned
  refine .passing at' trivial fun choice before admitted first passed => ?_
  cases admitted with
  | false => exact .done passed.since passed.at' (fun _ _ => trivial)
  | true =>
  refine .passing passed.at' (Below.nil _) fun choice₂ before₂ _ second passed₂ => ?_
  refine .act passed₂.at' not_false (fun later _ moved at' => ⟨at'.takes bottom, .inl rfl⟩) ?_
  intro choice₃ before₃ _ third passed₃
  have passed₃ := passed₃.leaves rfl (show _ = [.publishing] from rfl)
  refine .passing passed₃.at' (Below.single (by decide)) fun choice₄ before₄ live fourth passed₄ => ?_
  refine .passing passed₄.at' trivial fun choice₅ before₅ orphaned fifth passed₅ => ?_
  refine .act passed₅.at' not_false (fun later _ moved at' =>
    ⟨at'.has (List.mem_singleton_self _), .inl rfl⟩) fun choice₆ before₆ _ sixth passed₆ => ?_
  have passed₆ := passed₆.leaves rfl bottom.given
  have since := ((((passed.since.trans passed₂.since).trans passed₃.since).trans
    passed₄.since).trans passed₅.since).trans passed₆.since
  exact Safe.weaken (closeHolders_safe passed₆.kept passed₆.at')
    (fun _ _ _ _ ends => ⟨since.trans ends.1, ends.2⟩)

theorem reclaim_safe (inv : Inv deployment service) (at' : At tid [] service) :
    Safely deployment tid (Ends tid [] service (fun _ _ => True)) Bastion.reclaim past service := by
  unfold Bastion.reclaim
  refine .bind (closeOrphaned_safe at') inv fun past _ first inv ⟨since, at', _⟩ => ?_
  refine .passing at' trivial fun choice before admitted second passed => ?_
  have since := since.trans passed.since
  cases admitted with
  | false => exact .done since passed.at' (fun _ _ => trivial)
  | true =>
  change Safely _ _ _ (sweepApprovals >>= _) _ _
  refine .bind (sweepApprovals_safe passed.at') passed.kept fun past _ third inv ⟨since₃, at₃, _⟩ => ?_
  exact .passing at₃ trivial fun choice₄ before₄ _ fourth passed₄ =>
    .done ((since.trans since₃).trans passed₄.since) passed₄.at' (fun _ _ => trivial)

/-! ## Endings -/

theorem closeRemoved_safe {holder : Option Nat} (at' : At tid [] service) :
    Safely deployment tid (Ends tid [] service (fun _ _ => True)) (closeRemoved holder) past
      service := by
  cases holder with
  | none => exact .done (.refl service) at' (fun _ _ => trivial)
  | some holder => exact closeHolder_safe at'

/-- What follows an ending: the connection is let go and the rest swept. -/
theorem ended_safe {holder : Option Nat} {start : Service} (since : Since start service)
    (at' : At tid [.publishing] service) :
    Safely deployment tid (Ends tid [] start (fun _ _ => True))
      (do
        Prog.service (.unlock .publishing)
        closeRemoved holder
        Bastion.reclaim
        return (.ok () : Except MediationError Unit)) past service := by
  refine .act at' not_false (fun later _ moved at' =>
    ⟨at'.has (List.mem_singleton_self _), .inl rfl⟩) fun choice before _ first passed => ?_
  have passed := passed.leaves rfl (Below.nil .publishing).given
  have since := since.trans passed.since
  change Safely _ _ _ (closeRemoved holder >>= _) _ _
  refine .bind (closeRemoved_safe passed.at') passed.kept fun past _ second inv ⟨since₂, at₂, _⟩ => ?_
  refine .bind (reclaim_safe inv at₂) inv fun past _ third inv ⟨since₃, at₃, _⟩ => ?_
  exact .done ((since.trans since₂).trans since₃) at₃ (fun _ _ => trivial)

theorem closeSession_safe {principal : PrincipalId} {id : SessionId} (at' : At tid [] service) :
    Safely deployment tid (Ends tid [] service (fun _ _ => True))
      (Bastion.closeSession principal id) past service := by
  have bottom := Below.nil .publishing
  have sessions : Below [.publishing] .sessions := .single (by decide)
  unfold Bastion.closeSession
  refine .passing at' trivial fun choice before admitted first passed => ?_
  cases admitted with
  | false => exact .done passed.since passed.at' (fun _ _ => trivial)
  | true =>
  refine .act passed.at' not_false (fun later _ moved at' => ⟨at'.takes bottom, .inl rfl⟩) ?_
  intro choice₂ before₂ _ second passed₂
  have passed₂ := passed₂.leaves rfl (show _ = [.publishing] from rfl)
  have since := passed.since.trans passed₂.since
  refine .passing passed₂.at' sessions fun choice₃ before₃ result third passed₃ => ?_
  have since := since.trans passed₃.since
  match result with
  | .error error => exact publishing_given since passed₃.at'
  | .ok session =>
  refine .passing passed₃.at' rfl fun choice₄ before₄ result fourth passed₄ => ?_
  have since := since.trans passed₄.since
  match result with
  | .error error => exact publishing_given since passed₄.at'
  | .ok entry =>
  refine .passing passed₄.at' sessions fun choice₅ before₅ result fifth passed₅ => ?_
  have since := since.trans passed₅.since
  match result with
  | .error error => exact publishing_given since passed₅.at'
  | .ok () =>
  exact .passing passed₅.at' trivial fun choice₆ before₆ holder sixth passed₆ =>
    ended_safe (since.trans passed₆.since) passed₆.at'

theorem terminateSession_safe {session : SessionId} {operator : PrincipalId}
    (at' : At tid [] service) :
    Safely deployment tid (Ends tid [] service (fun _ _ => True))
      (Bastion.terminateSession session operator) past service := by
  have bottom := Below.nil .publishing
  have sessions : Below [.publishing] .sessions := .single (by decide)
  have member : Lock.sessions ∈ [Lock.sessions, .publishing] := List.mem_cons_self
  unfold Bastion.terminateSession
  refine .passing at' trivial fun choice before admitted first passed => ?_
  cases admitted with
  | false => exact .done passed.since passed.at' (fun _ _ => trivial)
  | true =>
  refine .act passed.at' not_false (fun later _ moved at' => ⟨at'.takes bottom, .inl rfl⟩) ?_
  intro choice₂ before₂ _ second passed₂
  have passed₂ := passed₂.leaves rfl (show _ = [.publishing] from rfl)
  have since := passed.since.trans passed₂.since
  refine .act passed₂.at' not_false (fun later _ moved at' => ⟨at'.takes sessions, trivial⟩) ?_
  intro choice₃ before₃ claimed third passed₃
  have since := since.trans passed₃.since
  have holds : ((Step.sessions (.claim session)).effect deployment tid choice₃ before₃).holds =
      claimed.isSome := by
    obtain ⟨-, -, rfl, -⟩ := Step.ran passed₃.ran
    simp only [Step.effect, SessionStep.effect]
    split <;> rfl
  cases claimed with
  | none => exact publishing_given since (passed₃.leaves holds rfl).at'
  | some claimed =>
  have passed₃ := passed₃.leaves holds (show _ = [.sessions, .publishing] from rfl)
  refine .passing passed₃.at' rfl fun choice₄ before₄ result fourth passed₄ => ?_
  have since := since.trans passed₄.since
  cases result with
  | error error =>
    refine .act passed₄.at' not_false (fun later _ moved at' => ⟨at'.has member, trivial⟩)
      fun choice₅ before₅ _ fifth passed₅ => ?_
    exact publishing_given (since.trans passed₅.since) (passed₅.leaves rfl sessions.given).at'
  | ok entry =>
  refine .act passed₄.at' not_false (fun later _ moved at' => ⟨at'.has member, trivial⟩)
    fun choice₅ before₅ _ fifth passed₅ => ?_
  have passed₅ := passed₅.leaves rfl sessions.given
  exact .passing passed₅.at' trivial fun choice₆ before₆ holder sixth passed₆ =>
    ended_safe ((since.trans passed₅.since).trans passed₆.since) passed₆.at'

end McpSsh.Bastion
