import McpSsh.Bastion.Preserved.Requests

/-!
# Standing steps keep the invariant

An agreement enters the table under a number nobody has drawn, so it has not
been withdrawn; it pushes out the one its session had. What is selected is in
the table and has not run out.
-/

namespace McpSsh.Bastion

open Approvals (Agreements StandingApproval)

variable {deployment : Deployment} {tid : Nat} {choice : Choice} {service after : Service}
variable {journal : Journal} {β : Type} {answer : β}

/-- What a standing step has to leave for the invariant to hold of the rest. -/
structure StandingKept (deployment : Deployment) (service : Service)
    (effect : Effect Agreements β) : Prop where
  history : HistoryOk deployment (service.journal ++ effect.notes)
  standing : StandingOk (service.journal ++ effect.notes) effect.part
  proofs : effect.proofs = []
  notes : ∀ note ∈ effect.notes, note.entry = none ∧ note.quiet = true

theorem StandingOk.fewer {standing fewer : Agreements} (ok : StandingOk journal standing)
    (sub : fewer.Sublist standing) : StandingOk journal fewer where
  granted := fun agreement member => ok.granted agreement (sub.subset member)
  stands := fun agreement member => ok.stands agreement (sub.subset member)
  oneEach := ok.oneEach.sublist (sub.map _)

theorem StandingKept.still (inv : Inv deployment service) {answer : β} {standing : Agreements}
    (sub : standing.Sublist service.standing) {holds : Bool} :
    StandingKept deployment service ⟨answer, standing, holds, [], []⟩ where
  history := by simpa using inv.history
  standing := by simpa using inv.standing.fewer sub
  proofs := rfl
  notes := by simp

theorem StandingStep.select_keeps (inv : Inv deployment service) {session : SessionId}
    {live : SessionId → Option Session} :
    StandingKept deployment service
      ((StandingStep.select session).effect tid service.clock choice.draw live service.standing) := by
  simp only [StandingStep.effect]
  split
  · exact .still inv (List.Sublist.refl _)
  · rename_i agreement found
    have member := List.mem_of_find?_eq_some found
    have fits := List.find?_some found
    simp only [Bool.and_eq_true, decide_eq_true_eq] at fits
    refine ⟨inv.history.append_plain ⟨fits.2, inv.standing.stands agreement member,
        inv.standing.granted agreement member⟩ rfl rfl rfl rfl rfl,
      inv.standing.grow (by simp), rfl, by simp [Note.entry, Note.quiet]⟩

/-- A number nobody has drawn is that of no agreement withdrawn. -/
theorem HistoryOk.unwithdrawn (history : HistoryOk deployment journal) {draw : Nat}
    (unused : journal.unused draw = true) : Note.withdrew ⟨draw⟩ ∉ journal := by
  intro member
  obtain ⟨past, stands, granter, what, granted, id⟩ := history.of_mem member
  exact history.unused unused ((HistoryOk.prefix_of_append stands).subset granted)
    (by simp [Note.drawn, id])

theorem StandingStep.grant_keeps (inv : Inv deployment service) {reading until_ : Nat}
    {session : SessionId} {who : String} (unused : service.journal.unused choice.draw = true)
    (guard : (StandingStep.grant reading session who until_).Guard deployment service) :
    StandingKept deployment service
      ((StandingStep.grant reading session who until_).effect tid service.clock choice.draw
        (service.sessions.store.usable service.clock) service.standing) := by
  obtain ⟨agreed, cap, live⟩ := guard
  simp only [StandingStep.effect]
  generalize same : (⟨⟨choice.draw⟩, session, who, until_, .session⟩ : StandingApproval) = agreement
  have warrant : Warrant deployment service.journal (.granted tid
      ⟨agreement, service.clock, service.sessions.store.usable service.clock session⟩) := by
    subst same
    refine ⟨agreed, cap, fun known found => ?_⟩
    obtain ⟨member, same, -⟩ := (Sessions.usable_eq_some inv.sessions.ids).mp found
    exact ⟨same, inv.sessions.opened known member, live known found⟩
  refine ⟨inv.history.append warrant (fun draw drawn => by subst same; cases drawn; exact unused)
    (by simp [Note.answers]) (by simp [Note.collects]) (by simp [Note.mints])
    (by simp [Note.registers]), ⟨?_, ?_, ?_⟩, rfl, by simp [Note.entry, Note.quiet]⟩
  · intro other member
    rcases List.mem_cons.mp member with rfl | old
    · exact ⟨tid, _, _, List.mem_append_right _ (List.mem_singleton_self _)⟩
    · obtain ⟨granter, grantedAt, live', inside⟩ :=
        inv.standing.granted other (List.mem_of_mem_filter old)
      exact ⟨granter, grantedAt, live', List.mem_append_left _ inside⟩
  · intro other member inside
    rcases List.mem_append.mp inside with before | new
    · rcases List.mem_cons.mp member with rfl | old
      · subst same
        exact inv.history.unwithdrawn unused before
      · exact inv.standing.stands other (List.mem_of_mem_filter old) before
    · simp at new
  · refine List.nodup_cons.mpr ⟨fun member => ?_, inv.standing.oneEach.sublist
      (List.filter_sublist.map _)⟩
    obtain ⟨other, inside, sameSession⟩ := List.mem_map.mp member
    obtain ⟨-, differs⟩ := List.mem_filter.mp inside
    simp [sameSession] at differs

theorem StandingStep.revoke_keeps (inv : Inv deployment service) {id : AgreementId}
    {live : SessionId → Option Session} :
    StandingKept deployment service
      ((StandingStep.revoke id).effect tid service.clock choice.draw live service.standing) := by
  simp only [StandingStep.effect]
  have left : (service.standing.revoke id).2.Sublist service.standing := List.filter_sublist
  by_cases revoked : (service.standing.revoke id).1 = true
  · rw [if_pos revoked]
    obtain ⟨agreement, member, same⟩ := List.any_eq_true.mp revoked
    obtain ⟨granter, grantedAt, live', granted⟩ := inv.standing.granted agreement member
    refine ⟨inv.history.append_plain ⟨granter, _, granted, by simpa using same⟩ rfl rfl rfl rfl rfl,
      ⟨?_, ?_, inv.standing.oneEach.sublist (left.map _)⟩, rfl, by simp [Note.entry, Note.quiet]⟩
    · intro other inside
      obtain ⟨granter', grantedAt', live'', granted'⟩ :=
        inv.standing.granted other (left.subset inside)
      exact ⟨granter', grantedAt', live'', List.mem_append_left _ granted'⟩
    · intro other inside withdrew
      obtain ⟨was, differs⟩ := List.mem_filter.mp inside
      rcases List.mem_append.mp withdrew with before | new
      · exact inv.standing.stands other was before
      · simp only [List.mem_singleton, Note.withdrew.injEq] at new
        simp [new] at differs
  · rw [if_neg revoked]
    exact .still inv left

theorem StandingStep.keeps {step : StandingStep β} (inv : Inv deployment service)
    (unused : service.journal.unused choice.draw = true) (guard : step.Guard deployment service) :
    StandingKept deployment service (step.effect tid service.clock choice.draw
      (service.sessions.store.usable service.clock) service.standing) := by
  cases step with
  | select => exact StandingStep.select_keeps inv
  | unlock => exact .still inv (List.Sublist.refl _)
  | grant => exact StandingStep.grant_keeps inv unused guard
  | revoke => exact StandingStep.revoke_keeps inv
  | lock => exact .still inv (List.Sublist.refl _)
  | retain => exact .still inv List.filter_sublist

/-- **Standing steps keep the invariant.** -/
theorem StandingStep.preserves {step : StandingStep β} (inv : Inv deployment service)
    (guard : (Step.standing step).Guard deployment tid service)
    (ran : (Step.standing step).run deployment tid choice service = some (answer, after)) :
    Inv deployment after := by
  obtain ⟨unused, permits, rfl, rfl⟩ := Step.ran ran
  have kept : StandingKept deployment service (step.effect tid service.clock choice.draw
      (service.sessions.store.usable service.clock) service.standing) :=
    StandingStep.keeps inv unused guard.2
  simp only [Step.effect, kept.proofs, List.map_nil, List.nil_append]
  have grows : service.journal <+: service.journal ++ _ := List.prefix_append service.journal
    (step.effect tid service.clock choice.draw (service.sessions.store.usable service.clock)
      service.standing).notes
  exact {
    history := kept.history
    sessions := inv.sessions.grow grows
    requests := inv.requests.grow (fun note new => (kept.notes note new).2)
    collecting := by
      apply inv.idle <;> cases step <;> simp [Step.use, StandingStep.use]
    standing := kept.standing
    record := inv.record.grow (fun note new => (kept.notes note new).1)
    links := inv.links.grow grows
    runs := inv.runs.grow grows }

end McpSsh.Bastion
