import McpSsh.Bastion.Preserved.Ledger

/-!
# The other steps keep the invariant

A holder is placed under a number nobody has drawn and keeps its session, so a
connection put in its place is still that session's. A run is registered once
for its call. What happens by itself changes nothing the invariant speaks of.
-/

namespace McpSsh.Bastion

variable {deployment : Deployment} {tid : Nat} {choice : Choice} {service after : Service}
variable {journal : Journal} {β : Type} {answer : β}

/-! ## Links -/

/-- What a link step has to leave for the invariant to hold of the rest. -/
structure LinksKept (deployment : Deployment) (service : Service) (effect : Effect LinkPart β) :
    Prop where
  history : HistoryOk deployment (service.journal ++ effect.notes)
  links : LinksOk (service.journal ++ effect.notes) effect.part
  proofs : effect.proofs = []
  notes : ∀ note ∈ effect.notes, note.entry = none ∧ note.quiet = true ∧ ∀ id, note ≠ .withdrew id

theorem LinksKept.still (inv : Inv deployment service) {answer : β} {holds : Bool} {part : LinkPart}
    (links : LinksOk service.journal part) :
    LinksKept deployment service ⟨answer, part, holds, [], []⟩ where
  history := by simpa using inv.history
  links := by simpa using links
  proofs := rfl
  notes := by simp

theorem LinksOk.fewer {part fewer : LinkPart} (ok : LinksOk journal part)
    (connections : fewer.connections.Sublist part.connections)
    (holders : fewer.holders = part.holders) : LinksOk journal fewer where
  holders := holders ▸ ok.holders
  bound := holders ▸ ok.bound
  connections := fun session holder member => ok.connections session holder (connections.subset member)

theorem LinkStep.insert_keeps (inv : Inv deployment service) {session : SessionId}
    {connection : Connection} (unused : service.journal.unused choice.draw = true)
    (guard : (LinkStep.insert session connection).Guard service) :
    LinksKept deployment service
      ((LinkStep.insert session connection).effect tid choice.draw choice.accepts service.links) := by
  obtain ⟨owner, opened, same, host, role⟩ := guard
  have placed : HistoryOk deployment (service.journal ++ [.placed tid choice.draw session]) :=
    inv.history.append trivial (fun draw drawn => by cases drawn; exact unused)
      (by simp [Note.answers]) (by simp [Note.collects]) (by simp [Note.mints])
      (by simp [Note.registers])
  simp only [LinkStep.effect]
  refine ⟨?_, ⟨?_, ?_, ?_⟩, rfl, by simp [Note.entry, Note.quiet]⟩
  · rw [show [Note.placed tid choice.draw session, .bound tid session connection] =
      [.placed tid choice.draw session] ++ [.bound tid session connection] from rfl,
      ← List.append_assoc]
    exact placed.append_plain ⟨owner, opened.grow (List.prefix_append _ _), same, host, role⟩
      rfl rfl rfl rfl rfl
  · intro holder member
    rcases List.mem_cons.mp member with rfl | old
    · exact ⟨tid, by simp⟩
    · obtain ⟨placer, inside⟩ := inv.links.holders holder old
      exact ⟨placer, List.mem_append_left _ inside⟩
  · intro holder member
    rcases List.mem_cons.mp member with rfl | old
    · exact ⟨tid, by simp⟩
    · obtain ⟨binder, inside⟩ := inv.links.bound holder old
      exact ⟨binder, List.mem_append_left _ inside⟩
  · intro other holder member
    rcases List.mem_cons.mp member with eq | old
    · cases eq
      exact ⟨tid, by simp⟩
    · obtain ⟨placer, inside⟩ := inv.links.connections other holder (List.mem_of_mem_filter old)
      exact ⟨placer, List.mem_append_left _ inside⟩

theorem LinkStep.replace_keeps (inv : Inv deployment service) {holder : Nat}
    {connection : Connection} (guard : (LinkStep.replace holder connection).Guard service) :
    LinksKept deployment service
      ((LinkStep.replace holder connection).effect tid choice.draw choice.accepts service.links) := by
  obtain ⟨owner, opened, host, role, placer, placed⟩ := guard
  -- A holder under this number was placed for the owner's session.
  have owns : ∀ held ∈ service.links.holders, held.id = holder → held.session = owner.id := by
    intro held member same
    obtain ⟨other, placedOther⟩ := inv.links.holders held member
    rw [same] at placedOther
    exact inv.history.placed_unique placedOther placed
  simp only [LinkStep.effect]
  refine ⟨?_, ⟨?_, ?_, ?_⟩, rfl, ?_⟩
  · cases found : service.links.find holder with
    | none => simpa using inv.history
    | some first =>
      have id := List.find?_some found
      simp only [decide_eq_true_eq] at id
      exact inv.history.append_plain
        ⟨owner, opened, (owns first (List.mem_of_find?_eq_some found) id).symm, host, role⟩
        rfl rfl rfl rfl rfl
  · intro held member
    obtain ⟨before, mb, rfl⟩ := List.mem_map.mp member
    obtain ⟨other, inside⟩ := inv.links.holders before mb
    refine ⟨other, List.mem_append_left _ ?_⟩
    split <;> exact inside
  · intro held member
    obtain ⟨before, mb, rfl⟩ := List.mem_map.mp member
    split
    · rename_i same
      refine ⟨tid, List.mem_append_right _ ?_⟩
      cases found : service.links.find holder with
      | none => simpa [same] using List.find?_eq_none.mp found before mb
      | some first =>
        have id := List.find?_some found
        simp only [decide_eq_true_eq] at id
        simp [owns before mb same, owns first (List.mem_of_find?_eq_some found) id]
    · obtain ⟨binder, inside⟩ := inv.links.bound before mb
      exact ⟨binder, List.mem_append_left _ inside⟩
  · intro session other member
    obtain ⟨placer', inside⟩ := inv.links.connections session other member
    exact ⟨placer', List.mem_append_left _ inside⟩
  · intro note member
    obtain ⟨first, -, rfl⟩ := List.mem_map.mp member
    simp [Note.entry, Note.quiet]

theorem LinkStep.keeps {step : LinkStep β} (inv : Inv deployment service)
    (unused : service.journal.unused choice.draw = true) (guard : step.Guard service) :
    LinksKept deployment service (step.effect tid choice.draw choice.accepts service.links) := by
  cases step with
  | dial target =>
    simp only [LinkStep.effect]
    split
    · refine ⟨?_, inv.links.grow (List.prefix_append _ _), rfl, by simp [Note.entry, Note.quiet]⟩
      exact inv.history.append trivial (fun draw drawn => by cases drawn; exact unused)
        (by simp [Note.answers]) (by simp [Note.collects]) (by simp [Note.mints])
        (by simp [Note.registers])
    · exact .still inv inv.links
  | insert => exact LinkStep.insert_keeps inv unused guard
  | remove => exact .still inv (inv.links.fewer List.filter_sublist rfl)
  | removeOrphans => exact .still inv (inv.links.fewer List.filter_sublist rfl)
  | replace => exact LinkStep.replace_keeps inv guard
  | hangUp => exact .still inv (inv.links.fewer (List.Sublist.refl _) rfl)
  | holderOf | isCurrent | look => exact .still inv inv.links

/-- **Link steps keep the invariant.** -/
theorem LinkStep.preserves {step : LinkStep β} (inv : Inv deployment service)
    (guard : (Step.links step).Guard deployment tid service)
    (ran : (Step.links step).run deployment tid choice service = some (answer, after)) :
    Inv deployment after := by
  obtain ⟨unused, permits, rfl, rfl⟩ := Step.ran ran
  have kept : LinksKept deployment service
      (step.effect tid choice.draw choice.accepts service.links) :=
    LinkStep.keeps inv unused guard.2
  simp only [Step.effect, kept.proofs, List.map_nil, List.nil_append]
  have grows : service.journal <+: service.journal ++ _ := List.prefix_append service.journal
    (step.effect tid choice.draw choice.accepts service.links).notes
  exact {
    history := kept.history
    sessions := inv.sessions.grow grows
    requests := inv.requests.grow (fun note new => (kept.notes note new).2.1)
    collecting := by
      apply inv.idle <;> cases step <;> simp [Step.use, LinkStep.use]
    standing := inv.standing.grow (fun note new => (kept.notes note new).2.2)
    record := inv.record.grow (fun note new => (kept.notes note new).1)
    links := kept.links
    runs := inv.runs.grow grows }

/-! ## Runs -/

/-- What a run step has to leave for the invariant to hold of the rest. -/
structure RunsKept (deployment : Deployment) (service : Service) (effect : Effect RunPart β) :
    Prop where
  history : HistoryOk deployment (service.journal ++ effect.notes)
  runs : RunsOk (service.journal ++ effect.notes) effect.part
  proofs : effect.proofs = []
  notes : ∀ note ∈ effect.notes, note.entry = none ∧ note.quiet = true ∧ ∀ id, note ≠ .withdrew id

theorem RunsKept.still (inv : Inv deployment service) {answer : β} {part : RunPart}
    (runs : part.runs = service.runs.runs) :
    RunsKept deployment service (.plain answer part) where
  history := by simpa [Effect.plain] using inv.history
  runs := by
    simp only [Effect.plain, List.append_nil]
    exact ⟨runs ▸ inv.runs.registered, runs ▸ inv.runs.ids⟩
  proofs := rfl
  notes := by simp [Effect.plain]

/-- A run is registered once for its call, and rests on what its call knew. -/
theorem RunStep.register_keeps (inv : Inv deployment service) {session : SessionId}
    {receipt : Receipt} {connection : Connection} {payload : Option Payload}
    (unused : service.journal.unused choice.draw = true)
    (guard : (RunStep.register session receipt connection payload).Guard tid service) :
    RunsKept deployment service ((RunStep.register session receipt connection payload).effect tid
      choice.draw choice.accepts service.runs) := by
  obtain ⟨⟨intended, minted, about⟩, bound, target, fits, first⟩ := guard
  simp only [RunStep.effect]
  split
  · exact .still inv rfl
  · refine ⟨?_, ?_, rfl, by simp [Note.entry, Note.quiet]⟩
    · refine inv.history.append
        ⟨intended, receipt, minted, about, rfl, rfl, rfl, bound, target, fits⟩
        (fun draw drawn => by cases drawn; exact unused) (by simp [Note.answers])
        (by simp [Note.collects]) (by simp [Note.mints]) ?_
      intro caller registers earlier member
      cases registers
      exact first earlier member
    · refine ⟨fun run member => ?_, List.nodup_cons.mpr ⟨fun member => ?_, inv.runs.ids⟩⟩
      · rcases List.mem_cons.mp member with rfl | old
        · exact ⟨tid, session, by simp⟩
        · obtain ⟨caller, owner, inside⟩ := inv.runs.registered run old
          exact ⟨caller, owner, List.mem_append_left _ inside⟩
      · obtain ⟨run, old, same⟩ := List.mem_map.mp member
        obtain ⟨caller, owner, inside⟩ := inv.runs.registered run old
        exact inv.history.unused unused inside (by simp [Note.drawn, same])

/-- **Run steps keep the invariant.** -/
theorem RunStep.preserves {step : RunStep β} (inv : Inv deployment service)
    (guard : (Step.runs step).Guard deployment tid service)
    (ran : (Step.runs step).run deployment tid choice service = some (answer, after)) :
    Inv deployment after := by
  obtain ⟨unused, permits, rfl, rfl⟩ := Step.ran ran
  have kept : RunsKept deployment service
      (step.effect tid choice.draw choice.accepts service.runs) := by
    cases step with
    | openChannel => exact .still inv rfl
    | register => exact RunStep.register_keeps inv unused guard.2
    | stop => exact .still inv rfl
  simp only [Step.effect, kept.proofs, List.map_nil, List.nil_append]
  have grows : service.journal <+: service.journal ++ _ := List.prefix_append service.journal
    (step.effect tid choice.draw choice.accepts service.runs).notes
  exact {
    history := kept.history
    sessions := inv.sessions.grow grows
    requests := inv.requests.grow (fun note new => (kept.notes note new).2.1)
    collecting := inv.collecting
    standing := inv.standing.grow (fun note new => (kept.notes note new).2.2)
    record := inv.record.grow (fun note new => (kept.notes note new).1)
    links := inv.links.grow grows
    runs := kept.runs }

/-! ## The service itself -/

/-- **A step that only touches the service's own flags and locks keeps the
invariant.** A call that leaves lets go of proofs nobody else needs. -/
theorem ServiceStep.preserves {step : ServiceStep β} (inv : Inv deployment service)
    (guard : (Step.service step).Guard deployment tid service)
    (ran : (Step.service step).run deployment tid choice service = some (answer, after)) :
    Inv deployment after := by
  obtain ⟨unused, permits, rfl, rfl⟩ := Step.ran ran
  have guarded := guard.2
  have idle : ∀ holds, service.locksAfter tid holds (Step.service step).use .requests = none →
      service.approvals.collecting = none := by
    intro holds
    apply inv.idle <;> cases step with
    | lock | unlock => rcases guarded with rfl | ⟨id, rfl⟩ <;> simp [Step.use, ServiceStep.use]
    | _ => simp [Step.use, ServiceStep.use]
  cases step with
  | leave =>
    simp only [Step.effect, ServiceStep.effect, Effect.plain, List.append_nil, List.map_nil,
      List.nil_append]
    exact { inv with
      collecting := inv.collecting
      record := inv.record.fewer (fun sequence needed => needed.imp_right
        (Exists.imp fun caller => List.mem_of_mem_filter)) }
  | lock =>
    simp only [Step.effect, ServiceStep.effect, List.append_nil, List.map_nil, List.nil_append]
    exact { inv with collecting := idle true }
  | unlock =>
    simp only [Step.effect, ServiceStep.effect, Effect.plain, List.append_nil, List.map_nil,
      List.nil_append]
    exact { inv with collecting := idle false }
  | now | stopping | stop | enter =>
    simp only [Step.effect, ServiceStep.effect, Effect.plain, List.append_nil, List.map_nil,
      List.nil_append]
    exact { inv with collecting := inv.collecting }

/-! ## What happens by itself -/

/-- **What happens by itself keeps the invariant**, and nobody relies on what it
changes. -/
theorem Happening.preserves {happening : Happening} (inv : Inv deployment service)
    (happened : happening.run service = some after) :
    Inv deployment after ∧ ∀ tid, Rely tid service after := by
  cases happening with
  | tick later =>
    simp only [Happening.run] at happened
    split at happened
    · rename_i le
      cases happened
      exact ⟨{ inv with }, fun tid => { Rely.refl tid service with
        clock := le
        gone := fun session _ => Sessions.usable_later inv.sessions.ids le }⟩
    · cases happened
  | rehashSessions held =>
    simp only [Happening.run, Bool.and_eq_true, decide_eq_true_eq, List.isPerm_iff] at happened
    split at happened
    · rename_i ok
      obtain ⟨free, same⟩ := ok
      cases happened
      refine ⟨{ inv with sessions := ?_ }, fun tid => { Rely.refl tid service with
        sessions := fun mine => by rw [free] at mine; cases mine
        gone := fun session _ => Sessions.usable_perm inv.sessions.ids same }⟩
      exact { inv.sessions with
        opened := fun session member => inv.sessions.opened session (same.mem_iff.mpr member)
        ids := (same.map _).nodup_iff.mp inv.sessions.ids }
    · cases happened
  | rehashRequests requests =>
    simp only [Happening.run, Bool.and_eq_true, decide_eq_true_eq, List.isPerm_iff] at happened
    split at happened
    · rename_i ok
      obtain ⟨free, same⟩ := ok
      cases happened
      refine ⟨{ inv with requests := ?_, record := ?_ }, fun tid => { Rely.refl tid service with
        requests := fun mine => by rw [free] at mine; cases mine }⟩
      · obtain ⟨owner, tidy, owns⟩ := inv.requests.tidy
        exact ⟨⟨owner, tidy.perm same, owns⟩,
          fun held member => inv.requests.held held (same.mem_iff.mpr member),
          fun held member => inv.requests.unspent held (same.mem_iff.mpr member)⟩
      · exact inv.record.fewer (fun sequence needed => needed.imp_left
          (fun ⟨held, member, holds⟩ => ⟨held, same.mem_iff.mpr member, holds⟩))
    · cases happened
  | rehashStanding standing =>
    simp only [Happening.run, Bool.and_eq_true, decide_eq_true_eq, List.isPerm_iff] at happened
    split at happened
    · rename_i ok
      obtain ⟨free, same⟩ := ok
      cases happened
      refine ⟨{ inv with standing := ?_ }, fun tid => { Rely.refl tid service with
        standing := fun mine => by rw [free] at mine; cases mine }⟩
      exact ⟨fun agreement member => inv.standing.granted agreement (same.mem_iff.mpr member),
        fun agreement member => inv.standing.stands agreement (same.mem_iff.mpr member),
        (same.map _).nodup_iff.mp inv.standing.oneEach⟩
    · cases happened

/-! ## Every step -/

/-- **Every guarded step keeps the invariant.** -/
theorem Step.preserves {step : Step β} (inv : Inv deployment service)
    (guard : step.Guard deployment tid service)
    (ran : step.run deployment tid choice service = some (answer, after)) :
    Inv deployment after := by
  cases step with
  | service step => exact ServiceStep.preserves inv guard ran
  | sessions step => exact SessionStep.preserves inv guard ran
  | requests step => exact RequestStep.preserves inv guard ran
  | standing step => exact StandingStep.preserves inv guard ran
  | ledger step => exact LedgerStep.preserves inv guard ran
  | links step => exact LinkStep.preserves inv guard ran
  | runs step => exact RunStep.preserves inv guard ran

end McpSsh.Bastion
