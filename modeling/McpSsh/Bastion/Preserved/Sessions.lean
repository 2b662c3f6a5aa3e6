import McpSsh.Bastion.Frame

/-!
# Session steps keep the invariant

Only a publication adds a session, under a number nobody has drawn and for an
account the registry classifies as the caller said.
-/

namespace McpSsh.Bastion

variable {deployment : Deployment} {tid : Nat} {choice : Choice} {service after : Service}
variable {journal : Journal} {β : Type} {answer : β}

/-- A step that does not use the request lock leaves it. -/
theorem Service.locksAfter_requests {use : Use} {holds : Bool}
    (takes : use ≠ .takes .requests) (has : use ≠ .has .requests) :
    service.locksAfter tid holds use .requests = service.locks .requests := by
  cases use with
  | without => rfl
  | takes which =>
    exact Function.update_of_ne (fun same => takes (by rw [same])) _ _
  | has which =>
    exact Function.update_of_ne (fun same => has (by rw [same])) _ _

/-- So nothing is collected after it if the request lock is free. -/
theorem Inv.idle (inv : Inv deployment service) {use : Use} {holds : Bool}
    (takes : use ≠ .takes .requests) (has : use ≠ .has .requests)
    (free : service.locksAfter tid holds use .requests = none) :
    service.approvals.collecting = none :=
  inv.collecting ((Service.locksAfter_requests takes has).symm.trans free)

/-! ## The part -/

/-- A slot given back is the caller's. -/
theorem pending_erase {pending : List PrincipalId} {openings : List (Nat × PrincipalId)}
    (perm : pending.Perm (openings.map Prod.snd)) {tid : Nat} {principal : PrincipalId}
    (mine : (tid, principal) ∈ openings) :
    (pending.erase principal).Perm ((openings.erase (tid, principal)).map Prod.snd) := by
  have split := (List.perm_cons_erase mine).map Prod.snd
  have whole := (perm.trans split).erase principal
  simpa using whole

theorem SessionsOk.fewer {part : SessionPart} (ok : SessionsOk journal part) {store : Sessions}
    (sub : store.held.Sublist part.store.held) (pending : store.pending = part.store.pending) :
    SessionsOk journal { part with store } where
  opened := fun session member => ok.opened session (sub.subset member)
  ids := ok.ids.sublist sub
  pending := pending ▸ ok.pending

theorem SessionsOk.useSession {part : SessionPart} (ok : SessionsOk journal part) {now : Nat}
    {id : SessionId} {principal : PrincipalId} {answer : Except SessionError Session}
    {store : Sessions} (ran : part.store.useSession now id principal = (answer, store)) :
    SessionsOk journal { part with store } := by
  cases answer with
  | error error =>
    obtain ⟨sub, pending⟩ := Sessions.useSession_error ran
    exact ok.fewer sub pending
  | ok used =>
    obtain ⟨session, member, same, -, -, usedEq, rfl⟩ := Sessions.useSession_ok ran
    have sameUsed : used.id = id := by rw [usedEq]; exact same
    refine ⟨fun other inside => ?_, ?_, ok.pending⟩
    · obtain ⟨before, mb, rfl⟩ := List.mem_map.mp inside
      split
      · rw [usedEq]
        exact (ok.opened session member).used now
      · exact ok.opened before mb
    · unfold Sessions.Distinct
      rw [Sessions.renewed_ids sameUsed]
      exact ok.ids

/-- A number nobody has drawn names no session held. -/
theorem SessionsOk.fresh {part : SessionPart} (ok : SessionsOk journal part) {draw : Nat}
    (unused : journal.unused draw = true) : ∀ session ∈ part.store.held, session.id ≠ ⟨draw⟩ := by
  intro session member same
  obtain ⟨opener, lastUsed, inside⟩ := ok.opened session member
  have missed := List.all_eq_true.mp unused _ inside
  simp [Note.drawn, same] at missed

theorem SessionStep.keeps (step : SessionStep β) (ok : SessionsOk service.journal service.sessions)
    (unused : service.journal.unused choice.draw = true)
    (guard : step.Guard deployment tid service) :
    SessionsOk
      (service.journal ++
        (step.effect deployment tid service.clock choice.draw service.sessions).notes)
      (step.effect deployment tid service.clock choice.draw service.sessions).part := by
  cases step with
  | reserve principal =>
    simp only [SessionStep.effect]
    split
    · rename_i eq
      obtain ⟨sub, pending⟩ := Sessions.reserve_eq eq
      simpa [Effect.plain] using ok.fewer sub pending
    · rename_i store eq
      obtain ⟨sub, pending⟩ := Sessions.reserve_eq eq
      simp only [Effect.plain, List.append_nil]
      refine ⟨fun session member => ok.opened session (sub.subset member), ok.ids.sublist sub, ?_⟩
      simp only [pending, List.map_cons]
      exact ok.pending.cons principal
  | release principal =>
    simp only [SessionStep.effect, Effect.plain, List.append_nil]
    exact ⟨ok.opened, ok.ids, pending_erase ok.pending guard⟩
  | publish principal host role purpose accessClass =>
    simp only [SessionStep.effect]
    refine ⟨fun session member => ?_, ?_, pending_erase ok.pending guard.1⟩
    · rcases List.mem_cons.mp member with rfl | old
      · exact ⟨tid, _, List.mem_append_right _ (List.mem_singleton_self _)⟩
      · exact (ok.opened session old).grow (List.prefix_append _ _)
    · refine List.nodup_cons.mpr ⟨fun member => ?_, ok.ids⟩
      obtain ⟨session, inside, same⟩ := List.mem_map.mp member
      exact ok.fresh unused session inside same
  | useSession id principal =>
    simp only [SessionStep.effect, Effect.plain, List.append_nil]
    exact ok.useSession rfl
  | close id principal =>
    simp only [SessionStep.effect, Effect.plain, List.append_nil]
    exact ok.fewer Sessions.close_held Sessions.close_pending
  | sweep =>
    simp only [SessionStep.effect, Effect.plain, List.append_nil]
    exact ok.fewer Sessions.sweep_held rfl
  | removeClaimed id =>
    simp only [SessionStep.effect, Effect.plain, List.append_nil]
    exact ok.fewer Sessions.remove_held rfl
  | claim id =>
    simp only [SessionStep.effect]
    split <;> simpa [Effect.plain] using ok
  | holds | endsBy | live | abandon => simpa [SessionStep.effect, Effect.plain] using ok

/-! ## The rest -/

/-- A session step says nothing, or that it opened a session. -/
theorem SessionStep.notes (step : SessionStep β) (choice : Choice)
    (guard : step.Guard deployment tid service) :
    (step.effect deployment tid service.clock choice.draw service.sessions).proofs = [] ∧
      ((step.effect deployment tid service.clock choice.draw service.sessions).notes = [] ∨
        ∃ session, session.id = ⟨choice.draw⟩ ∧
          Warrant deployment service.journal (.opened tid session) ∧
          (step.effect deployment tid service.clock choice.draw service.sessions).notes =
            [.opened tid session]) := by
  cases step with
  | publish principal host role purpose accessClass =>
    obtain ⟨-, target, resolved, sameClass⟩ := guard
    exact ⟨rfl, .inr ⟨_, rfl, ⟨rfl, target, resolved, sameClass⟩, rfl⟩⟩
  | reserve principal =>
    simp only [SessionStep.effect]
    split <;> exact ⟨rfl, .inl rfl⟩
  | claim id =>
    simp only [SessionStep.effect]
    split <;> exact ⟨rfl, .inl rfl⟩
  | _ => exact ⟨rfl, .inl rfl⟩

/-- Who a request belongs to is not changed by a session nobody knew. -/
theorem RequestsOk.opened {part : RequestPart} (ok : RequestsOk deployment journal part)
    (history : HistoryOk deployment journal) {session : Session}
    (unused : journal.unused session.id.draw = true) :
    RequestsOk deployment (journal ++ [.opened tid session]) part where
  tidy := by
    obtain ⟨owner, tidy, owns⟩ := ok.tidy
    have apart : ∀ known, journal.Opened known → known.id ≠ session.id := by
      rintro known ⟨opener, lastUsed, member⟩ same
      exact history.unused unused member (by simp [Note.drawn, same])
    refine ⟨Function.update owner session.id session.principal, ?_, ?_⟩
    · refine { tidy with owned := fun held member => ?_ }
      obtain ⟨raiser, intended, raised, -⟩ := (ok.held held member).raised
      obtain ⟨known, opened, same, -⟩ := history.raised_opened raised
      rw [Function.update_of_ne (same ▸ apart known opened)]
      exact tidy.owned held member
    · rintro known ⟨opener, lastUsed, member⟩
      rcases List.mem_append.mp member with old | new
      · rw [Function.update_of_ne (apart known ⟨opener, lastUsed, old⟩)]
        exact owns known ⟨opener, lastUsed, old⟩
      · simp only [List.mem_singleton, Note.opened.injEq] at new
        obtain ⟨-, rfl⟩ := new
        exact Function.update_self _ _ _
  held := fun held member => (ok.held held member).grow (by simp [Note.answers])
  unspent := by
    intro held member opened note inside collects
    rcases List.mem_append.mp inside with old | new
    · exact ok.unspent held member opened note old collects
    · rw [List.mem_singleton] at new
      subst new
      cases collects

/-- **Session steps keep the invariant.** -/
theorem SessionStep.preserves {step : SessionStep β} (inv : Inv deployment service)
    (guard : (Step.sessions step).Guard deployment tid service)
    (ran : (Step.sessions step).run deployment tid choice service = some (answer, after)) :
    Inv deployment after := by
  obtain ⟨unused, permits, rfl, rfl⟩ := Step.ran ran
  have kept := step.keeps inv.sessions unused guard.2
  obtain ⟨noProofs, notes⟩ := step.notes choice guard.2
  simp only [Step.effect, noProofs, List.map_nil, List.nil_append]
  have idle : ∀ holds, service.locksAfter tid holds (Step.sessions step).use .requests = none →
      service.approvals.collecting = none := by
    intro holds
    apply inv.idle <;> cases step <;> simp [Step.use, SessionStep.use]
  rcases notes with none' | ⟨session, id, warrant, opened⟩
  · rw [none', List.append_nil] at kept ⊢
    exact {
      history := inv.history, sessions := kept, requests := inv.requests
      collecting := idle _
      standing := inv.standing, record := inv.record, links := inv.links, runs := inv.runs }
  · rw [opened] at kept ⊢
    have unused' : service.journal.unused session.id.draw = true := by rw [id]; exact unused
    exact {
      history := inv.history.append warrant
        (fun draw same => by cases same; exact unused') (by simp [Note.answers])
        (by simp [Note.collects]) (by simp [Note.mints]) (by simp [Note.registers])
      sessions := kept
      requests := inv.requests.opened inv.history unused'
      collecting := idle _
      standing := inv.standing.grow (by simp)
      record := inv.record.grow (by simp [Note.entry])
      links := inv.links.grow (List.prefix_append _ _)
      runs := inv.runs.grow (List.prefix_append _ _) }

end McpSsh.Bastion
