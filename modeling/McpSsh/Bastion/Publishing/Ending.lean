import McpSsh.Bastion.Publishing.Redialling

/-!
# Opening and ending, call by call

Between the lock and its return, an opening has a session without a holder, and
an ending has a session that is over by the record. Each is put right before
the lock is given back.
-/

namespace McpSsh.Bastion

open Interleaving

variable {deployment : Deployment} {lost : Nat → Prop} {tid : Nat} {choice : Choice}
variable {service after start before : Service} {past : List Took} {α β : Type} {answer : β}
variable {about : Option SessionId} {loose : List Connection} {owed : List Nat}

/-! ## Opening -/

/-- A session has been published, and its holder is yet to come. -/
structure Opening (tid : Nat) (id : SessionId) (service : Service) : Prop where
  locked : service.locks .publishing = some tid
  clear : service.Clear
  all : ∀ session, service.journal.Opened session → session.id ≠ id →
    ∃ placer holder, Note.placed placer holder session.id ∈ service.journal
  unplaced : ∀ placer holder, Note.placed placer holder id ∉ service.journal

theorem Opening.left {id : SessionId} (opening : Opening tid id service)
    (moved : Rely tid service after) (left : Leaves tid service after) : Opening tid id after where
  locked := (moved.locks _).mp opening.locked
  clear := (left.sheltered opening.locked).clear opening.clear
  all := by
    intro session opened differ
    obtain ⟨placer, holder, placed⟩ := opening.all session
      ((left.sheltered opening.locked).opened session opened) differ
    exact ⟨placer, holder, moved.journal.subset placed⟩
  unplaced := fun placer holder placed =>
    opening.unplaced placer holder ((left.sheltered opening.locked).placed placer holder id placed)

theorem Publishing.opens {principal : PrincipalId} {host : HostId} {role : RoleId}
    {purpose : Purpose} {accessClass : AccessClass} {session : Session}
    (publishes : Publishing tid service) (ok : Published lost service) (inv : Inv deployment service)
    (ran : (Step.sessions (.publish principal host role purpose accessClass)).run deployment tid
      choice service = some (session, after)) : Opening tid session.id after := by
  obtain ⟨unused, held, -, -, locks, journal, id⟩ := SessionStep.publish_did ran
  have entries : after.journal.entries = service.journal.entries := by
    rw [journal]
    simp [Journal.entries_append, Note.entry]
  have placedIs : ∀ {placer holder other}, Note.placed placer holder other ∈ after.journal →
      Note.placed placer holder other ∈ service.journal := by
    intro placer holder other placed
    rw [journal] at placed
    simpa using placed
  refine ⟨locks.trans publishes.locked, ?_, ?_, ?_⟩
  · rintro other member ⟨entry, inside, ends⟩
    rw [entries] at inside
    rw [held] at member
    rcases List.mem_cons.mp member with rfl | old
    · obtain ⟨known, opened, same⟩ := ok.ends.known _ ⟨entry, inside, ends⟩
      exact inv.opened_unused unused opened (same.trans id)
    · exact publishes.clear other old ⟨entry, inside, ends⟩
  · rintro other ⟨opener, lastUsed, member⟩ differ
    rw [journal] at member
    rcases List.mem_append.mp member with old | new
    · obtain ⟨placer, holder, placed⟩ := publishes.all other ⟨opener, lastUsed, old⟩
      exact ⟨placer, holder, by rw [journal]; exact List.mem_append_left _ placed⟩
    · obtain ⟨-, rfl⟩ := Note.opened.inj (List.mem_singleton.mp new)
      exact absurd rfl differ
  · intro placer holder placed
    obtain ⟨known, opened, same⟩ := ok.map.known placer holder _ (placedIs placed)
    exact inv.opened_unused unused opened (same.trans id)

/-- What a call had dialled is still its own after a publication. -/
theorem SessionStep.publish_fresh {principal : PrincipalId} {host : HostId} {role : RoleId}
    {purpose : Purpose} {accessClass : AccessClass} {session : Session} {connection : Connection}
    (fresh : service.Fresh tid connection)
    (ran : (Step.sessions (.publish principal host role purpose accessClass)).run deployment tid
      choice service = some (session, after)) : after.Fresh tid connection := by
  obtain ⟨-, -, -, links, -, journal, -⟩ := SessionStep.publish_did ran
  refine ⟨by rw [journal]; exact List.mem_append_left _ fresh.dialled, ?_, by
    rw [links]; exact fresh.unclosed⟩
  intro binder about other bound
  rw [journal] at bound
  exact fresh.unbound binder about other (by simpa using bound)

/-- The holder comes, and everything is in order again. -/
theorem Opening.placed {id : SessionId} {connection : Connection} {answer : Unit}
    (opening : Opening tid id service)
    (ran : (Step.links (.insert id connection)).run deployment tid choice service =
      some (answer, after)) :
    Publishing tid after ∧ Note.bound tid id connection ∈ after.journal := by
  have did := LinkStep.did ran
  have journal : after.journal = service.journal ++
      [.placed tid choice.draw id, .bound tid id connection] := did.journal
  refine ⟨⟨did.publishing.trans opening.locked, ?_, ?_⟩, by rw [journal]; simp⟩
  · rintro session ⟨opener, lastUsed, member⟩
    rw [journal] at member ⊢
    have old : Note.opened opener { session with lastUsed } ∈ service.journal := by simpa using member
    rcases eq_or_ne session.id id with same | differ
    · exact ⟨tid, choice.draw, by simp [same]⟩
    · obtain ⟨placer, holder, placed⟩ := opening.all session ⟨opener, lastUsed, old⟩ differ
      exact ⟨placer, holder, List.mem_append_left _ placed⟩
  · have entries : after.journal.entries = service.journal.entries := by
      rw [journal]
      simp [Journal.entries_append, Note.entry]
    unfold Service.Clear Journal.Ended
    rw [entries, did.sessions]
    exact opening.clear

theorem openSession_publishes {principal : PrincipalId} {host : HostId} {role : RoleId}
    {purpose : Purpose} {accessClass : AccessClass} :
    Publishes deployment lost tid (fun past _ after => Settled past after)
      (Bastion.openSession deployment principal host role purpose accessClass) [] service := by
  have finish : ∀ {past : List Took} {now : Service} (result : Except MediationError Session),
      Settles none [] [] service past now →
      Publishes deployment lost tid (fun past _ after => Settled past after) (.done result) past now :=
    fun _ settles _ _ moved => ⟨none, (settles.rely moved).owing⟩
  have settles := Settles.of_start (Owing.nil service)
  unfold Bastion.openSession
  split
  · exact finish _ settles
  rename_i target _
  refine .idle trivial fun choice before admitted first stepped => ?_
  have settles := settles.quiet stepped trivial
  cases admitted with
  | false => exact finish _ settles
  | true =>
  refine .idle trivial fun choice₂ before₂ reserved second stepped₂ => ?_
  have settles := settles.quiet stepped₂ trivial
  cases reserved with
  | error error => exact finish _ settles
  | ok _ =>
  refine .idle trivial fun choice₃ before₃ dialled third stepped₃ => ?_
  have settles : Settles none dialled.toList [] service _ third :=
    ⟨settles.owing.dial stepped₃, settles.lasts.trans stepped₃.lasts,
      settles.grows.trans stepped₃.grows⟩
  cases dialled with
  | none =>
    exact .idle trivial fun choice₄ before₄ _ fourth stepped₄ =>
      finish _ (settles.quiet stepped₄ trivial)
  | some connection =>
  have fresh := LinkStep.dial_fresh stepped₃.ok stepped₃.inv stepped₃.ran
  refine .idle trivial fun choice₄ before₄ admitted fourth stepped₄ => ?_
  have settles := settles.quiet stepped₄ trivial
  have fresh := (stepped₄.idle trivial).leaves.fresh connection (stepped₄.left.fresh connection fresh)
  cases admitted with
  | false =>
    refine .idle trivial fun choice₅ before₅ _ fifth stepped₅ => ?_
    have settles := settles.quiet stepped₅ trivial
    have fresh := (stepped₅.idle trivial).leaves.fresh connection (stepped₅.left.fresh connection fresh)
    refine .act (fun later inv _ _ left => inv.hangUp_fresh (left.fresh connection fresh))
      fun choice₆ before₆ _ sixth stepped₆ => ?_
    have settles := settles.quiet stepped₆ trivial
    exact finish _ { settles with
      owing := settles.owing.settled (.inl (LinkStep.hangUp_closed stepped₆.ran).1) }
  | true =>
  refine .idle trivial fun choice₅ before₅ _ fifth stepped₅ => ?_
  have settles := settles.quiet stepped₅ trivial
  have fresh := (stepped₅.idle trivial).leaves.fresh connection (stepped₅.left.fresh connection fresh)
  have publishes := stepped₅.locks
  refine .act (fun later _ _ moved left => (publishes.left moved left).locked)
    fun choice₆ before₆ session sixth stepped₆ => ?_
  have settles := settles.quiet stepped₆ trivial
  have opening := (publishes.left stepped₆.moved stepped₆.left).opens stepped₆.ok stepped₆.inv
    stepped₆.ran
  have fresh := SessionStep.publish_fresh (stepped₆.left.fresh connection fresh) stepped₆.ran
  refine .act (fun later _ _ moved left => ?_) fun choice₇ before₇ _ seventh stepped₇ => ?_
  · have opening := opening.left moved left
    exact ⟨opening.locked, left.fresh connection fresh, opening.unplaced⟩
  have settles := settles.quiet stepped₇ trivial
  obtain ⟨publishes, bound⟩ := (opening.left stepped₇.moved stepped₇.left).placed stepped₇.ran
  have settles : Settles none [] [] service _ seventh := { settles with
    owing := settles.owing.settled (.inr ⟨tid, session.id, bound, .inl rfl⟩) }
  refine .act (fun later _ _ moved left => (publishes.left moved left).minds)
    fun choice₈ before₈ _ eighth stepped₈ => ?_
  have settles := settles.quiet stepped₈ trivial
  refine .idle rfl fun choice₉ before₉ recorded ninth stepped₉ => ?_
  have settles := settles.quiet stepped₉ trivial
  cases recorded with
  | error error => exact finish _ settles
  | ok entry =>
  change Publishes _ _ _ _ (Bastion.reclaim >>= _) _ _
  refine .bind (reclaim_publishes stepped₉.inv' stepped₉.ok' settles.owing) stepped₉.inv' stepped₉.ok'
    fun past _ tenth _ _ rest => ?_
  exact finish _ (rest.since settles.lasts settles.grows)

/-! ## Ending -/

/-- The end of a session is in the record, and the session may not have gone
yet. -/
structure Ending (tid : Nat) (id : SessionId) (service : Service) : Prop where
  locked : service.locks .publishing = some tid
  all : service.AllPlaced
  ended : service.journal.Ended id
  clear : ∀ session ∈ service.sessions.store.held, service.journal.Ended session.id → session.id = id

namespace Ending
variable {id : SessionId}

theorem sheltered (ending : Ending tid id service) (grows : service.journal <+: after.journal)
    (sheltered : Sheltered service after) (locked : after.locks .publishing = some tid) :
    Ending tid id after where
  locked
  all := sheltered.allPlaced grows ending.all
  ended := ending.ended.grow grows
  clear := by
    intro session member ended
    obtain ⟨old, inside, same, -⟩ := sheltered.held session member
    exact same ▸ ending.clear old inside (same ▸ sheltered.ended _ ended)

theorem left (ending : Ending tid id service) (moved : Rely tid service after)
    (left : Leaves tid service after) : Ending tid id after :=
  ending.sheltered moved.journal (left.sheltered ending.locked) ((moved.locks _).mp ending.locked)

/-- An idle step that does not use the lock. -/
theorem step {step : Step β} (ending : Ending tid id start)
    (stepped : Stepped deployment lost tid step choice start before answer after)
    (idles : step.Idles) (takes : step.use ≠ .takes .publishing) : Ending tid id after := by
  have here := ending.left stepped.moved stepped.left
  have idle := stepped.idle idles
  exact here.sheltered idle.grows idle.sheltered
    ((Step.lock_eq takes idles.use stepped.ran).trans here.locked)

/-- Once the session has gone everything is in order again. -/
theorem gone (ending : Ending tid id service)
    (gone : ∀ session ∈ service.sessions.store.held, session.id ≠ id) : Publishing tid service :=
  ⟨ending.locked, ending.all, fun session member ended =>
    gone session member (ending.clear session member ended)⟩

end Ending

/-- A session that is held can be ended, by the call that has the lock. -/
theorem Publishing.ends {session held : Session} {event : Event} (publishes : Publishing tid service)
    (member : held ∈ service.sessions.store.held) (same : held.id = session.id)
    (opened : service.journal.Opened session) (moved : Rely tid service after)
    (left : Leaves tid service after) :
    (Step.ledger (.record session.attribution event)).Minds lost tid after := by
  intro _
  have here := publishes.left moved left
  refine ⟨here.locked, here.all, fun ended => ?_, session, opened.grow moved.journal, rfl⟩
  exact publishes.clear held member
    (same ▸ (left.sheltered publishes.locked).ended _ ended)

namespace Stepped
variable {who : Attribution} {event : Event}

/-- A refused record leaves everything in order. -/
theorem refused {error : AuditError} (publishes : Publishing tid start)
    (stepped : Stepped deployment lost tid (.ledger (.record who event)) choice start before
      (.error error) after) : Publishing tid after := by
  have here := publishes.left stepped.moved stepped.left
  have journal := LedgerStep.record_refused stepped.ran
  have locks : after.locks .publishing = before.locks .publishing :=
    Step.lock_eq Use.noConfusion Use.noConfusion stepped.ran
  have sessions : after.sessions = before.sessions := by
    obtain ⟨-, -, -, rfl⟩ := Step.ran stepped.ran
    rfl
  refine ⟨locks.trans here.locked, ?_, ?_⟩
  · unfold Service.AllPlaced
    rw [journal]
    exact here.all
  · unfold Service.Clear
    rw [journal, sessions]
    exact here.clear

/-- An end that is recorded is of this session alone. -/
theorem recorded {entry : Entry} (publishes : Publishing tid start) (isEnd : event.isEnd = true)
    (stepped : Stepped deployment lost tid (.ledger (.record who event)) choice start before
      (.ok entry) after) : Ending tid who.session after := by
  have here := publishes.left stepped.moved stepped.left
  obtain ⟨journal, sameWho, sameEvent⟩ := LedgerStep.record_ok stepped.inv stepped.ran
  have locks : after.locks .publishing = before.locks .publishing :=
    Step.lock_eq Use.noConfusion Use.noConfusion stepped.ran
  have sessions : after.sessions = before.sessions := by
    obtain ⟨-, -, -, rfl⟩ := Step.ran stepped.ran
    rfl
  have ends : entry.ends = some who.session := by simp [Entry.ends, sameEvent, isEnd, sameWho]
  have entries : after.journal.entries = before.journal.entries ++ [entry] := by
    rw [journal, Journal.entries_append]
    rfl
  refine ⟨locks.trans here.locked, ?_, ⟨entry, by rw [entries]; simp, ends⟩, ?_⟩
  · rintro session ⟨opener, lastUsed, member⟩
    rw [journal] at member ⊢
    obtain ⟨placer, holder, placed⟩ := here.all session ⟨opener, lastUsed, by simpa using member⟩
    exact ⟨placer, holder, List.mem_append_left _ placed⟩
  · rintro session member ⟨other, inside, about⟩
    rw [sessions] at member
    rw [entries] at inside
    rcases List.mem_append.mp inside with old | new
    · exact absurd ⟨other, old, about⟩ (here.clear session member)
    · obtain rfl := List.mem_singleton.mp new
      exact (Option.some.inj (ends.symm.trans about)).symm

end Stepped

/-- What taking one entry out of the map does. -/
theorem LinkStep.remove_took {id : SessionId} {answer : Option Nat}
    (ran : (Step.links (.remove id)).run deployment tid choice service = some (answer, after)) :
    answer = service.linked id ∧ after.journal = service.journal ∧
      ∀ other, after.linked other = if other = id then none else service.linked other := by
  obtain ⟨-, -, is, rfl⟩ := Step.ran ran
  refine ⟨is, List.append_nil _, fun other => ?_⟩
  have filtered := lookup_filter (fun other => decide (other ≠ id)) other service.links.connections
  simp only [decide_eq_true_eq, ite_not] at filtered
  exact filtered

/-- A call owes the holder it took out. -/
theorem Owing.removed {id : SessionId} {session : Session} {answer : Option Nat}
    (owing : Owing about loose [] past start) (opened : start.journal.Opened session)
    (same : session.id = id)
    (stepped : Stepped deployment lost tid (.links (.remove id)) choice start before answer after) :
    Owing about loose answer.toList
      (past ++ [⟨.links (.remove id), choice, answer, before, after⟩]) after := by
  have later := owing.later stepped.lasts stepped.grows
  obtain ⟨took, journal, linked⟩ := LinkStep.remove_took stepped.ran
  have gone : after.linked id = none := (linked id).trans (if_pos rfl)
  obtain ⟨-, all, -⟩ := stepped.minds
  refine ⟨?_, ?_, ?_⟩
  · intro old member other clears
    rcases List.mem_append.mp member with earlier | new
    · obtain ⟨parted, shut⟩ := later.cleared old earlier other clears
      refine ⟨parted, fun holder is => ?_⟩
      rcases shut holder is with shut | owes
      · exact .inl shut
      · cases owes
    · obtain rfl := List.mem_singleton.mp new
      obtain rfl : id = other := clears
      obtain ⟨placer, holder, placed⟩ := all session (opened.grow stepped.moved.journal)
      rw [same] at placed
      refine ⟨⟨⟨placer, holder, by rw [journal]; exact placed⟩, gone⟩, fun holder is => .inr ?_⟩
      exact Option.mem_toList.mpr (took.trans is)
  · intro old member connection dials
    rcases List.mem_append.mp member with earlier | new
    · exact later.dialled old earlier connection dials
    · obtain rfl := List.mem_singleton.mp new
      cases dials
  · intro old member other seeks
    rcases List.mem_append.mp member with earlier | new
    · exact later.sought old earlier other seeks
    · obtain rfl := List.mem_singleton.mp new
      cases seeks

theorem closeRemoved_publishes {holder : Option Nat}
    (owing : Owing about loose holder.toList past service)
    (removed : ∀ number ∈ holder, service.Removed number) :
    Settling deployment lost tid about loose [] (closeRemoved holder) past service := by
  cases holder with
  | none => exact (Settles.of_start owing).done
  | some number => exact closeHolder_publishes owing (removed number rfl)

/-- A session that has ended: its entry is taken out, and what it had closed. -/
theorem ended_publishes {id : SessionId} {session : Session} (publishes : Publishing tid service)
    (ended : service.journal.Ended id) (opened : service.journal.Opened session)
    (same : session.id = id) (settles : Settles none [] [] start past service) :
    Publishes deployment lost tid (fun past _ after => Settled past after)
      (do
        let holder ← Prog.links (.remove id)
        Prog.service (.unlock .publishing)
        closeRemoved holder
        Bastion.reclaim
        return (.ok () : Except MediationError Unit)) past service := by
  refine .act (fun later _ _ moved left => ?_) fun choice before holder first stepped => ?_
  · have here := publishes.left moved left
    refine ⟨here.locked, here.all, fun other member is => ?_⟩
    exact absurd (is ▸ ended.grow moved.journal) (here.clear other member)
  have publishes := stepped.linked publishes rfl
  have settles : Settles none [] holder.toList start _ first :=
    ⟨settles.owing.removed opened same stepped, settles.lasts.trans stepped.lasts,
      settles.grows.trans stepped.grows⟩
  have removed : ∀ number ∈ holder, first.Removed number := by
    intro number is
    obtain ⟨took, journal, linked⟩ := LinkStep.remove_took stepped.ran
    obtain ⟨placer, placed⟩ := stepped.inv.linked_placed (took.symm.trans is)
    rw [← journal] at placed
    exact ⟨placer, id, placed, ⟨placer, number, placed⟩, (linked id).trans (if_pos rfl)⟩
  refine .act (fun later _ _ moved left => (publishes.left moved left).minds)
    fun choice₂ before₂ _ second stepped₂ => ?_
  have settles := settles.quiet stepped₂ trivial
  change Publishes _ _ _ _ (closeRemoved holder >>= _) _ _
  refine .bind (closeRemoved_publishes settles.owing fun number is =>
    (removed number is).later stepped₂.lasts stepped₂.grows) stepped₂.inv' stepped₂.ok' ?_
  intro past _ third inv ok settles
  refine .bind (reclaim_publishes inv ok settles.owing) inv ok fun past _ fourth _ _ settles => ?_
  exact fun _ _ moved => ⟨none, (settles.rely moved).owing⟩

/-- The lock is given back, and the call is over. -/
theorem Settles.given {result : α} (publishes : Publishing tid service)
    (settles : Settles none [] [] start past service) :
    Publishes deployment lost tid (fun past _ after => Settled past after)
      (Prog.service (.unlock .publishing) >>= fun _ => pure result) past service := by
  refine .act (fun later _ _ moved left => (publishes.left moved left).minds)
    fun choice before _ first stepped => ?_
  exact fun _ _ moved => ⟨none, ((settles.quiet stepped trivial).rely moved).owing⟩

/-- A session just used is held, and is the one asked for. -/
theorem SessionStep.useSession_found {id : SessionId} {principal : PrincipalId} {session : Session}
    (ran : (Step.sessions (.useSession id principal)).run deployment tid choice service =
      some (.ok session, after)) :
    session ∈ after.sessions.store.held ∧ session.id = id ∧ session.principal = principal := by
  obtain ⟨-, -, is, rfl⟩ := Step.ran ran
  have used : service.sessions.store.useSession service.clock id principal = (.ok session,
      (service.sessions.store.useSession service.clock id principal).2) := Prod.ext is.symm rfl
  obtain ⟨found, member, same, mine, -, rfl, store⟩ := Sessions.useSession_ok used
  refine ⟨?_, same, mine⟩
  change _ ∈ (service.sessions.store.useSession service.clock id principal).2.held
  rw [store]
  exact List.mem_map.mpr ⟨found, member, if_pos same⟩

/-- Once a session's owner has closed it, it is not held. -/
theorem SessionStep.close_gone {id : SessionId} {principal : PrincipalId} {session : Session}
    {answer : Except SessionError Unit} (opened : service.journal.Opened session)
    (mine : session.principal = principal) (inv : Inv deployment service) (same : session.id = id)
    (ran : (Step.sessions (.close id principal)).run deployment tid choice service =
      some (answer, after)) : ∀ held ∈ after.sessions.store.held, held.id ≠ id := by
  obtain ⟨-, -, -, rfl⟩ := Step.ran ran
  simp only [Step.effect, SessionStep.effect, Sessions.close]
  split
  · rename_i found there
    obtain ⟨member, sameFound⟩ := Sessions.find_eq_some there
    have known := inv.history.opened_unique (inv.sessions.opened found member) opened
      (sameFound.trans same.symm)
    have owned : found.principal = principal := by
      rw [known]
      exact mine
    rw [if_pos owned]
    exact fun held inside => by simpa using (List.mem_filter.mp inside).2
  · rename_i missing
    intro held inside is
    rw [← is] at missing
    exact absurd ((inv.sessions.ids.find inside).symm.trans missing) (Option.some_ne_none _)

/-- Nor once an operator has removed it. -/
theorem SessionStep.removeClaimed_gone {id : SessionId} {answer : Unit}
    (ran : (Step.sessions (.removeClaimed id)).run deployment tid choice service =
      some (answer, after)) : ∀ held ∈ after.sessions.store.held, held.id ≠ id := by
  obtain ⟨-, -, -, rfl⟩ := Step.ran ran
  exact fun held inside => by simpa using (List.mem_filter.mp inside).2

theorem closeSession_publishes {principal : PrincipalId} {id : SessionId} :
    Publishes deployment lost tid (fun past _ after => Settled past after)
      (Bastion.closeSession principal id) [] service := by
  have settles := Settles.of_start (Owing.nil service)
  unfold Bastion.closeSession
  refine .idle trivial fun choice before admitted first stepped => ?_
  have settles := settles.quiet stepped trivial
  cases admitted with
  | false => exact fun _ _ moved => ⟨none, (settles.rely moved).owing⟩
  | true =>
  refine .idle trivial fun choice₂ before₂ _ second stepped₂ => ?_
  have settles := settles.quiet stepped₂ trivial
  refine .idle trivial fun choice₃ before₃ result third stepped₃ => ?_
  have settles := settles.quiet stepped₃ trivial
  have publishes := stepped₃.publishing stepped₂.locks trivial (fun same => by cases same)
  cases result with
  | error error => exact settles.given publishes
  | ok session =>
  obtain ⟨member, same, mine⟩ := SessionStep.useSession_found stepped₃.ran
  have opened := stepped₃.inv'.sessions.opened session member
  refine .act (fun later _ _ moved left => publishes.ends member rfl opened moved left)
    fun choice₄ before₄ recorded fourth stepped₄ => ?_
  have settles := settles.quiet stepped₄ trivial
  cases recorded with
  | error error => exact settles.given (stepped₄.refused publishes)
  | ok entry =>
  have ending : Ending tid session.id fourth := stepped₄.recorded publishes rfl
  rw [same] at ending
  have opened := opened.grow stepped₄.grows
  refine .idle trivial fun choice₅ before₅ closed fifth stepped₅ => ?_
  have settles := settles.quiet stepped₅ trivial
  have gone := SessionStep.close_gone (opened.grow stepped₅.moved.journal) mine stepped₅.inv same
    stepped₅.ran
  have ending := ending.step stepped₅ trivial (fun same => by cases same)
  have publishes := ending.gone gone
  cases closed with
  | error error => exact settles.given publishes
  | ok _ =>
  exact ended_publishes publishes ending.ended (opened.grow stepped₅.grows) same settles

/-- A session just claimed is held, and is the one asked for. -/
theorem SessionStep.claim_found {id : SessionId} {session : Session}
    (ran : (Step.sessions (.claim id)).run deployment tid choice service =
      some (some session, after)) : session ∈ after.sessions.store.held ∧ session.id = id := by
  obtain ⟨-, -, is, rfl⟩ := Step.ran ran
  simp only [Step.effect, SessionStep.effect] at is ⊢
  split at is
  · cases is
  · rename_i found
    cases is
    exact Sessions.find_eq_some found

theorem terminateSession_publishes {id : SessionId} {operator : PrincipalId} :
    Publishes deployment lost tid (fun past _ after => Settled past after)
      (Bastion.terminateSession id operator) [] service := by
  have settles := Settles.of_start (Owing.nil service)
  unfold Bastion.terminateSession
  refine .idle trivial fun choice before admitted first stepped => ?_
  have settles := settles.quiet stepped trivial
  cases admitted with
  | false => exact fun _ _ moved => ⟨none, (settles.rely moved).owing⟩
  | true =>
  refine .idle trivial fun choice₂ before₂ _ second stepped₂ => ?_
  have settles := settles.quiet stepped₂ trivial
  refine .idle trivial fun choice₃ before₃ claimed third stepped₃ => ?_
  have settles := settles.quiet stepped₃ trivial
  have publishes := stepped₃.publishing stepped₂.locks trivial (fun same => by cases same)
  cases claimed with
  | none => exact settles.given publishes
  | some session =>
  obtain ⟨member, same⟩ := SessionStep.claim_found stepped₃.ran
  have opened := stepped₃.inv'.sessions.opened session member
  refine .act (fun later _ _ moved left => publishes.ends member rfl opened moved left)
    fun choice₄ before₄ recorded fourth stepped₄ => ?_
  have settles := settles.quiet stepped₄ trivial
  cases recorded with
  | error error =>
    have publishes := stepped₄.refused publishes
    refine .idle trivial fun choice₅ before₅ _ fifth stepped₅ => ?_
    exact (settles.quiet stepped₅ trivial).given
      (stepped₅.publishing publishes trivial (fun same => by cases same))
  | ok entry =>
  have ending : Ending tid session.id fourth := stepped₄.recorded publishes rfl
  rw [same] at ending
  refine .idle trivial fun choice₅ before₅ _ fifth stepped₅ => ?_
  have settles := settles.quiet stepped₅ trivial
  have gone := SessionStep.removeClaimed_gone stepped₅.ran
  have ending := ending.step stepped₅ trivial (fun same => by cases same)
  exact ended_publishes (ending.gone gone) ending.ended
    ((opened.grow stepped₄.grows).grow stepped₅.grows) same settles

end McpSsh.Bastion
