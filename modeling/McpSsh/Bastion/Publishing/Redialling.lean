import McpSsh.Bastion.Publishing.Closing

/-!
# Redialling under the holder's lock

A session's connection is replaced by the call that has the lock of its holder,
if the transport is gone and the session still has the holder in the map. What
is dialled and not put there is closed.
-/

namespace McpSsh.Bastion

open Interleaving

variable {deployment : Deployment} {lost : Nat → Prop} {tid : Nat} {choice : Choice}
variable {service after start before : Service} {past : List Took} {α β : Type} {answer : β}
variable {about : Option SessionId} {loose : List Connection} {owed : List Nat}

/-! ## The holder -/

/-- What a holder holds, while it is open. -/
structure Service.Serves (service : Service) (holder : Nat) (held : Holder) : Prop where
  found : service.links.find holder = some held
  unclosed : held.connection.id ∉ service.links.closed

/-- Where a call stands that has the lock of a session's holder: what it has
dialled is still its own. -/
structure Under (tid : Nat) (session : SessionId) (holder : Nat) (loose : List Connection)
    (service : Service) : Prop where
  locked : service.locks (.holder holder) = some tid
  placed : ∃ placer, Note.placed placer holder session ∈ service.journal
  fresh : ∀ connection ∈ loose, service.Fresh tid connection

namespace Under
variable {session : SessionId} {holder : Nat}

theorem left (under : Under tid session holder loose service) (moved : Rely tid service after)
    (left : Leaves tid service after) : Under tid session holder loose after where
  locked := (moved.locks _).mp under.locked
  placed := by
    obtain ⟨placer, placed⟩ := under.placed
    exact ⟨placer, moved.journal.subset placed⟩
  fresh := fun connection member => left.fresh connection (under.fresh connection member)

/-- What it has found open keeping open. -/
theorem serves (under : Under tid session holder loose service) {held : Holder}
    (serves : service.Serves holder held) (moved : Rely tid service after)
    (left : Leaves tid service after) : after.Serves holder held where
  found := (moved.found under.locked serves.found).2
  unclosed := left.spared holder held under.locked serves.found serves.unclosed

/-- It holds what the session was given. -/
theorem owns (under : Under tid session holder loose service) (ok : Published lost service)
    {held : Holder} (found : service.links.find holder = some held) : held.session = session := by
  obtain ⟨placer, placed⟩ := under.placed
  obtain ⟨owner, there, own⟩ := ok.map.found placer holder session placed
  obtain rfl := Option.some.inj (found.symm.trans there)
  exact own

end Under

/-- A call still stands there, and what it found open is open. -/
structure Keeping (tid : Nat) (session : SessionId) (holder : Nat) (loose : List Connection)
    (start after : Service) : Prop where
  under : Under tid session holder loose after
  serves : ∀ held, start.Serves holder held → after.Serves holder held

namespace Keeping
variable {session : SessionId} {holder : Nat}

theorem of_start (under : Under tid session holder loose service) :
    Keeping tid session holder loose service service :=
  ⟨under, fun _ serves => serves⟩

theorem left (keeping : Keeping tid session holder loose start service) (moved : Rely tid service after)
    (left : Leaves tid service after) : Keeping tid session holder loose start after where
  under := keeping.under.left moved left
  serves := fun held serves => keeping.under.serves (keeping.serves held serves) moved left

/-- An idle step that does not give the holder back. -/
theorem step {step : Step β} (keeping : Keeping tid session holder loose start service)
    (stepped : Stepped deployment lost tid step choice service before answer after)
    (idles : step.Idles)
    (keeps : before.locks (.holder holder) = some tid → after.locks (.holder holder) = some tid) :
    Keeping tid session holder loose start after := by
  have here := keeping.left stepped.moved stepped.left
  have idle := stepped.idle idles
  refine ⟨⟨keeps here.under.locked, ?_, fun connection member => ?_⟩, fun held serves => ?_⟩
  · obtain ⟨placer, placed⟩ := here.under.placed
    exact ⟨placer, idle.grows.subset placed⟩
  · exact idle.leaves.fresh connection (here.under.fresh connection member)
  · have open' := here.serves held serves
    exact ⟨by rw [idle.links]; exact open'.found, by rw [idle.links]; exact open'.unclosed⟩

end Keeping

/-- A step that has nothing to do with a lock keeps it. -/
theorem Step.keeps_lock {step : Step β} {which : Lock} (takes : step.use ≠ .takes which)
    (has : step.use ≠ .has which)
    (ran : step.run deployment tid choice service = some (answer, after)) :
    service.locks which = some tid → after.locks which = some tid :=
  (Step.lock_eq takes has ran).trans

/-- What has just been dialled is the call's own. -/
theorem LinkStep.dial_fresh {target : Target} {connection : Connection} (ok : Published lost service)
    (inv : Inv deployment service)
    (ran : (Step.links (.dial target)).run deployment tid choice service =
      some (some connection, after)) : after.Fresh tid connection := by
  have did := LinkStep.did ran
  obtain ⟨journal, id, closed⟩ : after.journal = service.journal ++ [.dialled tid connection] ∧
      connection.id = choice.draw ∧ after.links.closed = service.links.closed := by
    have links := did.links
    have journal := did.journal
    obtain ⟨-, -, is, -⟩ := Step.ran ran
    simp only [Step.effect, LinkStep.effect] at is links journal
    split at is
    · cases is
      rw [if_pos ‹_›] at links journal
      exact ⟨journal, rfl, by rw [links]⟩
    · cases is
  -- Nothing was closed or bound under a number that had not been drawn.
  have unspent : ¬ service.Spent connection.id := by
    intro spent
    obtain ⟨dialler, other, dialled, same⟩ := ok.map.dialled _ spent
    exact inv.history.unused did.unused dialled (by simp [Note.drawn, same, id])
  refine ⟨by rw [journal]; simp, fun binder about other bound same => unspent (.inr ?_), fun member =>
    unspent (.inl (closed ▸ member))⟩
  rw [journal] at bound
  exact ⟨binder, about, other, by simpa using bound, same⟩

/-! ## Still the live session's connection -/

theorem LinkStep.isCurrent_answer {session : SessionId} {holder : Nat}
    (ran : (Step.links (.isCurrent session holder)).run deployment tid choice service =
      some (true, after)) : service.linked session = some holder ∧ after.links = service.links := by
  obtain ⟨-, -, is, rfl⟩ := Step.ran ran
  exact ⟨of_decide_eq_true is.symm, rfl⟩

/-- A call that has found the holder in the session's entry has found what it
holds open. -/
theorem stillTheLiveSessionConnection_publishes {session : Session} {holder : Nat}
    (under : Under tid session.id holder loose service)
    (owing : Owing about loose owed past service) :
    Publishes deployment lost tid
      (fun past result after => Settles about loose owed service past after ∧
        Keeping tid session.id holder loose service after ∧
        (result = .ok () → ∃ held, after.Serves holder held))
      (stillTheLiveSessionConnection session holder) past service := by
  have finish : ∀ {past : List Took} {now : Service} (result : Except MediationError Unit),
      Settles about loose owed service past now → Keeping tid session.id holder loose service now →
      (result = .ok () → ∃ held, now.Serves holder held) →
      Publishes deployment lost tid
        (fun past result after => Settles about loose owed service past after ∧
          Keeping tid session.id holder loose service after ∧
          (result = .ok () → ∃ held, after.Serves holder held)) (.done result) past now := by
    intro past now result settles keeping current later _ moved
    refine ⟨settles.rely moved, keeping.left moved.1 moved.2, fun is => ?_⟩
    obtain ⟨held, serves⟩ := current is
    exact ⟨held, keeping.under.serves serves moved.1 moved.2⟩
  unfold stillTheLiveSessionConnection
  refine .idle trivial fun choice before admitted first stepped => ?_
  have settles := (Settles.of_start owing).quiet stepped trivial
  have keeping := (Keeping.of_start under).step stepped trivial
    (Step.keeps_lock Use.noConfusion Use.noConfusion stepped.ran)
  cases admitted with
  | false => exact finish _ settles keeping (fun is => by cases is)
  | true =>
  refine .idle trivial fun choice₂ before₂ result second stepped₂ => ?_
  have settles := settles.quiet stepped₂ trivial
  have keeping := keeping.step stepped₂ trivial
    (Step.keeps_lock (fun same => by cases same) Use.noConfusion stepped₂.ran)
  cases result with
  | error error => exact finish _ settles keeping (fun is => by cases is)
  | ok _ =>
  refine .idle trivial fun choice₃ before₃ current third stepped₃ => ?_
  have settles := settles.quiet stepped₃ trivial
  have keeping := keeping.step stepped₃ trivial
    (Step.keeps_lock Use.noConfusion Use.noConfusion stepped₃.ran)
  cases current with
  | false => exact finish _ settles keeping (fun is => by cases is)
  | true =>
  refine finish _ settles keeping fun _ => ?_
  obtain ⟨linked, links⟩ := LinkStep.isCurrent_answer stepped₃.ran
  obtain ⟨placer, placed⟩ := stepped₃.inv.linked_placed linked
  obtain ⟨held, found, -⟩ := stepped₃.ok.map.found placer holder _ placed
  exact ⟨held, by rw [links]; exact found, by
    rw [links]; exact stepped₃.ok.map.unclosed _ holder held linked found⟩

/-! ## The session's connection -/

/-- A call that has put what it dialled in the session's holder. -/
theorem LinkStep.replace_bound {holder : Nat} {held : Holder} {connection : Connection} {answer : Unit}
    (found : service.links.find holder = some held)
    (ran : (Step.links (.replace holder connection)).run deployment tid choice service =
      some (answer, after)) : Note.bound tid held.session connection ∈ after.journal := by
  obtain ⟨-, -, -, rfl⟩ := Step.ran ran
  exact List.mem_append_right _ (by simp [Step.effect, LinkStep.effect, found])

theorem connectionUnder_publishes {session : Session} {holder : Nat} (inv : Inv deployment service)
    (ok : Published lost service) (under : Under tid session.id holder [] service)
    (owing : Owing (some session.id) [] [] past service) :
    Settling deployment lost tid (some session.id) [] [] (connectionUnder deployment session holder)
      past service := by
  unfold connectionUnder
  refine .bind (stillTheLiveSessionConnection_publishes under owing) inv ok ?_
  intro past result first inv ok ⟨settles, keeping, current⟩
  cases result with
  | error error => exact settles.done
  | ok _ =>
  obtain ⟨held, serves⟩ := current rfl
  have under := keeping.under
  refine .idle trivial fun choice₂ before₂ looked second stepped₂ => ?_
  have settles := settles.quiet stepped₂ trivial
  have here := under.serves serves stepped₂.moved stepped₂.left
  obtain ⟨answer, -, -, locked⟩ := LinkStep.look_found stepped₂.ran
  have keeping := (Keeping.of_start under).step stepped₂ trivial (fun _ => locked)
  rcases looked with _ | ⟨connection, gone⟩
  · exact settles.done
  cases gone with
  | false => exact settles.done
  | true =>
  -- The transport is gone: what the holder holds is one of those lost.
  have gone : lost held.connection.id := by
    refine stepped₂.finds ?_ held here.found
    rw [here.found] at answer
    simp only [Option.map_some, Option.some.injEq, Prod.mk.injEq] at answer
    simpa [here.unclosed] using answer.2
  cases resolved : deployment.registry.resolve session.host session.role with
  | error error =>
    simp only
    exact settles.done
  | ok target =>
  refine .idle trivial fun choice₃ before₃ stopping third stepped₃ => ?_
  have settles := settles.quiet stepped₃ trivial
  have keeping := keeping.step stepped₃ trivial
    (Step.keeps_lock Use.noConfusion Use.noConfusion stepped₃.ran)
  cases stopping with
  | true => exact settles.done
  | false =>
  refine .idle trivial fun choice₄ before₄ dialled fourth stepped₄ => ?_
  have settles : Settles (some session.id) dialled.toList [] service _ fourth :=
    ⟨settles.owing.dial stepped₄, settles.lasts.trans stepped₄.lasts,
      settles.grows.trans stepped₄.grows⟩
  have keeping := keeping.step stepped₄ trivial
    (Step.keeps_lock Use.noConfusion Use.noConfusion stepped₄.ran)
  cases dialled with
  | none => exact settles.done
  | some fresh =>
  have under : Under tid session.id holder [fresh] fourth := { keeping.under with
    fresh := fun connection member => by
      obtain rfl := List.mem_singleton.mp member
      exact LinkStep.dial_fresh stepped₄.ok stepped₄.inv stepped₄.ran }
  have serves := keeping.serves held serves
  change Publishes _ _ _ _ (stillTheLiveSessionConnection session holder >>= _) _ _
  refine .bind (stillTheLiveSessionConnection_publishes under settles.owing) stepped₄.inv' stepped₄.ok'
    fun past result fifth inv ok ⟨settles₅, keeping₅, _⟩ => ?_
  have settles := settles₅.since settles.lasts settles.grows
  have mine : ∀ later, Rely tid fifth later → Leaves tid fifth later → later.Fresh tid fresh :=
    fun later moved left => (keeping₅.under.left moved left).fresh fresh (List.mem_singleton_self _)
  cases result with
  | error error =>
    refine .act (fun later inv _ moved left => inv.hangUp_fresh (mine later moved left))
      fun choice₆ before₆ _ sixth stepped₆ => ?_
    have settles := settles.quiet stepped₆ trivial
    exact Settles.done { settles with
      owing := settles.owing.settled (.inl (LinkStep.hangUp_closed stepped₆.ran).1) }
  | ok _ =>
  have serves := keeping₅.serves held serves
  refine .act (fun later _ _ moved left => ⟨mine later moved left, fun other found => ?_⟩)
    fun choice₆ before₆ _ sixth stepped₆ => ?_
  · have here := keeping₅.under.serves serves moved left
    obtain rfl := Option.some.inj (here.found.symm.trans found)
    exact ⟨here.unclosed, gone⟩
  have settles := settles.quiet stepped₆ trivial
  have here := keeping₅.under.serves serves stepped₆.moved stepped₆.left
  have bound := LinkStep.replace_bound here.found stepped₆.ran
  rw [keeping₅.under.owns ok serves.found] at bound
  exact Settles.done { settles with
    owing := settles.owing.settled (.inr ⟨tid, session.id, bound, .inr rfl⟩) }

/-- A call with a quiet past owes nothing, whatever it is about. -/
theorem Owing.of_quiet (quiet : ∀ took ∈ past, took.step.quiet) : Owing about [] [] past service where
  cleared := fun took member id clears => absurd clears ((quiet took member).clears took.before id)
  dialled := by
    intro took member connection dials
    rw [(quiet took member).dials] at dials
    cases dials
  sought := fun took member id seeks => absurd seeks ((quiet took member).seeks id)

/-- Looking up the holder of the session a call is about. -/
theorem Settles.seek {session : SessionId} {answer : Option Nat}
    (settles : Settles (some session) loose owed start past service)
    (stepped : Stepped deployment lost tid (.links (.holderOf session)) choice service before answer
      after) :
    Settles (some session) loose owed start
      (past ++ [⟨.links (.holderOf session), choice, answer, before, after⟩]) after := by
  have later := settles.owing.later stepped.lasts stepped.grows
  refine ⟨⟨?_, ?_, ?_⟩, settles.lasts.trans stepped.lasts, settles.grows.trans stepped.grows⟩
  · intro took member id clears
    rcases List.mem_append.mp member with old | new
    · exact later.cleared took old id clears
    · obtain rfl := List.mem_singleton.mp new
      cases clears
  · intro took member connection dials
    rcases List.mem_append.mp member with old | new
    · exact later.dialled took old connection dials
    · obtain rfl := List.mem_singleton.mp new
      cases dials
  · intro took member id seeks
    rcases List.mem_append.mp member with old | new
    · exact later.sought took old id seeks
    · obtain rfl := List.mem_singleton.mp new
      exact congrArg some seeks

theorem connectionFor_publishes {session : Session} (quiet : ∀ took ∈ past, took.step.quiet) :
    Settling deployment lost tid (some session.id) [] [] (connectionFor deployment session) past
      service := by
  unfold connectionFor
  refine .idle trivial fun choice before result first stepped => ?_
  have settles := (Settles.of_start (Owing.of_quiet quiet)).seek stepped
  cases result with
  | none => exact settles.done
  | some holder =>
  obtain ⟨placer, placed⟩ := LinkStep.holderOf_left stepped.inv stepped.ran
  refine .idle trivial fun choice₂ before₂ _ second stepped₂ => ?_
  have settles := settles.quiet stepped₂ trivial
  have grows := (Step.since stepped.inv stepped.ran).journal.trans stepped₂.grows
  have under : Under tid session.id holder [] second :=
    ⟨ServiceStep.lock_taken stepped₂.ran, ⟨placer, grows.subset placed⟩, fun _ member =>
      absurd member List.not_mem_nil⟩
  change Publishes _ _ _ _ (connectionUnder deployment session holder >>= _) _ _
  refine .bind (connectionUnder_publishes stepped₂.inv' stepped₂.ok' under settles.owing)
    stepped₂.inv' stepped₂.ok' fun past connection third inv ok rest => ?_
  have settles := rest.since settles.lasts settles.grows
  exact .idle (fun same => by cases same) fun choice₃ before₃ _ fourth stepped₃ =>
    (settles.quiet stepped₃ trivial).done

/-! ## Running -/

/-- A finished call that owes nothing. -/
abbrev Settled (past : List Took) (service : Service) : Prop :=
  ∃ about, Owing about [] [] past service

theorem perform_publishes {session : Session} {admission : Admission} {payload : Option Payload}
    (inv : Inv deployment service) (ok : Published lost service)
    (quiet : ∀ took ∈ past, took.step.quiet) :
    Publishes deployment lost tid (fun past _ after => Settled past after)
      (perform deployment session admission payload) past service := by
  unfold perform
  cases admission with
  | held executed => exact fun _ _ _ => ⟨none, .of_quiet quiet⟩
  | ready decision receipt approvedBy =>
  refine .bind (connectionFor_publishes quiet) inv ok fun past result first inv ok settles => ?_
  cases result with
  | error error => exact fun _ _ moved => ⟨_, (settles.rely moved).owing⟩
  | ok connection =>
  cases payload with
  | none =>
    refine .bind (Publishes.plain ((start_takes session.id connection receipt).plain rfl) settles.owing) inv ok
      fun past run second _ _ paid => ?_
    cases run <;> exact fun _ _ moved => ⟨_, paid.1.later moved.2.lasts moved.1.journal⟩
  | some payload =>
    refine .bind (Publishes.plain ((transfer_takes session.id connection receipt payload).plain rfl)
      settles.owing) inv ok fun past run second _ _ paid => ?_
    cases run <;> exact fun _ _ moved => ⟨_, paid.1.later moved.2.lasts moved.1.journal⟩

theorem submit_publishes {principal : PrincipalId} {session : SessionId} {agentIntent : CommandIntent}
    {work : Work} :
    Publishes deployment lost tid (fun past _ after => Settled past after)
      (Bastion.submit deployment principal session agentIntent work) [] service := by
  unfold Bastion.submit
  refine .idle trivial fun choice before admitted first stepped => ?_
  have quiet : ∀ took ∈ [] ++ [(⟨.service .enter, choice, admitted, before, first⟩ : Took)],
      took.step.quiet := by
    intro took member
    obtain rfl := List.mem_singleton.mp member
    trivial
  cases admitted with
  | false => exact fun _ _ _ => ⟨none, .of_quiet quiet⟩
  | true =>
  change Publishes _ _ _ _
    (authorizeAction deployment principal session agentIntent work.action >>= _) _ _
  refine .bind (Publishes.quiet ((authorizeAction_takes principal session agentIntent
    work.action).plain rfl) quiet) stepped.inv' stepped.ok' fun past result second inv ok quiet => ?_
  rcases result with error | ⟨session, admission⟩
  · exact fun _ _ _ => ⟨none, .of_quiet quiet⟩
  · exact perform_publishes inv ok quiet

end McpSsh.Bastion
