import McpSsh.Bastion.Publishing.Safety

/-!
# Closing what was taken out

A holder that is in the map no more is shut by whoever took it out. A sweep
takes out the entries of sessions that do not live.
-/

namespace McpSsh.Bastion

open Interleaving

variable {deployment : Deployment} {lost : Nat → Prop} {tid : Nat} {choice : Choice}
variable {service after start before : Service} {past : List Took} {α β : Type} {answer : β}
variable {about : Option SessionId} {loose : List Connection} {owed : List Nat}

/-- What a call has come to: what it still owes, and that what lasts has
lasted. -/
structure Settles (about : Option SessionId) (loose : List Connection) (owed : List Nat)
    (start : Service) (past : List Took) (after : Service) : Prop where
  owing : Owing about loose owed past after
  lasts : Lasts start after
  grows : start.journal <+: after.journal

namespace Settles

theorem of_start (owing : Owing about loose owed past service) :
    Settles about loose owed service past service :=
  ⟨owing, .refl service, List.prefix_refl _⟩

theorem since (settles : Settles about loose owed service past after) (lasts : Lasts start service)
    (grows : start.journal <+: service.journal) : Settles about loose owed start past after :=
  ⟨settles.owing, lasts.trans settles.lasts, grows.trans settles.grows⟩

/-- A quiet step. -/
theorem quiet {step : Step β} (settles : Settles about loose owed start past service)
    (stepped : Stepped deployment lost tid step choice service before answer after)
    (quiet : step.quiet) :
    Settles about loose owed start (past ++ [⟨step, choice, answer, before, after⟩]) after :=
  ⟨settles.owing.quiet stepped quiet, settles.lasts.trans stepped.lasts,
    settles.grows.trans stepped.grows⟩

theorem rely (settles : Settles about loose owed start past service)
    (moved : (publishing deployment lost).discipline.rely tid service after) :
    Settles about loose owed start past after :=
  ⟨settles.owing.later moved.2.lasts moved.1.journal, settles.lasts.trans moved.2.lasts,
    settles.grows.trans moved.1.journal⟩

/-- Whatever others do then. -/
theorem done {value : α} (settles : Settles about loose owed start past service) :
    Publishes deployment lost tid (fun past _ after => Settles about loose owed start past after)
      (.done value) past service :=
  fun _ _ moved => settles.rely moved

end Settles

/-- A call that settles, whatever its answer. -/
abbrev Settling (deployment : Deployment) (lost : Nat → Prop) (tid : Nat) (about : Option SessionId)
    (loose : List Connection) (owed : List Nat) (program : Prog α) (past : List Took)
    (service : Service) : Prop :=
  Publishes deployment lost tid (fun past _ after => Settles about loose owed service past after)
    program past service

/-! ## Hanging up -/

/-- A holder that has been taken out of the map. -/
def Service.Removed (service : Service) (holder : Nat) : Prop :=
  ∃ placer id, Note.placed placer holder id ∈ service.journal ∧ service.Parted id

theorem Service.Removed.later {holder : Nat} (removed : service.Removed holder)
    (lasts : Lasts service after) (grows : service.journal <+: after.journal) :
    after.Removed holder := by
  obtain ⟨placer, id, placed, parted⟩ := removed
  exact ⟨placer, id, grows.subset placed, lasts.parted id parted⟩

/-- Two holders of one connection are one. -/
theorem MapOk.same_holder (ok : MapOk lost service) (inv : Inv deployment service)
    {holder other : Nat} {held held' : Holder} (found : service.links.find holder = some held)
    (found' : service.links.find other = some held')
    (same : held.connection.id = held'.connection.id) : holder = other := by
  obtain ⟨binder, bound⟩ := inv.links.bound held (List.mem_of_find?_eq_some found)
  obtain ⟨binder', bound'⟩ := inv.links.bound held' (List.mem_of_find?_eq_some found')
  have session := ok.distinct binder _ _ binder' _ _ bound bound' same
  obtain ⟨-, placer, placed⟩ := inv.find_placed found
  obtain ⟨-, placer', placed'⟩ := inv.find_placed found'
  rw [← session] at placed'
  exact ok.single placer holder placer' other _ placed placed'

/-- The holder's own call may close what it holds once it is in the map no
more. -/
theorem Published.hangUp_held (ok : Published lost service) (inv : Inv deployment service)
    {holder : Nat} {held : Holder} (locked : service.locks (.holder holder) = some tid)
    (found : service.links.find holder = some held) (removed : service.Removed holder) :
    (Step.links (.hangUp held.connection.id)).Minds lost tid service := by
  refine ⟨fun other held' found' same => ?_, fun other fresh _ is same => ?_, ?_⟩
  · obtain rfl := ok.map.same_holder inv found' found same
    obtain rfl := Option.some.inj (found.symm.trans found')
    obtain ⟨placer, id, placed, -, gone⟩ := removed
    obtain ⟨owner, found', own⟩ := ok.map.found placer other id placed
    obtain rfl := Option.some.inj (found.symm.trans found')
    refine ⟨locked, ?_⟩
    rw [own, gone]
    exact Option.some_ne_none _ ∘ Eq.symm
  · obtain ⟨binder, bound⟩ := inv.links.bound held (List.mem_of_find?_eq_some found)
    exact is.unbound binder _ _ bound same.symm
  · obtain ⟨binder, bound⟩ := inv.links.bound held (List.mem_of_find?_eq_some found)
    exact ok.map.dialled _ (.inr ⟨binder, _, _, bound, rfl⟩)

/-- A call may close what it has dialled and not placed. -/
theorem Inv.hangUp_fresh (inv : Inv deployment service) {connection : Connection}
    (fresh : service.Fresh tid connection) :
    (Step.links (.hangUp connection.id)).Minds lost tid service := by
  refine ⟨fun holder held found same => ?_, fun other theirs differ is same => ?_, fresh.was⟩
  · obtain ⟨binder, bound⟩ := inv.links.bound held (List.mem_of_find?_eq_some found)
    exact absurd same (fresh.unbound binder _ _ bound)
  · exact inv.fresh_apart differ fresh is same.symm

theorem LinkStep.hangUp_closed {connection : Nat} {answer : Unit}
    (ran : (Step.links (.hangUp connection)).run deployment tid choice service =
      some (answer, after)) :
    connection ∈ after.links.closed ∧ after.links.holders = service.links.holders := by
  obtain ⟨-, -, -, rfl⟩ := Step.ran ran
  exact ⟨List.mem_cons_self, rfl⟩

theorem LinkStep.look_found {holder : Nat} {answer : Option (Connection × Bool)}
    (ran : (Step.links (.look holder)).run deployment tid choice service = some (answer, after)) :
    answer = (service.links.find holder).map (fun held => (held.connection,
      service.links.closed.contains held.connection.id || !choice.accepts)) ∧
      after.links = service.links ∧ service.locks (.holder holder) = some tid ∧
      after.locks (.holder holder) = some tid := by
  obtain ⟨-, permits, is, rfl⟩ := Step.ran ran
  have locked : service.locks (.holder holder) = some tid := of_decide_eq_true permits
  exact ⟨is, rfl, locked, by
    simp [Step.use, LinkStep.use, Service.locksAfter, Step.effect, LinkStep.effect]⟩

theorem ServiceStep.lock_taken {which : Lock} {answer : Unit}
    (ran : (Step.service (.lock which)).run deployment tid choice service = some (answer, after)) :
    after.locks which = some tid := by
  obtain ⟨-, -, -, rfl⟩ := Step.ran ran
  simp [Step.use, ServiceStep.use, Service.locksAfter, Step.effect, ServiceStep.effect]

/-- Giving a holder back. -/
theorem Settles.unlock {holder : Nat} (settles : Settles about loose owed start past service) :
    Publishes deployment lost tid (fun past _ after => Settles about loose owed start past after)
      (Prog.service (.unlock (.holder holder))) past service := by
  have idles : (Step.service (.unlock (.holder holder))).Idles := Lock.noConfusion
  exact .idle idles fun choice before _ after stepped _ _ moved =>
    (settles.quiet stepped trivial).rely moved

/-- A holder its call has locked stays as it was. -/
theorem Rely.found {holder : Nat} {held : Holder} (moved : Rely tid service after)
    (locked : service.locks (.holder holder) = some tid)
    (found : service.links.find holder = some held) :
    after.locks (.holder holder) = some tid ∧ after.links.find holder = some held := by
  have same : held.id = holder := by simpa using List.find?_some found
  subst same
  exact ⟨(moved.locks _).mp locked, moved.holders held locked found⟩

theorem closeHolder_publishes {holder : Nat} (owing : Owing about loose (holder :: owed) past service)
    (removed : service.Removed holder) :
    Settling deployment lost tid about loose owed (closeHolder holder) past service := by
  have settles := Settles.of_start owing
  unfold closeHolder
  refine .idle trivial fun choice before _ first stepped => ?_
  have settles := settles.quiet stepped trivial
  have removed := removed.later settles.lasts settles.grows
  refine .idle trivial fun choice₂ before₂ looked second stepped₂ => ?_
  have settles := settles.quiet stepped₂ trivial
  have removed := removed.later stepped₂.lasts stepped₂.grows
  obtain ⟨answer, links, -, locked⟩ := LinkStep.look_found stepped₂.ran
  -- The holder was placed, so it is there.
  have ⟨placer, id, placed, _⟩ := removed
  obtain ⟨held, found, -⟩ := stepped₂.ok'.map.found placer holder id placed
  rw [← links, found] at answer
  subst answer
  refine .act (fun later inv ok moved left => ?_) fun choice₃ before₃ _ third stepped₃ => ?_
  · obtain ⟨locked, found⟩ := moved.found locked found
    exact ok.hangUp_held inv locked found (removed.later left.lasts moved.journal)
  have settles := settles.quiet stepped₃ trivial
  obtain ⟨-, found⟩ := stepped₃.moved.found locked found
  obtain ⟨closed, holders⟩ := LinkStep.hangUp_closed stepped₃.ran
  have shut : third.Shut holder := by
    refine ⟨held, ?_, closed⟩
    rw [LinkPart.find, holders]
    exact found
  exact Settles.unlock { settles with owing := settles.owing.shut shut }

theorem closeHolders_publishes {holders : List Nat} (inv : Inv deployment service)
    (ok : Published lost service) (owing : Owing about loose holders past service)
    (removed : ∀ holder ∈ holders, service.Removed holder) :
    Settling deployment lost tid about loose [] (closeHolders holders) past service := by
  induction holders generalizing past service with
  | nil => exact (Settles.of_start owing).done
  | cons holder rest ih =>
    unfold closeHolders
    refine .bind (closeHolder_publishes owing (removed holder List.mem_cons_self)) inv ok ?_
    intro past _ after inv ok settles
    refine Safe.weaken (ih inv ok settles.owing fun other member => ?_)
      (fun _ _ _ _ rest => rest.since settles.lasts settles.grows)
    exact (removed other (List.mem_cons_of_mem _ member)).later settles.lasts settles.grows

/-! ## Sweeping -/

namespace Stepped
variable {step : LinkStep β}

/-- A step that moves the connections leaves the lock and the sessions. -/
theorem linked (stepped : Stepped deployment lost tid (.links step) choice start before answer after)
    (publishes : Publishing tid start)
    (notes : (step.effect tid choice.draw choice.accepts before.links).notes = []) :
    Publishing tid after := by
  have here := publishes.left stepped.moved stepped.left
  have did := LinkStep.did stepped.ran
  have journal : after.journal = before.journal := by rw [did.journal, notes, List.append_nil]
  refine ⟨did.publishing.trans here.locked, ?_, ?_⟩
  · unfold Service.AllPlaced
    rw [journal]
    exact here.all
  · unfold Service.Clear
    rw [journal, did.sessions]
    exact here.clear

end Stepped

/-- What a sweep took out of the map. -/
theorem LinkStep.removeOrphans_took {live : List SessionId} {answer : List Nat}
    (ran : (Step.links (.removeOrphans live)).run deployment tid choice service =
      some (answer, after)) :
    answer = (service.links.connections.filter (fun entry => entry.1 ∉ live)).map (·.2) ∧
      ∀ id, after.linked id = if id ∈ live then service.linked id else none := by
  obtain ⟨-, -, is, rfl⟩ := Step.ran ran
  refine ⟨is, fun id => ?_⟩
  have filtered := lookup_filter (fun id => decide (id ∈ live)) id service.links.connections
  simp only [decide_eq_true_eq] at filtered
  exact filtered

/-- A sweep owes the holders it took out. -/
theorem Owing.orphans {live : List SessionId} {answer : List Nat}
    (owing : Owing about loose [] past start)
    (stepped : Stepped deployment lost tid (.links (.removeOrphans live)) choice start before answer
      after) :
    Owing about loose answer (past ++ [⟨.links (.removeOrphans live), choice, answer, before, after⟩])
      after := by
  have later := owing.later stepped.lasts stepped.grows
  obtain ⟨took, linked⟩ := LinkStep.removeOrphans_took stepped.ran
  obtain ⟨-, all, -⟩ := stepped.minds
  refine ⟨?_, ?_, ?_⟩
  · intro old member id clears
    rcases List.mem_append.mp member with earlier | new
    · obtain ⟨parted, shut⟩ := later.cleared old earlier id clears
      refine ⟨parted, fun holder is => ?_⟩
      rcases shut holder is with shut | owes
      · exact .inl shut
      · cases owes
    · obtain rfl := List.mem_singleton.mp new
      obtain ⟨orphan, session, opened, rfl⟩ := clears
      obtain ⟨placer, holder, placed⟩ := all session opened
      have grows := (Step.since stepped.inv stepped.ran).journal
      refine ⟨⟨⟨placer, holder, grows.subset placed⟩, by rw [linked, if_neg orphan]⟩, ?_⟩
      intro holder is
      rw [took]
      obtain ⟨front, back, split, -⟩ := List.lookup_eq_some_iff.mp is
      exact .inr (List.mem_map.mpr ⟨(session.id, holder), List.mem_filter.mpr
        ⟨by rw [split]; simp, decide_eq_true orphan⟩, rfl⟩)
  · intro old member connection dials
    rcases List.mem_append.mp member with earlier | new
    · exact later.dialled old earlier connection dials
    · obtain rfl := List.mem_singleton.mp new
      cases dials
  · intro old member id seeks
    rcases List.mem_append.mp member with earlier | new
    · exact later.sought old earlier id seeks
    · obtain rfl := List.mem_singleton.mp new
      cases seeks

/-- They are in the map no more. -/
theorem LinkStep.removeOrphans_removed {live : List SessionId} {answer : List Nat}
    (inv : Inv deployment service)
    (ran : (Step.links (.removeOrphans live)).run deployment tid choice service =
      some (answer, after)) : ∀ holder ∈ answer, after.Removed holder := by
  intro holder member
  obtain ⟨took, linked⟩ := LinkStep.removeOrphans_took ran
  rw [took] at member
  obtain ⟨⟨id, holder⟩, inside, rfl⟩ := List.mem_map.mp member
  obtain ⟨entry, orphan⟩ := List.mem_filter.mp inside
  obtain ⟨placer, placed⟩ := inv.links.connections id holder entry
  have placed := (Step.since inv ran).journal.subset placed
  exact ⟨placer, id, placed, ⟨placer, holder, placed⟩, by
    rw [linked, if_neg (of_decide_eq_true orphan)]⟩

theorem closeOrphaned_publishes (owing : Owing about loose [] past service) :
    Settling deployment lost tid about loose [] closeOrphaned past service := by
  have settles := Settles.of_start owing
  unfold closeOrphaned
  refine .idle trivial fun choice before admitted first stepped => ?_
  have settles := settles.quiet stepped trivial
  cases admitted with
  | false => exact settles.done
  | true =>
  refine .idle trivial fun choice₂ before₂ _ second stepped₂ => ?_
  have settles := settles.quiet stepped₂ trivial
  refine .idle trivial fun choice₃ before₃ _ third stepped₃ => ?_
  have settles := settles.quiet stepped₃ trivial
  refine .idle trivial fun choice₄ before₄ live fourth stepped₄ => ?_
  have settles := settles.quiet stepped₄ trivial
  have publishes := stepped₄.publishing stepped₃.locks trivial (by
    intro same
    cases same)
  have lives : ∀ session ∈ fourth.sessions.store.held, session.expiry fourth.clock = none →
      session.id ∈ live := by
    obtain ⟨-, -, rfl, rfl⟩ := Step.ran stepped₄.ran
    exact fun session member good => List.mem_map.mpr ⟨session, List.mem_filter.mpr
      ⟨member, Option.isNone_iff_eq_none.mpr good⟩, rfl⟩
  refine .act (fun later _ _ moved left => ?_) fun choice₅ before₅ orphaned fifth stepped₅ => ?_
  · have here := publishes.left moved left
    refine ⟨here.locked, here.all, fun session member good => ?_⟩
    obtain ⟨old, inside, same, lived⟩ := (left.sheltered publishes.locked).held session member
    exact same ▸ lives old inside (lived good)
  have publishes := stepped₅.linked publishes rfl
  have settles : Settles about loose orphaned service _ fifth :=
    ⟨settles.owing.orphans stepped₅, settles.lasts.trans stepped₅.lasts,
      settles.grows.trans stepped₅.grows⟩
  have removed := LinkStep.removeOrphans_removed stepped₅.inv stepped₅.ran
  refine .act (fun later _ _ moved left => (publishes.left moved left).minds)
    fun choice₆ before₆ _ sixth stepped₆ => ?_
  have settles := settles.quiet stepped₆ trivial
  refine Safe.weaken (closeHolders_publishes stepped₆.inv' stepped₆.ok' settles.owing ?_)
    (fun _ _ _ _ rest => rest.since settles.lasts settles.grows)
  exact fun holder member => (removed holder member).later stepped₆.lasts stepped₆.grows

theorem reclaim_publishes (inv : Inv deployment service) (ok : Published lost service)
    (owing : Owing about loose [] past service) :
    Settling deployment lost tid about loose [] Bastion.reclaim past service := by
  unfold Bastion.reclaim
  refine .bind (closeOrphaned_publishes owing) inv ok fun past _ first inv ok settles => ?_
  refine .idle trivial fun choice before admitted second stepped => ?_
  have settles := settles.quiet stepped trivial
  cases admitted with
  | false => exact settles.done
  | true =>
  change Publishes _ _ _ _ (sweepApprovals >>= _) _ _
  refine .bind (Publishes.plain (sweepApprovals_takes.plain rfl) settles.owing) stepped.inv' stepped.ok' ?_
  intro past _ third inv ok swept
  have settles : Settles about loose [] service past third :=
    ⟨swept.1, settles.lasts.trans swept.2.1, settles.grows.trans swept.2.2⟩
  exact .idle trivial fun choice₂ before₂ _ fourth stepped₂ =>
    (settles.quiet stepped₂ trivial).done

end McpSsh.Bastion
