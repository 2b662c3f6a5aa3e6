import McpSsh.Runs.Invariant

/-!
# Every change keeps the invariant

What is known of a run, of an entry and of a session that has gone outlasts
every change, and no run is registered once the store is stopping.
-/

namespace McpSsh.RunStore

open Interleaving Ledger
open Bastion (Deployment)

variable {deployment : Deployment} {tid : Nat} {choice : Choice} {service before after : Service}
variable {outcome : Outcome} {live : Live} {β : Type} {answer : β}

/-! ## Since an earlier state -/

/-- What an earlier state leaves to a later one. -/
structure Since (before after : Service) : Prop where
  clock : before.clock ≤ after.clock
  committed : before.record.committed <+: after.record.committed
  minted : before.record.minted ⊆ after.record.minted
  known : ∀ live ∈ before.lives, ∃ live' ∈ after.lives,
    live'.id = live.id ∧ live'.authorization = live.authorization
  settled : ∀ outcome, before.Settled outcome → after.Settled outcome
  gone : ∀ authorized ∈ before.record.minted, before.Gone authorized.who.session →
    after.Gone authorized.who.session
  stopping : before.stopping = true →
    after.stopping = true ∧ after.lives.map Live.id = before.lives.map Live.id

theorem Since.refl (service : Service) : Since service service :=
  ⟨Nat.le_refl _, List.prefix_rfl, List.Subset.refl _, fun live member => ⟨live, member, rfl, rfl⟩,
    fun _ => id, fun _ _ => id, fun stopping => ⟨stopping, rfl⟩⟩

theorem Since.trans {a b c : Service} (first : Since a b) (second : Since b c) : Since a c where
  clock := first.clock.trans second.clock
  committed := first.committed.trans second.committed
  minted := fun _ member => second.minted (first.minted member)
  known := fun live member =>
    have ⟨_, member', id, authorization⟩ := first.known live member
    have ⟨live'', member'', id', authorization'⟩ := second.known _ member'
    ⟨live'', member'', id'.trans id, authorization'.trans authorization⟩
  settled := fun _ settled => second.settled _ (first.settled _ settled)
  gone := fun authorized member gone =>
    second.gone authorized (first.minted member) (first.gone authorized member gone)
  stopping := fun stopping =>
    have ⟨stopped, same⟩ := first.stopping stopping
    have ⟨stopped', same'⟩ := second.stopping stopped
    ⟨stopped', same'.trans same⟩

theorem Since.completed (since : Since before after) (completed : before.Completed outcome) :
    after.Completed outcome :=
  have ⟨entry, member, event⟩ := completed
  ⟨entry, since.committed.subset member, event⟩

/-! ## The record -/

/-- A record that has gone on, without a completion that is not a run's. -/
theorem Inv.withRecord (inv : Inv deployment service) {record : Record}
    (reached : Record.Reachable deployment.format deployment.limits deployment.genesis record)
    (committed : service.record.committed <+: record.committed)
    (minted : service.record.minted ⊆ record.minted)
    (completions : ∀ entry ∈ record.committed, ∀ what, entry.event = .completed what →
      ∃ live ∈ service.lives, live.state ≠ .running ∧ live.snapshot.event = entry.event) :
    Inv deployment { service with record } :=
  have grown : ∀ outcome, service.Completed outcome →
      ({ service with record } : Service).Completed outcome :=
    fun _ ⟨entry, member, event⟩ => ⟨entry, committed.subset member, event⟩
  { inv with
    record := reached
    minted := fun live member => minted (inv.minted live member)
    recorded := fun live member at' => (inv.recorded live member at').imp_left (grown _)
    released := fun live member gone => (inv.released live member gone).imp_right (grown _)
    completions := completions }

theorem Since.withRecord {record : Record}
    (committed : service.record.committed <+: record.committed)
    (minted : service.record.minted ⊆ record.minted) : Since service { service with record } :=
  { Since.refl service with committed, minted }

/-- A step of the record. -/
theorem Inv.moves (inv : Inv deployment service) {operation : Ledger.Operation} {accepts : Bool}
    (offers : service.record.Offers operation) :
    Record.Reachable deployment.format deployment.limits deployment.genesis
      (service.writes deployment operation accepts).2.record :=
  inv.record.tail ⟨operation, service.clock, accepts, offers, rfl⟩

theorem Inv.writes (inv : Inv deployment service) {operation : Ledger.Operation} {accepts : Bool}
    (offers : service.record.Offers operation)
    (other : ∀ outcome, operation ≠ .recordOutcome outcome) :
    Inv deployment (service.writes deployment operation accepts).2 ∧
      Since service (service.writes deployment operation accepts).2 := by
  have moves := Record.perform_moves deployment.format deployment.limits service.record operation
    service.clock accepts
  refine ⟨inv.withRecord (inv.moves offers) moves.committed_prefix moves.minted_subset ?_,
    .withRecord moves.committed_prefix moves.minted_subset⟩
  exact fun entry member what event =>
    inv.completions entry (moves.not_completed other member event) what event

/-- A refusal is noted, and nothing else. -/
theorem Inv.refuses (inv : Inv deployment service) (outcome : Outcome) (error : AuditError) :
    Inv deployment { service with refused := (outcome, error) :: service.refused } :=
  { inv with
    recorded := fun live member at' => (inv.recorded live member at').imp_right
      (fun ⟨why, inside⟩ => ⟨why, List.mem_cons_of_mem _ inside⟩) }

theorem Since.refuses (service : Service) (outcome : Outcome) (error : AuditError) :
    Since service { service with refused := (outcome, error) :: service.refused } :=
  { Since.refl service with }

/-- What came of an outcome: its completion is in the record, or the record
would not take it. -/
structure Records (deployment : Deployment) (before : Service) (outcome : Outcome)
    (answer : Except AuditError Unit) (after : Service) : Prop where
  inv : Inv deployment after
  since : Since before after
  lives : after.lives = before.lives
  told : after.Completed outcome ∨ after.Refused outcome
  completed : (answer = .ok () ∨ ∃ run, answer = .error (.alreadyCompleted run)) →
    after.Completed outcome

theorem Inv.records (inv : Inv deployment service) (settled : service.Settled outcome)
    (accepts : Bool) :
    Records deployment service outcome (service.recordOutcome deployment outcome accepts).1
      (service.recordOutcome deployment outcome accepts).2 := by
  obtain ⟨live, member, rfl, ended⟩ := settled
  let record := service.record.perform deployment.format deployment.limits
    (.recordOutcome live.snapshot) service.clock accepts
  have moves := Record.perform_moves deployment.format deployment.limits service.record
    (.recordOutcome live.snapshot) service.clock accepts
  have reached : Record.Reachable deployment.format deployment.limits deployment.genesis record := by
    cases alive : service.record.alive live.authorization.sequence with
    | true => exact inv.moves (.inr ⟨rfl, inv.minted live member, alive⟩)
    | false =>
      have same : record = service.record := Record.perform_dead (by simpa using ended) alive _ _ _ _
      rw [same]
      exact inv.record
  rcases inv.record.recordOutcome_cases live.snapshot service.clock accepts with
    ⟨error, after, failed, committed, already⟩ | ⟨written, entry, done, event, committed⟩
  · have inv' : Inv deployment { service with record } := inv.withRecord reached
      moves.committed_prefix moves.minted_subset (by
        intro entry inside
        rw [committed] at inside
        exact inv.completions entry inside)
    have answers : service.recordOutcome deployment live.snapshot accepts = (.error error,
        { service with record, refused := (live.snapshot, error) :: service.refused }) := by
      simp only [Service.recordOutcome, Service.writes, Operation.perform, failed, Except.map,
        Except.mapError]
      rfl
    rw [answers]
    refine ⟨inv'.refuses _ _, (Since.withRecord moves.committed_prefix moves.minted_subset).trans
      (.refuses _ _ _), rfl, .inr ⟨error, List.mem_cons_self⟩, ?_⟩
    rintro (ok | ⟨run, same⟩)
    · cases ok
    · obtain ⟨entry, inside, event⟩ := (inv.completed_of member (already run
        (by injection same))).2
      exact ⟨entry, moves.committed_prefix.subset inside, event⟩
  · have inside : entry ∈ record.committed := by
      rw [committed]
      exact List.mem_append_right _ List.mem_cons_self
    have inv' : Inv deployment { service with record } := inv.withRecord reached
      moves.committed_prefix moves.minted_subset (by
        intro other among what completion
        rw [committed] at among
        rcases List.mem_append.mp among with old | new
        · exact inv.completions other old what completion
        · obtain rfl := List.mem_singleton.mp new
          exact ⟨live, member, ended, event.symm⟩)
    have answers : service.recordOutcome deployment live.snapshot accepts =
        (.ok (), { service with record }) := by
      simp only [Service.recordOutcome, Service.writes, Operation.perform, done, Except.map,
        Except.mapError]
      rfl
    rw [answers]
    exact ⟨inv', .withRecord moves.committed_prefix moves.minted_subset, rfl,
      .inl ⟨entry, inside, event⟩, fun _ => ⟨entry, inside, event⟩⟩

/-! ## The other changes -/

theorem Inv.sessions' (inv : Inv deployment service) {clock : Nat} {sessions : Sessions}
    (distinct : sessions.Distinct) : Inv deployment { service with clock, sessions } :=
  { inv with sessions := distinct }

theorem Inv.admits (inv : Inv deployment service) {authorization : Authorization}
    (new : live = Live.new live.id authorization) (open_ : service.stopping = false)
    (free : service.admitting = none) (fresh : service.find live.id = none)
    (unspent : service.unspent authorization = true) :
    Inv deployment { service with
      lives := live :: service.lives
      held := live.id :: service.held
      admitting := some (tid, live.id) } := by
  simp only [Service.unspent, Bool.and_eq_true, decide_eq_true_eq, List.all_eq_true] at unspent
  have apart : ∀ other ∈ service.lives, other.id ≠ live.id := fun other member => by
    simpa using List.find?_eq_none.mp fresh other member
  have running : live.state = .running := by rw [new]; rfl
  have registered : live.reader = .registered := by rw [new]; rfl
  have authorized : live.authorization = authorization := by rw [new]; rfl
  exact {
    record := inv.record
    sessions := inv.sessions
    ids := List.nodup_cons.mpr ⟨fun inside => by
      obtain ⟨other, member, same⟩ := List.mem_map.mp inside
      exact apart other member same, inv.ids⟩
    sequences := List.nodup_cons.mpr ⟨fun inside => by
      obtain ⟨other, member, same⟩ := List.mem_map.mp inside
      exact unspent.2 other member (same.trans (congrArg _ authorized)), inv.sequences⟩
    minted := by
      intro other member
      rcases List.mem_cons.mp member with rfl | old
      · rw [authorized]
        exact unspent.1.1
      · exact inv.minted other old
    running := by
      intro other member
      rcases List.mem_cons.mp member with rfl | old
      · simp [running, registered]
      · exact inv.running other old
    registered := by
      intro other member at'
      rcases List.mem_cons.mp member with rfl | old
      · exact ⟨tid, rfl⟩
      · obtain ⟨holder, locked⟩ := inv.registered other old at'
        rw [free] at locked
        cases locked
    admitting := by
      rintro holder run locked
      cases locked
      exact ⟨live, List.mem_cons_self, rfl, registered⟩
    reading := by
      intro other member unregistered ungone
      rcases List.mem_cons.mp member with rfl | old
      · exact absurd registered unregistered
      · exact inv.reading other old unregistered ungone
    recorded := by
      intro other member at'
      rcases List.mem_cons.mp member with rfl | old
      · simp [registered] at at'
      · exact inv.recorded other old at'
    released := by
      intro other member gone
      rcases List.mem_cons.mp member with rfl | old
      · exact absurd List.mem_cons_self gone
      · exact inv.released other old (fun held => gone (List.mem_cons_of_mem _ held))
    completions := by
      intro entry committed what event
      obtain ⟨other, old, rest⟩ := inv.completions entry committed what event
      exact ⟨other, List.mem_cons_of_mem _ old, rest⟩
    stopping := by
      intro stopping
      rw [open_] at stopping
      cases stopping }

/-- The store holds what it held, but for runs that are in the record. -/
theorem Inv.lets (inv : Inv deployment service) {held : List RunId}
    (fewer : ∀ run ∈ service.held, run ∈ held ∨
      ∃ outcome, service.Settled outcome ∧ service.Completed outcome ∧ outcome.run = run) :
    Inv deployment { service with held } :=
  { inv with
    released := by
      intro live member gone
      by_cases before : live.id ∈ service.held
      · rcases fewer live.id before with kept | ⟨outcome, ⟨other, among, rfl, settled⟩, completed, same⟩
        · exact absurd kept gone
        · obtain rfl := List.inj_on_of_nodup_map inv.ids among member same
          exact ⟨settled, completed⟩
      · exact inv.released live member before }

/-- **Every change keeps the invariant**, and leaves what was known. -/
theorem Change.keeps (change : Change deployment before after) (inv : Inv deployment before) :
    Inv deployment after ∧ Since before after := by
  induction change with
  | sessions clock sessions later distinct gone =>
    refine ⟨inv.sessions' (distinct inv.sessions), { Since.refl _ with clock := later, gone := ?_ }⟩
    exact fun authorized member => gone inv.sessions _ ⟨authorized, member, rfl⟩
  | writes operation accepts offers other => exact inv.writes offers other
  | outcome outcome accepts settled =>
    have records := inv.records settled accepts
    exact ⟨records.inv, records.since⟩
  | @admits before tid live authorization new open_ free fresh unspent =>
    refine ⟨inv.admits new open_ free fresh unspent,
      { Since.refl _ with known := ?_, settled := ?_, stopping := ?_ }⟩
    · exact fun other member => ⟨other, List.mem_cons_of_mem _ member, rfl, rfl⟩
    · exact fun outcome ⟨other, member, rest⟩ => ⟨other, List.mem_cons_of_mem _ member, rest⟩
    · intro stopping
      rw [open_] at stopping
      cases stopping
  | @advances before live live' admitting reading permits member advance =>
    refine ⟨inv.advances member advance,
      { Since.refl _ with known := ?_, settled := ?_, stopping := ?_ }⟩
    · intro other among
      by_cases here : other.id = live.id
      · obtain rfl := List.inj_on_of_nodup_map inv.ids among member here
        exact ⟨live', (advance.mem member).mpr (.inl rfl), advance.same⟩
      · exact ⟨other, (advance.mem member).mpr (.inr ⟨among, here⟩), rfl, rfl⟩
    · rintro _ ⟨other, among, rfl, settled⟩
      by_cases here : other.id = live.id
      · obtain rfl := List.inj_on_of_nodup_map inv.ids among member here
        obtain ⟨snapshot, state⟩ := advance.settled inv member settled
        exact ⟨live', (advance.mem member).mpr (.inl rfl), snapshot, state.symm ▸ settled⟩
      · exact ⟨other, (advance.mem member).mpr (.inr ⟨among, here⟩), rfl, settled⟩
    · exact fun stopping => ⟨stopping, put_map Live.id fun other _ same => same.symm⟩
  | held held fewer => exact ⟨inv.lets fewer, { Since.refl _ with }⟩
  | stops free =>
    exact ⟨{ inv with stopping := fun _ => free }, { Since.refl _ with
      stopping := fun _ => ⟨rfl, rfl⟩ }⟩
  | both _ _ ih ih' =>
    obtain ⟨inv', since⟩ := ih inv
    obtain ⟨inv'', since'⟩ := ih' inv'
    exact ⟨inv'', since.trans since'⟩

end McpSsh.RunStore
