import McpSsh.Runs.Discipline

/-!
# The calls meet their guards

What a call is told of a run it can rely on: the run has settled, and its
outcome will not change. It lets go of one only after the record took its
completion, or said that it has it.
-/

namespace McpSsh.RunStore

open Interleaving Ledger
open Bastion (Deployment)

variable {deployment : Deployment} {tid : Nat} {choice : Choice} {service before after : Service}
variable {outcome : Outcome} {live : Live} {α β : Type} {answer : β} {run : RunId}

/-- A program that meets its guards from a state on, and what holds when it is
done. -/
abbrev Safely (deployment : Deployment) (tid : Nat) (post : α → Service → Prop)
    (program : Prog α) (service : Service) : Prop :=
  ∀ past, Safe (discipline deployment) tid (fun _ value after => post value after) program past
    service

namespace Safely
variable {post : α → Service → Prop}

theorem act {step : Step β} {next : β → Prog α}
    (guard : ∀ later, Inv deployment later → Rely tid service later → step.Guard tid later)
    (rest : ∀ choice later answer after, Inv deployment later → Since service later →
      step.run deployment tid choice later = some (answer, after) → Inv deployment after →
      Since service after → Safely deployment tid post (next answer) after) :
    Safely deployment tid post (.act step next) service := by
  intro past later inv moved
  have guarded := guard later inv moved
  refine ⟨guarded, fun choice answer after _ ran kept => ?_⟩
  have since := ((Step.change inv guarded ran).1.keeps inv).2
  exact rest choice later answer after inv moved.since ran kept (moved.since.trans since) _

/-- A step nothing turns on. -/
theorem free {step : Step β} {next : β → Prog α}
    (unguarded : ∀ later, step.Guard tid later)
    (rest : ∀ choice later answer after, Inv deployment later → Since service later →
      step.run deployment tid choice later = some (answer, after) → Inv deployment after →
      Since service after → Safely deployment tid post (next answer) after) :
    Safely deployment tid post (.act step next) service :=
  act (fun later _ _ => unguarded later) rest

/-- A step whose answer says all that matters. -/
theorem skip {step : Step β} {next : β → Prog α}
    (unguarded : ∀ later, step.Guard tid later)
    (rest : ∀ answer after, Inv deployment after → Since service after →
      Safely deployment tid post (next answer) after) :
    Safely deployment tid post (.act step next) service :=
  free unguarded (fun _ _ answer after _ _ _ kept since => rest answer after kept since)

theorem done {value : α}
    (holds : ∀ later, Inv deployment later → Since service later → post value later) :
    Safely deployment tid post (.done value) service :=
  fun _ later inv moved => holds later inv moved.since

/-- What was known when a program started is known when it is done. -/
theorem remember {program : Prog α} {past : List (Taken Step Choice Service)}
    (safe : Safe (discipline deployment) tid (fun _ value after => post value after) program past
      service) (since : Since before service) :
    Safe (discipline deployment) tid (fun _ value after => Since before after ∧ post value after)
      program past service := by
  induction program generalizing past service with
  | done value => exact fun later inv moved => ⟨since.trans moved.since, safe later inv moved⟩
  | act step next ih =>
    intro later inv moved
    obtain ⟨guarded, rest⟩ := safe later inv moved
    refine ⟨guarded, fun choice answer after ok ran kept => ?_⟩
    have grown := ((Step.change inv guarded ran).1.keeps inv).2
    exact ih answer (rest choice answer after ok ran kept) ((since.trans moved.since).trans grown)

theorem bind {first : β → Service → Prop} {program : Prog β} {next : β → Prog α}
    (safe : Safely deployment tid first program service) (inv : Inv deployment service)
    (rest : ∀ value after, Inv deployment after → Since service after → first value after →
      Safely deployment tid post (next value) after) :
    Safely deployment tid post (program >>= next) service :=
  fun past => Safe.bind (remember (safe past) (.refl service)) inv
    (fun past value after kept ⟨since, holds⟩ => rest value after kept since holds past)

end Safely

/-! ## What a call is told of a run -/

/-- An outcome of a run, which is either still going or will not change. -/
def Told (run : RunId) (outcome : Outcome) (service : Service) : Prop :=
  outcome.run = run ∧ (outcome.stillRunning = false → service.Settled outcome)

theorem Told.since (told : Told run outcome before) (since : Since before after) :
    Told run outcome after :=
  ⟨told.1, fun settled => since.settled _ (told.2 settled)⟩

theorem told_of_snapshot
    (ran : (Step.snapshot run).run deployment tid choice before = some (some outcome, after)) :
    Told run outcome after := by
  simp only [Step.run, Option.some.injEq, Prod.mk.injEq] at ran
  obtain ⟨found, rfl⟩ := ran
  obtain ⟨live, there, rfl⟩ := Option.map_eq_some_iff.mp found
  obtain ⟨member, same⟩ := find_eq_some there
  exact ⟨same, fun settled => ⟨live, member, rfl, by simpa using settled⟩⟩

theorem finished_safe : Safely deployment tid (fun value after => ∀ outcome,
    value = some outcome → outcome.run = run ∧ after.Settled outcome) (finished run) service := by
  refine .skip (fun _ => trivial) fun found middle _ _ => ?_
  cases found with
  | false => exact .done fun _ _ _ _ none' => by cases none'
  | true =>
    refine .free (fun _ => trivial) fun _ _ answer after _ _ ran _ _ => .done fun later _ since => ?_
    intro outcome some'
    obtain ⟨rfl, settled⟩ := Option.filter_eq_some_iff.mp some'
    have told := (told_of_snapshot ran).since since
    exact ⟨told.1, told.2 (by simpa using settled)⟩

theorem wait_safe : Safely deployment tid (fun value after => ∀ outcome,
    value = .ok outcome → Told run outcome after) (wait run) service := by
  refine .skip (fun _ => trivial) fun found middle _ _ => ?_
  cases found with
  | false => exact .done fun _ _ _ _ ok => by cases ok
  | true =>
    refine .free (fun _ => trivial) fun _ _ answer after _ _ ran _ _ => ?_
    cases answer with
    | none => exact .done fun _ _ _ _ ok => by cases ok
    | some outcome =>
      refine .done fun later _ since other ok => ?_
      cases ok
      exact (told_of_snapshot ran).since since

/-! ## Recording and letting go -/

/-- What the record answered a call that gave it an outcome. -/
theorem completed_of_recorded (inv : Inv deployment before) (settled : before.Settled outcome)
    {answer : Except AuditError Unit}
    (ran : (Step.recordOutcome outcome).run deployment tid choice before = some (answer, after))
    (taken : answer = .ok () ∨ ∃ run, answer = .error (.alreadyCompleted run)) :
    after.Completed outcome := by
  simp only [Step.run, Option.some.injEq, Prod.ext_iff] at ran
  obtain ⟨rfl, rfl⟩ := ran
  exact (inv.records settled choice.accepts).completed taken

/-- A settled run that is in the record can be let go of by its caller. -/
theorem forget_collected (settled : service.Settled outcome) (completed : service.Completed outcome)
    {post : α → Service → Prop} {next : Bool → Prog α}
    (rest : ∀ answer after, Inv deployment after → Since service after →
      Safely deployment tid post (next answer) after) :
    Safely deployment tid post (.act (.forget outcome.run .collected) next) service := by
  refine .act (fun later _ moved => ?_) fun _ _ answer after _ _ _ kept since =>
    rest answer after kept since
  exact ⟨outcome, moved.since.settled _ settled, moved.since.completed completed, rfl, nofun⟩

theorem accountFor_safe (told : Told run outcome service) :
    Safely deployment tid (fun _ _ => True) (accountFor outcome) service := by
  unfold accountFor
  split
  · exact .done fun _ _ _ => trivial
  rename_i ended
  have settled := told.2 (by simpa using ended)
  refine .act (fun later _ moved => moved.since.settled _ settled) ?_
  intro choice later answer after inv' since ran inv'' since'
  have completed := completed_of_recorded inv' (since.settled _ settled) ran
  cases answer with
  | ok =>
    refine forget_collected (since'.settled _ settled) (completed (.inl rfl)) fun _ _ _ _ => ?_
    exact .done fun _ _ _ => trivial
  | error error =>
    cases error with
    | alreadyCompleted already =>
      have there := completed (.inr ⟨already, rfl⟩)
      change Safely deployment tid _ (finished outcome.run >>= _) _
      refine .bind finished_safe inv'' fun value last kept since'' found => ?_
      cases value with
      | none => exact .done fun _ _ _ => trivial
      | some other =>
        obtain ⟨same, settled'⟩ := found other rfl
        have completed' := since''.completed there
        rw [kept.settled_unique (since''.settled _ (since'.settled _ settled)) settled' same.symm]
          at completed'
        exact forget_collected settled' completed' fun _ _ _ _ => .done fun _ _ _ => trivial
    | _ => exact .done fun _ _ _ => trivial

theorem collect_safe (inv : Inv deployment service) :
    Safely deployment tid (fun _ _ => True) (collect run) service := by
  refine .bind wait_safe inv fun value after kept _ told => ?_
  cases value with
  | error => exact .done fun _ _ _ => trivial
  | ok outcome => exact accountFor_safe (told outcome rfl)

theorem execute_safe (receipt : Receipt) :
    Safely deployment tid (fun _ _ => True) (execute receipt) service := by
  refine .free (fun _ => trivial) fun choice before answer after _ _ ran _ _ => ?_
  cases answer with
  | error => exact .done fun _ _ _ => trivial
  | ok run =>
    have locked : after.admitting = some (tid, run) := by
      simp only [Step.run] at ran
      split at ran
      · split at ran
        · cases ran
        · cases ran
          rfl
      · cases ran
    refine .act (fun _ _ moved => moved.admitting run locked) fun _ _ _ _ _ _ _ kept _ => ?_
    exact collect_safe kept

theorem poll_safe (principal : PrincipalId) (session : SessionId) (run : RunId) :
    Safely deployment tid (fun _ _ => True) (poll principal session run) service := by
  refine .skip (fun _ => trivial) fun entered _ _ _ => ?_
  cases entered with
  | false => exact .done fun _ _ _ => trivial
  | true =>
    refine .skip (fun _ => trivial) fun used _ _ _ => ?_
    cases used with
    | error => exact .done fun _ _ _ => trivial
    | ok session =>
      refine .skip (fun _ => trivial) fun mine _ kept _ => ?_
      cases mine with
      | false => exact .done fun _ _ _ => trivial
      | true => exact collect_safe kept

/-! ## Housekeeping -/

theorem recordCompletion_safe (settled : service.Settled outcome) :
    Safely deployment tid (fun value after => value = true → after.Completed outcome)
      (recordCompletion outcome) service := by
  refine .act (fun later _ moved => moved.since.settled _ settled) ?_
  intro choice later answer after inv since ran _ _
  have completed := completed_of_recorded inv (since.settled _ settled) ran
  cases answer with
  | ok => exact .done fun _ _ moved _ => moved.completed (completed (.inl rfl))
  | error error =>
    cases error with
    | alreadyCompleted run =>
      exact .done fun _ _ moved _ => moved.completed (completed (.inr ⟨run, rfl⟩))
    | _ => exact .done fun _ _ _ false' => by cases false'

/-- What a run is authorized by, as the records say. -/
theorem authorization_known {authorized : Authorization}
    (ran : (Step.authorization run).run deployment tid choice before =
      some (some authorized, after)) :
    ∃ live ∈ after.lives, live.id = run ∧ live.authorization = authorized := by
  simp only [Step.run] at ran
  split at ran
  · split at ran
    · simp only [Option.some.injEq, Prod.mk.injEq] at ran
      obtain ⟨found, rfl⟩ := ran
      obtain ⟨live, there, same⟩ := Option.map_eq_some_iff.mp found
      obtain ⟨member, id⟩ := find_eq_some there
      exact ⟨live, member, id, same⟩
    · cases ran
  · cases ran

theorem reclaimRun_safe (run : RunId) :
    Safely deployment tid (fun _ _ => True) (reclaimRun run) service := by
  refine .free (fun _ => trivial) fun _ before answer after _ _ ran kept _ => ?_
  cases answer with
  | none => exact .done fun _ _ _ => trivial
  | some authorized =>
    obtain ⟨live, member, same, rfl⟩ := authorization_known ran
    have minted := kept.minted live member
    change Safely deployment tid _ (finished run >>= _) _
    refine .bind finished_safe kept fun value middle kept since found => ?_
    cases value with
    | none => exact .done fun _ _ _ => trivial
    | some outcome =>
      obtain ⟨named, settled⟩ := found outcome rfl
      -- The run that was found is the one that was asked about.
      have own : outcome.authorization = live.authorization := by
        obtain ⟨first, among, id, authorization⟩ := since.known live member
        obtain ⟨second, among', rfl, -⟩ := settled
        rw [← authorization, List.inj_on_of_nodup_map kept.ids among among'
          (id.trans (same.trans named.symm))]
        rfl
      change Safely deployment tid _ (recordCompletion outcome >>= _) _
      refine .bind (recordCompletion_safe settled) kept fun recorded last kept since' completed => ?_
      cases recorded with
      | false => exact .done fun _ _ _ => trivial
      | true =>
        refine .free (fun _ => trivial) fun _ asked answer later _ moved ran kept moved' => ?_
        cases answer with
        | true => exact .done fun _ _ _ => trivial
        | false =>
          simp only [Step.run, Option.some.injEq, Prod.mk.injEq] at ran
          obtain ⟨holds, rfl⟩ := ran
          refine .act (fun final inv rely => ?_) fun _ _ _ _ _ _ _ _ _ => .done fun _ _ _ => trivial
          have onward := moved.trans rely.since
          refine ⟨outcome, onward.settled _ (since'.settled _ settled),
            onward.completed (completed rfl), named, fun _ => ?_⟩
          rw [own]
          refine rely.since.gone live.authorization ?_ ?_
          · exact moved.minted (since'.minted (since.minted minted))
          · rw [Service.Gone, ← Option.isNone_iff_eq_none, ← Option.not_isSome]
            simpa [Sessions.holds] using holds

theorem reclaimRuns_safe (inv : Inv deployment service) (runs : List RunId) :
    Safely deployment tid (fun _ _ => True) (reclaimRuns runs) service := by
  induction runs generalizing service with
  | nil => exact .done fun _ _ _ => trivial
  | cons run rest ih => exact .bind (reclaimRun_safe run) inv fun _ _ kept _ _ => ih kept

theorem reclaim_safe : Safely deployment tid (fun _ _ => True) reclaim service := by
  refine .skip (fun _ => trivial) fun _ _ _ _ => .skip (fun _ => trivial) fun entered _ kept _ => ?_
  cases entered with
  | false => exact .done fun _ _ _ => trivial
  | true =>
    refine .skip (fun _ => trivial) fun runs _ kept _ => ?_
    change Safely deployment tid _ (reclaimRuns runs >>= _) _
    refine .bind (reclaimRuns_safe kept runs) kept fun _ _ _ _ _ => ?_
    exact .skip (fun _ => trivial) fun _ _ _ _ => .done fun _ _ _ => trivial

theorem closeSession_safe (principal : PrincipalId) (id : SessionId) :
    Safely deployment tid (fun _ _ => True) (closeSession principal id) service := by
  refine .skip (fun _ => trivial) fun entered _ _ _ => ?_
  cases entered with
  | false => exact .done fun _ _ _ => trivial
  | true =>
    refine .skip (fun _ => trivial) fun used _ _ _ => ?_
    cases used with
    | error => exact .done fun _ _ _ => trivial
    | ok session =>
      refine .skip (fun _ => trivial) fun recorded _ _ _ => ?_
      cases recorded with
      | error => exact .done fun _ _ _ => trivial
      | ok =>
        refine .skip (fun _ => trivial) fun closed _ kept _ => ?_
        cases closed with
        | error => exact .done fun _ _ _ => trivial
        | ok =>
          change Safely deployment tid _ (reclaim >>= _) _
          exact .bind reclaim_safe kept fun _ _ _ _ _ => .done fun _ _ _ => trivial

theorem terminateSession_safe (id : SessionId) (operator : PrincipalId) :
    Safely deployment tid (fun _ _ => True) (terminateSession id operator) service := by
  refine .skip (fun _ => trivial) fun entered _ _ _ => ?_
  cases entered with
  | false => exact .done fun _ _ _ => trivial
  | true =>
    refine .skip (fun _ => trivial) fun ended _ kept _ => ?_
    cases ended with
    | error => exact .done fun _ _ _ => trivial
    | ok =>
      change Safely deployment tid _ (reclaim >>= _) _
      exact .bind reclaim_safe kept fun _ _ _ _ _ => .done fun _ _ _ => trivial

theorem settled_safe (inv : Inv deployment service) (looks : Nat) :
    Safely deployment tid (fun _ _ => True) (settled looks) service := by
  induction looks generalizing service with
  | zero => exact .done fun _ _ _ => trivial
  | succ looks ih =>
    refine .bind reclaim_safe inv fun _ _ _ _ _ => .skip (fun _ => trivial) fun runs _ kept _ => ?_
    cases runs with
    | nil => exact .done fun _ _ _ => trivial
    | cons => exact ih kept

/-! ## Every call -/

/-- What a call leaves: a store that was told to stop is stopping. -/
def Call.Post : Call → Service → Prop
  | .stop, after => after.stopping = true
  | _, _ => True

theorem Call.safe (inv : Inv deployment service) (call : Call) :
    Safely deployment tid (fun _ after => call.Post after) call.program service := by
  cases call with
  | execute receipt =>
    exact .bind (execute_safe receipt) inv fun _ _ _ _ _ => .done fun _ _ _ => trivial
  | poll principal session run =>
    exact .bind (poll_safe principal session run) inv fun _ _ _ _ _ => .done fun _ _ _ => trivial
  | reclaim => exact .bind reclaim_safe inv fun _ _ _ _ _ => .done fun _ _ _ => trivial
  | closeSession principal id =>
    exact .bind (closeSession_safe principal id) inv fun _ _ _ _ _ => .done fun _ _ _ => trivial
  | terminateSession id operator =>
    exact .bind (terminateSession_safe id operator) inv fun _ _ _ _ _ => .done fun _ _ _ => trivial
  | settled looks =>
    exact .bind (settled_safe inv looks) inv fun _ _ _ _ _ => .done fun _ _ _ => trivial
  | stop =>
    refine .free (fun _ => trivial) fun _ _ _ after _ _ ran _ _ => ?_
    refine .done fun later _ since => (since.stopping ?_).1
    simp only [Step.run] at ran
    split at ran
    · cases ran
      rfl
    · cases ran

end McpSsh.RunStore
