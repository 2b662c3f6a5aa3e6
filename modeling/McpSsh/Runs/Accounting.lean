import McpSsh.Runs.Safety

/-!
# Every run is accounted for

A run leaves the store with its completion in the record, and housekeeping lets
go only of one that nobody can ask for. Once the store has stopped, no run is
registered, and where none is being read every one that was has settled and was
recorded, or the record refused it.
-/

namespace McpSsh.RunStore

open Interleaving Ledger
open Bastion (Deployment)

abbrev RunMove : Type := Move Call Choice Happening

/-- Whether a step lets go of a run. -/
def Step.Releases {β : Type} (run : RunId) : Step β → Prop
  | .forget other _ => other = run
  | _ => False

section
variable {deployment : Deployment} {tid : Nat} {choice : Choice} {before after : Service}
variable {world later : World} {α β : Type} {answer : β} {run : RunId}

/-! ## Worlds -/

/-- Whatever the calls do, the world they come to is good. -/
theorem Reaches.good (run : Reaches deployment world later)
    (good : Good (discipline deployment) (fun call _ _ _ after => call.Post after) world) :
    Good (discipline deployment) (fun call _ _ _ after => call.Post after) later :=
  Runs.good (fun call _ _ inv _ => Call.safe inv call []) (fun _ move _ => by
    cases move <;> first | trivial | exact fun _ _ _ _ _ _ => trivial) run good

theorem Reachable.good (reached : Reachable deployment world) :
    Good (discipline deployment) (fun call _ _ _ after => call.Post after) world := by
  obtain ⟨clock, run⟩ := reached
  refine Reaches.good run ⟨Inv.new deployment clock, fun tid thread found => ?_, fun _ _ => trivial⟩
  simp [World.new] at found

theorem Reachable.inv (reached : Reachable deployment world) : Inv deployment world.shared :=
  reached.good.inv

theorem Reachable.onward (reached : Reachable deployment world)
    (run : Reaches deployment world later) : Reachable deployment later :=
  have ⟨clock, start⟩ := reached
  ⟨clock, start.trans run⟩

/-- Each move leaves what was known. -/
theorem Reachable.since_move (reached : Reachable deployment world) {move : RunMove}
    (moved : world.move (semantics deployment) Call.program move = some later) :
    Since world.shared later.shared := by
  cases move with
  | spawn call =>
    cases moved
    exact .refl _
  | turn tid choice =>
    obtain ⟨call, past, β, step, next, answer, found, ran, -⟩ := World.move_turn moved
    exact ((Step.change reached.inv (reached.good.guard found) ran).1.keeps reached.inv).2
  | environment happening =>
    obtain ⟨shared, happened, rfl⟩ := Option.map_eq_some_iff.mp moved
    exact ((Happening.change reached.inv happened).1.keeps reached.inv).2

theorem Reachable.since (reached : Reachable deployment world)
    (run : Reaches deployment world later) : Since world.shared later.shared := by
  induction run with
  | refl => exact .refl _
  | tail earlier step ih =>
    obtain ⟨move, -, moved⟩ := step
    exact ih.trans ((reached.onward earlier).since_move moved)

/-! ## Who lets go of a run -/

theorem recordOutcome_held (deployment : Deployment) (service : Service) (outcome : Outcome)
    (accepts : Bool) :
    (service.recordOutcome deployment outcome accepts).2.held = service.held := by
  unfold Service.recordOutcome
  generalize wrote : service.writes deployment (.recordOutcome outcome) accepts = result
  have same : result.2.held = service.held := by
    rw [← wrote]
    rfl
  split <;> exact same

theorem Step.releases {step : Step β}
    (ran : step.run deployment tid choice before = some (answer, after))
    (held : run ∈ before.held) (gone : run ∉ after.held) : step.Releases run := by
  cases step with
  | forget other why =>
    simp only [Step.run] at ran
    split at ran
    · split at ran
      · cases ran
        by_contra differ
        exact gone (List.mem_filter.mpr ⟨held, decide_eq_true (fun same => differ same.symm)⟩)
      · cases ran
        exact absurd held gone
    · cases ran
  | register receipt =>
    simp only [Step.run] at ran
    split at ran
    · split at ran
      · cases ran
        exact absurd held gone
      · cases ran
        exact absurd (List.mem_cons_of_mem _ held) gone
    · cases ran
  | enlist other =>
    simp only [Step.run] at ran
    split at ran
    · cases ran
      refine absurd ?_ gone
      split <;> exact held
    · cases ran
  | terminate id operator =>
    have kept : ∀ operation accepts,
        run ∈ (before.writes deployment operation accepts).2.held := fun _ _ => held
    simp only [Step.run] at ran
    split at ran
    · cases ran
      exact absurd held gone
    · have wrote := kept (.recordSessionTerminated ‹Session› operator) choice.accepts
      split at ran
      · rename_i same
        rw [same] at wrote
        cases ran
        exact absurd wrote gone
      · rename_i same
        rw [same] at wrote
        cases ran
        exact absurd wrote gone
  | recordOutcome outcome =>
    simp only [Step.run, Option.some.injEq, Prod.ext_iff] at ran
    obtain ⟨-, rfl⟩ := ran
    exact absurd (recordOutcome_held deployment before outcome choice.accepts ▸ held) gone
  | find | belongsTo | authorization | outstanding | stop =>
    simp only [Step.run] at ran
    split at ran
    · cases ran
      exact absurd held gone
    · cases ran
  | enter | useSession | holds | sweep | close | recordSessionClosed | reclaimLedger | unfinished
  | snapshot =>
    cases ran
    exact absurd held gone

/-- Nothing that happens by itself lets go of a run. -/
theorem Happening.held {happening : Happening}
    (happened : happening.run deployment before = some after) (held : run ∈ before.held) :
    run ∈ after.held := by
  cases happening with
  | tick | publish | rehashSessions | writes =>
    simp only [Happening.run] at happened
    split at happened
    · cases happened
      exact held
    · cases happened
  | reserve | release | useSession =>
    cases happened
    exact held
  | rehashRuns =>
    simp only [Happening.run] at happened
    split at happened
    · rename_i ok
      cases happened
      exact (List.isPerm_iff.mp (Bool.and_eq_true_iff.mp ok).2).mem_iff.mp held
    · cases happened
  | reads | leaves =>
    obtain ⟨live, -, -, -, rfl⟩ := reader_eq_some happened
    exact held
  | settles | permitted =>
    simp only [Happening.run] at happened
    split at happened
    · cases happened
    · obtain ⟨live, -, -, -, rfl⟩ := reader_eq_some happened
      exact held
  | tells other accepts =>
    obtain ⟨live, -, -, -, rfl⟩ := reader_eq_some happened
    exact (recordOutcome_held deployment before live.snapshot accepts).symm ▸ held

/-- Whether a call is housekeeping, or ends in it: its own caller waits for no
run. -/
def Call.reclaims : Call → Bool
  | .execute _ | .poll .. => false
  | .reclaim | .closeSession .. | .terminateSession .. | .stop | .settled _ => true

/-- What housekeeping lets go of is what nobody can ask for. -/
def Step.Housekeeping (γ : Type) : Step γ → Prop
  | .forget _ why => why = .orphaned
  | _ => True

theorem finished_steps (run : RunId) : (finished run).All Step.Housekeeping := by
  refine .act _ _ trivial fun found => ?_
  cases found with
  | false => exact .done _
  | true => exact .act _ _ trivial fun _ => .done _

theorem recordCompletion_steps (outcome : Outcome) :
    (recordCompletion outcome).All Step.Housekeeping := by
  refine .act _ _ trivial fun answer => ?_
  cases answer with
  | ok => exact .done _
  | error error => cases error <;> exact .done _

theorem reclaimRun_steps (run : RunId) : (reclaimRun run).All Step.Housekeeping := by
  refine .act _ _ trivial fun authorized => ?_
  cases authorized with
  | none => exact .done _
  | some authorized =>
    change Program.All _ (finished run >>= _)
    refine .bind (finished_steps run) fun outcome => ?_
    cases outcome with
    | none => exact .done _
    | some outcome =>
      change Program.All _ (recordCompletion outcome >>= _)
      refine .bind (recordCompletion_steps outcome) fun recorded => ?_
      cases recorded with
      | false => exact .done _
      | true =>
        refine .act _ _ trivial fun holds => ?_
        cases holds with
        | true => exact .done _
        | false => exact .act _ _ rfl fun _ => .done _

theorem reclaimRuns_steps (runs : List RunId) : (reclaimRuns runs).All Step.Housekeeping := by
  induction runs with
  | nil => exact .done _
  | cons run rest ih => exact .bind (reclaimRun_steps run) fun _ => ih

theorem reclaim_steps : reclaim.All Step.Housekeeping := by
  refine .act _ _ trivial fun _ => .act _ _ trivial fun entered => ?_
  cases entered with
  | false => exact .done _
  | true =>
    refine .act _ _ trivial fun runs => ?_
    change Program.All _ (reclaimRuns runs >>= _)
    exact .bind (reclaimRuns_steps runs) fun _ => .act _ _ trivial fun _ => .done _

theorem closeSession_steps (principal : PrincipalId) (id : SessionId) :
    (closeSession principal id).All Step.Housekeeping := by
  refine .act _ _ trivial fun entered => ?_
  cases entered with
  | false => exact .done _
  | true =>
    refine .act _ _ trivial fun used => ?_
    cases used with
    | error => exact .done _
    | ok session =>
      refine .act _ _ trivial fun recorded => ?_
      cases recorded with
      | error => exact .done _
      | ok =>
        refine .act _ _ trivial fun closed => ?_
        cases closed with
        | error => exact .done _
        | ok =>
          change Program.All _ (reclaim >>= _)
          exact .bind reclaim_steps fun _ => .done _

theorem terminateSession_steps (id : SessionId) (operator : PrincipalId) :
    (terminateSession id operator).All Step.Housekeeping := by
  refine .act _ _ trivial fun entered => ?_
  cases entered with
  | false => exact .done _
  | true =>
    refine .act _ _ trivial fun ended => ?_
    cases ended with
    | error => exact .done _
    | ok =>
      change Program.All _ (reclaim >>= _)
      exact .bind reclaim_steps fun _ => .done _

theorem settled_steps (looks : Nat) : (settled looks).All Step.Housekeeping := by
  induction looks with
  | zero => exact .done _
  | succ looks ih =>
    refine .bind reclaim_steps fun _ => .act _ _ trivial fun runs => ?_
    cases runs with
    | nil => exact .done _
    | cons => exact ih

/-- The steps of a call that reclaims are housekeeping. -/
def Call.Steps (call : Call) (γ : Type) (step : Step γ) : Prop :=
  call.reclaims = true → step.Housekeeping

theorem Call.steps (call : Call) : call.program.All call.Steps := by
  have kept : ∀ {program : Prog Answer}, program.All Step.Housekeeping → program.All call.Steps := by
    intro program all
    induction all with
    | done value => exact .done value
    | act step next here _ ih => exact .act step next (fun _ => here) ih
  cases call with
  | execute | poll => exact .of_forall (fun _ _ => nofun) _
  | reclaim => exact kept (.bind reclaim_steps fun _ => .done _)
  | closeSession principal id => exact kept (.bind (closeSession_steps principal id) fun _ => .done _)
  | terminateSession id operator =>
    exact kept (.bind (terminateSession_steps id operator) fun _ => .done _)
  | stop => exact kept (.act _ _ trivial fun _ => .done _)
  | settled looks => exact kept (.bind (settled_steps looks) fun _ => .done _)

theorem Reachable.steps (reached : Reachable deployment world) :
    ∀ thread ∈ world.threads, thread.program.All thread.call.Steps := by
  obtain ⟨clock, run⟩ := reached
  exact Runs.all Call.steps run (fun _ member => by cases member)

/-- **No run is released unrecorded.** Every run that is not in the store has
its completion in the record, and so has a run that a move takes out of it,
already before the move. If the call that takes it out reclaims, the run's
session cannot be used. -/
theorem no_run_released_unrecorded (reached : Reachable deployment world) :
    (∀ live ∈ world.shared.lives, live.id ∉ world.shared.held →
      live.state ≠ .running ∧ world.shared.Completed live.snapshot) ∧
    ∀ move, world.move (semantics deployment) Call.program move = some later →
      ∀ run ∈ world.shared.held, run ∉ later.shared.held →
        ∃ outcome, world.shared.Settled outcome ∧ outcome.run = run ∧
          world.shared.Completed outcome ∧
          ∃ tid choice call program past, move = .turn tid choice ∧
            world.threads[tid]? = some ⟨call, program, past⟩ ∧
            (call.reclaims = true → world.shared.Gone outcome.authorization.who.session) := by
  refine ⟨reached.inv.released, fun move moved run held gone => ?_⟩
  cases move with
  | spawn call =>
    cases moved
    exact absurd held gone
  | environment happening =>
    obtain ⟨shared, happened, rfl⟩ := Option.map_eq_some_iff.mp moved
    exact absurd (Happening.held happened held) gone
  | turn tid choice =>
    obtain ⟨call, past, β, step, next, answer, found, ran, -⟩ := World.move_turn moved
    have guard : step.Guard tid world.shared := reached.good.guard found
    have releases := Step.releases ran held gone
    have steps := reached.steps _ (List.mem_of_getElem? found)
    cases step with
    | forget other why =>
      obtain rfl : other = run := releases
      obtain ⟨outcome, settled, completed, same, orphaned⟩ := guard
      refine ⟨outcome, settled, same, completed, tid, choice, call, _, past, rfl, found, ?_⟩
      intro reclaims
      cases steps with
      | act _ _ here => exact orphaned (here reclaims)
    | _ => exact releases.elim

/-! ## Shutdown -/

/-- **The drain of a stop loses nothing.** After a `stop` has returned no run is
registered any more, and whenever nothing is being read every run ever
registered has settled, and its completion is in the record or was refused by
it. -/
theorem stop_drains (reached : Reachable deployment world) {value : Answer}
    {past : List (Taken Step Choice Service)}
    (stopped : world.threads[tid]? = some ⟨.stop, .done value, past⟩)
    (run : Reaches deployment world later) :
    later.shared.lives.map Live.id = world.shared.lives.map Live.id ∧
    (later.shared.reading = [] → ∀ live ∈ later.shared.lives, live.state ≠ .running ∧
      (later.shared.Completed live.snapshot ∨ later.shared.Refused live.snapshot)) := by
  have stopping : world.shared.stopping = true := reached.good.finished stopped
  obtain ⟨still, same⟩ := (reached.since run).stopping stopping
  have inv := (reached.onward run).inv
  refine ⟨same, fun none_ live member => ?_⟩
  have gone : live.reader = .gone := by
    by_contra ungone
    by_cases registered : live.reader = .registered
    · obtain ⟨holder, locked⟩ := inv.registered live member registered
      rw [inv.stopping still] at locked
      cases locked
    · have reading := inv.reading live member registered ungone
      rw [none_] at reading
      cases reading
  refine ⟨fun running => ?_, inv.recorded live member (.inr gone)⟩
  rcases (inv.running live member).mp running with at' | at' <;> rw [gone] at at' <;> cases at'

end

/-! ## A run that is collected -/

namespace Sample

def deployment : Deployment where
  registry := ⟨[], by decide⟩
  review := .all
  lifetime := ⟨1000, 10000, 100⟩
  sessionsPerPrincipal := 4
  windows := ⟨100, 100⟩
  waitingPerSession := 4
  limits := Limits.default
  format := Ledger.Sample.format
  genesis := ⟨[]⟩

/-- The one receipt of a record with one decision. -/
def receipt : Receipt where
  authorization := Ledger.Sample.decided.minted.headD default
  action := default

def turn (tid draw : Nat) : RunMove := .turn tid ⟨draw, true⟩

/-- A run is registered under the number 7, and exits. -/
def exited : List RunMove :=
  [.environment (.writes (.recordIntent Ledger.Sample.permitted default) true),
    .spawn (.execute receipt), turn 0 7, turn 0 8,
    .environment (.settles ⟨7⟩ (.exited 0) nothingRead nothingRead none none)]

/-- Its caller finds it and records what it came to. -/
def collected : List RunMove := exited ++ [turn 0 9, turn 0 10, turn 0 11]

/-- The service stops, and the run's reader announces it. -/
def stopped : List RunMove := exited ++ [.spawn .stop, turn 1 9]

def announced : List RunMove :=
  [.environment (.permitted ⟨7⟩), .environment (.tells ⟨7⟩ true), .environment (.leaves ⟨7⟩)]

def run (moves : List RunMove) : World :=
  ((World.new deployment 0).play (semantics deployment) Call.program moves).getD
    (World.new deployment 0)

theorem run_reachable (moves : List RunMove) : Reachable deployment (run moves) := by
  refine ⟨0, ?_⟩
  unfold run
  cases played : (World.new deployment 0).play (semantics deployment) Call.program moves with
  | none => exact .refl
  | some world => exact World.play_runs played

/-- What is let go of next was recorded. -/
theorem collected_recorded : ∃ outcome, (run collected).shared.Settled outcome ∧
    outcome.run = ⟨7⟩ ∧ (run collected).shared.Completed outcome := by
  have gone : ((run collected).move (semantics deployment) Call.program (turn 0 12)).map
      (·.shared.held) = some [] := by decide +kernel
  obtain ⟨later, moved, none_⟩ := Option.map_eq_some_iff.mp gone
  have held : (⟨7⟩ : RunId) ∈ (run collected).shared.held := by decide +kernel
  obtain ⟨outcome, settled, same, completed, -⟩ :=
    (no_run_released_unrecorded (run_reachable collected)).2 (turn 0 12) moved ⟨7⟩ held
      (by simp [none_])
  exact ⟨outcome, settled, same, completed⟩

theorem stopped_over : ∃ past,
    (run stopped).threads[1]? = some ⟨.stop, .done .stopped, past⟩ :=
  ⟨_, rfl⟩

/-- Once the run has been announced nothing is being read, and it was recorded. -/
theorem announced_accounted : ∃ later, Reaches deployment (run stopped) later ∧
    later.shared.lives.map Live.id = [⟨7⟩] ∧ ∀ live ∈ later.shared.lives, live.state ≠ .running ∧
      (later.shared.Completed live.snapshot ∨ later.shared.Refused live.snapshot) := by
  have drained : (((run stopped).play (semantics deployment) Call.program announced).map
      (·.shared.reading)) = some [] := by decide +kernel
  obtain ⟨later, played, none_⟩ := Option.map_eq_some_iff.mp drained
  obtain ⟨past, returned⟩ := stopped_over
  obtain ⟨same, accounted⟩ := stop_drains (run_reachable stopped) returned (World.play_runs played)
  exact ⟨later, World.play_runs played, same.trans (by decide +kernel), accounted none_⟩

end Sample

end McpSsh.RunStore
