import McpSsh.Bastion.Publishing.Ending

/-!
# Connections and sessions, in every reachable world

Every call minds what it has to, so sessions, ends and connections stay
together whatever calls are made and however their steps are interleaved.
-/

namespace McpSsh.Bastion

open Interleaving History

variable {deployment : Deployment} {lost : Nat → Prop} {tid : Nat} {choice : Choice}
variable {service after : Service} {past : List Took} {α β : Type} {answer : β}

/-! ## The calls -/

/-- A program that settles, as the program of a call. -/
theorem Publishes.reply {program : Prog α} {reply : α → Reply}
    (publishes : Publishes deployment lost tid (fun past _ after => Settled past after) program []
      service) (inv : Inv deployment service) (ok : Published lost service) :
    Publishes deployment lost tid (fun past _ after => Settled past after)
      (program >>= fun value => pure (reply value)) [] service := by
  refine .bind publishes inv ok fun past value after _ _ settled _ _ moved => ?_
  obtain ⟨about, owing⟩ := settled
  exact ⟨about, owing.later moved.2.lasts moved.1.journal⟩

/-- A plain program settles. -/
theorem Publishes.settled {program : Prog α} (plain : program.All Step.Plain) :
    Publishes deployment lost tid (fun past _ after => Settled past after) program [] service :=
  Safe.weaken (Publishes.plain plain (Owing.nil service)) (fun _ _ _ _ paid => ⟨none, paid.1⟩)

theorem Call.program_publishes (call : Call) (inv : Inv deployment service)
    (ok : Published lost service) :
    Publishes deployment lost tid (fun past _ after => Settled past after) (call.program deployment)
      [] service := by
  cases call with
  | openSession => exact .reply openSession_publishes inv ok
  | submit => exact .reply submit_publishes inv ok
  | closeSession => exact .reply closeSession_publishes inv ok
  | terminateSession => exact .reply terminateSession_publishes inv ok
  | reclaim =>
    refine .reply (Safe.weaken (reclaim_publishes inv ok (Owing.nil service)) ?_) inv ok
    exact fun _ _ _ _ settles => ⟨none, settles.owing⟩
  | authorize | decide | approveSession | revokeStanding | stop | account =>
    exact .settled ((Call.program_takes _).plain rfl)

/-! ## Transports found gone -/

/-- The connection a step found gone. -/
def LinkStep.findsGone {β : Type} : LinkStep β → β → Option Connection
  | .look _, some (connection, true) => some connection
  | _, _ => none

def Step.findsGone {β : Type} : Step β → β → Option Connection
  | .links step, answer => step.findsGone answer
  | _, _ => none

/-- Some call has found this connection gone. -/
def World.FoundGone (world : World) (connection : Nat) : Prop :=
  ∃ tid taken, world.Remembers tid taken ∧
    ∃ found, taken.step.findsGone taken.answer = some found ∧ found.id = connection

/-- A step that is remembered finds gone only what was found gone. -/
theorem Step.finds_of_remembered {world : World} {step : Step β}
    (ran : step.run deployment tid choice service = some (answer, after))
    (remembers : world.Remembers tid ⟨step, choice, answer, service, after⟩) :
    step.Finds world.FoundGone service choice := by
  cases step with
  | links step =>
    cases step with
    | look holder =>
      intro gone held found
      obtain ⟨is, -⟩ := LinkStep.look_found ran
      rw [found, gone] at is
      simp only [Option.map_some, Bool.not_false, Bool.or_true] at is
      subst is
      exact ⟨tid, _, remembers, held.connection, rfl, rfl⟩
    | _ => trivial
  | _ => trivial

/-! ## Reachable worlds -/

/-- What holds of every reachable world: everything is together, every call is
about to mind what it has to, and a finished one owes nothing. -/
abbrev World.Together (deployment : Deployment) (world : World) : Prop :=
  Interleaving.Good (publishing deployment world.FoundGone).discipline
    (fun _ _ past _ after => Settled past after) world

theorem World.new_together (deployment : Deployment) (lost : Nat → Prop) (clock : Nat) :
    Interleaving.Good (publishing deployment lost).discipline
      (fun _ _ past _ after => Settled past after) (World.new deployment clock) where
  inv := ⟨Inv.new deployment clock, Published.new lost deployment clock⟩
  safe := fun tid thread found => by cases found
  fresh := (World.new_good deployment clock).fresh

/-- Every step a call has taken it took with everything together. -/
abbrev Heeded (deployment : Deployment) (lost : Nat → Prop) (tid : Nat) (taken : Took) : Prop :=
  (publishing deployment lost).Met tid taken

theorem Reachable.together {world : World} (reached : Reachable deployment world) :
    world.Together deployment ∧ ∀ tid taken, world.Remembers tid taken →
      Heeded deployment world.FoundGone tid taken := by
  obtain ⟨clock, run⟩ := reached
  have starts := fun (call : Call) (tid : Nat) (state : Service)
    (inv : (discipline deployment).inv state) (fresh : (discipline deployment).fresh tid state) =>
      call.program_safe inv (.of_unknown fresh)
  have starts' := fun (call : Call) (tid : Nat) (state : Service)
    (inv : (publishing deployment world.FoundGone).discipline.inv state)
    (_ : (discipline deployment).fresh tid state) =>
      (call.program_publishes inv.1 inv.2 : Publishes deployment world.FoundGone tid _ _ _ _)
  have allows : ∀ (before : World) (move : BastionMove) (after : World),
      (True ∧ world.Recalls (semantics deployment) before move) →
      before.move (semantics deployment) (Call.program deployment) move = some after →
      (discipline deployment).Allows before move ∧
        (publishing deployment world.FoundGone).Allows before move := by
    rintro before move after ⟨-, recalls⟩ moved
    cases move with
    | turn tid choice =>
      refine ⟨fun _ _ _ _ _ _ => trivial, fun call past β step next found => ?_⟩
      obtain ⟨call', past', β', step', next', answer, found', ran, -⟩ := World.move_turn moved
      cases Option.some.inj (found.symm.trans found')
      exact Step.finds_of_remembered ran (recalls call past β step next answer _ found ran)
    | _ => exact ⟨trivial, trivial⟩
  have run := run.remembered
  refine ⟨(Runs.layered starts starts' allows run (World.new_good deployment clock)
    (World.new_together deployment world.FoundGone clock)).2, ?_⟩
  rintro tid taken ⟨thread, found, member⟩
  refine Runs.met starts starts' allows run (World.new_good deployment clock)
    (World.new_together deployment world.FoundGone clock) ?_ tid thread found taken member
  exact fun tid thread found => by cases found

end McpSsh.Bastion
