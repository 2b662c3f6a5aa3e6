import McpSsh.Bastion.Publishing.Plain

/-!
# The calls mind what they publish

Each call is walked once more, now with the guards of the layer. What a call
has dialled and what it has taken out of the map is its own to deal with:
`Owing` says what it has yet to place or close, and a finished call owes
nothing.
-/

namespace McpSsh.Bastion

open Interleaving

variable {deployment : Deployment} {lost : Nat → Prop} {tid : Nat} {choice : Choice}
variable {service after start before : Service} {past : List Took} {α β : Type} {answer : β}
variable {step : Step β}

/-- A program that minds what it has to. -/
abbrev Publishes (deployment : Deployment) (lost : Nat → Prop) (tid : Nat)
    (post : List Took → α → Service → Prop) (program : Prog α) (past : List Took)
    (service : Service) : Prop :=
  Safe (publishing deployment lost).discipline tid post program past service

/-! ## One step -/

/-- What is known once a step is taken. -/
structure Stepped (deployment : Deployment) (lost : Nat → Prop) (tid : Nat) (step : Step β)
    (choice : Choice) (start before : Service) (answer : β) (after : Service) : Prop where
  inv : Inv deployment before
  ok : Published lost before
  moved : Rely tid start before
  left : Leaves tid start before
  guard : step.Guard deployment tid before
  minds : step.Minds lost tid before
  finds : step.Finds lost before choice
  ran : step.run deployment tid choice before = some (answer, after)
  inv' : Inv deployment after
  ok' : Published lost after

namespace Stepped

theorem lasts' (stepped : Stepped deployment lost tid step choice start before answer after) :
    Lasts before after :=
  Step.lasts stepped.inv stepped.guard stepped.ok stepped.minds stepped.ran

theorem lasts (stepped : Stepped deployment lost tid step choice start before answer after) :
    Lasts start after :=
  stepped.left.lasts.trans stepped.lasts'

theorem grows (stepped : Stepped deployment lost tid step choice start before answer after) :
    start.journal <+: after.journal :=
  stepped.moved.journal.trans (Step.since stepped.inv stepped.ran).journal

theorem idle (stepped : Stepped deployment lost tid step choice start before answer after)
    (idles : step.Idles) : Idle before after :=
  idles.idle stepped.inv stepped.ran

end Stepped

namespace Publishes
variable {post : List Took → α → Service → Prop} {next : β → Prog α}

/-- A step that minds what it has to wherever others may have taken the service. -/
theorem act
    (minds : ∀ later, Inv deployment later → Published lost later → Rely tid service later →
      Leaves tid service later → step.Minds lost tid later)
    (rest : ∀ choice before answer after,
      Stepped deployment lost tid step choice service before answer after →
      Publishes deployment lost tid post (next answer)
        (past ++ [⟨step, choice, answer, before, after⟩]) after) :
    Publishes deployment lost tid post (.act step next) past service := by
  rintro later ⟨inv, ok⟩ ⟨moved, left⟩
  have minds := minds later inv ok moved left
  refine ⟨minds, ?_⟩
  rintro choice answer after ⟨⟨guard, -⟩, finds⟩ ran ⟨inv', ok'⟩
  exact rest choice later answer after
    ⟨inv, ok, moved, left, guard, minds, finds, ran, inv', ok'⟩

/-- An idle step has nothing to mind. -/
theorem idle (idles : step.Idles)
    (rest : ∀ choice before answer after,
      Stepped deployment lost tid step choice service before answer after →
      Publishes deployment lost tid post (next answer)
        (past ++ [⟨step, choice, answer, before, after⟩]) after) :
    Publishes deployment lost tid post (.act step next) past service :=
  act (fun _ _ _ _ _ => idles.minds) rest

theorem bind {first : List Took → β → Service → Prop} {program : Prog β}
    (safe : Publishes deployment lost tid first program past service)
    (inv : Inv deployment service) (ok : Published lost service)
    (rest : ∀ past value after, Inv deployment after → Published lost after →
      first past value after → Publishes deployment lost tid post (next value) past after) :
    Publishes deployment lost tid post (program >>= next) past service :=
  Safe.bind safe ⟨inv, ok⟩ (fun past value after kept => rest past value after kept.1 kept.2)

end Publishes

/-! ## Under the publishing lock -/

/-- What the call that has the publishing lock finds, and has to leave. -/
structure Publishing (tid : Nat) (service : Service) : Prop where
  locked : service.locks .publishing = some tid
  all : service.AllPlaced
  clear : service.Clear

namespace Publishing

theorem left (publishes : Publishing tid service) (moved : Rely tid service after)
    (left : Leaves tid service after) : Publishing tid after where
  locked := (moved.locks _).mp publishes.locked
  all := (left.sheltered publishes.locked).allPlaced moved.journal publishes.all
  clear := (left.sheltered publishes.locked).clear publishes.clear

theorem minds (publishes : Publishing tid service) :
    (Step.service (.unlock .publishing)).Minds lost tid service :=
  fun _ => ⟨publishes.all, publishes.clear⟩

end Publishing

/-- A step that does not use a lock leaves it. -/
theorem Step.lock_eq {which : Lock} (takes : step.use ≠ .takes which) (has : step.use ≠ .has which)
    (ran : step.run deployment tid choice service = some (answer, after)) :
    after.locks which = service.locks which := by
  obtain ⟨-, -, -, rfl⟩ := Step.ran ran
  change service.locksAfter tid _ step.use which = _
  cases eq : step.use with
  | without => rfl
  | takes other =>
    exact Function.update_of_ne (fun same => takes (by rw [eq, same])) _ _
  | has other =>
    exact Function.update_of_ne (fun same => has (by rw [eq, same])) _ _

namespace Stepped

/-- An idle step that does not use the lock. -/
theorem publishing (stepped : Stepped deployment lost tid step choice start before answer after)
    (publishes : Publishing tid start) (idles : step.Idles) (takes : step.use ≠ .takes .publishing) :
    Publishing tid after := by
  have here := publishes.left stepped.moved stepped.left
  have idle := stepped.idle idles
  exact ⟨(Step.lock_eq takes idles.use stepped.ran).trans here.locked,
    idle.sheltered.allPlaced idle.grows here.all, idle.sheltered.clear here.clear⟩

/-- Whoever takes the publishing lock finds everything in order. -/
theorem locks {answer : Unit}
    (stepped : Stepped deployment lost tid (.service (.lock .publishing)) choice start before answer
      after) : Publishing tid after := by
  have ok := stepped.ok
  obtain ⟨-, permits, -, rfl⟩ := Step.ran stepped.ran
  have free : before.locks .publishing = none := of_decide_eq_true permits
  have journal : before.journal ++ ([] : List Note) = before.journal := List.append_nil _
  refine ⟨by simp [Step.use, ServiceStep.use, Service.locksAfter, Step.effect, ServiceStep.effect],
    ?_, ?_⟩
  · intro session opened
    simp only [Step.effect, ServiceStep.effect, journal] at opened ⊢
    exact ok.map.all free session opened
  · intro session member ended
    simp only [Step.effect, ServiceStep.effect, journal] at member ended
    exact ok.ends.clear free session member ended

end Stepped

/-! ## What a call owes -/

/-- What a call took out of the map is shut, and what it dialled is closed or
bound to the session it was dialled for, but for what it has yet to do:
`loose` connections to place or close, and `owed` holders to shut. -/
structure Owing (about : Option SessionId) (loose : List Connection) (owed : List Nat)
    (past : List Took) (service : Service) : Prop where
  cleared : ∀ took ∈ past, ∀ id, took.step.clears took.before id → service.Parted id ∧
    ∀ holder, took.before.linked id = some holder → service.Shut holder ∨ holder ∈ owed
  dialled : ∀ took ∈ past, ∀ connection, took.step.dials took.answer = some connection →
    connection.id ∈ service.links.closed ∨ connection ∈ loose ∨
      ∃ binder id, Note.bound binder id connection ∈ service.journal ∧ (about = none ∨ about = some id)
  sought : ∀ took ∈ past, ∀ id, took.step.seeks id → about = some id

namespace Owing
variable {about : Option SessionId} {loose : List Connection} {owed : List Nat}

theorem nil (service : Service) : Owing none [] [] [] service where
  cleared := fun _ member => absurd member List.not_mem_nil
  dialled := fun _ member => absurd member List.not_mem_nil
  sought := fun _ member => absurd member List.not_mem_nil

theorem later (owing : Owing about loose owed past service) (lasts : Lasts service after)
    (grows : service.journal <+: after.journal) : Owing about loose owed past after where
  cleared := by
    intro took member id clears
    obtain ⟨parted, shut⟩ := owing.cleared took member id clears
    exact ⟨lasts.parted id parted, fun holder is => (shut holder is).imp_left (lasts.shut holder)⟩
  dialled := by
    intro took member connection dials
    rcases owing.dialled took member connection dials with closed | is | ⟨binder, id, bound, same⟩
    · exact .inl (lasts.closed closed)
    · exact .inr (.inl is)
    · exact .inr (.inr ⟨binder, id, grows.subset bound, same⟩)
  sought := owing.sought

/-- More steps that take nothing out and dial nothing. -/
theorem more (owing : Owing about loose owed past service) {steps : List Took}
    (quiet : ∀ took ∈ steps, took.step.quiet) : Owing about loose owed (past ++ steps) service where
  cleared := by
    intro took member id clears
    rcases List.mem_append.mp member with old | new
    · exact owing.cleared took old id clears
    · exact absurd clears ((quiet took new).clears took.before id)
  dialled := by
    intro took member connection dials
    rcases List.mem_append.mp member with old | new
    · exact owing.dialled took old connection dials
    · rw [(quiet took new).dials] at dials
      cases dials
  sought := by
    intro took member id seeks
    rcases List.mem_append.mp member with old | new
    · exact owing.sought took old id seeks
    · exact absurd seeks ((quiet took new).seeks id)

theorem quiet (owing : Owing about loose owed past start)
    (stepped : Stepped deployment lost tid step choice start before answer after)
    (quiet : step.quiet) :
    Owing about loose owed (past ++ [⟨step, choice, answer, before, after⟩]) after := by
  refine (owing.later stepped.lasts stepped.grows).more fun took member => ?_
  obtain rfl := List.mem_singleton.mp member
  exact quiet

/-- A holder that was owed has been shut. -/
theorem shut {holder : Nat} (owing : Owing about loose (holder :: owed) past service)
    (shut : service.Shut holder) : Owing about loose owed past service where
  cleared := by
    intro took member id clears
    obtain ⟨parted, owes⟩ := owing.cleared took member id clears
    refine ⟨parted, fun other is => ?_⟩
    rcases owes other is with done | here
    · exact .inl done
    · rcases List.mem_cons.mp here with rfl | rest
      · exact .inl shut
      · exact .inr rest
  dialled := owing.dialled
  sought := owing.sought

/-- A loose connection has been closed or bound. -/
theorem settled {connection : Connection} (owing : Owing about [connection] owed past service)
    (settled : connection.id ∈ service.links.closed ∨
      ∃ binder id, Note.bound binder id connection ∈ service.journal ∧
        (about = none ∨ about = some id)) :
    Owing about [] owed past service where
  cleared := owing.cleared
  dialled := by
    intro took member other dials
    rcases owing.dialled took member other dials with closed | is | bound
    · exact .inl closed
    · obtain rfl := List.mem_singleton.mp is
      rcases settled with closed | bound
      · exact .inl closed
      · exact .inr (.inr bound)
    · exact .inr (.inr bound)
  sought := owing.sought

/-- A step that dials. -/
theorem dial {target : Target} {answer : Option Connection} (owing : Owing about [] owed past start)
    (stepped : Stepped deployment lost tid (.links (.dial target)) choice start before answer after) :
    Owing about answer.toList owed
      (past ++ [⟨.links (.dial target), choice, answer, before, after⟩]) after := by
  have later := owing.later stepped.lasts stepped.grows
  refine ⟨?_, ?_, ?_⟩
  · intro took member id clears
    rcases List.mem_append.mp member with old | new
    · exact later.cleared took old id clears
    · obtain rfl := List.mem_singleton.mp new
      cases clears
  · intro took member connection dials
    rcases List.mem_append.mp member with old | new
    · rcases later.dialled took old connection dials with closed | is | bound
      · exact .inl closed
      · cases is
      · exact .inr (.inr bound)
    · obtain rfl := List.mem_singleton.mp new
      exact .inr (.inl (Option.mem_toList.mpr dials))
  · intro took member id seeks
    rcases List.mem_append.mp member with old | new
    · exact later.sought took old id seeks
    · obtain rfl := List.mem_singleton.mp new
      cases seeks

end Owing

/-- A plain program adds plain steps. -/
theorem Publishes.adds {program : Prog α} (plain : program.All Step.Plain) :
    Publishes deployment lost tid (fun past' _ after =>
      (Lasts service after ∧ service.journal <+: after.journal) ∧
        ∃ more, past' = past ++ more ∧ ∀ took ∈ more, Step.Plain took.β took.step)
      program past service := by
  refine Safe.all (publishing deployment lost).discipline
    (fun before after => Lasts before after ∧ before.journal <+: after.journal)
    (fun service => ⟨.refl service, List.prefix_refl _⟩)
    (fun first second => ⟨first.1.trans second.1, first.2.trans second.2⟩)
    (fun moved => ⟨moved.2.lasts, moved.1.journal⟩) (fun plain _ => plain.1.minds) ?_ plain
  rintro γ step choice answer before after plain ⟨inv, ok⟩ ⟨⟨guard, -⟩, -⟩ ran
  exact ⟨Step.lasts inv guard ok plain.1.minds ran, (Step.since inv ran).journal⟩

/-- It leaves what was owed as it was. -/
theorem Publishes.plain {about : Option SessionId} {loose : List Connection} {owed : List Nat}
    {program : Prog α} (plain : program.All Step.Plain)
    (owing : Owing about loose owed past service) :
    Publishes deployment lost tid (fun past _ after => Owing about loose owed past after ∧
      Lasts service after ∧ service.journal <+: after.journal) program past service := by
  refine Safe.weaken (Publishes.adds plain) ?_
  rintro past' _ after - ⟨⟨lasts, grows⟩, more, rfl, kinds⟩
  exact ⟨(owing.later lasts grows).more fun took member => (kinds took member).2, lasts, grows⟩

/-- And a quiet past quiet. -/
theorem Publishes.quiet {program : Prog α} (plain : program.All Step.Plain)
    (quiet : ∀ took ∈ past, took.step.quiet) :
    Publishes deployment lost tid (fun past _ _ => ∀ took ∈ past, took.step.quiet) program past
      service := by
  refine Safe.weaken (Publishes.adds plain) ?_
  rintro past' _ after - ⟨-, more, rfl, kinds⟩ took member
  rcases List.mem_append.mp member with old | new
  · exact quiet took old
  · exact (kinds took new).2

end McpSsh.Bastion
