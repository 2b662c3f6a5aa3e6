import McpSsh.Bastion.Publishing.Worlds
import McpSsh.Lib.Progress

/-!
# The connection map and the session store

A session that lives has its own entry in the connection map, and loses it to
nobody. Once it has ended, and the calls that took its entry out or looked its
holder up are over, no connection of it is left: each is closed, or was found
gone by a call that replaced it.
-/

namespace McpSsh.Bastion

open Interleaving

variable {deployment : Deployment} {lost : Nat → Prop} {tid : Nat} {choice : Choice}
variable {service after : Service} {β : Type} {answer : β}

/-! ## What a step does to an entry -/

/-- A session has been given no holder since. -/
def Unplaced (id : SessionId) (before after : Service) : Prop :=
  ∀ placer holder, Note.placed placer holder id ∈ after.journal →
    Note.placed placer holder id ∈ before.journal

/-- What a step does to the entry of one session: nothing, or it takes it out,
or it puts its first one in. -/
inductive Entering (step : Step β) (id : SessionId) (before after : Service) : Prop
  | same (is : after.linked id = before.linked id) (unplaced : Unplaced id before after)
  | cleared (clears : step.clears before id) (gone : after.linked id = none)
      (unplaced : Unplaced id before after)
  | placed (holder : Nat) (was : before.linked id = none) (is : after.linked id = some holder)
      (only : ∀ placer other, Note.placed placer other id ∈ after.journal → other = holder)

theorem Entering.of_steady {step : Step β} (steady : Steady service after) (id : SessionId) :
    Entering step id service after :=
  .same (steady.linked id) (fun _ _ placed => steady.old _ placed rfl)

/-- A step of another kind leaves the connections alone. -/
theorem Step.steady {step : Step β} (inv : Inv deployment service)
    (other : ∀ links : LinkStep β, step ≠ .links links)
    (ran : step.run deployment tid choice service = some (answer, after)) : Steady service after := by
  by_cases idles : step.Idles
  · exact (idles.idle inv ran).steady
  cases step with
  | service step =>
    obtain ⟨-, -, -, rfl⟩ := Step.ran ran
    cases step with
    | unlock =>
      refine ⟨rfl, List.prefix_append _ _, fun note member _ => ?_⟩
      rcases List.mem_append.mp member with old | new
      · exact old
      · cases new
    | _ => exact absurd trivial idles
  | sessions step =>
    cases step with
    | publish =>
      obtain ⟨-, -, -, links, -, journal, -⟩ := SessionStep.publish_did ran
      refine ⟨links, ⟨_, journal.symm⟩, fun note member kind => ?_⟩
      rw [journal] at member
      rcases List.mem_append.mp member with old | new
      · exact old
      · obtain rfl := List.mem_singleton.mp new
        cases kind
    | _ => exact absurd trivial idles
  | ledger step =>
    obtain ⟨-, -, -, rfl⟩ := Step.ran ran
    refine ⟨rfl, List.prefix_append _ _, fun note member kind => ?_⟩
    rcases List.mem_append.mp member with old | new
    · exact old
    · rcases LedgerStep.notes_cases note new with ⟨entry, rfl⟩ | quiet
      · cases kind
      · rw [Note.idle_of_links kind] at quiet
        cases quiet
  | links step => exact absurd rfl (other step)
  | _ => exact absurd trivial idles

/-- A link step that notes no holder of a session. -/
theorem LinkStep.unplaced {step : LinkStep β} {id : SessionId}
    (ran : (Step.links step).run deployment tid choice service = some (answer, after))
    (notes : ∀ placer holder, Note.placed placer holder id ∉
      (step.effect tid choice.draw choice.accepts service.links).notes) :
    Unplaced id service after := by
  intro placer holder placed
  rw [(LinkStep.did ran).journal] at placed
  rcases List.mem_append.mp placed with old | new
  · exact old
  · exact absurd new (notes placer holder)

theorem LinkStep.entering {step : LinkStep β} (inv : Inv deployment service)
    (ok : Published lost service) (minds : (Step.links step).Minds lost tid service)
    (ran : (Step.links step).run deployment tid choice service = some (answer, after))
    (id : SessionId) : Entering (.links step) id service after := by
  have did := LinkStep.did ran
  have none' : ∀ placer holder, Note.placed placer holder id ∉ ([] : List Note) :=
    fun _ _ => List.not_mem_nil
  cases step with
  | insert session connection =>
    obtain ⟨-, -, unplaced⟩ := minds
    have linked := LinkStep.insert_linked did id
    rcases eq_or_ne id session with rfl | differ
    · rw [if_pos rfl] at linked
      refine .placed choice.draw ?_ linked fun placer other placed => ?_
      · cases is : service.linked id with
        | none => rfl
        | some holder =>
          obtain ⟨placer, placed⟩ := inv.linked_placed is
          exact absurd placed (unplaced placer holder)
      · rw [did.journal] at placed
        rcases List.mem_append.mp placed with old | new
        · exact absurd old (unplaced placer other)
        · simp only [LinkStep.effect, List.mem_cons, Note.placed.injEq, reduceCtorEq,
            List.not_mem_nil, or_false] at new
          exact new.2.1
    · rw [if_neg differ] at linked
      refine .same linked (LinkStep.unplaced ran fun placer holder member => ?_)
      simp only [LinkStep.effect, List.mem_cons, Note.placed.injEq, reduceCtorEq,
        List.not_mem_nil, or_false] at member
      exact differ member.2.2
  | remove session =>
    obtain ⟨-, -, linked⟩ := LinkStep.remove_took ran
    have unplaced := LinkStep.unplaced ran none'
    rcases eq_or_ne id session with rfl | differ
    · exact .cleared rfl ((linked id).trans (if_pos rfl)) unplaced
    · exact .same ((linked id).trans (if_neg differ)) unplaced
  | removeOrphans live =>
    obtain ⟨-, linked⟩ := LinkStep.removeOrphans_took ran
    have unplaced := LinkStep.unplaced ran none'
    by_cases lives : id ∈ live
    · exact .same ((linked id).trans (if_pos lives)) unplaced
    · have gone := (linked id).trans (if_neg lives)
      cases is : service.linked id with
      | none => exact .same (gone.trans is.symm) unplaced
      | some holder =>
        obtain ⟨placer, placed⟩ := inv.linked_placed is
        exact .cleared ⟨lives, ok.map.known placer holder id placed⟩ gone unplaced
  | replace holder connection =>
    refine .same (by rw [Service.linked, did.links]; rfl)
      (LinkStep.unplaced ran fun placer other member => ?_)
    obtain ⟨held, -, is⟩ := List.mem_map.mp member
    cases is
  | hangUp => exact .same (by rw [Service.linked, did.links]; rfl) (LinkStep.unplaced ran none')
  | dial | holderOf | isCurrent | look =>
    refine .of_steady (Idle.steady ?_) id
    exact Step.Idles.idle inv (by trivial) ran

theorem Step.entering {step : Step β} (inv : Inv deployment service) (ok : Published lost service)
    (minds : step.Minds lost tid service)
    (ran : step.run deployment tid choice service = some (answer, after)) (id : SessionId) :
    Entering step id service after := by
  cases step with
  | links step => exact LinkStep.entering inv ok minds ran id
  | _ => exact .of_steady (Step.steady inv (fun _ same => by cases same) ran) id

namespace World
variable {world : World}

/-- A call that is over owes nothing. -/
theorem Together.settled (together : world.Together deployment) {tid : Nat}
    {thread : Thread Step Call Choice Reply Service} (found : world.threads[tid]? = some thread)
    (finished : ∃ reply, thread.program = .done reply) : Settled thread.past world.shared := by
  obtain ⟨call, program, past⟩ := thread
  obtain ⟨reply, rfl⟩ := finished
  exact Good.finished together found

end World

/-- An entry that was made and is there no more was taken out by some call. -/
theorem Reachable.cleared {world : World} (reached : Reachable deployment world)
    {placer holder : Nat} {id : SessionId} (placed : Note.placed placer holder id ∈ world.shared.journal)
    (gone : world.shared.linked id = none) :
    ∃ tid taken, world.Remembers tid taken ∧ taken.step.clears taken.before id ∧
      taken.before.linked id = some holder := by
  obtain ⟨-, heeded⟩ := reached.together
  obtain ⟨clock, run⟩ := reached
  obtain ⟨tid, taken, remembers, was, undone, ran⟩ := Runs.undone
    (fun service => Note.placed placer holder id ∈ service.journal →
      service.linked id = some holder) run
    (fun happened was there => by
      have idle := Happening.idle happened
      exact (idle.steady.linked id).trans (was (idle.old there rfl)))
    (fun member => by cases member) (fun is => by cases gone.symm.trans (is placed))
  obtain ⟨⟨inv, ok⟩, minds, ran⟩ := heeded tid taken remembers
  obtain ⟨there, unlinked⟩ := Classical.not_imp.mp undone
  refine ⟨tid, taken, remembers, ?_⟩
  cases Step.entering inv ok minds ran id with
  | same is unplaced => exact absurd (is.trans (was (unplaced _ _ there))) unlinked
  | cleared clears _ unplaced => exact ⟨clears, was (unplaced _ _ there)⟩
  | placed other _ is only => exact absurd (only _ _ there ▸ is) unlinked

namespace Sample

/-- A session is opened and closed, and both calls have answered. -/
def visited : List BastionMove :=
  .spawn (.openSession alice web root purpose .privileged) :: turns 0 0 22 ++
    .spawn (.closeSession alice ⟨5⟩) :: turns 1 40 24

theorem visited_answered : (run visited).threads.all (!·.program.goesOn) = true := by
  decide +kernel

def linkRemoves (id : SessionId) {β : Type} : LinkStep β → Bool
  | .remove own => own = id
  | _ => false

/-- Whether a step takes a session's own entry out. -/
def removes (id : SessionId) {β : Type} : Step β → Bool
  | .links step => linkRemoves id step
  | _ => false

/-- Which session a connection is given to, and the connection. -/
def given : Note → Option (SessionId × Connection)
  | .bound _ id connection => some (id, connection)
  | _ => none

end Sample

end McpSsh.Bastion
