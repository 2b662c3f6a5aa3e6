import McpSsh.Bastion.Owing
import McpSsh.Bastion.Progress
import McpSsh.Bastion.Connections

/-!
# A service at rest

Once every call has answered, nothing is left over from any of them: no lock is
held, no session slot is reserved, no proof is kept, and each connection that
was ever dialled is closed, was found gone, or is the one its session has in the
connection map.
-/

namespace McpSsh.Bastion

open Interleaving

variable {deployment : Deployment} {world : World}

/-- Every call has answered. -/
def World.AtRest (world : World) : Prop := ∀ tid, ¬ world.Unfinished tid

theorem World.AtRest.done (rest : world.AtRest) {tid : Nat}
    {thread : Thread Step Call Choice Reply Service} (found : world.threads[tid]? = some thread) :
    ∃ reply, thread.program = .done reply := by
  obtain ⟨call, program, past⟩ := thread
  cases program with
  | done reply => exact ⟨reply, rfl⟩
  | act step next => exact absurd ⟨call, past, _, step, next, found⟩ (rest tid)

theorem World.all_answered_rest (answered : (world.threads.all (!·.program.goesOn)) = true) :
    world.AtRest := by
  intro tid unfinished
  obtain ⟨call, past, β, step, next, found⟩ := unfinished
  exact absurd (List.all_eq_true.mp answered _ (List.mem_of_getElem? found)) Bool.false_ne_true

/-- A call that owes nothing has no slot and no proof. -/
theorem Reachable.repaid_at_rest (reached : Reachable deployment world) (rest : world.AtRest) :
    world.shared.sessions.openings = [] ∧ world.shared.proofs = [] := by
  have none' : ∀ tid, world.shared.owed tid = ⊥ := by
    intro tid
    by_contra owed
    exact rest tid (reached.repaid.unfinished owed)
  refine ⟨List.eq_nil_iff_forall_not_mem.mpr fun opening member => ?_,
    List.eq_nil_iff_forall_not_mem.mpr fun proof member => ?_⟩
  · have zero : world.shared.sessions.openings.countP (·.1 = opening.1) = 0 :=
      congrArg Prod.fst (none' opening.1)
    exact absurd (decide_eq_true rfl) (List.countP_eq_zero.mp zero opening member)
  · have zero : world.shared.proofs.countP (·.1 = proof.1) = 0 := congrArg Prod.snd (none' proof.1)
    exact absurd (decide_eq_true rfl) (List.countP_eq_zero.mp zero proof member)

/-- What was bound to a session is closed, found gone, or what the session has
in the map. -/
theorem Reachable.bound_at_rest (reached : Reachable deployment world) (rest : world.AtRest)
    {binder : Nat} {id : SessionId} {connection : Connection}
    (bound : Note.bound binder id connection ∈ world.shared.journal) :
    connection.id ∈ world.shared.links.closed ∨ world.FoundGone connection.id ∨
      ∃ holder held, world.shared.linked id = some holder ∧
        world.shared.links.find holder = some held ∧ held.session = id ∧
        held.connection = connection := by
  obtain ⟨together, -⟩ := reached.together
  obtain ⟨inv, ok⟩ := together.inv
  rcases ok.map.bound binder id connection bound with
    closed | lost | ⟨holder, held, found, own, same⟩
  · exact .inl closed
  · exact .inr (.inl lost)
  obtain ⟨-, placer, placed⟩ := inv.find_placed found
  rw [own] at placed
  cases is : world.shared.linked id with
  | some other =>
    obtain ⟨placer', placed'⟩ := inv.linked_placed is
    obtain rfl := ok.map.single placer holder placer' other id placed placed'
    exact .inr (.inr ⟨holder, held, rfl, found, own, same⟩)
  | none =>
    -- Some call took the entry out, and has shut its holder by now.
    obtain ⟨tid, taken, ⟨thread, there, member⟩, clears, was⟩ := reached.cleared placed is
    obtain ⟨about, owing⟩ := together.settled there (rest.done there)
    rcases (owing.cleared taken member id clears).2 holder was with ⟨shut, found', closed⟩ | owes
    · obtain rfl := Option.some.inj (found.symm.trans found')
      exact .inl (same ▸ closed)
    · cases owes

/-- **A service at rest holds nothing of the calls it has answered.** -/
theorem nothing_left_over (reached : Reachable deployment world) (rest : world.AtRest) :
    (∀ which, world.shared.locks which = none) ∧
    world.shared.sessions.store.pending = [] ∧ world.shared.approvals.collecting = none ∧
    world.shared.proofs = [] ∧
    ∀ tid taken connection, world.Remembers tid taken →
      taken.step.dials taken.answer = some connection →
        connection.id ∈ world.shared.links.closed ∨ world.FoundGone connection.id ∨
          ∃ id holder held, world.shared.linked id = some holder ∧
            world.shared.links.find holder = some held ∧ held.session = id ∧
            held.connection = connection := by
  have free : ∀ which, world.shared.locks which = none := by
    intro which
    cases holds : world.shared.locks which with
    | none => rfl
    | some tid => exact absurd (reached.kept.owned holds) (rest tid)
  obtain ⟨slots, proofs⟩ := reached.repaid_at_rest rest
  refine ⟨free, ?_, reached.inv.collecting (free .requests), proofs, ?_⟩
  · have perm := reached.inv.sessions.pending
    rw [slots] at perm
    exact List.perm_nil.mp perm
  · intro tid taken connection remembers dials
    obtain ⟨thread, found, member⟩ := remembers
    obtain ⟨about, owing⟩ := reached.together.1.settled found (rest.done found)
    rcases owing.dialled taken member connection dials with closed | loose | ⟨binder, id, bound, -⟩
    · exact .inl closed
    · cases loose
    · rcases reached.bound_at_rest rest bound with closed | gone | ⟨holder, held, links⟩
      · exact .inl closed
      · exact .inr (.inl gone)
      · exact .inr (.inr ⟨id, holder, held, links⟩)

/-- Once the sample's session was opened and closed nothing is left: of every
connection that was dialled the rest is said, and there is one, which was closed. -/
theorem nothing_left_over_visited :
    (∀ which, (Sample.run Sample.visited).shared.locks which = none) ∧
      (Sample.run Sample.visited).shared.sessions.store.pending = [] ∧
      (Sample.run Sample.visited).shared.proofs = [] ∧
      (∀ tid taken connection, (Sample.run Sample.visited).Remembers tid taken →
        taken.step.dials taken.answer = some connection →
          connection.id ∈ (Sample.run Sample.visited).shared.links.closed ∨
            (Sample.run Sample.visited).FoundGone connection.id) ∧
      ∃ taken connection, (Sample.run Sample.visited).Remembers 0 taken ∧
        taken.step.dials taken.answer = some connection ∧
        connection.id ∈ (Sample.run Sample.visited).shared.links.closed := by
  obtain ⟨locks, pending, -, proofs, connections⟩ :=
    nothing_left_over (Sample.run_reachable Sample.visited)
      (World.all_answered_rest Sample.visited_answered)
  have unlinked : (Sample.run Sample.visited).shared.links.connections = [] := by decide +kernel
  refine ⟨locks, pending, proofs, ?_, ?_⟩
  · intro tid taken connection remembers dials
    rcases connections tid taken connection remembers dials with closed | gone | ⟨id, holder, -, is, -⟩
    · exact .inl closed
    · exact .inr gone
    · rw [Service.linked, unlinked] at is
      cases is
  · have dialled : ((Sample.run Sample.visited).threads[0]?.any fun thread =>
        thread.past.any fun taken => (taken.step.dials taken.answer).any fun connection =>
          connection.id ∈ (Sample.run Sample.visited).shared.links.closed) = true := by
      decide +kernel
    obtain ⟨thread, found, past⟩ := (Option.any_eq_true _ _).mp dialled
    obtain ⟨taken, member, is⟩ := List.any_eq_true.mp past
    obtain ⟨connection, dials, closed⟩ := (Option.any_eq_true _ _).mp is
    exact ⟨taken, connection, ⟨thread, found, member⟩, dials, of_decide_eq_true closed⟩

end McpSsh.Bastion
