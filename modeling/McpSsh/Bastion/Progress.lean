import McpSsh.Lib.Progress
import McpSsh.Bastion.Worlds

/-!
# No call is stuck

The locks of the service are taken in one order: a session's connection, then
the lock under which sessions are published and ended, the standing agreements,
the requests, and the sessions. So calls that wait for one another never wait
in a circle, and as long as one has not answered there is one that can go on.

A call takes finitely many steps, so a service that is called no more comes to
rest: every call has answered, and no lock is left held.
-/

namespace McpSsh.Bastion

open Interleaving

variable {deployment : Deployment} {tid : Nat} {service : Service} {β : Type}

/-- Some number has not been drawn yet. -/
theorem Journal.unused_exists (journal : Journal) : ∃ draw, journal.unused draw = true := by
  obtain ⟨draw, fresh⟩ := Infinite.exists_notMem_finset (journal.filterMap Note.drawn).toFinset
  refine ⟨draw, List.all_eq_true.mpr (fun note member => ?_)⟩
  simp only [List.mem_toFinset, List.mem_filterMap, not_exists, not_and] at fresh
  exact decide_eq_true (fresh note member)

/-- The lock a step takes. -/
def Use.taken : Use → Option Lock
  | .takes which => some which
  | .has _ => none
  | .without => none

/-- A step can be taken once the lock it takes is free. -/
theorem Step.goes {step : Step β} (disciplined : step.use.Disciplined tid service)
    (free : ∀ which, step.use.taken = some which → service.locks which = none) :
    ∃ choice answer after, step.run deployment tid choice service = some (answer, after) := by
  obtain ⟨draw, unused⟩ := service.journal.unused_exists
  have permits : service.permits tid step.use = true := by
    cases use : step.use with
    | takes which =>
      rw [use] at free
      exact decide_eq_true (free which rfl)
    | has which =>
      rw [use] at disciplined
      exact decide_eq_true disciplined
    | without => rfl
  have can : (service.journal.unused draw && service.permits tid step.use) = true := by
    rw [unused, permits]
    rfl
  unfold Step.run
  exact ⟨⟨draw, true, fun _ => true⟩, _, _, if_pos can⟩

/-- The locks of the service. -/
def locking (deployment : Deployment) : Locking (semantics deployment) Lock where
  owner := Service.locks
  rank := Lock.rank
  takes := fun step => step.use.taken
  guard := fun tid step service => step.use.Disciplined tid service
  above := by
    intro β tid step service which other disciplined takes holds
    cases use : step.use with
    | takes lock =>
      rw [use] at disciplined takes
      cases takes
      exact disciplined other holds
    | has lock => rw [use] at takes; cases takes
    | without => rw [use] at takes; cases takes
  free := Step.goes

/-- Locks are taken in order, and a call that has answered holds none. -/
theorem Reachable.kept {world : World} (reached : Reachable deployment world) :
    (locking deployment).Kept world where
  guarded := fun found => (reached.good.guard found).1
  owned := by
    intro which tid holds
    cases found : world.threads[tid]? with
    | none =>
      have unknown := reached.good.fresh tid (List.getElem?_eq_none_iff.mp found)
      exact absurd holds (unknown.locks which)
    | some thread =>
      obtain ⟨call, program, past⟩ := thread
      cases program with
      | done reply => exact absurd holds ((reached.good.finished found).1 which)
      | act step next => exact ⟨call, past, _, step, next, found⟩

/-- **No deadlock.** In every reachable world, whatever an unanswered call waits
for leads to a call that can take its next step, and no calls wait in a
circle. -/
theorem never_stuck {world : World} (reached : Reachable deployment world) :
    (∀ tid, world.Unfinished tid →
      ∃ other, Relation.ReflTransGen ((locking deployment).Waits world) tid other ∧
        world.CanGo (semantics deployment) (Call.program deployment) other) ∧
    ∀ tid, ¬ Relation.TransGen ((locking deployment).Waits world) tid tid :=
  ⟨fun _ => reached.kept.progress, reached.kept.acyclic⟩

/-- A person is answering a request while its session is about to ask again. -/
def Sample.queued : List BastionMove :=
  let ask : BastionMove := .spawn (.authorize alice ⟨5⟩ default (.ok default))
  opening ++ ask :: turns 1 10 6 ++ .spawn (.approveSession ⟨13⟩ "bob" none) :: turns 2 20 1 ++
    ask :: turns 3 40 3

theorem never_stuck_queued :
    ∃ other, Relation.ReflTransGen ((locking Sample.reviewed).Waits (Sample.run Sample.queued)) 3 other ∧
      (Sample.run Sample.queued).CanGo (semantics Sample.reviewed) (Call.program Sample.reviewed)
        other :=
  (never_stuck (Sample.run_reachable Sample.queued)).1 3 (World.unfinished_of (by decide +kernel))

/-- **Calls answer.** A service that is reached somehow and called no more comes
to rest, if a turn is taken as long as one can be: from some point on every call
has answered and left what it should, and no lock is held. -/
theorem all_answered {worlds : Nat → World} {moves : Nat → BastionMove}
    (reached : Reachable deployment (worlds 0))
    (run : Endless (semantics deployment) (Call.program deployment) worlds moves)
    (fair : Endless.Fair (semantics deployment) (Call.program deployment) worlds moves) :
    ∃ last, ∀ later, last ≤ later →
      (∀ (tid : Nat) thread, (worlds later).threads[tid]? = some thread →
        ∃ reply, thread.program = .done reply ∧
          thread.call.Left deployment tid thread.past reply (worlds later).shared) ∧
      ∀ which, (worlds later).shared.locks which = none := by
  have reaches : ∀ at', Reachable deployment (worlds at') := by
    intro at'
    obtain ⟨clock, started⟩ := reached
    refine ⟨clock, ?_⟩
    induction at' with
    | zero => exact started
    | succ at' ih => exact .tail ih ⟨moves at', trivial, run.follows at'⟩
  have goes : ∀ at' tid, (worlds at').Unfinished tid →
      ∃ other, (worlds at').CanGo (semantics deployment) (Call.program deployment) other := by
    intro at' tid unfinished
    obtain ⟨other, -, goes⟩ := (reaches at').kept.progress unfinished
    exact ⟨other, goes⟩
  obtain ⟨last, finished⟩ := run.all_finish fair goes
  refine ⟨last, fun later le => ⟨fun tid thread found => ?_, fun which => ?_⟩⟩
  · obtain ⟨call, program, past⟩ := thread
    cases program with
    | done reply => exact ⟨reply, rfl, (reaches later).good.finished found⟩
    | act step next => exact absurd ⟨call, past, _, step, next, found⟩ (finished later le tid)
  · cases holds : (worlds later).shared.locks which with
    | none => rfl
    | some tid => exact absurd ((reaches later).kept.owned holds) (finished later le tid)

/-- A session is being opened, and nothing else is asked for. -/
def Sample.onlyOpening : World :=
  run [.spawn (.openSession alice web root purpose .privileged)]

theorem all_answered_opening :
    ∃ last, ∀ later, last ≤ later → ∀ which,
      (Endless.worldsOf (semantics Sample.reviewed) (Call.program Sample.reviewed)
        Sample.onlyOpening (Sample.turns 0 0 22) later).shared.locks which = none := by
  obtain ⟨after, played, rests⟩ : ∃ after, Sample.onlyOpening.play (semantics Sample.reviewed)
      (Call.program Sample.reviewed) (Sample.turns 0 0 22) = some after ∧
        (after.shared.clock = 0 && after.threads.all (!·.program.goesOn)) = true :=
    (Option.any_eq_true _ _).mp (by decide +kernel)
  simp only [Bool.and_eq_true, decide_eq_true_eq] at rests
  have idle : after.move (semantics Sample.reviewed) (Call.program Sample.reviewed)
      (.environment (.tick 0)) = some after := by
    obtain ⟨⟨clock⟩, threads⟩ := after
    obtain rfl : clock = 0 := rests.1
    rfl
  have starts : ∀ move ∈ Sample.turns 0 0 22, ∀ call, move ≠ .spawn call := by
    intro move member call same
    obtain ⟨step, -, turn⟩ := List.mem_map.mp member
    rw [same] at turn
    cases turn
  have reached : Reachable Sample.reviewed Sample.onlyOpening := Sample.run_reachable _
  obtain ⟨last, rest⟩ := all_answered reached (Endless.of_play played starts idle)
    (Endless.fair_of_play played (World.not_canGo rests.2))
  exact ⟨last, fun later le => (rest later le).2⟩

end McpSsh.Bastion
