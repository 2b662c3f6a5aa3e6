import McpSsh.Lib.Interleaving
import Mathlib.Logic.Hydra

/-!
# Progress

What must happen in a world of programs, where `Discipline` says what never
does.

`Locking` reads locks off a semantics: who holds one, which a step takes, and
the order they are taken in. A thread `Waits` for another that holds the lock
its next step takes. Where locks are taken upwards and only unfinished threads
hold any, waiting never goes round in a circle (`Locking.acyclic`) and ends at a
thread that can go on (`Locking.progress`).

A program is a finite tree, so turns use the programs up: without new calls
there are only finitely many (`turns_end`). If moreover a turn is taken as long
as one can be, every call is finished in the end (`all_finish`).
-/

namespace McpSsh.Interleaving

open Relation

variable {Step : Type → Type} {κ ι ε α σ : Type}

/-! ## Turns use the programs up -/

/-- What may be left of a program once its next step is taken. -/
inductive Program.Rest : Program Step α → Program Step α → Prop
  | act {β : Type} (step : Step β) (next : β → Program Step α) (answer : β) :
    Rest (next answer) (.act step next)

theorem Program.Rest.wellFounded : WellFounded (Program.Rest : Program Step α → Program Step α → Prop) := by
  refine ⟨fun program => ?_⟩
  induction program with
  | done value => exact ⟨_, fun rest left => by cases left⟩
  | act step next ih =>
    refine ⟨_, fun rest left => ?_⟩
    cases left with
    | act _ _ answer => exact ih answer

/-- What is left of all the programs. -/
def World.left (world : World Step κ ι α σ) : Multiset (Program Step α) :=
  (world.threads.map (·.program) : List (Program Step α))

variable {semantics : Semantics Step ι ε σ} {programOf : κ → Program Step α}

/-- A turn leaves less. -/
theorem World.turn_left {world after : World Step κ ι α σ} {tid : Nat} {choice : ι}
    (moved : world.move semantics programOf (.turn tid choice) = some after) :
    CutExpand Program.Rest after.left world.left := by
  obtain ⟨call, past, β, step, next, answer, found, -, threads⟩ := World.move_turn moved
  obtain ⟨within, here⟩ := List.getElem?_eq_some_iff.mp found
  refine ⟨{next answer}, .act step next, ?_, ?_⟩
  · intro rest member
    rw [Multiset.mem_singleton.mp member]
    exact .act step next answer
  · have old : world.left = .act step next ::ₘ
        ((world.threads.eraseIdx tid).map (·.program) : List (Program Step α)) := by
      have perm := (List.getElem_cons_eraseIdx_perm within).symm.map (·.program)
      rw [here] at perm
      exact Multiset.coe_eq_coe.mpr perm
    have new : after.left = next answer ::ₘ
        ((world.threads.eraseIdx tid).map (·.program) : List (Program Step α)) := by
      rw [World.left, threads]
      exact Multiset.coe_eq_coe.mpr ((List.set_perm_cons_eraseIdx within _).map (·.program))
    rw [old, new, Multiset.add_comm, Multiset.singleton_add, Multiset.add_comm,
      Multiset.singleton_add, Multiset.cons_swap]

/-- What is not a turn leaves what there was, unless it starts a call. -/
theorem World.environment_left {world after : World Step κ ι α σ} {event : ε}
    (moved : world.move semantics programOf (.environment event) = some after) :
    after.left = world.left := by
  obtain ⟨shared, -, rfl⟩ := Option.map_eq_some_iff.mp moved
  rfl

/-! ## Runs without end -/

/-- A run that goes on and on, move by move, and starts no call. -/
structure Endless (semantics : Semantics Step ι ε σ) (programOf : κ → Program Step α)
    (worlds : Nat → World Step κ ι α σ) (moves : Nat → Move κ ι ε) : Prop where
  follows : ∀ at', (worlds at').move semantics programOf (moves at') = some (worlds (at' + 1))
  starts : ∀ at' call, moves at' ≠ .spawn call

namespace Endless
variable {worlds : Nat → World Step κ ι α σ} {moves : Nat → Move κ ι ε}

theorem move_left (run : Endless semantics programOf worlds moves) (at' : Nat) :
    (∃ event, moves at' = .environment event) ∧ (worlds (at' + 1)).left = (worlds at').left ∨
      (∃ tid choice, moves at' = .turn tid choice) ∧
        CutExpand Program.Rest (worlds (at' + 1)).left (worlds at').left := by
  have follows := run.follows at'
  cases moved : moves at' with
  | spawn call => exact absurd moved (run.starts at' call)
  | turn tid choice =>
    rw [moved] at follows
    exact .inr ⟨⟨tid, choice, rfl⟩, World.turn_left follows⟩
  | environment event =>
    rw [moved] at follows
    exact .inl ⟨⟨event, rfl⟩, World.environment_left follows⟩

/-- Nothing is ever added to what is left. -/
theorem left_falls (run : Endless semantics programOf worlds moves) (start more : Nat) :
    ReflTransGen (CutExpand Program.Rest) (worlds (start + more)).left (worlds start).left := by
  induction more with
  | zero => exact .refl
  | succ more ih =>
    rcases run.move_left (start + more) with ⟨-, same⟩ | ⟨-, less⟩
    · rw [← Nat.add_assoc, same]
      exact ih
    · exact .head less ih

/-- **Turns come to an end.** From some point on, all that moves is the
environment. -/
theorem turns_end (run : Endless semantics programOf worlds moves) (start : Nat) :
    ∃ last, start ≤ last ∧ ∀ later, last ≤ later → ∃ event, moves later = .environment event := by
  have wellFounded : WellFounded
      (TransGen (CutExpand (Program.Rest : Program Step α → Program Step α → Prop))) :=
    Program.Rest.wellFounded.cutExpand.transGen
  induction left : (worlds start).left using wellFounded.induction generalizing start with
  | _ left' ih =>
    by_cases turned : ∃ later, start ≤ later ∧ ∃ tid choice, moves later = .turn tid choice
    · obtain ⟨later, le, turn⟩ := turned
      have fell := run.left_falls start (later - start)
      rw [Nat.add_sub_cancel' le] at fell
      have less : CutExpand Program.Rest (worlds (later + 1)).left (worlds later).left := by
        rcases run.move_left later with ⟨⟨event, other⟩, -⟩ | ⟨-, less⟩
        · obtain ⟨tid, choice, turn⟩ := turn
          rw [turn] at other
          cases other
        · exact less
      rw [← left] at ih
      obtain ⟨last, after, rest⟩ := ih _ (TransGen.head' less fell) (later + 1) rfl
      exact ⟨last, by omega, rest⟩
    · refine ⟨start, Nat.le_refl start, fun later le => ?_⟩
      rcases run.move_left later with ⟨only, -⟩ | ⟨turn, -⟩
      · exact only
      · exact absurd ⟨later, le, turn⟩ turned

end Endless

/-! ## Locks -/

/-- The locks of a semantics: who holds which, which one a step takes, and the
order they are to be taken in. A step that meets its `guard` takes a lock above
all those its thread holds, and can be taken if that lock is free. -/
structure Locking (semantics : Semantics Step ι ε σ) (ℓ : Type) where
  owner : σ → ℓ → Option Nat
  rank : ℓ → Nat
  takes : {β : Type} → Step β → Option ℓ
  guard : {β : Type} → Nat → Step β → σ → Prop
  above : ∀ {β : Type} {tid : Nat} {step : Step β} {state : σ} {which other : ℓ},
    guard tid step state → takes step = some which → owner state other = some tid →
      rank other < rank which
  free : ∀ {β : Type} {tid : Nat} {step : Step β} {state : σ}, guard tid step state →
    (∀ which, takes step = some which → owner state which = none) →
      ∃ choice answer after, semantics.run tid choice step state = some (answer, after)

/-- A call that has not answered yet. -/
def World.Unfinished (world : World Step κ ι α σ) (tid : Nat) : Prop :=
  ∃ call past, ∃ β : Type, ∃ (step : Step β) (next : β → Program Step α),
    world.threads[tid]? = some ⟨call, .act step next, past⟩

/-- Whether there is a step left to take. -/
def Program.goesOn : Program Step α → Bool
  | .done _ => false
  | .act _ _ => true

theorem World.unfinished_of {world : World Step κ ι α σ} {tid : Nat}
    (goesOn : (world.threads[tid]?.any (·.program.goesOn)) = true) : world.Unfinished tid := by
  obtain ⟨⟨call, program, past⟩, found, goesOn⟩ := (Option.any_eq_true _ _).mp goesOn
  cases program with
  | done value => cases goesOn
  | act step next => exact ⟨call, past, _, step, next, found⟩

/-- A call whose next step can be taken. -/
def World.CanGo (semantics : Semantics Step ι ε σ) (programOf : κ → Program Step α)
    (world : World Step κ ι α σ) (tid : Nat) : Prop :=
  ∃ choice after, world.move semantics programOf (.turn tid choice) = some after

/-- Where every call has answered, none goes on. -/
theorem World.not_canGo {world : World Step κ ι α σ}
    (answered : (world.threads.all (!·.program.goesOn)) = true) (tid : Nat) :
    ¬ world.CanGo semantics programOf tid := by
  intro goes
  obtain ⟨choice, after, moved⟩ := goes
  obtain ⟨call, past, β, step, next, answer, found, -⟩ := World.move_turn moved
  exact absurd (List.all_eq_true.mp answered _ (List.mem_of_getElem? found)) Bool.false_ne_true

namespace Locking
variable {ℓ : Type} (locking : Locking semantics ℓ)

/-- `tid` is about to take a lock that `other` holds. -/
def Waits (world : World Step κ ι α σ) (tid other : Nat) : Prop :=
  ∃ call past, ∃ β : Type, ∃ (step : Step β) (next : β → Program Step α) (which : ℓ),
    world.threads[tid]? = some ⟨call, .act step next, past⟩ ∧
    locking.takes step = some which ∧ locking.owner world.shared which = some other

/-- What the locks of a world need for it to go on: unfinished threads are about
to take guarded steps, and nobody else holds a lock. -/
structure Kept (world : World Step κ ι α σ) : Prop where
  guarded : ∀ {tid : Nat} {call : κ} {past : List (Taken Step ι σ)} {β : Type} {step : Step β}
    {next : β → Program Step α}, world.threads[tid]? = some ⟨call, .act step next, past⟩ →
      locking.guard tid step world.shared
  owned : ∀ {which : ℓ} {tid : Nat}, locking.owner world.shared which = some tid →
    world.Unfinished tid

/-- How high a thread's next step reaches, counted from one. -/
def reach (thread : Thread Step κ ι α σ) : Nat :=
  match thread.program with
  | .done _ => 0
  | .act step _ => (locking.takes step).elim 0 (locking.rank · + 1)

def reachAt (world : World Step κ ι α σ) (tid : Nat) : Nat :=
  world.threads[tid]?.elim 0 locking.reach

/-- No step reaches higher than all of them together. -/
def height (world : World Step κ ι α σ) : Nat :=
  (world.threads.map locking.reach).sum

variable {locking} {world : World Step κ ι α σ} {tid other third : Nat}

theorem reachAt_le : locking.reachAt world tid ≤ locking.height world := by
  unfold reachAt
  cases found : world.threads[tid]? with
  | none => exact Nat.zero_le _
  | some thread =>
    exact List.single_le_sum (fun _ _ => Nat.zero_le _) _
      (List.mem_map_of_mem (List.mem_of_getElem? found))

/-- Waiting climbs: whoever is waited for waits, if at all, for a higher lock. -/
theorem Kept.climbs (kept : locking.Kept world) (waits : locking.Waits world tid other)
    (waits' : locking.Waits world other third) :
    locking.reachAt world tid < locking.reachAt world other := by
  obtain ⟨_, _, _, step, _, lower, found, takes, holds⟩ := waits
  obtain ⟨_, _, _, step', _, which, found', takes', -⟩ := waits'
  have lt : locking.rank lower < locking.rank which :=
    locking.above (kept.guarded found') takes' holds
  simp only [reachAt, reach, found, found', takes, takes', Option.elim_some]
  omega

theorem Kept.climbs_far (kept : locking.Kept world)
    (waits : TransGen (locking.Waits world) tid other) (waits' : locking.Waits world other third) :
    locking.reachAt world tid < locking.reachAt world other := by
  induction waits generalizing third with
  | single waits => exact kept.climbs waits waits'
  | tail _ waits ih => exact (ih waits).trans (kept.climbs waits waits')

/-- **Nobody waits in a circle.** -/
theorem Kept.acyclic (kept : locking.Kept world) (tid : Nat) :
    ¬ TransGen (locking.Waits world) tid tid := by
  intro circle
  obtain ⟨other, waits, -⟩ := TransGen.head'_iff.mp circle
  exact Nat.lt_irrefl _ (kept.climbs_far circle waits)

/-- A thread whose next step is not waiting for anybody can go on. -/
theorem Kept.canGo (kept : locking.Kept world) (unfinished : world.Unfinished tid)
    (waits : ∀ other, ¬ locking.Waits world tid other) :
    world.CanGo semantics programOf tid := by
  obtain ⟨call, past, β, step, next, found⟩ := unfinished
  have free : ∀ which, locking.takes step = some which →
      locking.owner world.shared which = none := by
    intro which takes
    cases holds : locking.owner world.shared which with
    | none => rfl
    | some other =>
      exact absurd ⟨call, past, β, step, next, which, found, takes, holds⟩ (waits other)
  obtain ⟨choice, answer, after, ran⟩ := locking.free (kept.guarded found) free
  refine ⟨choice, ⟨after, world.threads.set tid
    ⟨call, next answer, past ++ [⟨step, choice, answer, world.shared, after⟩]⟩⟩, ?_⟩
  simp only [World.move, found, Option.bind_some, Thread.turn, ran, Option.map_some]

theorem Waits.unfinished (kept : locking.Kept world) (waits : locking.Waits world tid other) :
    world.Unfinished other := by
  obtain ⟨_, _, _, _, _, _, -, -, holds⟩ := waits
  exact kept.owned holds

/-- **Nobody is stuck.** From every unfinished call, waiting leads to one that
can go on. -/
theorem Kept.progress (kept : locking.Kept world) (unfinished : world.Unfinished tid) :
    ∃ other, ReflTransGen (locking.Waits world) tid other ∧
      world.CanGo semantics programOf other := by
  induction room : locking.height world - locking.reachAt world tid using Nat.strong_induction_on
    generalizing tid with
  | _ room ih =>
    by_cases waits : ∃ other, locking.Waits world tid other
    · obtain ⟨other, waits⟩ := waits
      by_cases waits' : ∃ third, locking.Waits world other third
      · obtain ⟨third, waits'⟩ := waits'
        have up := kept.climbs waits waits'
        have top : locking.reachAt world other ≤ locking.height world := reachAt_le
        obtain ⟨last, path, goes⟩ := ih _ (by omega) (waits.unfinished kept) rfl
        exact ⟨last, .head waits path, goes⟩
      · exact ⟨other, .single waits,
          kept.canGo (waits.unfinished kept) (fun third => not_exists.mp waits' third)⟩
    · exact ⟨tid, .refl, kept.canGo unfinished (fun other => not_exists.mp waits other)⟩

end Locking

/-! ## Everything is finished -/

theorem World.play_append (world : World Step κ ι α σ) (first rest : List (Move κ ι ε)) :
    world.play semantics programOf (first ++ rest) =
      (world.play semantics programOf first).bind (·.play semantics programOf rest) := by
  induction first generalizing world with
  | nil => rfl
  | cons move moves ih =>
    simp only [List.cons_append, World.play, Option.bind_assoc]
    exact congrArg _ (funext fun next => ih next)

/-- A turn is taken, sooner or later, as long as one can be. -/
def Endless.Fair (semantics : Semantics Step ι ε σ) (programOf : κ → Program Step α)
    (worlds : Nat → World Step κ ι α σ) (moves : Nat → Move κ ι ε) : Prop :=
  ∀ at', (∀ later, at' ≤ later → ∃ tid, (worlds later).CanGo semantics programOf tid) →
    ∃ later, at' ≤ later ∧ ∃ tid choice, moves later = .turn tid choice

namespace Endless
variable {worlds : Nat → World Step κ ι α σ} {moves : Nat → Move κ ι ε}

/-- While only the environment moves, the threads stay as they are. -/
theorem threads_stay (run : Endless semantics programOf worlds moves) {last : Nat}
    (only : ∀ later, last ≤ later → ∃ event, moves later = .environment event) (more : Nat) :
    (worlds (last + more)).threads = (worlds last).threads := by
  induction more with
  | zero => rfl
  | succ more ih =>
    obtain ⟨event, moved⟩ := only (last + more) (Nat.le_add_right _ _)
    have follows := run.follows (last + more)
    rw [moved] at follows
    obtain ⟨shared, -, same⟩ := Option.map_eq_some_iff.mp follows
    rw [← Nat.add_assoc, ← same]
    exact ih

/-- **Everything is finished in the end**, if no world of the run is stuck. -/
theorem all_finish (run : Endless semantics programOf worlds moves)
    (fair : Fair semantics programOf worlds moves)
    (goes : ∀ at' tid, (worlds at').Unfinished tid →
      ∃ other, (worlds at').CanGo semantics programOf other) :
    ∃ last, ∀ later, last ≤ later → ∀ tid, ¬ (worlds later).Unfinished tid := by
  obtain ⟨last, -, only⟩ := run.turns_end 0
  refine ⟨last, fun later le tid unfinished => ?_⟩
  have same : ∀ more, last ≤ more → (worlds more).threads = (worlds last).threads := by
    intro more le
    obtain ⟨extra, rfl⟩ := Nat.exists_eq_add_of_le le
    exact run.threads_stay only extra
  obtain ⟨more, after, tid', choice, turned⟩ := fair last (fun more le' => by
    refine goes more tid ?_
    unfold World.Unfinished
    rw [same more le', ← same later le]
    exact unfinished)
  obtain ⟨event, moved⟩ := only more after
  rw [turned] at moved
  cases moved

/-! ### Finite runs -/

/-- The worlds of a finite run, and the last one ever after. -/
def worldsOf (semantics : Semantics Step ι ε σ) (programOf : κ → Program Step α)
    (world : World Step κ ι α σ) (moves : List (Move κ ι ε)) (at' : Nat) : World Step κ ι α σ :=
  (world.play semantics programOf (moves.take at')).getD world

/-- The moves of a finite run, and one of the environment ever after. -/
def movesOf (moves : List (Move κ ι ε)) (idle : ε) (at' : Nat) : Move κ ι ε :=
  moves[at']?.getD (.environment idle)

variable {world after : World Step κ ι α σ} {moves : List (Move κ ι ε)} {idle : ε}

theorem worldsOf_last (played : world.play semantics programOf moves = some after) {at' : Nat}
    (le : moves.length ≤ at') : worldsOf semantics programOf world moves at' = after := by
  rw [worldsOf, List.take_of_length_le le, played]
  rfl

/-- A finite run that comes to rest, and nothing after it. -/
theorem of_play (played : world.play semantics programOf moves = some after)
    (starts : ∀ move ∈ moves, ∀ call, move ≠ .spawn call)
    (rests : after.move semantics programOf (.environment idle) = some after) :
    Endless semantics programOf (worldsOf semantics programOf world moves) (movesOf moves idle) where
  follows := by
    intro at'
    rcases Nat.lt_or_ge at' moves.length with lt | le
    · obtain ⟨middle, here, rest⟩ : ∃ middle,
          world.play semantics programOf (moves.take at') = some middle ∧
          middle.play semantics programOf (moves.drop at') = some after := by
        rw [← List.take_append_drop at' moves, World.play_append] at played
        exact Option.bind_eq_some_iff.mp played
      obtain ⟨next, moved, -⟩ : ∃ next,
          middle.move semantics programOf moves[at'] = some next ∧
          next.play semantics programOf (moves.drop (at' + 1)) = some after := by
        rw [List.drop_eq_getElem_cons lt] at rest
        exact Option.bind_eq_some_iff.mp rest
      have later : world.play semantics programOf (moves.take (at' + 1)) = some next := by
        rw [List.take_succ_eq_append_getElem lt, World.play_append, here, Option.bind_some,
          World.play, moved]
        rfl
      rw [worldsOf, here, worldsOf, later, movesOf, List.getElem?_eq_getElem lt]
      exact moved
    · rw [worldsOf_last played le, worldsOf_last played (Nat.le_succ_of_le le), movesOf,
        List.getElem?_eq_none le]
      exact rests
  starts := by
    intro at' call same
    unfold movesOf at same
    cases found : moves[at']? with
    | none => rw [found] at same; cases same
    | some move =>
      rw [found] at same
      exact starts move (List.mem_of_getElem? found) call same

/-- Where a finite run leaves nobody able to go, it was fair. -/
theorem fair_of_play (played : world.play semantics programOf moves = some after)
    (stuck : ∀ tid, ¬ after.CanGo semantics programOf tid) :
    Fair semantics programOf (worldsOf semantics programOf world moves) (movesOf moves idle) := by
  intro at' goes
  obtain ⟨tid, can⟩ := goes (max at' moves.length) (Nat.le_max_left _ _)
  rw [worldsOf_last played (Nat.le_max_right _ _)] at can
  exact absurd can (stuck tid)

end Endless

end McpSsh.Interleaving
