import Mathlib.Data.List.Basic
import Mathlib.Logic.Relation
import Mathlib.Algebra.Ring.Int.Defs

/-!
# Interleaved programs

A program is a finite tree of atomic steps over a shared state. A world runs any
number of them: a move starts a call, lets one thread take its next step, or is
the environment's. A step may be unable to run for now (a lock is held), and
what it leaves open is settled by a choice that comes with the move.

`Discipline` is a rely–guarantee argument for such a world: an invariant of the
shared state, what each thread may rely on while others move, and a guard each
step has to meet. `Safe` says that a program meets its guards from a state on,
however others interfere, and what holds when it is done. `Runs.good` is
adequacy: if every call is safe when it starts, every reachable world satisfies
the invariant, every thread is about to take a guarded step, and every finished
thread has its postcondition.
-/

namespace McpSsh.Interleaving

/-- A tree of atomic steps. A step of type `Step β` answers with a `β`. -/
inductive Program (Step : Type → Type) (α : Type) : Type 1
  | done (value : α)
  | act {β : Type} (step : Step β) (next : β → Program Step α)

namespace Program
variable {Step : Type → Type} {α β : Type}

def bind (program : Program Step α) (next : α → Program Step β) : Program Step β :=
  match program with
  | .done value => next value
  | .act step rest => .act step (fun answer => (rest answer).bind next)

instance : Monad (Program Step) where
  pure := .done
  bind := bind

/-- The program of one step. -/
def step (step : Step α) : Program Step α := .act step .done

@[simp] theorem pure_eq (value : α) : (pure value : Program Step α) = .done value := rfl

@[simp] theorem done_bind (value : α) (next : α → Program Step β) :
    (Program.done value >>= next) = next value := rfl

@[simp] theorem act_bind {γ : Type} (step : Step γ) (rest : γ → Program Step α)
    (next : α → Program Step β) :
    (Program.act step rest >>= next) = .act step (fun answer => rest answer >>= next) := rfl

@[simp] theorem step_bind (first : Step α) (next : α → Program Step β) :
    (Program.step first >>= next) = .act first next := rfl

@[simp] theorem bind_done (program : Program Step α) : (program >>= Program.done) = program := by
  induction program with
  | done value => rfl
  | act step next ih => rw [act_bind, funext ih]

/-- Every step a program can come to has a property. -/
inductive All (holds : (γ : Type) → Step γ → Prop) : Program Step α → Prop
  | done (value : α) : All holds (.done value)
  | act {γ : Type} (step : Step γ) (next : γ → Program Step α) (here : holds γ step)
      (rest : ∀ answer, All holds (next answer)) : All holds (.act step next)

theorem All.of_forall {holds : (γ : Type) → Step γ → Prop} (every : ∀ γ step, holds γ step)
    (program : Program Step α) : All holds program := by
  induction program with
  | done value => exact .done value
  | act step next ih => exact .act step next (every _ step) ih

theorem All.mono {holds weaker : (γ : Type) → Step γ → Prop}
    (implies : ∀ γ step, holds γ step → weaker γ step) {program : Program Step α}
    (all : All holds program) : All weaker program := by
  induction all with
  | done value => exact .done value
  | act step next here _ ih => exact .act step next (implies _ step here) ih

theorem All.bind {holds : (γ : Type) → Step γ → Prop} {program : Program Step α}
    {next : α → Program Step β} (first : All holds program)
    (after : ∀ value, All holds (next value)) : All holds (program >>= next) := by
  induction first with
  | done value => exact after value
  | act step next' here _ ih => exact .act step _ here ih

end Program

/-- What steps and the environment do to a shared state. `none` is a step that
cannot be taken now. -/
structure Semantics (Step : Type → Type) (ι ε σ : Type) where
  run : {β : Type} → Nat → ι → Step β → σ → Option (β × σ)
  environment : ε → σ → Option σ

/-- One step a thread has taken: what it was, what was open, what it answered,
and the states around it. -/
structure Taken (Step : Type → Type) (ι σ : Type) : Type 1 where
  {β : Type}
  step : Step β
  choice : ι
  answer : β
  before : σ
  after : σ

/-- A call, what is left of it, and the steps it has taken. -/
structure Thread (Step : Type → Type) (κ ι α σ : Type) : Type 1 where
  call : κ
  program : Program Step α
  past : List (Taken Step ι σ)

structure World (Step : Type → Type) (κ ι α σ : Type) : Type 1 where
  shared : σ
  threads : List (Thread Step κ ι α σ)

inductive Move (κ ι ε : Type)
  | spawn (call : κ)
  | turn (tid : Nat) (choice : ι)
  | environment (event : ε)

variable {Step : Type → Type} {κ ι ε α σ : Type}

/-- What a thread's own steps did to a measure, apart from what others did. -/
def net (measure : σ → Int) (past : List (Taken Step ι σ)) : Int :=
  (past.map (fun taken => measure taken.after - measure taken.before)).sum

@[simp] theorem net_nil (measure : σ → Int) : net measure ([] : List (Taken Step ι σ)) = 0 := rfl

@[simp] theorem net_concat (measure : σ → Int) (past : List (Taken Step ι σ))
    (taken : Taken Step ι σ) :
    net measure (past ++ [taken]) =
      net measure past + (measure taken.after - measure taken.before) := by
  simp [net]

variable (semantics : Semantics Step ι ε σ) (programOf : κ → Program Step α)

/-- A thread's next step, if it has one and can take it. -/
def Thread.turn (thread : Thread Step κ ι α σ) (tid : Nat) (choice : ι) (shared : σ) :
    Option (Thread Step κ ι α σ × σ) :=
  match thread.program with
  | .done _ => none
  | .act step next =>
    (semantics.run tid choice step shared).map (fun (answer, after) =>
      ({ thread with program := next answer, past := thread.past ++ [⟨step, choice, answer, shared, after⟩] }, after))

/-- The world after a move, if the move can be made. -/
def World.move (world : World Step κ ι α σ) : Move κ ι ε → Option (World Step κ ι α σ)
  | .spawn call => some { world with threads := world.threads ++ [⟨call, programOf call, []⟩] }
  | .turn tid choice =>
    world.threads[tid]?.bind (fun thread =>
      (thread.turn semantics tid choice world.shared).map (fun (thread, shared) =>
        ⟨shared, world.threads.set tid thread⟩))
  | .environment event =>
    (semantics.environment event world.shared).map (fun shared => { world with shared })

/-- The world after a list of moves, if each can be made. -/
def World.play (world : World Step κ ι α σ) : List (Move κ ι ε) → Option (World Step κ ι α σ)
  | [] => some world
  | move :: moves => (world.move semantics programOf move).bind (·.play moves)

/-- The world after a list of moves, if each is permitted where it is made and
can be made. -/
def World.playIf (permitted : World Step κ ι α σ → Move κ ι ε → Bool) (world : World Step κ ι α σ) :
    List (Move κ ι ε) → Option (World Step κ ι α σ)
  | [] => some world
  | move :: moves =>
    if permitted world move then
      (world.move semantics programOf move).bind (·.playIf permitted moves)
    else none

/-- Worlds reached by any moves that are allowed where they are made. -/
def Runs (allowed : World Step κ ι α σ → Move κ ι ε → Prop) :
    World Step κ ι α σ → World Step κ ι α σ → Prop :=
  Relation.ReflTransGen (fun before after =>
    ∃ move, allowed before move ∧ before.move semantics programOf move = some after)

variable {semantics programOf}

/-- Playing a list of moves is a run. -/
theorem World.play_runs {world after : World Step κ ι α σ} {moves : List (Move κ ι ε)}
    (played : world.play semantics programOf moves = some after) :
    Runs semantics programOf (fun _ _ => True) world after := by
  induction moves generalizing world with
  | nil =>
    cases played
    exact .refl
  | cons move moves ih =>
    obtain ⟨next, moved, rest⟩ := Option.bind_eq_some_iff.mp played
    exact .head ⟨move, trivial, moved⟩ (ih rest)

theorem World.playIf_runs {permitted : World Step κ ι α σ → Move κ ι ε → Bool}
    {world after : World Step κ ι α σ} {moves : List (Move κ ι ε)}
    (played : world.playIf semantics programOf permitted moves = some after) :
    Runs semantics programOf (fun world move => permitted world move = true) world after := by
  induction moves generalizing world with
  | nil =>
    cases played
    exact .refl
  | cons move moves ih =>
    simp only [World.playIf] at played
    split at played
    · rename_i ok
      obtain ⟨next, moved, rest⟩ := Option.bind_eq_some_iff.mp played
      exact .head ⟨move, ok, moved⟩ (ih rest)
    · cases played

theorem Runs.mono {allowed permitted : World Step κ ι α σ → Move κ ι ε → Prop}
    (weaker : ∀ world move, allowed world move → permitted world move)
    {before after : World Step κ ι α σ} (run : Runs semantics programOf allowed before after) :
    Runs semantics programOf permitted before after :=
  Relation.ReflTransGen.mono (fun _ _ ⟨move, ok, moved⟩ => ⟨move, weaker _ _ ok, moved⟩) _ _ run

/-! ## Moves, inverted -/

/-- What a turn did: the thread's next step ran, and nobody else moved. -/
theorem World.move_turn {world after : World Step κ ι α σ} {tid : Nat} {choice : ι}
    (moved : world.move semantics programOf (.turn tid choice) = some after) :
    ∃ call past, ∃ β : Type, ∃ (step : Step β) (next : β → Program Step α) (answer : β),
      world.threads[tid]? = some ⟨call, .act step next, past⟩ ∧
      semantics.run tid choice step world.shared = some (answer, after.shared) ∧
      after.threads = world.threads.set tid
        ⟨call, next answer, past ++ [⟨step, choice, answer, world.shared, after.shared⟩]⟩ := by
  obtain ⟨⟨call, program, past⟩, found, mapped⟩ := Option.bind_eq_some_iff.mp moved
  obtain ⟨⟨thread, shared⟩, turned, rfl⟩ := Option.map_eq_some_iff.mp mapped
  cases program with
  | done value => cases turned
  | act step next =>
    obtain ⟨⟨answer, shared'⟩, ran, same⟩ := Option.map_eq_some_iff.mp turned
    obtain ⟨rfl, rfl⟩ := Prod.mk.inj same
    exact ⟨call, past, _, step, next, answer, found, ran, rfl⟩

/-- If each call's program has only steps of a kind, so has what is left of it. -/
theorem Runs.all {kind : κ → (γ : Type) → Step γ → Prop}
    (starts : ∀ call, (programOf call).All (kind call))
    {allowed : World Step κ ι α σ → Move κ ι ε → Prop} {before after : World Step κ ι α σ}
    (run : Runs semantics programOf allowed before after)
    (first : ∀ thread ∈ before.threads, thread.program.All (kind thread.call)) :
    ∀ thread ∈ after.threads, thread.program.All (kind thread.call) := by
  induction run with
  | refl => exact first
  | tail _ step ih =>
    obtain ⟨move, -, moved⟩ := step
    cases move with
    | spawn call =>
      cases moved
      intro thread member
      rcases List.mem_append.mp member with old | new
      · exact ih thread old
      · obtain rfl := List.mem_singleton.mp new
        exact starts call
    | turn tid choice =>
      obtain ⟨call, past, β, step, next, answer, found, -, threads⟩ := World.move_turn moved
      intro thread member
      rw [threads] at member
      rcases List.mem_or_eq_of_mem_set member with old | rfl
      · exact ih thread old
      · cases ih _ (List.mem_of_getElem? found) with
        | act _ _ _ rest => exact rest answer
    | environment event =>
      obtain ⟨shared, -, rfl⟩ := Option.map_eq_some_iff.mp moved
      exact ih

/-! ## Rely and guarantee -/

/-- A rely–guarantee argument: the invariant, what each thread relies on, what
each step has to meet where it is taken, and when a thread is not known yet. A
step is only looked at where it is `allowed`. -/
structure Discipline (semantics : Semantics Step ι ε σ) where
  inv : σ → Prop
  rely : Nat → σ → σ → Prop
  guard : {β : Type} → Nat → Step β → σ → Prop
  allowed : {β : Type} → Nat → ι → Step β → σ → Prop
  fresh : Nat → σ → Prop
  refl : ∀ tid state, rely tid state state
  trans : ∀ {tid a b c}, rely tid a b → rely tid b c → rely tid a c
  unknown : ∀ {tid before after}, rely tid before after → fresh tid before → fresh tid after
  step : ∀ {β : Type} {tid : Nat} {choice : ι} {step : Step β} {before after : σ} {answer : β},
    inv before → guard tid step before → allowed tid choice step before →
    semantics.run tid choice step before = some (answer, after) →
    inv after ∧ ∀ other, other ≠ tid → rely other before after
  environment : ∀ {event : ε} {before after : σ}, inv before →
    semantics.environment event before = some after → inv after ∧ ∀ tid, rely tid before after

section
variable (discipline : Discipline semantics)

/-- From `state` on a program meets its guards whatever others do, and when it
is done `post` holds of its steps, its value and the state. -/
def Safe (tid : Nat) (post : List (Taken Step ι σ) → α → σ → Prop) :
    Program Step α → List (Taken Step ι σ) → σ → Prop
  | .done value, past, state =>
    ∀ later, discipline.inv later → discipline.rely tid state later → post past value later
  | .act step next, past, state =>
    ∀ later, discipline.inv later → discipline.rely tid state later →
      discipline.guard tid step later ∧
      ∀ choice answer after, discipline.allowed tid choice step later →
        semantics.run tid choice step later = some (answer, after) → discipline.inv after →
        Safe tid post (next answer) (past ++ [⟨step, choice, answer, later, after⟩]) after

/-- A move is allowed if the step it takes is. -/
def Discipline.Allows (world : World Step κ ι α σ) : Move κ ι ε → Prop
  | .turn tid choice => ∀ call past, ∀ (β : Type) (step : Step β) (next : β → Program Step α),
      world.threads[tid]? = some ⟨call, .act step next, past⟩ →
        discipline.allowed tid choice step world.shared
  | _ => True

end

variable {discipline : Discipline semantics} {tid : Nat}
variable {post : List (Taken Step ι σ) → α → σ → Prop}

/-- Safety outlasts interference. -/
theorem Safe.rely {program : Program Step α} {past : List (Taken Step ι σ)} {state later : σ}
    (safe : Safe discipline tid post program past state) (moved : discipline.rely tid state later) :
    Safe discipline tid post program past later := by
  cases program with
  | done value => exact fun last kept more => safe last kept (discipline.trans moved more)
  | act step next => exact fun last kept more => safe last kept (discipline.trans moved more)

theorem Safe.weaken {weaker : List (Taken Step ι σ) → α → σ → Prop} {program : Program Step α}
    {past : List (Taken Step ι σ)} {state : σ} (safe : Safe discipline tid post program past state)
    (implies : ∀ past value state, discipline.inv state → post past value state →
      weaker past value state) :
    Safe discipline tid weaker program past state := by
  induction program generalizing past state with
  | done value => exact fun later kept moved => implies _ _ _ kept (safe later kept moved)
  | act step next ih =>
    intro later kept moved
    obtain ⟨guarded, rest⟩ := safe later kept moved
    exact ⟨guarded, fun choice answer after ok ran kept' =>
      ih answer (rest choice answer after ok ran kept')⟩

/-- Sequencing: the second program starts from what the first leaves. -/
theorem Safe.bind {β : Type} {first : List (Taken Step ι σ) → β → σ → Prop} {program : Program Step β}
    {next : β → Program Step α} {past : List (Taken Step ι σ)} {state : σ}
    (safe : Safe discipline tid first program past state) (kept : discipline.inv state)
    (rest : ∀ past value state, discipline.inv state → first past value state →
      Safe discipline tid post (next value) past state) :
    Safe discipline tid post (program >>= next) past state := by
  induction program generalizing past state with
  | done value => exact rest _ _ _ kept (safe state kept (discipline.refl _ _))
  | act step next' ih =>
    intro later kept' moved
    obtain ⟨guarded, after⟩ := safe later kept' moved
    exact ⟨guarded, fun choice answer state' ok ran kept'' =>
      ih answer (after choice answer state' ok ran kept'') kept''⟩

/-! ## Adequacy -/

/-- What adequacy keeps of a world. -/
structure Good (discipline : Discipline semantics) (post : κ → Nat → List (Taken Step ι σ) → α → σ → Prop)
    (world : World Step κ ι α σ) : Prop where
  inv : discipline.inv world.shared
  safe : ∀ (tid : Nat) (thread : Thread Step κ ι α σ), world.threads[tid]? = some thread →
    Safe discipline tid (post thread.call tid) thread.program thread.past world.shared
  fresh : ∀ tid, world.threads.length ≤ tid → discipline.fresh tid world.shared

namespace Good
variable {post : κ → Nat → List (Taken Step ι σ) → α → σ → Prop} {world : World Step κ ι α σ}

/-- A thread about to take a step meets its guard. -/
theorem guard (good : Good discipline post world) {call : κ} {past : List (Taken Step ι σ)} {β : Type}
    {step : Step β} {next : β → Program Step α}
    (found : world.threads[tid]? = some ⟨call, .act step next, past⟩) :
    discipline.guard tid step world.shared :=
  (good.safe tid _ found world.shared good.inv (discipline.refl _ _)).1

/-- A finished thread has its postcondition. -/
theorem finished (good : Good discipline post world) {call : κ} {past : List (Taken Step ι σ)} {value : α}
    (found : world.threads[tid]? = some ⟨call, .done value, past⟩) :
    post call tid past value world.shared :=
  good.safe tid _ found world.shared good.inv (discipline.refl _ _)

/-- One allowed move keeps a world good, if every call is safe when it starts. -/
theorem move (good : Good discipline post world)
    (starts : ∀ call tid state, discipline.inv state → discipline.fresh tid state →
      Safe discipline tid (post call tid) (programOf call) [] state)
    {move : Move κ ι ε} {after : World Step κ ι α σ} (ok : discipline.Allows world move)
    (moved : world.move semantics programOf move = some after) :
    Good discipline post after := by
  cases move with
  | spawn call =>
    cases moved
    refine ⟨good.inv, fun tid thread found => ?_, fun tid le => good.fresh tid ?_⟩
    · rcases Nat.lt_or_ge tid world.threads.length with old | new
      · rw [List.getElem?_append_left old] at found
        exact good.safe tid thread found
      · rw [List.getElem?_append_right new, List.getElem?_singleton] at found
        split at found
        · cases found
          exact starts call tid _ good.inv (good.fresh tid new)
        · cases found
    · simp only [List.length_append, List.length_singleton] at le
      omega
  | turn tid choice =>
    obtain ⟨call, past, β, step, next, answer, found, ran, threads⟩ := World.move_turn moved
    have allowed := ok call past β step next found
    obtain ⟨guarded, rest⟩ := good.safe tid _ found world.shared good.inv (discipline.refl _ _)
    obtain ⟨inv, others⟩ := discipline.step good.inv guarded allowed ran
    have within := (List.getElem?_eq_some_iff.mp found).1
    refine ⟨inv, fun other thread at' => ?_, fun other le => ?_⟩
    · rw [threads] at at'
      rcases eq_or_ne tid other with rfl | differ
      · rw [List.getElem?_set_self within] at at'
        cases at'
        exact rest choice answer after.shared allowed ran inv
      · rw [List.getElem?_set_ne differ] at at'
        exact (good.safe other thread at').rely (others other differ.symm)
    · rw [threads, List.length_set] at le
      exact discipline.unknown (others other (by omega)) (good.fresh other le)
  | environment event =>
    obtain ⟨shared, happened, rfl⟩ := Option.map_eq_some_iff.mp moved
    obtain ⟨inv, others⟩ := discipline.environment good.inv happened
    exact ⟨inv, fun tid thread found => (good.safe tid thread found).rely (others tid),
      fun tid le => discipline.unknown (others tid) (good.fresh tid le)⟩

end Good

/-- **Adequacy.** Every world reached by allowed moves from a good one is good. -/
theorem Runs.good {post : κ → Nat → List (Taken Step ι σ) → α → σ → Prop}
    (starts : ∀ call tid state, discipline.inv state → discipline.fresh tid state →
      Safe discipline tid (post call tid) (programOf call) [] state)
    {allowed : World Step κ ι α σ → Move κ ι ε → Prop}
    (allows : ∀ world move, allowed world move → discipline.Allows world move)
    {before after : World Step κ ι α σ} (run : Runs semantics programOf allowed before after)
    (good : Good discipline post before) : Good discipline post after := by
  induction run with
  | refl => exact good
  | tail _ step ih =>
    obtain ⟨move, ok, moved⟩ := step
    exact ih.move starts (allows _ _ ok) moved

/-! ## Calls that nobody disturbs -/

/-- A program run to its end with nobody else moving: what it answers, the state
it leaves, and the steps it took. -/
def Program.alone (semantics : Semantics Step ι ε σ) (tid : Nat) :
    Program Step α → (Nat → ι) → σ → Option (α × σ × List (Sigma Step))
  | .done value, _, shared => some (value, shared, [])
  | .act step next, choices, shared =>
    (semantics.run tid (choices 0) step shared).bind fun (answer, between) =>
      ((next answer).alone semantics tid (choices <| · + 1) between).map fun (value, after, steps) =>
        (value, after, ⟨_, step⟩ :: steps)

/-- In two states a program takes the same steps to the same answer; what it
leaves of each is said by two functions of what it leaves of a third. -/
def Program.Agrees (semantics : Semantics Step ι ε σ) (tid : Nat) (program : Program Step α)
    (choices : Nat → ι) (one : σ) (after : σ → σ) (two : σ) : Prop :=
  program.alone semantics tid choices one =
    (program.alone semantics tid choices two).map fun (value, left, steps) =>
      (value, after left, steps)

theorem Program.Agrees.done {tid : Nat} {value : α} {choices : Nat → ι} {one two : σ}
    {after : σ → σ} (same : after two = one) :
    (.done value : Program Step α).Agrees semantics tid choices one after two := by
  unfold Agrees alone
  simp only [Option.map_some, same]

theorem Program.Agrees.now {tid : Nat} {β : Type} {step : Step β} {next : β → Program Step α}
    {choices : Nat → ι} {one two between between' : σ} {after : σ → σ} {answer : β}
    (first : semantics.run tid (choices 0) step one = some (answer, between))
    (second : semantics.run tid (choices 0) step two = some (answer, between'))
    (rest : (next answer).Agrees semantics tid (choices <| · + 1) between after between') :
    (Program.act step next).Agrees semantics tid choices one after two := by
  unfold Agrees alone
  rw [first, second]
  simp only [Option.bind_some]
  rw [rest, Option.map_map, Option.map_map]
  rfl

theorem Program.Agrees.act {tid : Nat} {β : Type} {step : Step β} {next : β → Program Step α}
    {choices : Nat → ι} {one two between between' : σ} {after : σ → σ} {can : Bool} {answer : β}
    (first : semantics.run tid (choices 0) step one = if can then some (answer, between) else none)
    (second : semantics.run tid (choices 0) step two =
      if can then some (answer, between') else none)
    (rest : can = true →
      (next answer).Agrees semantics tid (choices <| · + 1) between after between') :
    (Program.act step next).Agrees semantics tid choices one after two := by
  cases can with
  | true => exact .now first second (rest rfl)
  | false =>
    unfold Agrees alone
    rw [first, second]
    rfl

end McpSsh.Interleaving
