import McpSsh.Lib.Layers
import McpSsh.Lib.Progress
import Mathlib.Order.BoundedOrder.Basic

/-!
# What calls owe

Some steps leave their thread with something to give back, and others give it
back. `Program.Owes` counts that along a program, whatever its steps answer.
`Runs.owed` is what it comes to in a world: only a call that has not answered
yet can owe anything.
-/

namespace McpSsh.Interleaving

variable {Step : Type → Type} {κ ι ε α β σ δ : Type}

/-- What is owed after a step, by what was owed before and what it answered. -/
structure Debts (Step : Type → Type) (δ : Type) [Preorder δ] where
  after : {β : Type} → Step β → β → δ → δ
  mono : ∀ {β : Type} (step : Step β) (answer : β), Monotone (after step answer)

variable [PartialOrder δ]

/-- A step that has nothing to do with the debt. -/
def Debts.Neutral (debts : Debts Step δ) (β : Type) (step : Step β) : Prop :=
  ∀ answer owed, debts.after step answer owed = owed

/-- Whatever its steps answer, a program ends with what `post` says of its value
and of what it then owes. -/
inductive Program.Owes (debts : Debts Step δ) (post : α → δ → Prop) : δ → Program Step α → Prop
  | done {owed : δ} {value : α} (holds : post value owed) : Owes debts post owed (.done value)
  | act {γ : Type} {owed : δ} {step : Step γ} {next : γ → Program Step α}
      (rest : ∀ answer, Owes debts post (debts.after step answer owed) (next answer)) :
      Owes debts post owed (.act step next)

namespace Program.Owes
variable {debts : Debts Step δ} {post : α → δ → Prop} {owed : δ}
variable {program : Program Step α}

theorem bind {post' : β → δ → Prop} {next : α → Program Step β}
    (first : program.Owes debts post owed)
    (rest : ∀ value owed, post value owed → (next value).Owes debts post' owed) :
    (program >>= next).Owes debts post' owed := by
  induction first with
  | done holds => exact rest _ _ holds
  | act _ ih => exact .act ih

theorem neutral {γ : Type} {step : Step γ} {next : γ → Program Step α}
    (neutral : debts.Neutral γ step) (rest : ∀ answer, (next answer).Owes debts post owed) :
    (Program.act step next).Owes debts post owed :=
  .act fun answer => by
    rw [neutral answer]
    exact rest answer

/-- What no step of a program takes away from what is owed. -/
theorem of_all {keeps : δ → Prop} (all : program.All fun _ step => ∀ answer owed, keeps owed →
      keeps (debts.after step answer owed)) (kept : keeps owed) :
    program.Owes debts (fun _ after => keeps after) owed := by
  induction all generalizing owed with
  | done value => exact .done kept
  | act step next here _ ih => exact .act fun answer => ih answer (here answer owed kept)

/-- A program that has nothing to do with the debt. -/
theorem of_neutral (all : program.All debts.Neutral) :
    program.Owes debts (fun _ after => after = owed) owed :=
  of_all (all.mono fun _ _ neutral answer now same => (neutral answer now).trans same) rfl

end Program.Owes

/-- What a thread owes in a state is what its own steps have left it owing, where
they `met` what they have to. -/
structure Debts.Told (debts : Debts Step δ) (semantics : Semantics Step ι ε σ)
    (met : {β : Type} → Nat → Step β → σ → Prop) (amount : Nat → σ → δ) : Prop where
  others : ∀ {β : Type} {tid other : Nat} {choice : ι} {step : Step β} {before after : σ} {answer : β},
    semantics.run tid choice step before = some (answer, after) → other ≠ tid →
      amount other after ≤ amount other before
  own : ∀ {β : Type} {tid : Nat} {choice : ι} {step : Step β} {before after : σ} {answer : β},
    met tid step before → semantics.run tid choice step before = some (answer, after) →
      amount tid after ≤ debts.after step answer (amount tid before)
  environment : ∀ {tid : Nat} {event : ε} {before after : σ},
    semantics.environment event before = some after → amount tid after ≤ amount tid before

section
variable [OrderBot δ] {debts : Debts Step δ} {semantics : Semantics Step ι ε σ} {programOf : κ → Program Step α}
variable {met : {β : Type} → Nat → Step β → σ → Prop} {amount : Nat → σ → δ}
variable {world : World Step κ ι α σ}

/-- Every thread has given everything back by its end, and nobody else owes. -/
structure Debts.Kept (debts : Debts Step δ) (amount : Nat → σ → δ) (world : World Step κ ι α σ) :
    Prop where
  threads : ∀ (tid : Nat) thread, world.threads[tid]? = some thread → ∃ owed,
    thread.program.Owes debts (fun _ after => after = ⊥) owed ∧ amount tid world.shared ≤ owed
  unknown : ∀ tid, world.threads.length ≤ tid → amount tid world.shared = ⊥

/-- Only a call that has not answered owes anything. -/
theorem Debts.Kept.unfinished (kept : debts.Kept amount world) {tid : Nat}
    (owed : amount tid world.shared ≠ ⊥) : world.Unfinished tid := by
  cases found : world.threads[tid]? with
  | none => exact absurd (kept.unknown tid (List.getElem?_eq_none_iff.mp found)) owed
  | some thread =>
    obtain ⟨most, owes, le⟩ := kept.threads tid thread found
    obtain ⟨call, program, past⟩ := thread
    cases owes with
    | done holds =>
      rw [holds] at le
      exact absurd (le_bot_iff.mp le) owed
    | act rest => exact ⟨call, past, _, _, _, found⟩

theorem Debts.Kept.move (told : debts.Told semantics met amount)
    (starts : ∀ call, (programOf call).Owes debts (fun _ after => after = ⊥) ⊥)
    (meets : ∀ {tid : Nat} {call past} {γ : Type} {step : Step γ} {next : γ → Program Step α},
      world.threads[tid]? = some ⟨call, .act step next, past⟩ → met tid step world.shared)
    (kept : debts.Kept amount world) {move : Move κ ι ε} {after : World Step κ ι α σ}
    (moved : world.move semantics programOf move = some after) : debts.Kept amount after := by
  cases move with
  | spawn call =>
    cases moved
    refine ⟨fun tid thread found => ?_, fun tid le => kept.unknown tid ?_⟩
    · rcases Nat.lt_or_ge tid world.threads.length with old | new
      · rw [List.getElem?_append_left old] at found
        exact kept.threads tid thread found
      · rw [List.getElem?_append_right new, List.getElem?_singleton] at found
        split at found
        · cases found
          exact ⟨⊥, starts call, le_of_eq (kept.unknown tid new)⟩
        · cases found
    · simp only [List.length_append, List.length_singleton] at le
      omega
  | turn tid choice =>
    obtain ⟨call, past, γ, step, next, answer, found, ran, threads⟩ := World.move_turn moved
    have within := (List.getElem?_eq_some_iff.mp found).1
    refine ⟨fun other thread at' => ?_, fun other le => ?_⟩
    · rw [threads] at at'
      rcases eq_or_ne tid other with rfl | differ
      · rw [List.getElem?_set_self within] at at'
        cases at'
        obtain ⟨owed, owes, le⟩ := kept.threads tid _ found
        cases owes with
        | act rest =>
          exact ⟨_, rest answer, (told.own (meets found) ran).trans (debts.mono step answer le)⟩
      · rw [List.getElem?_set_ne differ] at at'
        obtain ⟨owed, owes, le⟩ := kept.threads other thread at'
        exact ⟨owed, owes, (told.others ran differ.symm).trans le⟩
    · rw [threads, List.length_set] at le
      have less := told.others ran (show other ≠ tid by omega)
      rw [kept.unknown other le] at less
      exact le_bot_iff.mp less
  | environment event =>
    obtain ⟨shared, happened, rfl⟩ := Option.map_eq_some_iff.mp moved
    refine ⟨fun tid thread found => ?_, fun tid le => ?_⟩
    · obtain ⟨owed, owes, most⟩ := kept.threads tid thread found
      exact ⟨owed, owes, (told.environment happened).trans most⟩
    · have less : amount tid shared ≤ amount tid world.shared := told.environment happened
      rw [kept.unknown tid le] at less
      exact le_bot_iff.mp less

/-- In every world a run comes to, only unanswered calls owe anything. -/
theorem Runs.owed (told : debts.Told semantics met amount)
    (starts : ∀ call, (programOf call).Owes debts (fun _ after => after = ⊥) ⊥)
    {allowed : World Step κ ι α σ → Move κ ι ε → Prop} {before after : World Step κ ι α σ}
    (run : Runs semantics programOf allowed before after)
    (meets : ∀ {world}, Runs semantics programOf allowed before world →
      ∀ {tid : Nat} {call past} {γ : Type} {step : Step γ} {next : γ → Program Step α},
        world.threads[tid]? = some ⟨call, .act step next, past⟩ → met tid step world.shared)
    (kept : debts.Kept amount before) : debts.Kept amount after := by
  induction run with
  | refl => exact kept
  | tail run step ih =>
    obtain ⟨move, -, moved⟩ := step
    exact ih.move told starts (meets run) moved

end

end McpSsh.Interleaving
