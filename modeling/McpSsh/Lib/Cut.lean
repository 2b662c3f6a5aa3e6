import McpSsh.Lib.Interleaving

/-!
# Programs that may be cut

A program of steps that is dropped at whatever step it has come to, or whose
answer is lost once it is done. `Ensures` says what holds of the answer, if one
is seen, and of the state that is left, wherever the cut strikes; its rules
follow the program.
-/

namespace McpSsh.Interleaving

variable {Step : Type → Type} {ι α β σ : Type}

namespace Program

/-- Runs a program for as many steps as there are choices. Without an answer it
was cut at the step it had come to. -/
def upTo (run : (γ : Type) → ι → Step γ → σ → Option (γ × σ)) :
    Program Step α → List ι → σ → Option (Option α × σ)
  | .done value, _, state => some (some value, state)
  | .act _ _, [], state => some (none, state)
  | .act step next, choice :: choices, state =>
    (run _ choice step state).bind fun (answer, after) => (next answer).upTo run choices after

/-- Whatever the steps answer and wherever the program is cut, `holds` of the
answer that is seen and of the state that is left. -/
def Ensures (run : (γ : Type) → ι → Step γ → σ → Option (γ × σ)) (holds : Option α → σ → Prop) :
    Program Step α → σ → Prop
  | .done value, state => holds none state ∧ holds (some value) state
  | .act step next, state => holds none state ∧
    ∀ choice answer after, run _ choice step state = some (answer, after) →
      (next answer).Ensures run holds after

variable {run : (γ : Type) → ι → Step γ → σ → Option (γ × σ)} {holds : Option α → σ → Prop}
  {program : Program Step α} {state after : σ}

/-- What is ensured holds of every run, with its answer seen or lost. -/
theorem Ensures.upTo {choices : List ι} {answer seen : Option α}
    (ensures : program.Ensures run holds state)
    (went : program.upTo run choices state = some (answer, after))
    (kept : seen = answer ∨ seen = none) : holds seen after := by
  induction program generalizing choices state with
  | done value =>
    obtain ⟨rfl, rfl⟩ := Prod.mk.inj (Option.some.inj went)
    rcases kept with rfl | rfl
    · exact ensures.2
    · exact ensures.1
  | act step next ih =>
    cases choices with
    | nil =>
      obtain ⟨rfl, rfl⟩ := Prod.mk.inj (Option.some.inj went)
      rcases kept with rfl | rfl <;> exact ensures.1
    | cons choice choices =>
      obtain ⟨⟨answered, between⟩, moved, later⟩ := Option.bind_eq_some_iff.mp went
      exact ih answered (ensures.2 choice answered between moved) later

theorem Ensures.bind {holds : Option β → σ → Prop} {next : α → Program Step β}
    (first : program.Ensures run
      (fun
        | none, state => holds none state
        | some value, state => (next value).Ensures run holds state) state) :
    (program >>= next).Ensures run holds state := by
  induction program generalizing state with
  | done value => exact first.2
  | act step rest ih =>
    exact ⟨first.1, fun choice answer between moved => ih answer (first.2 choice answer between moved)⟩

theorem Ensures.imp {weaker : Option α → σ → Prop} (ensures : program.Ensures run holds state)
    (implies : ∀ answer state, holds answer state → weaker answer state) :
    program.Ensures run weaker state := by
  induction program generalizing state with
  | done value => exact ⟨implies _ _ ensures.1, implies _ _ ensures.2⟩
  | act step rest ih =>
    exact ⟨implies _ _ ensures.1,
      fun choice answer between moved => ih answer (ensures.2 choice answer between moved)⟩

end Program

end McpSsh.Interleaving
