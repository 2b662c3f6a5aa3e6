import McpSsh.Bastion.Kinds
import McpSsh.Bastion.Publishing.Layer

/-!
# Calls that move nothing

Which steps take an entry out of the map, dial, or look a session's holder up.
Programs that have none of these bring no session and end none, so they need
nothing of what is published.
-/

namespace McpSsh.Bastion

open Interleaving

variable {deployment : Deployment} {β : Type}

/-! ## What a step does with connections -/

/-- A step that leaves a session opened before it without an entry in the map. -/
def LinkStep.clears (before : Service) (id : SessionId) {β : Type} : LinkStep β → Prop
  | .remove session => session = id
  | .removeOrphans live => id ∉ live ∧ ∃ session, before.journal.Opened session ∧ session.id = id
  | _ => False

def Step.clears (before : Service) (id : SessionId) {β : Type} : Step β → Prop
  | .links step => step.clears before id
  | _ => False

/-- The connection a step dialled. -/
def LinkStep.dials {β : Type} : LinkStep β → β → Option Connection
  | .dial _, answer => answer
  | _, _ => none

def Step.dials {β : Type} : Step β → β → Option Connection
  | .links step, answer => step.dials answer
  | _, _ => none

/-- A step that looks up the holder of a session. -/
def LinkStep.seeks (id : SessionId) {β : Type} : LinkStep β → Prop
  | .holderOf session => session = id
  | _ => False

def Step.seeks (id : SessionId) {β : Type} : Step β → Prop
  | .links step => step.seeks id
  | _ => False

def LinkStep.quiet {β : Type} : LinkStep β → Prop
  | .remove _ | .removeOrphans _ | .dial _ | .holderOf _ => False
  | _ => True

/-- A step that does none of these. -/
def Step.quiet {β : Type} : Step β → Prop
  | .links step => step.quiet
  | _ => True

namespace Step.quiet
variable {step : Step β}

theorem clears (quiet : step.quiet) (before : Service) (id : SessionId) :
    ¬ step.clears before id := by
  intro clears
  cases step with
  | links step =>
    cases step with
    | remove | removeOrphans => cases quiet
    | _ => cases clears
  | _ => cases clears

theorem dials (quiet : step.quiet) (answer : β) : step.dials answer = none := by
  cases step with
  | links step =>
    cases step with
    | dial => cases quiet
    | _ => rfl
  | _ => rfl

theorem seeks (quiet : step.quiet) (id : SessionId) : ¬ step.seeks id := by
  intro seeks
  cases step with
  | links step =>
    cases step with
    | holderOf => cases quiet
    | _ => cases seeks
  | _ => cases seeks

end Step.quiet

/-! ## Plain programs -/

/-- A step that brings nothing, moves nothing and asks for no connection. -/
def Step.Plain (γ : Type) (step : Step γ) : Prop := step.Idles ∧ step.quiet

def Kind.plain : Kind → Bool
  | .other | .intent | .answer | .leave | .account => true
  | _ => false

theorem Step.plain_of_kind {γ : Type} (step : Step γ) (plain : step.kind.plain = true) :
    Step.Plain γ step := by
  cases step with
  | service step =>
    cases step with
    | unlock which =>
      refine ⟨fun same => ?_, trivial⟩
      subst same
      cases plain
    | _ => exact ⟨trivial, trivial⟩
  | sessions step =>
    cases step with
    | publish => cases plain
    | _ => exact ⟨trivial, trivial⟩
  | ledger step =>
    cases step with
    | record who event =>
      refine ⟨LedgerStep.record_isEnd who fun ends => ?_, trivial⟩
      rw [Step.kind, ends] at plain
      cases plain
    | _ => exact ⟨trivial, trivial⟩
  | links step =>
    cases step with
    | isCurrent | look => exact ⟨trivial, trivial⟩
    | _ => cases plain
  | requests | standing | runs => exact ⟨trivial, trivial⟩

theorem Takes.plain {α : Type} {kinds : List Kind} {program : Prog α} (takes : Takes kinds program)
    (plain : kinds.all Kind.plain = true) : program.All Step.Plain :=
  takes.each plain fun _ step => step.plain_of_kind

end McpSsh.Bastion
