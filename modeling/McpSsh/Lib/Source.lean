import Mathlib.Data.List.Basic

/-!
# Sources that arrive in pieces

A source of elements that is polled with some room and hands over a piece of
what is left, at least one element where there is one and there is room, and
otherwise as much or as little as it likes. It may also say that nothing has
arrived yet, or fail.
-/

namespace Source

variable {α : Type*}

/-- How a source takes a poll: nothing has arrived, it fails, or `more + 1`
elements have arrived. -/
inductive Turn
  | pending
  | fails
  | gives (more : Nat)
  deriving DecidableEq, Repr

/-- What a poll finds. A piece without elements is the end of the source. -/
inductive Polled (α : Type*)
  | pending
  | failed
  | piece (elements : List α)
  deriving DecidableEq, Repr

end Source

/-- What is left of a source, and how it will take the polls to come. -/
structure Source (α : Type*) where
  rest : List α
  turns : Nat → Source.Turn

namespace Source

variable {α : Type*} {source after : Source α} {room : Nat} {elements : List α}

/-- The source after one more poll. -/
def next (source : Source α) (rest : List α) : Source α := ⟨rest, (source.turns <| · + 1)⟩

def poll (source : Source α) (room : Nat) : Polled α × Source α :=
  match source.turns 0 with
  | .pending => (.pending, source.next source.rest)
  | .fails => (.failed, source.next source.rest)
  | .gives more =>
    (.piece (source.rest.take (min (more + 1) room)),
      source.next (source.rest.drop (min (more + 1) room)))

/-- Everything a poll can do. -/
theorem poll_cases (source : Source α) (room : Nat) :
    (source.turns 0 = .pending ∧ source.poll room = (.pending, source.next source.rest)) ∨
      (source.turns 0 = .fails ∧ source.poll room = (.failed, source.next source.rest)) ∨
      ∃ elements rest, source.poll room = (.piece elements, source.next rest) ∧
        source.rest = elements ++ rest ∧ elements.length ≤ room ∧
        (0 < room → elements = [] → source.rest = []) := by
  unfold poll
  cases source.turns 0 with
  | pending => exact .inl ⟨rfl, rfl⟩
  | fails => exact .inr (.inl ⟨rfl, rfl⟩)
  | gives more =>
    refine .inr (.inr ⟨_, _, rfl, (List.take_append_drop _ _).symm, ?_, ?_⟩)
    · rw [List.length_take]
      omega
    · intro roomy empty
      rcases List.take_eq_nil_iff.mp empty with none | done
      · omega
      · exact done

/-- Polls of a source, the last of which it took in one way. -/
def Took (source after : Source α) (turn : Turn) : Prop :=
  ∃ polls, source.turns polls = turn ∧ after.turns = (source.turns <| · + (polls + 1))

theorem Took.here {rest : List α} {turn : Turn} (took : source.turns 0 = turn) :
    Took source (source.next rest) turn :=
  ⟨0, took, rfl⟩

theorem Took.later {rest : List α} {turn : Turn} (took : Took (source.next rest) after turn) :
    Took source after turn := by
  obtain ⟨polls, took, after⟩ := took
  exact ⟨polls + 1, took, after⟩

end Source
