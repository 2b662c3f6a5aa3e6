import Mathlib.Data.List.Basic

/-!
# Refusals

Checks made one after the other, the first that fails refusing with its reason.
A sequence of checks passes exactly if each of them does, which is what the
lemmas here say of each way to put checks together.
-/

namespace Refusals

variable {ε ε' α β : Type} {reason : ε} {checked : Except ε α} {value : α}

/-- Refuses, where something is bad. -/
def refuse (bad : Prop) [Decidable bad] (reason : ε) : Except ε Unit :=
  if bad then .error reason else .ok ()

/-- What there has to be, or a reason. -/
def demand (given : Option α) (reason : ε) : Except ε α :=
  match given with
  | some value => .ok value
  | none => .error reason

@[simp] theorem refuse_ok {bad : Prop} [Decidable bad] {done : Unit} :
    refuse bad reason = .ok done ↔ ¬bad := by
  unfold refuse
  by_cases here : bad
  · rw [if_pos here]
    exact iff_of_false nofun (not_not_intro here)
  · rw [if_neg here]
    exact iff_of_true rfl here

@[simp] theorem pure_ok {other : α} : (pure other : Except ε α) = .ok value ↔ other = value :=
  Iff.of_eq (Except.ok.injEq other value)

@[simp] theorem bind_ok {next : α → Except ε β} {result : β} :
    (checked >>= next) = .ok result ↔ ∃ value, checked = .ok value ∧ next value = .ok result := by
  cases checked with
  | ok value =>
    constructor
    · intro passed
      exact ⟨value, rfl, passed⟩
    · rintro ⟨_, ⟨⟩, passed⟩
      exact passed
  | error reason => exact iff_of_false nofun nofun

@[simp] theorem mapError_ok {explain : ε → ε'} :
    checked.mapError explain = .ok value ↔ checked = .ok value := by
  cases checked with
  | ok other => rw [Except.mapError, Except.ok.injEq, Except.ok.injEq]
  | error reason => exact iff_of_false nofun nofun

/-- Checks over a list pass if each of them does. -/
@[simp] theorem forM_ok {items : List α} {check : α → Except ε Unit} {done : Unit} :
    forM items check = .ok done ↔ ∀ item ∈ items, check item = .ok () := by
  induction items with
  | nil => exact iff_of_true rfl fun _ listed => absurd listed List.not_mem_nil
  | cons first rest ih =>
    rw [List.forM_cons, bind_ok, List.forall_mem_cons]
    constructor
    · rintro ⟨_, passed, others⟩
      exact ⟨passed, ih.mp others⟩
    · rintro ⟨passed, others⟩
      exact ⟨(), passed, ih.mpr others⟩

end Refusals
