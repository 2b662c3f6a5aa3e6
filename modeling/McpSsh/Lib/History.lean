import Mathlib.Data.List.Nodup
import Mathlib.Data.List.Infix

/-!
# Histories

A history is a list of events, oldest first, that only grows. `Warranted` says
that each event is warranted by what came before it, so what has to precede an
event is stated once, of the event. An order between events is a sublist, which
outlasts growth. `Keyed` says that no two events have the same key.
-/

namespace McpSsh.History

variable {α : Type*} {κ : Type}

/-- Every event is warranted by those before it. -/
def Warranted (warrant : List α → α → Prop) (history : List α) : Prop :=
  ∀ past event later, history = past ++ event :: later → warrant past event

variable {warrant : List α → α → Prop} {history : List α} {first : α}

theorem Warranted.nil : Warranted warrant [] := by
  intro past event later eq
  simp at eq

/-- One more event is warranted by the whole history before it. -/
theorem Warranted.append (warranted : Warranted warrant history) {event : α}
    (next : warrant history event) : Warranted warrant (history ++ [event]) := by
  intro past other later eq
  rcases List.eq_nil_or_concat later with rfl | ⟨rest, last, rfl⟩
  · obtain ⟨rfl, same⟩ := List.append_inj' eq rfl
    cases same
    exact next
  · rw [List.concat_eq_append, ← List.cons_append, ← List.append_assoc] at eq
    obtain ⟨same, -⟩ := List.append_inj' eq rfl
    exact warranted past other rest same

/-- More events, each warranted by the history before them all. -/
theorem Warranted.append_all
    (more : ∀ past event later, warrant past event → warrant (past ++ [later]) event)
    (warranted : Warranted warrant history) {events : List α}
    (all : ∀ event ∈ events, warrant history event) : Warranted warrant (history ++ events) := by
  induction events generalizing history with
  | nil =>
    rw [List.append_nil]
    exact warranted
  | cons event rest ih =>
    rw [List.append_cons]
    refine ih (warranted.append (all event List.mem_cons_self)) fun other member => ?_
    exact more history other event (all other (List.mem_cons_of_mem _ member))

/-- One event less to come before the others. -/
theorem Warranted.cons (weaker : ∀ past event, warrant past event → warrant (first :: past) event)
    (here : warrant [] first) (warranted : Warranted warrant history) :
    Warranted warrant (first :: history) := by
  intro past event later eq
  cases past with
  | nil =>
    cases eq
    exact here
  | cons head past =>
    cases eq
    exact weaker past event (warranted past event later rfl)

/-- What a stretch of a warranted history ends in. -/
theorem Warranted.of_stands (warranted : Warranted warrant history) {past : List α} {event : α}
    (stands : past ++ [event] <+: history) : warrant past event := by
  obtain ⟨later, whole⟩ := stands
  exact warranted past event later (by rw [← whole, List.append_assoc, List.singleton_append])

/-- An event of a warranted history, with what came before it. -/
theorem Warranted.of_mem (warranted : Warranted warrant history) {event : α}
    (member : event ∈ history) : ∃ past, past ++ [event] <+: history ∧ warrant past event := by
  obtain ⟨past, later, rfl⟩ := List.append_of_mem member
  exact ⟨past, ⟨later, by simp⟩, warranted past event later rfl⟩

/-- An order of events before a new one is an order ending in it. -/
theorem sublist_concat {events : List α} (before : events.Sublist history) (event : α) :
    (events ++ [event]).Sublist (history ++ [event]) :=
  before.append (List.Sublist.refl _)

theorem sublist_growth {events later : List α} (before : events.Sublist history)
    (grows : history <+: later) : events.Sublist later :=
  before.trans grows.sublist

/-! ## Keys -/

/-- No two events have the same key. -/
def Keyed (key : α → Option κ) (history : List α) : Prop :=
  (history.filterMap key).Nodup

variable {key : α → Option κ}

theorem Keyed.nil : Keyed key ([] : List α) := List.nodup_nil

theorem Keyed.append (keyed : Keyed key history) {event : α}
    (unused : ∀ k, key event = some k → ∀ earlier ∈ history, key earlier ≠ some k) :
    Keyed key (history ++ [event]) := by
  unfold Keyed
  rw [List.filterMap_append]
  cases found : key event with
  | none =>
    rw [show List.filterMap key [event] = [] by simp [found], List.append_nil]
    exact keyed
  | some k =>
    have once : List.filterMap key [event] = [k] := by simp [found]
    rw [once]
    refine List.Nodup.append keyed (List.nodup_singleton k) ?_
    intro other member same
    obtain ⟨earlier, me, keyOf⟩ := List.mem_filterMap.mp member
    rw [List.mem_singleton] at same
    exact unused k found earlier me (same ▸ keyOf)

/-- A key names one event. -/
theorem Keyed.unique (keyed : Keyed key history) {a b : α} {k : κ} (ma : a ∈ history)
    (mb : b ∈ history) (ka : key a = some k) (kb : key b = some k) : a = b := by
  induction history with
  | nil => cases ma
  | cons head tail ih =>
    unfold Keyed at keyed
    rw [List.filterMap_cons] at keyed
    have rest : Keyed key tail := by
      split at keyed
      · exact keyed
      · exact (List.nodup_cons.mp keyed).2
    -- A key of the head is not one of the tail.
    have apart : ∀ other ∈ tail, key head = some k → key other ≠ some k := by
      intro other member keyHead keyOther
      rw [keyHead] at keyed
      exact (List.nodup_cons.mp keyed).1 (List.mem_filterMap.mpr ⟨other, member, keyOther⟩)
    rcases List.mem_cons.mp ma with rfl | inA <;> rcases List.mem_cons.mp mb with rfl | inB
    · rfl
    · exact (apart b inB ka kb).elim
    · exact (apart a inA kb ka).elim
    · exact ih rest inA inB

end McpSsh.History
