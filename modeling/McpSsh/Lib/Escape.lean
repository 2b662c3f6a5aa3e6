import Mathlib.Data.List.Basic

/-!
# Escapes

Symbols written one after another, each as itself or as an escape: a symbol that
is only ever the start of an escape, a lead, a body that names what was escaped,
and a stop that no body holds. Read from the left, the start says that an escape
begins and the first stop where it ends, so bodies need neither a length nor a
fixed width for the whole to be read back (`text_inj`).
-/

/-- A way of escaping symbols. -/
structure Escape (α : Type) where
  plain : α → Bool
  start : α
  lead : List α
  body : α → List α
  stop : α
  /-- A start is never written as itself, -/
  marked : plain start = false
  /-- nor does it occur further on in an escape. -/
  only : ∀ a, start ∉ lead ++ body a ++ [stop]
  closed : ∀ a, stop ∉ body a
  faithful : ∀ a b, body a = body b → a = b

namespace Escape

variable {α : Type} {escape : Escape α}

/-- One symbol. -/
def write (escape : Escape α) (a : α) : List α :=
  if escape.plain a then [a] else escape.start :: (escape.lead ++ escape.body a ++ [escape.stop])

/-- Symbols one after another. -/
def text (escape : Escape α) (symbols : List α) : List α := symbols.flatMap escape.write

theorem write_plain {a : α} (plain : escape.plain a = true) : escape.write a = [a] := if_pos plain

theorem write_escaped {a : α} (escaped : escape.plain a = false) :
    escape.write a = escape.start :: (escape.lead ++ escape.body a ++ [escape.stop]) :=
  if_neg (Bool.eq_false_iff.mp escaped)

theorem text_cons (a : α) (symbols : List α) :
    escape.text (a :: symbols) = escape.write a ++ escape.text symbols := List.flatMap_cons

theorem write_ne_nil (a : α) : escape.write a ≠ [] := by
  unfold write
  split
  · exact List.cons_ne_nil _ _
  · exact List.cons_ne_nil _ _

/-- What comes before the first stop is told apart from what comes after it. -/
theorem until_inj {stop : α} {front other back back' : List α} (open' : stop ∉ front)
    (open'' : stop ∉ other) (same : front ++ stop :: back = other ++ stop :: back') :
    front = other ∧ back = back' := by
  induction front generalizing other with
  | nil =>
    cases other with
    | nil => exact ⟨rfl, (List.cons.inj same).2⟩
    | cons first other => exact absurd ((List.cons.inj same).1 ▸ List.mem_cons_self) open''
  | cons first front ih =>
    cases other with
    | nil => exact absurd ((List.cons.inj same).1 ▸ List.mem_cons_self) open'
    | cons first' other =>
      obtain ⟨rfl, later⟩ := List.cons.inj same
      obtain ⟨rfl, rest⟩ :=
        ih (mt (List.mem_cons_of_mem _) open') (mt (List.mem_cons_of_mem _) open'') later
      exact ⟨rfl, rest⟩

/-- What is written of a symbol shows which it was, and where the rest begins. -/
theorem write_cancel {a b : α} {rest rest' : List α}
    (same : escape.write a ++ rest = escape.write b ++ rest') : a = b ∧ rest = rest' := by
  cases plain : escape.plain a with
  | true =>
    rw [write_plain plain] at same
    cases plain' : escape.plain b with
    | true =>
      rw [write_plain plain'] at same
      exact List.cons.inj same
    | false =>
      rw [write_escaped plain'] at same
      obtain ⟨rfl, -⟩ := List.cons.inj same
      exact nomatch plain.symm.trans escape.marked
  | false =>
    rw [write_escaped plain] at same
    cases plain' : escape.plain b with
    | true =>
      rw [write_plain plain'] at same
      obtain ⟨rfl, -⟩ := List.cons.inj same
      exact nomatch plain'.symm.trans escape.marked
    | false =>
      rw [write_escaped plain', List.cons_append, List.cons_append] at same
      have inner := (List.cons.inj same).2
      rw [List.append_assoc, List.append_assoc, List.append_assoc, List.append_assoc] at inner
      have bodies := List.append_cancel_left inner
      obtain ⟨body, rest⟩ := until_inj (escape.closed a) (escape.closed b) bodies
      exact ⟨escape.faithful a b body, rest⟩

/-- **Unique reading.** Symbols that are written alike are the same. -/
theorem text_inj {symbols others : List α} (same : escape.text symbols = escape.text others) :
    symbols = others := by
  induction symbols generalizing others with
  | nil =>
    cases others with
    | nil => rfl
    | cons b others =>
      rw [text_cons] at same
      exact absurd (List.append_eq_nil_iff.mp same.symm).1 (write_ne_nil b)
  | cons a symbols ih =>
    cases others with
    | nil =>
      rw [text_cons] at same
      exact absurd (List.append_eq_nil_iff.mp same).1 (write_ne_nil a)
    | cons b others =>
      rw [text_cons, text_cons] at same
      obtain ⟨rfl, rest⟩ := write_cancel same
      rw [ih rest]

/-- Within what is written of one symbol, a start is at the front. -/
theorem start_of_write {a : α} {front back : List α}
    (split : escape.write a = front ++ escape.start :: back) :
    escape.plain a = false ∧ back = escape.lead ++ escape.body a ++ [escape.stop] := by
  cases plain : escape.plain a with
  | true =>
    rw [write_plain plain] at split
    have listed : escape.start ∈ [a] := split ▸ List.mem_append_right front List.mem_cons_self
    rw [← List.mem_singleton.mp listed] at plain
    exact nomatch plain.symm.trans escape.marked
  | false =>
    rw [write_escaped plain] at split
    cases front with
    | nil => exact ⟨rfl, (List.cons.inj split).2.symm⟩
    | cons first front =>
      have later : escape.start ∈ escape.lead ++ escape.body a ++ [escape.stop] := by
        rw [(List.cons.inj split).2]
        exact List.mem_append_right front List.mem_cons_self
      exact absurd later (escape.only a)

/-- A start is nowhere but at the front of an escape, which is all there. -/
theorem start_of_text {symbols front back : List α}
    (split : escape.text symbols = front ++ escape.start :: back) :
    ∃ a rest, escape.plain a = false ∧
      back = escape.lead ++ escape.body a ++ escape.stop :: rest := by
  induction symbols generalizing front with
  | nil => exact absurd split.symm (List.append_ne_nil_of_right_ne_nil _ (List.cons_ne_nil _ _))
  | cons a symbols ih =>
    rw [text_cons] at split
    rcases List.append_eq_append_iff.mp split with ⟨middle, -, later⟩ | ⟨middle, here, later⟩
    · exact ih later
    · cases middle with
      | nil => exact ih (show escape.text symbols = [] ++ escape.start :: back from later.symm)
      | cons first middle =>
        rw [List.cons_append] at later
        obtain ⟨rfl, rfl⟩ := List.cons.inj later
        obtain ⟨escaped, rfl⟩ := start_of_write here
        refine ⟨a, escape.text symbols, escaped, ?_⟩
        rw [List.append_assoc]
        rfl

/-- What is written is made of plain symbols and of what escapes are made of. -/
theorem mem_text {symbols : List α} {x : α} (listed : x ∈ escape.text symbols) :
    escape.plain x = true ∨
      ∃ a, escape.plain a = false ∧
        x ∈ escape.start :: (escape.lead ++ escape.body a ++ [escape.stop]) := by
  obtain ⟨a, -, written⟩ := List.mem_flatMap.mp listed
  cases plain : escape.plain a with
  | true =>
    rw [write_plain plain] at written
    rw [List.mem_singleton.mp written]
    exact .inl plain
  | false =>
    rw [write_escaped plain] at written
    exact .inr ⟨a, plain, written⟩

end Escape

/-- Writing the pieces between separators and joining them is writing the whole,
with the separators as they are. -/
theorem List.intercalate_flatMap_splitOn {α : Type} [DecidableEq α] (separator : α)
    (write : α → List α) (symbols : List α) :
    [separator].intercalate ((symbols.splitOn separator).map (·.flatMap write)) =
      symbols.flatMap fun a => if a = separator then [separator] else write a := by
  induction symbols with
  | nil => rfl
  | cons a symbols ih =>
    rw [List.flatMap_cons, ← ih, List.splitOn_cons_eq_if_modifyHead]
    have pieces := List.splitOn_ne_nil separator symbols
    by_cases same : a = separator
    · rw [if_pos (beq_iff_eq.mpr same), if_pos same, List.map_cons,
        List.intercalate_cons_of_ne_nil (by simp)]
      rfl
    · rw [if_neg (by simpa using same), if_neg same]
      cases found : symbols.splitOn separator with
      | nil => exact absurd found pieces
      | cons piece pieces =>
        cases pieces with
        | nil => simp
        | cons next pieces => simp
