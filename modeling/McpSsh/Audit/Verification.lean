import McpSsh.Audit.Chain

/-!
# Verification

`verify` walks the retained window once, oldest first, and then compares what is
present with what was issued. `check` asks the same of one entry before
retention discards anything of it; `Sound` says that every entry passes it and
that none is missing, which is when `verify` succeeds.
-/

namespace McpSsh.Ledger

/-- What a verification found wrong. -/
inductive Broken
  | outOfOrder (at_ found : Nat)
  | linkMismatch (at_ : Nat)
  | contentAltered (at_ : Nat)
  | entriesMissing (issued present : Nat)
  | headMismatch
  deriving DecidableEq, Repr

/-- The result of a successful verification. -/
structure Verified where
  entries : Nat
  sealed : Nat
  retired : Nat
  deriving DecidableEq, Repr

/-- The place after `index` retained entries, saturating as the source counts. -/
def Issued.position (issued : Issued) (index : Nat) : Nat :=
  min (issued.retired + index) maxCount

namespace State

section
variable (format : Format)

/-- What `verify_window` finds wrong with an entry at an index, after a link. -/
def fault (issued : Issued) (index : Nat) (expected : Digest) (held : Held) : Option Broken :=
  if held.sequence ≠ issued.position index then
    some (.outOfOrder (issued.position index) held.sequence)
  else if held.previous ≠ expected then some (.linkMismatch held.sequence)
  else if issued.digests[index]? ≠ some held.digest then some (.contentAltered held.sequence)
  else
    match held with
    | .intact entry =>
      if format.digestOf entry ≠ entry.digest then some (.contentAltered entry.sequence) else none
    | .sealed .. => none

/-- The loop of `verify_window` from an index on, and how many entries it could
not read. -/
def verifyEntries (issued : Issued) : Nat → Digest → List Held → Except Broken Nat
  | _, _, [] => .ok 0
  | index, expected, held :: rest =>
    match fault format issued index expected held with
    | some broken => .error broken
    | none => do
      let hidden ← verifyEntries issued (index + 1) held.digest rest
      return if held.isIntact then hidden else hidden + 1

/-- `Ledger::verify_window`. -/
def verifyWindow (state : State) (limit : Option Nat) : Except Broken Verified := do
  let start := limit.elim 0 (state.entries.length - ·)
  let hidden ← verifyEntries format state.issued start (state.linkAt start)
    (state.entries.drop start)
  -- A chain cannot notice its own missing tail: every remaining link is right.
  let present := state.issued.position state.entries.length
  if present ≠ state.issued.total then throw (.entriesMissing state.issued.total present)
  if state.entries.getLast?.map Held.digest ≠ state.issued.digests.getLast? then
    throw .headMismatch
  return ⟨state.entries.length - start, hidden, state.issued.retired⟩

/-- `Ledger::verify`. -/
def verify (state : State) : Except Broken Verified := state.verifyWindow format none

/-- `Ledger::verify_recent`. -/
def verifyRecent (state : State) (limit : Nat) : Except Broken Verified :=
  state.verifyWindow format (some limit)

end

/-! ## What the loop accepts -/

variable {format : Format} {state : State} {issued : Issued}

/-- An entry the loop lets pass at an index, after a link. -/
def Passes (format : Format) (issued : Issued) (index : Nat) (expected : Digest) (held : Held) :
    Prop :=
  held.sequence = issued.position index ∧ held.previous = expected ∧
    issued.digests[index]? = some held.digest ∧
    ∀ entry, held = .intact entry → format.digestOf entry = entry.digest

theorem fault_eq_none {index : Nat} {expected : Digest} {held : Held} :
    fault format issued index expected held = none ↔
      Passes format issued index expected held := by
  unfold fault Passes
  cases held with
  | intact entry => grind
  | «sealed» sequence previous digest => grind

/-- The loop succeeds on an entry and what follows it exactly when the entry
passes and the loop succeeds on what follows. -/
theorem verifyEntries_cons (index : Nat) (expected : Digest) (held : Held) (rest : List Held) :
    (verifyEntries format issued index expected (held :: rest)).isOk = true ↔
      Passes format issued index expected held ∧
        (verifyEntries format issued (index + 1) held.digest rest).isOk = true := by
  rw [← fault_eq_none, verifyEntries]
  cases fault format issued index expected held with
  | some broken => exact ⟨fun ok => (by cases ok), fun ⟨passes, _⟩ => (by cases passes)⟩
  | none =>
    simp only [bind, Except.bind]
    cases verifyEntries format issued (index + 1) held.digest rest with
    | error => exact ⟨fun ok => (by cases ok), fun ⟨_, ok⟩ => ok⟩
    | ok => exact ⟨fun _ => ⟨trivial, rfl⟩, fun _ => rfl⟩

/-- The digest the loop expects at a place of the list it walks. -/
def linkAfter (expected : Digest) (entries : List Held) : Nat → Digest
  | 0 => expected
  | before + 1 => (entries[before]?.map Held.digest).getD expected

/-- The loop accepts a list exactly when each entry passes at its place. -/
theorem verifyEntries_isOk (format : Format) (issued : Issued) (index : Nat) (expected : Digest) (entries : List Held) :
    (verifyEntries format issued index expected entries).isOk = true ↔
      ∀ place held, entries[place]? = some held →
        Passes format issued (index + place) (linkAfter expected entries place) held := by
  induction entries generalizing index expected with
  | nil =>
    refine ⟨fun _ place held found => ?_, fun _ => rfl⟩
    cases found
  | cons first rest ih =>
    rw [verifyEntries_cons, ih]
    constructor
    · rintro ⟨here, later⟩ place held found
      cases place with
      | zero =>
        cases found
        exact here
      | succ place =>
        have passes := later place held (by simpa using found)
        rw [Nat.add_assoc, Nat.add_comm 1] at passes
        cases place with
        | zero => exact passes
        | succ before =>
          have within := (List.getElem?_eq_some_iff.mp found).1
          simp only [List.length_cons] at within
          simpa [linkAfter, show before < rest.length by omega] using passes
    · intro all
      refine ⟨all 0 first rfl, fun place held found => ?_⟩
      have passes := all (place + 1) held (by simpa using found)
      rw [Nat.add_assoc, Nat.add_comm 1]
      cases place with
      | zero => exact passes
      | succ before =>
        have within := (List.getElem?_eq_some_iff.mp found).1
        simpa [linkAfter, show before < rest.length by omega] using passes

/-- What makes the walk from any place on the loop's own. -/
theorem linkAfter_drop (state : State) (start : Nat) {place : Nat}
    (within : start + place < state.entries.length) :
    linkAfter (state.linkAt start) (state.entries.drop start) place =
      state.linkAt (start + place) := by
  cases place with
  | zero => rfl
  | succ before =>
    have found := List.getElem?_eq_getElem (show start + before < state.entries.length by omega)
    change _ = ((state.entries[start + before]?).map Held.digest).getD state.issued.checkpoint
    simp only [linkAfter, List.getElem?_drop, found, Option.map_some, Option.getD_some]

/-- `verify_window` succeeds when every entry from its start on passes, none is
missing, and the head is the one issued. -/
theorem verifyWindow_isOk (state : State) (limit : Option Nat) :
    (state.verifyWindow format limit).isOk = true ↔
      (∀ index held, limit.elim 0 (state.entries.length - ·) ≤ index →
        state.entries[index]? = some held →
          Passes format state.issued index (state.linkAt index) held) ∧
      state.issued.position state.entries.length = state.issued.total ∧
      state.entries.getLast?.map Held.digest = state.issued.digests.getLast? := by
  have walk := verifyEntries_isOk format state.issued
    (limit.elim 0 (state.entries.length - ·)) (state.linkAt (limit.elim 0 (state.entries.length - ·)))
    (state.entries.drop (limit.elim 0 (state.entries.length - ·)))
  unfold verifyWindow
  generalize limit.elim 0 (state.entries.length - ·) = start at walk ⊢
  have places : (∀ index held, start ≤ index → state.entries[index]? = some held →
        Passes format state.issued index (state.linkAt index) held) ↔
      (verifyEntries format state.issued start (state.linkAt start)
        (state.entries.drop start)).isOk = true := by
    rw [walk]
    constructor
    · intro all place held found
      rw [List.getElem?_drop] at found
      rw [linkAfter_drop _ _ (List.getElem?_eq_some_iff.mp found).1]
      exact all _ held (Nat.le_add_right _ _) found
    · intro all index held le found
      obtain ⟨place, rfl⟩ := Nat.exists_eq_add_of_le le
      rw [← linkAfter_drop _ _ (List.getElem?_eq_some_iff.mp found).1]
      exact all place held (by rw [List.getElem?_drop]; exact found)
  rw [places]
  simp only [bind, Except.bind, pure, Except.pure, throw, throwThe, MonadExceptOf.throw]
  cases verifyEntries format state.issued start (state.linkAt start) (state.entries.drop start) with
  | error => exact ⟨fun ok => (by cases ok), fun ⟨ok, _⟩ => ok⟩
  | ok hidden =>
    simp only
    split
    · rename_i missing
      exact ⟨fun ok => (by cases ok), fun ⟨_, present, _⟩ => absurd present missing⟩
    · rename_i present
      split
      · rename_i head
        exact ⟨fun ok => (by cases ok), fun ⟨_, _, same⟩ => absurd same head⟩
      · rename_i head
        rw [not_not] at present head
        exact ⟨fun _ => ⟨rfl, present, head⟩, fun _ => rfl⟩

/-- A record that verifies verifies from any place on. -/
theorem verifyRecent_isOk (ok : (state.verify format).isOk = true) (limit : Nat) :
    (state.verifyRecent format limit).isOk = true := by
  obtain ⟨entries, rest⟩ := (verifyWindow_isOk state none).mp ok
  exact (verifyWindow_isOk state (some limit)).mpr
    ⟨fun index held _ found => entries index held (Nat.zero_le _) found, rest⟩

/-! ## Soundness of a state -/

/-- The commitments account for everything issued. -/
def Anchored (state : State) : Prop :=
  state.issued.retired + state.issued.digests.length = state.issued.total ∧
    state.issued.total ≤ maxCount

/-- Each entry passes the check that retention makes, and none is missing. -/
def Sound (format : Format) (state : State) : Prop :=
  state.entries.length = state.issued.digests.length ∧
    ∀ index, index < state.entries.length → state.check format index = true

theorem check_eq_true_iff (anchored : state.Anchored) {index : Nat} {held : Held}
    (found : state.entries[index]? = some held) :
    state.check format index = true ↔ Passes format state.issued index (state.linkAt index) held := by
  obtain ⟨total, bound⟩ := anchored
  have place : state.issued.digests[index]? = some held.digest →
      state.issued.position index = state.issued.retired + index ∧
        state.issued.retired + index ≤ maxCount := by
    intro issued
    have within := (List.getElem?_eq_some_iff.mp issued).1
    unfold Issued.position
    omega
  unfold check Passes
  rw [found]
  cases held with
  | intact entry => grind
  | «sealed» sequence previous digest => grind

/-- `verify` succeeds exactly on the sound states. -/
theorem verify_isOk_iff (anchored : state.Anchored) :
    (state.verify format).isOk = true ↔ state.Sound format := by
  have same := anchored
  obtain ⟨total, bound⟩ := anchored
  rw [verify, verifyWindow_isOk]
  constructor
  · rintro ⟨passes, present, -⟩
    have checked : ∀ index, index < state.entries.length → state.check format index = true := by
      intro index within
      have found := List.getElem?_eq_getElem within
      exact (check_eq_true_iff same found).mpr (passes index _ (Nat.zero_le _) found)
    -- Each entry has a commitment of its own, so the saturating count is exact.
    have le : state.entries.length ≤ state.issued.digests.length := by
      rcases Nat.eq_zero_or_pos state.entries.length with none' | some'
      · omega
      · have found := List.getElem?_eq_getElem
          (show state.entries.length - 1 < state.entries.length by omega)
        have issued := (passes _ _ (Nat.zero_le _) found).2.2.1
        have within := (List.getElem?_eq_some_iff.mp issued).1
        omega
    refine ⟨?_, checked⟩
    unfold Issued.position at present
    omega
  · rintro ⟨length, checked⟩
    have passes : ∀ index held, state.entries[index]? = some held →
        Passes format state.issued index (state.linkAt index) held := fun index held found =>
      (check_eq_true_iff same found).mp (checked index (List.getElem?_eq_some_iff.mp found).1)
    refine ⟨fun index held _ found => passes index held found, ?_, ?_⟩
    · unfold Issued.position
      omega
    · rw [List.getLast?_eq_getElem?, List.getLast?_eq_getElem?, ← length]
      rcases Nat.eq_zero_or_pos state.entries.length with none' | some'
      · simp [List.eq_nil_of_length_eq_zero none', List.eq_nil_of_length_eq_zero (length ▸ none')]
      · have found := List.getElem?_eq_getElem
          (show state.entries.length - 1 < state.entries.length by omega)
        rw [found, (passes _ _ found).2.2.1]
        rfl

end State

namespace Represents
variable {format : Format} {genesis : Digest} {committed : List Entry} {state : State}

theorem anchored (rep : Represents format genesis committed state) : state.Anchored := by
  have window := rep.window
  have bound := rep.bound
  refine ⟨?_, by rw [rep.total]; exact bound⟩
  rw [rep.digests, List.length_map, rep.total]
  exact window

theorem sound (rep : Represents format genesis committed state) : state.Sound format :=
  ⟨by rw [rep.digests, List.length_map], fun _ within => rep.check_eq_true within⟩

/-- A state that stands for what was committed verifies. -/
theorem verify_isOk (rep : Represents format genesis committed state) :
    (state.verify format).isOk = true :=
  (State.verify_isOk_iff rep.anchored).mpr rep.sound

end Represents

end McpSsh.Ledger
