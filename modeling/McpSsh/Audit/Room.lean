import McpSsh.Audit.Verification
import Mathlib.Algebra.Order.BigOperators.Group.List
import Mathlib.Logic.Relation

/-!
# What making room may do

Whatever an operation of the ledger discards, it discards by one of three
steps: sealing an entry that passes its check, retiring the oldest entry if it
passes, and dropping indexes of what is gone. `MakesRoom` is any number of
them. What each step keeps is said here once: the count of what was issued and
the head, the budgets, and the place and the check of every entry that stays.
-/

namespace McpSsh.Ledger

open Relation

/-- A held entry without its content. -/
def Held.hidden (held : Held) : Held := .sealed held.sequence held.previous held.digest

@[simp] theorem Held.hidden_sequence (held : Held) : held.hidden.sequence = held.sequence := rfl
@[simp] theorem Held.hidden_previous (held : Held) : held.hidden.previous = held.previous := rfl
@[simp] theorem Held.hidden_digest (held : Held) : held.hidden.digest = held.digest := rfl
@[simp] theorem Held.hidden_hidden (held : Held) : held.hidden.hidden = held.hidden := rfl

namespace State

/-- One thing an operation may discard. -/
inductive Discards (format : Format) (alive : Nat → Bool) : State → State → Prop
  | sealAt {before after : State} {index : Nat} (done : before.sealAt format index = .ok after) :
      Discards format alive before after
  | retireFront {before after : State} (done : before.retireFront format = .ok after) :
      Discards format alive before after
  | prune (state : State) : Discards format alive state (state.pruneIndexes alive)

/-- What an operation may discard altogether. -/
def MakesRoom (format : Format) (alive : Nat → Bool) : State → State → Prop :=
  ReflTransGen (Discards format alive)

variable {format : Format} {limits : Limits} {alive : Nat → Bool} {now : Nat}
variable {before after state : State}

/-! ## The operations -/

/-- An operation that only makes room: whether it finishes or not, it left what
it leaves by discarding. -/
def Left (format : Format) (alive : Nat → Bool) (before : State) (result : Except Refused State) :
    Prop :=
  match result with
  | .ok after => MakesRoom format alive before after
  | .error (_, after) => MakesRoom format alive before after

theorem Left.trans {result : Except Refused State} {middle : State}
    (first : MakesRoom format alive before middle) (rest : Left format alive middle result) :
    Left format alive before result := by
  cases result with
  | ok after => exact ReflTransGen.trans first rest
  | error refused => exact ReflTransGen.trans first rest

theorem Left.of_ok {result : Except Refused State} (left : Left format alive before result)
    (done : result = .ok after) : MakesRoom format alive before after := by
  subst done
  exact left

theorem Left.of_error {result : Except Refused State} {error : AuditError}
    (left : Left format alive before result) (failed : result = .error (error, after)) :
    MakesRoom format alive before after := by
  subst failed
  exact left

/-- What follows a step that sealed, or could not. -/
theorem sealAt_left {index : Nat} {next : State → Except Refused State}
    (rest : ∀ after, state.sealAt format index = .ok after → Left format alive after (next after)) :
    Left format alive state (match state.sealAt format index with
      | .error error => .error (error, state)
      | .ok after => next after) := by
  cases done : state.sealAt format index with
  | error error => exact .refl
  | ok after => exact (rest after done).trans (.single (.sealAt done))

theorem sealStale_left (format : Format) (limits : Limits) (alive : Nat → Bool) (now : Nat)
    (indexes : List Nat) (state : State) :
    Left format alive state (sealStale format limits now indexes state) := by
  induction indexes generalizing state with
  | nil => exact .refl
  | cons index rest ih =>
    unfold sealStale
    split
    · exact sealAt_left (fun after _ => ih after)
    · exact ih state

theorem sealFor_left (format : Format) (limits : Limits) (alive : Nat → Bool) (charge : Nat)
    (indexes : List Nat) (state : State) :
    Left format alive state (sealFor format limits charge indexes state) := by
  induction indexes generalizing state with
  | nil => exact .refl
  | cons index rest ih =>
    unfold sealFor
    split
    · exact .refl
    · exact sealAt_left (fun after _ => ih after)

theorem reclaim_left (format : Format) (limits : Limits) (alive : Nat → Bool) (now : Nat)
    (state : State) :
    Left format alive state (state.reclaim format limits alive now) := by
  unfold reclaim
  split
  · have stale := sealStale_left format limits alive now
      (List.range state.entries.length) state
    cases done : sealStale format limits now (List.range state.entries.length) state with
    | error refused =>
      rw [done] at stale
      exact stale
    | ok middle =>
      rw [done] at stale
      exact ReflTransGen.tail stale (.prune middle)
  · exact .refl

theorem retire_left (format : Format) (alive : Nat → Bool) (count : Nat) (state : State) :
    Left format alive state (retire format count state) := by
  induction count generalizing state with
  | zero => exact .refl
  | succ count ih =>
    simp only [retire, bind, Except.bind]
    cases done : state.retireFront format with
    | error refused =>
      have same : refused.2 = state := by
        unfold retireFront at done
        grind
      change MakesRoom format alive state refused.2
      rw [same]
      exact .refl
    | ok next => exact Left.trans (.single (.retireFront done)) (ih next)

/-! ## What stays -/

/-- The digests of a window, which are all its links and its head are made of. -/
theorem linkAt_congr {a b : State} {i j : Nat}
    (previous : (a.entries.map Held.digest)[i]? = (b.entries.map Held.digest)[j]?)
    (within : i < a.entries.length) :
    a.linkAt (i + 1) = b.linkAt (j + 1) := by
  simp only [List.getElem?_map, List.getElem?_eq_getElem within] at previous
  simp only [linkAt, List.getElem?_eq_getElem within, ← previous, Option.map_some, Option.getD_some]

/-- A check asks about an entry, its place, its link and its commitment. -/
theorem check_congr {a b : State} {i j : Nat} (held : a.entries[i]? = b.entries[j]?)
    (place : a.issued.retired + i = b.issued.retired + j) (link : a.linkAt i = b.linkAt j)
    (digest : a.issued.digests[i]? = b.issued.digests[j]?) :
    a.check format i = b.check format j := by
  unfold check
  rw [held, place, link, digest]

/-- An entry that passes its check passes it without its content. -/
theorem check_hidden {a b : State} {index : Nat} {held : Held}
    (found : a.entries[index]? = some held) (hidden : b.entries[index]? = some held.hidden)
    (issued : b.issued = a.issued) (link : b.linkAt index = a.linkAt index)
    (passes : a.check format index = true) : b.check format index = true := by
  unfold check at passes ⊢
  rw [found] at passes
  rw [hidden, issued, link]
  simp only [Held.hidden_sequence, Held.hidden_previous, Held.hidden_digest]
  simp only [Bool.and_eq_true] at passes ⊢
  exact ⟨passes.1, rfl⟩

/-- What sealing does to the window. -/
theorem sealAt_spec {index : Nat} (done : before.sealAt format index = .ok after) :
    before.check format index = true ∧ after.issued = before.issued ∧
      after.proofs = before.proofs ∧ after.readableBytes ≤ before.readableBytes ∧
      (after = before ∨ ∃ held, before.entries[index]? = some held ∧
        after.entries = before.entries.set index held.hidden) := by
  unfold sealAt at done
  split at done
  · rename_i passes
    split at done
    · rename_i entry found
      cases done
      exact ⟨passes, rfl, rfl, Nat.sub_le _ _, .inr ⟨_, found, rfl⟩⟩
    · cases done
      exact ⟨passes, rfl, rfl, Nat.le_refl _, .inl rfl⟩
  · cases done

/-- What retiring does to the window. -/
theorem retireFront_spec (done : before.retireFront format = .ok after) :
    ∃ held, before.check format 0 = true ∧ before.entries = held :: after.entries ∧
      after.issued = { before.issued with
        checkpoint := held.digest
        retired := before.issued.retired + 1
        digests := before.issued.digests.tail } ∧
      after.proofs = before.proofs ∧ after.readableBytes ≤ before.readableBytes := by
  unfold retireFront at done
  split at done
  · rename_i passes
    split at done
    · split at done
      · cases done
      · rename_i held rest entries
        cases done
        exact ⟨held, passes, entries, rfl, rfl, Nat.sub_le _ _⟩
    · cases done
  · cases done

/-- Everything that passes a check has a commitment. -/
theorem commitment_of_check {index : Nat} (passes : state.check format index = true) :
    index < state.issued.digests.length := by
  unfold check at passes
  split at passes
  · cases passes
  · simp only [Bool.and_eq_true, decide_eq_true_eq] at passes
    exact (List.getElem?_eq_some_iff.mp passes.1.2).1

/-- Everything that passes a check is held. -/
theorem within_of_check {index : Nat} (passes : state.check format index = true) :
    index < state.entries.length := by
  unfold check at passes
  split at passes
  · cases passes
  · rename_i held found
    exact (List.getElem?_eq_some_iff.mp found).1

/-! ## The budgets -/

/-- Nothing counted against a budget grows, and nothing issued changes. -/
structure Shrinks (before after : State) : Prop where
  total : after.issued.total = before.issued.total
  head : after.head = before.head
  entries : after.entries.length ≤ before.entries.length
  readable : after.readableBytes ≤ before.readableBytes
  proofs : after.proofs.Sublist before.proofs

theorem Shrinks.refl (state : State) : Shrinks state state :=
  ⟨rfl, rfl, Nat.le_refl _, Nat.le_refl _, List.Sublist.refl _⟩

theorem Shrinks.trans {a b c : State} (first : Shrinks a b) (second : Shrinks b c) : Shrinks a c :=
  ⟨second.total.trans first.total, second.head.trans first.head,
    second.entries.trans first.entries, second.readable.trans first.readable,
    second.proofs.trans first.proofs⟩

/-- The head is the last digest held, or the checkpoint. -/
theorem head_eq_getLast (state : State) :
    state.head = (state.entries.map Held.digest).getLast?.getD state.issued.checkpoint := by
  rw [head, List.getLast?_map]

theorem Discards.shrinks (step : Discards format alive before after) : Shrinks before after := by
  cases step with
  | sealAt done =>
    obtain ⟨-, issued, proofs, readable, rfl | ⟨held, found, entries⟩⟩ := sealAt_spec done
    · exact Shrinks.refl _
    · refine ⟨by rw [issued], ?_, by rw [entries, List.length_set], readable, by rw [proofs]⟩
      rw [head_eq_getLast, head_eq_getLast, issued, entries, List.map_set]
      congr 2
      refine List.ext_getElem? fun other => ?_
      obtain ⟨within, here⟩ := List.getElem?_eq_some_iff.mp found
      rw [List.getElem?_set]
      split
      · rename_i same
        subst same
        simp [within, here]
      · rfl
  | retireFront done =>
    obtain ⟨held, -, entries, issued, proofs, readable⟩ := retireFront_spec done
    refine ⟨by rw [issued], ?_, by rw [entries]; simp, readable, by rw [proofs]⟩
    rw [head_eq_getLast, head_eq_getLast, issued, entries]
    cases after.entries with
    | nil => rfl
    | cons next rest => simp [List.getLast?_cons]
  | prune => exact ⟨rfl, rfl, Nat.le_refl _, Nat.le_refl _, List.filter_sublist⟩

theorem MakesRoom.shrinks (room : MakesRoom format alive before after) : Shrinks before after := by
  induction room with
  | refl => exact Shrinks.refl _
  | tail _ step ih => exact ih.trans step.shrinks

/-- An entry is drafted from the count and the head alone. -/
theorem Shrinks.draft (shrinks : Shrinks before after) (format : Format) (now : Nat) (who : Attribution) (event : Event) :
    after.draft format now who event = before.draft format now who event := by
  unfold State.draft
  rw [shrinks.total, shrinks.head]

/-! ## Every entry that stays -/

/-- Entries only leave from the front, and only those that pass their check;
every other keeps its place and its verdict, and its content unless it passes. -/
structure Evolves (format : Format) (before after : State) : Prop where
  forward : before.issued.retired ≤ after.issued.retired
  gone : ∀ index, index < before.entries.length →
    before.issued.retired + index < after.issued.retired → before.check format index = true
  kept : ∀ index held, before.entries[index]? = some held →
    ∀ later, after.issued.retired + later = before.issued.retired + index →
      after.check format later = before.check format index ∧
        (after.entries[later]? = some held ∨
          before.check format index = true ∧ after.entries[later]? = some held.hidden)
  even : after.entries.length = after.issued.digests.length ↔
    before.entries.length = before.issued.digests.length
  anchored : before.Anchored → after.Anchored

theorem Evolves.refl (state : State) : Evolves format state state where
  forward := Nat.le_refl _
  gone := fun index _ less => absurd less (by omega)
  kept := by
    intro index held found later same
    obtain rfl : later = index := by omega
    exact ⟨rfl, .inl found⟩
  even := Iff.rfl
  anchored := id

theorem Evolves.trans {a b c : State} (first : Evolves format a b) (second : Evolves format b c) :
    Evolves format a c where
  forward := Nat.le_trans first.forward second.forward
  gone := by
    intro index within less
    rcases Nat.lt_or_ge (a.issued.retired + index) b.issued.retired with early | late
    · exact first.gone index within early
    · obtain ⟨later, same⟩ := Nat.exists_eq_add_of_le late
      obtain ⟨check, stays⟩ :=
        first.kept index _ (List.getElem?_eq_getElem within) later same.symm
      rw [← check]
      have within' : later < b.entries.length := by
        rcases stays with found | ⟨-, found⟩
        · exact (List.getElem?_eq_some_iff.mp found).1
        · exact (List.getElem?_eq_some_iff.mp found).1
      exact second.gone later within' (by omega)
  kept := by
    intro index held found last same
    have forward := second.forward
    obtain ⟨later, same'⟩ :=
      Nat.exists_eq_add_of_le (show b.issued.retired ≤ a.issued.retired + index by omega)
    obtain ⟨check, stays⟩ := first.kept index held found later same'.symm
    rcases stays with found' | ⟨passes, found'⟩
    · obtain ⟨check', stays'⟩ := second.kept later held found' last (by omega)
      rw [check'.trans check]
      rw [check] at stays'
      exact ⟨rfl, stays'⟩
    · obtain ⟨check', stays'⟩ := second.kept later held.hidden found' last (by omega)
      refine ⟨check'.trans check, .inr ⟨passes, ?_⟩⟩
      rcases stays' with found'' | ⟨-, found''⟩
      · exact found''
      · exact found''
  even := second.even.trans first.even
  anchored := second.anchored ∘ first.anchored

/-- Sealing moves no link. -/
theorem linkAt_set_hidden {index : Nat} {held : Held} (found : before.entries[index]? = some held)
    (entries : after.entries = before.entries.set index held.hidden)
    (issued : after.issued = before.issued) (other : Nat) :
    after.linkAt other = before.linkAt other := by
  cases other with
  | zero => simp only [linkAt, issued]
  | succ earlier =>
    simp only [linkAt, entries, issued, List.getElem?_set]
    split
    · rename_i same
      subst same
      obtain ⟨within, here⟩ := List.getElem?_eq_some_iff.mp found
      simp [within, here]
    · rfl

theorem sealAt_evolves {index : Nat} (done : before.sealAt format index = .ok after) :
    Evolves format before after := by
  obtain ⟨passes, issued, -, -, rfl | ⟨held, found, entries⟩⟩ := sealAt_spec done
  · exact Evolves.refl _
  refine {
    forward := by rw [issued]
    gone := fun other _ less => by rw [issued] at less; omega
    kept := fun other held' found' later same => ?_
    even := by rw [issued, entries, List.length_set]
    anchored := by unfold Anchored; rw [issued]; exact id }
  rw [issued] at same
  obtain rfl : later = other := by omega
  have link := linkAt_set_hidden found entries issued later
  rcases eq_or_ne index later with rfl | differ
  · rw [found] at found'
    cases found'
    have hidden : after.entries[index]? = some held.hidden := by
      rw [entries, List.getElem?_set_self (List.getElem?_eq_some_iff.mp found).1]
    exact ⟨(check_hidden found hidden issued link passes).trans passes.symm, .inr ⟨passes, hidden⟩⟩
  · have untouched : after.entries[later]? = before.entries[later]? := by
      rw [entries, List.getElem?_set_ne differ]
    exact ⟨check_congr untouched (by rw [issued]) link (by rw [issued]),
      .inl (untouched.trans found')⟩

theorem retireFront_evolves (done : before.retireFront format = .ok after) :
    Evolves format before after := by
  obtain ⟨held, passes, entries, issued, -, -⟩ := retireFront_spec done
  have committed := commitment_of_check passes
  refine {
    forward := by rw [issued]; exact Nat.le_succ _
    gone := fun index _ less => by
      rw [issued] at less
      obtain rfl : index = 0 := by simp only at less; omega
      exact passes
    kept := fun index held' found later same => ?_
    even := by
      rw [issued, entries, List.length_cons, List.length_tail]
      omega
    anchored := fun ⟨total, bound⟩ => by
      refine ⟨?_, by rw [issued]; exact bound⟩
      rw [issued, List.length_tail]
      simp only
      omega }
  rw [issued] at same
  simp only at same
  obtain rfl : index = later + 1 := by omega
  have stays : after.entries[later]? = before.entries[later + 1]? := by rw [entries]; rfl
  refine ⟨check_congr stays (by rw [issued]; simp only; omega) ?_ ?_, .inl (stays.trans found)⟩
  · cases later with
    | zero => simp [linkAt, entries, issued]
    | succ earlier =>
      have within := (List.getElem?_eq_some_iff.mp found).1
      rw [entries, List.length_cons] at within
      exact linkAt_congr (by rw [entries]; rfl) (by omega)
  · rw [issued]
    simp

theorem Discards.evolves (step : Discards format alive before after) :
    Evolves format before after := by
  cases step with
  | sealAt done => exact sealAt_evolves done
  | retireFront done => exact retireFront_evolves done
  | prune => exact { Evolves.refl before with }

theorem MakesRoom.evolves (room : MakesRoom format alive before after) :
    Evolves format before after := by
  induction room with
  | refl => exact Evolves.refl _
  | tail _ step ih => exact ih.trans step.evolves

/-! ## Room for one entry -/

/-- What `prepare` reserved: a slot, the bytes the entry will be read from, and
for an entry that pins, a proof. -/
structure Room (limits : Limits) (state : State) (prepared : Prepared) (pin : Bool) : Prop where
  entries : state.entries.length < limits.entries
  readable : state.readableBytes + (if prepared.readable then prepared.bytes else 0) ≤
    limits.readableBytes
  proofs : pin = true → state.proofs.length < limits.activeProofs ∧
    (state.proofs.map Proof.bytes).sum + prepared.bytes ≤ limits.proofBytes

theorem retire_length {count : Nat} (done : retire format count before = .ok after) :
    after.entries.length + count = before.entries.length := by
  induction count generalizing before with
  | zero =>
    cases done
    rfl
  | succ count ih =>
    simp only [retire, bind, Except.bind] at done
    split at done
    · cases done
    · rename_i next retired
      obtain ⟨held, -, entries, -⟩ := retireFront_spec retired
      have rest := ih done
      rw [entries, List.length_cons]
      omega

/-- Only live proofs are left once the indexes are pruned. -/
theorem reclaim_proofs (done : before.reclaim format limits alive now = .ok after) :
    ∀ proof ∈ after.proofs, alive proof.entry.sequence = true := by
  unfold reclaim at done
  split at done
  · simp only [bind, Except.bind] at done
    split at done
    · cases done
    · cases done
      intro proof member
      exact (List.mem_filter.mp member).2
  · cases done

theorem reclaim_aligned (done : before.reclaim format limits alive now = .ok after) :
    before.aligned = true := by
  unfold reclaim at done
  split at done
  · rename_i aligned
    exact aligned
  · cases done

/-- A proof that fits fits beside those that are left. -/
theorem fitsProof_of_sublist {bytes : Nat} (fits : before.fitsProof limits alive bytes = true)
    (live : ∀ proof ∈ before.proofs, alive proof.entry.sequence = true)
    (fewer : after.proofs.Sublist before.proofs) :
    after.proofs.length < limits.activeProofs ∧
      (after.proofs.map Proof.bytes).sum + bytes ≤ limits.proofBytes := by
  simp only [fitsProof, Bool.and_eq_true, decide_eq_true_eq, List.filter_eq_self.mpr live] at fits
  have length := fewer.length_le
  have total := (fewer.map Proof.bytes).sum_le_sum (fun _ _ => Nat.zero_le _)
  omega

/-- Preparing makes room, and where it succeeds there is room. -/
theorem prepare_cases (format : Format) (limits : Limits) (alive : Nat → Bool) (now : Nat)
    (entry : Entry) (pin : Bool) (state : State) :
    (∃ error after, state.prepare format limits alive now entry pin = .error (error, after) ∧
      MakesRoom format alive state after) ∨
    (∃ after readable,
      state.prepare format limits alive now entry pin =
        .ok (after, ⟨format.encodedBytes entry, readable⟩) ∧
      MakesRoom format alive state after ∧ state.issued.total + 1 ≤ maxCount ∧
      state.aligned = true ∧ Room limits after ⟨format.encodedBytes entry, readable⟩ pin) := by
  unfold prepare
  simp only [bind, Except.bind, pure, Except.pure, throw, throwThe, MonadExceptOf.throw]
  split
  · exact .inl ⟨_, _, rfl, .refl⟩
  rename_i total
  have reclaims := reclaim_left format limits alive now state
  cases reclaimed : state.reclaim format limits alive now with
  | error refused => exact .inl ⟨_, _, rfl, reclaims.of_error reclaimed⟩
  | ok first =>
    replace reclaims := reclaims.of_ok reclaimed
    simp only
    split
    · exact .inl ⟨_, _, rfl, reclaims⟩
    rename_i usable
    split
    · exact .inl ⟨_, _, rfl, reclaims⟩
    rename_i fits
    have retires := retire_left format alive
      (first.entries.length + 1 - limits.entries) first
    cases retired : retire format (first.entries.length + 1 - limits.entries) first with
    | error refused =>
      exact .inl ⟨_, _, rfl, ReflTransGen.trans reclaims (retires.of_error retired)⟩
    | ok second =>
      replace retires := retires.of_ok retired
      simp only
      generalize charge : (if decide (format.encodedBytes entry ≤ limits.readableBytes) = true then
        format.encodedBytes entry else 0) = bytes
      have seals := sealFor_left format limits alive bytes
        (List.range second.entries.length) second
      have upTo := ReflTransGen.trans reclaims retires
      cases hides : sealFor format limits bytes (List.range second.entries.length) second with
      | error refused => exact .inl ⟨_, _, rfl, upTo.trans (seals.of_error hides)⟩
      | ok third =>
        replace seals := seals.of_ok hides
        simp only
        split
        · exact .inl ⟨_, _, rfl, upTo.trans seals⟩
        rename_i within
        have length := retire_length retired
        have fewer := seals.shrinks.entries
        refine .inr ⟨_, _, rfl, (upTo.trans seals).tail (.prune third), by omega,
          reclaim_aligned reclaimed, ?_, ?_, ?_⟩
        · change third.entries.length < limits.entries
          omega
        · simp only [charge]
          change third.readableBytes + bytes ≤ limits.readableBytes
          omega
        · intro pins
          -- The proofs that are left are among those that were counted.
          have left : (third.pruneIndexes alive).proofs.Sublist first.proofs :=
            List.filter_sublist.trans (seals.shrinks.proofs.trans retires.shrinks.proofs)
          refine fitsProof_of_sublist ?_ (reclaim_proofs reclaimed) left
          by_contra full
          exact fits ⟨pins, full⟩

/-- An append makes room, and commits its entry if it is accepted. -/
theorem append_cases (format : Format) (limits : Limits) (alive : Nat → Bool) (now : Nat)
    (accepts : Bool) (who : Attribution) (event : Event) (state : State) :
    (∃ error after, state.append format limits alive now accepts who event = .error (error, after) ∧
      MakesRoom format alive state after) ∨
    (∃ ready readable,
      state.append format limits alive now accepts who event =
        .ok (ready.commit (state.draft format now who event)
          ⟨format.encodedBytes (state.draft format now who event), readable⟩ event.pins,
          state.draft format now who event) ∧
      accepts = true ∧ MakesRoom format alive state ready ∧ state.issued.total + 1 ≤ maxCount ∧
      state.aligned = true ∧
      Room limits ready ⟨format.encodedBytes (state.draft format now who event), readable⟩
        event.pins) := by
  unfold append
  rcases prepare_cases format limits alive now (state.draft format now who event) event.pins state with
    ⟨error, after, failed, makes⟩ | ⟨ready, readable, prepared, makes, total, aligned, room⟩
  · refine .inl ⟨error, after, ?_, makes⟩
    simp only [failed, bind, Except.bind]
  · simp only [prepared, bind, Except.bind]
    cases accepts with
    | false => exact .inl ⟨_, _, rfl, makes⟩
    | true => exact .inr ⟨ready, readable, rfl, rfl, makes, total, aligned, room⟩

end State

end McpSsh.Ledger
