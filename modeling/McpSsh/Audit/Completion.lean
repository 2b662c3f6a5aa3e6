import McpSsh.Audit.Budget

/-!
# Completions

An authorization a record minted is completed at most once. Until it is, its
replay guard is clear, its own proof is found, and there is room for what it
came to: an outcome pins nothing, and an outcome too large to keep readable is
kept by its commitment alone.
-/

namespace McpSsh

/-- Whether an entry is the completion of what an entry allowed. -/
def Entry.Completes (entry : Entry) (sequence : Nat) : Prop :=
  ∃ what, entry.event = .completed what ∧ what.decided = sequence

namespace Ledger

open State

variable {format : Format} {limits : Limits} {genesis : Digest} {now : Nat} {accepts : Bool}
variable {alive : Nat → Bool} {committed : List Entry} {before after state : State}
variable {record next : Record} {operation : Operation}

/-! ## Room for an entry that pins nothing -/

/-- No content can be read at an index. -/
def State.HiddenAt (state : State) (index : Nat) : Prop :=
  ∀ entry, state.entries[index]? ≠ some (.intact entry)

theorem sealAt_hidden {index : Nat} (done : before.sealAt format index = .ok after) :
    after.HiddenAt index ∧ ∀ other, before.HiddenAt other → after.HiddenAt other := by
  unfold sealAt at done
  split at done
  · split at done
    · cases done
      refine ⟨fun entry found => ?_, fun other hidden entry found => ?_⟩
      · simp only [List.getElem?_set_self'] at found
        cases at' : before.entries[index]? with
        | none => simp [at'] at found
        | some => simp [at'] at found
      · rw [List.getElem?_set] at found
        split at found
        · split at found
          · cases found
          · cases found
        · exact hidden entry found
    · rename_i unreadable
      cases done
      exact ⟨unreadable, fun _ hidden => hidden⟩
  · cases done

/-- Sealing for room stops where there is room, or seals everything. -/
theorem sealFor_room {charge : Nat} {indexes : List Nat}
    (done : sealFor format limits charge indexes before = .ok after) :
    after.readableBytes + charge ≤ limits.readableBytes ∨
      (∀ index ∈ indexes, after.HiddenAt index) ∧
        ∀ other, before.HiddenAt other → after.HiddenAt other := by
  induction indexes generalizing before with
  | nil =>
    cases done
    exact .inr ⟨fun _ member => absurd member List.not_mem_nil, fun _ hidden => hidden⟩
  | cons index rest ih =>
    unfold sealFor at done
    split at done
    · rename_i enough
      cases done
      exact .inl enough
    · split at done
      · cases done
      · rename_i middle hides
        obtain ⟨here, others⟩ := sealAt_hidden hides
        rcases ih done with enough | ⟨all, kept⟩
        · exact .inl enough
        · refine .inr ⟨fun other member => ?_, fun other hidden => kept other (others other hidden)⟩
          rcases List.mem_cons.mp member with rfl | later
          · exact kept other here
          · exact all other later

/-- Nothing is charged where nothing can be read. -/
theorem Represents.readable_eq_zero (rep : Represents format genesis committed state)
    (hidden : ∀ index, index < state.entries.length → state.HiddenAt index) :
    state.readableBytes = 0 := by
  rw [rep.readable, rep.sizes]
  refine List.sum_eq_zero fun size member => ?_
  obtain ⟨held, inside, rfl⟩ := List.mem_map.mp member
  obtain ⟨index, within, found⟩ := List.mem_iff_getElem.mp inside
  cases held with
  | intact entry => exact absurd (by rw [List.getElem?_eq_getElem within, found]) (hidden index within entry)
  | «sealed» => rfl

/-- There is always room for an entry that pins nothing. -/
theorem Represents.prepare_ok (rep : Represents format genesis committed state)
    (slots : 0 < limits.entries) (below : state.issued.total < maxCount) (alive : Nat → Bool)
    (now : Nat) (entry : Entry) :
    (state.prepare format limits alive now entry false).isOk = true := by
  unfold State.prepare
  simp only [bind, Except.bind, pure, Except.pure, throw, throwThe, MonadExceptOf.throw]
  rw [if_neg (by omega)]
  obtain ⟨first, reclaimed, rep₁, -⟩ := rep.reclaim limits alive now
  simp only [reclaimed]
  rw [if_neg (by simp; omega), if_neg (by simp)]
  obtain ⟨second, retired, rep₂, -⟩ := rep₁.retire alive
    (show first.entries.length + 1 - limits.entries ≤ first.entries.length by omega)
  simp only [retired]
  generalize charge : (if decide (format.encodedBytes entry ≤ limits.readableBytes) = true then
    format.encodedBytes entry else 0) = bytes
  have fits : bytes ≤ limits.readableBytes := by
    rw [← charge]
    split
    · rename_i within
      exact of_decide_eq_true within
    · exact Nat.zero_le _
  have places : ∀ index ∈ List.range second.entries.length, index < second.entries.length :=
    fun _ member => List.mem_range.mp member
  obtain ⟨third, hides, rep₃, -⟩ := rep₂.sealFor limits alive bytes places
  simp only [hides]
  have room : third.readableBytes + bytes ≤ limits.readableBytes := by
    rcases sealFor_room hides with enough | ⟨all, -⟩
    · exact enough
    · have length : third.entries.length ≤ second.entries.length :=
        ((sealFor_left format limits alive bytes _ _).of_ok hides).shrinks.entries
      rw [rep₃.readable_eq_zero (fun index within => all index (List.mem_range.mpr (by omega)))]
      omega
  rw [if_neg (by omega)]
  rfl

/-! ## An authorization's own decision -/

/-- What is held at a sequence is what was committed there. -/
theorem Represents.get_shows (rep : Represents format genesis committed state) {sequence : Nat}
    {held : Held} (found : state.get sequence = some held) :
    ∃ entry, committed[sequence]? = some entry ∧ held.Shows entry := by
  unfold State.get at found
  split at found
  · obtain ⟨entry, at', shows⟩ := rep.shows _ _ found
    rw [show state.issued.retired + (sequence - state.issued.retired) = sequence by omega] at at'
    exact ⟨entry, at', shows⟩
  · cases found

/-- An active proof is of the entry that was committed at its sequence. -/
theorem Represents.activeProof_entry (rep : Represents format genesis committed state)
    {sequence : Nat} {proof : Proof} (found : state.activeProof alive sequence = some proof) :
    proof ∈ state.proofs ∧ proof.entry.sequence = sequence ∧
      committed[sequence]? = some proof.entry := by
  unfold State.activeProof at found
  split at found
  · have same := List.find?_some found
    simp only [decide_eq_true_eq] at same
    have member := List.mem_of_find?_eq_some found
    refine ⟨member, same, ?_⟩
    rw [← same]
    exact (rep.proofs proof member).1
  · cases found

theorem activeProof_isSome {entry : Entry} (live : alive entry.sequence = true)
    (pinned : entry ∈ state.proofs.map Proof.entry) :
    ∃ proof, state.activeProof alive entry.sequence = some proof := by
  obtain ⟨proof, member, rfl⟩ := List.mem_map.mp pinned
  have found : (state.proofs.find? (·.entry.sequence = proof.entry.sequence)).isSome := by
    rw [List.find?_isSome]
    exact ⟨proof, member, by simp⟩
  obtain ⟨other, eq⟩ := Option.isSome_iff_exists.mp found
  exact ⟨other, by simp [State.activeProof, live, eq]⟩

/-- An authorization is this record's if its proof is found and what is held
at its sequence shows the same entry. -/
theorem thisRecordsDecision_ok (authorized : Authorization) {active : Proof}
    (found : state.activeProof alive authorized.sequence = some active)
    (digest : active.entry.digest = authorized.digest)
    (shows : ((state.get authorized.sequence).getD (.intact active.entry)).Shows active.entry)
    (allows : active.entry.event.allowsRun = true) :
    state.thisRecordsDecision alive authorized (some authorized.sequence) = .ok () := by
  unfold State.thisRecordsDecision
  simp only [found]
  rw [if_neg (by simp [digest]), if_neg (by simp [shows.digest, digest])]
  rcases shows with intact | hidden
  · simp only [intact, allows, if_true]
  · simp only [hidden]

/-- An authorization that was minted here, and whose proof is still held, is
this record's, whatever was sealed or retired since. -/
theorem Represents.thisRecordsDecision (rep : Represents format genesis committed state)
    {entry : Entry} (member : entry ∈ committed) (allows : entry.event.allowsRun = true)
    (live : alive entry.sequence = true) (pinned : entry ∈ state.proofs.map Proof.entry) :
    state.thisRecordsDecision alive entry.authorization (some entry.sequence) = .ok () := by
  obtain ⟨index, at'⟩ := List.getElem?_of_mem member
  rw [← (rep.chained index entry at').1] at at'
  obtain ⟨active, found⟩ := activeProof_isSome live pinned
  have same := (rep.activeProof_entry found).2.2
  rw [at'] at same
  cases same
  refine thisRecordsDecision_ok active.entry.authorization found rfl ?_ allows
  -- What is held shows the entry, whether it is in the window or kept by its proof.
  simp only [Entry.authorization_sequence]
  cases window : state.get active.entry.sequence with
  | none => exact .inl rfl
  | some held =>
    obtain ⟨other, at'', shows⟩ := rep.get_shows window
    rw [at'] at at''
    cases at''
    exact shows

/-- What an authorization that is this record's has: a proof that can be
found. -/
theorem activeProof_of_own {authorized : Authorization} {proof : Option Nat}
    (own : state.thisRecordsDecision alive authorized proof = .ok ()) :
    (∃ active, state.activeProof alive authorized.sequence = some active) ∧
      proof = some authorized.sequence := by
  unfold State.thisRecordsDecision at own
  simp only at own
  split at own
  · split at own <;> cases own
  · rename_i active found
    split at own
    · cases own
    · rename_i matching
      refine ⟨⟨active, found⟩, ?_⟩
      by_contra differs
      exact matching (.inl differs)

/-- Whether an authorization is this record's says nothing of its completion. -/
theorem thisRecordsDecision_ne_completed (state : State) (alive : Nat → Bool)
    (authorized : Authorization) (proof : Option Nat) (run : RunId) :
    state.thisRecordsDecision alive authorized proof ≠ .error (.alreadyCompleted run) := by
  intro impossible
  unfold State.thisRecordsDecision at impossible
  simp only at impossible
  repeat' split at impossible
  all_goals cases impossible

namespace Record

/-! ## The replay guard -/

/-- A guard is set exactly when the completion was committed; a completion is
that of an authorization minted here, and there is one for each. -/
structure Completing (record : Record) : Prop where
  minted : ∀ authorized ∈ record.minted, ∃ entry ∈ record.committed,
    entry.event.allowsRun = true ∧ authorized = entry.authorization
  guards : ∀ proof ∈ record.state.proofs, proof.completed = true ↔
    ∃ entry ∈ record.committed, entry.Completes proof.entry.sequence
  attributed : ∀ entry ∈ record.committed, ∀ what, entry.event = .completed what →
    ∃ authorized ∈ record.minted, authorized.sequence = what.decided ∧ entry.who = authorized.who
  once : ∀ a ∈ record.committed, ∀ b ∈ record.committed, ∀ sequence,
    a.Completes sequence → b.Completes sequence → a = b

theorem Completing.new (genesis : Digest) : (Record.new genesis).Completing where
  minted := fun _ member => absurd member List.not_mem_nil
  guards := fun _ member => absurd member List.not_mem_nil
  attributed := fun _ member => absurd member List.not_mem_nil
  once := fun _ member => absurd member List.not_mem_nil

/-- Nothing that is still to be committed has been completed. -/
theorem Completing.not_completes (completing : record.Completing)
    (rep : Represents format genesis record.committed record.state) {entry : Entry}
    (member : entry ∈ record.committed) : ¬ entry.Completes record.committed.length := by
  rintro ⟨what, event, decided⟩
  obtain ⟨authorized, handed, sequence, -⟩ := completing.attributed entry member what event
  obtain ⟨source, inside, -, rfl⟩ := completing.minted authorized handed
  obtain ⟨index, at'⟩ := List.getElem?_of_mem inside
  have place := (rep.chained index source at').1
  have within := (List.getElem?_eq_some_iff.mp at').1
  simp only [Entry.authorization_sequence] at sequence
  omega

/-- The guard that is looked up is that of the one proof under its sequence. -/
theorem Completing.isCompleted_iff (completing : record.Completing)
    (rep : Represents format genesis record.committed record.state) {sequence : Nat} {active : Proof}
    (found : record.state.activeProof alive sequence = some active) :
    record.state.isCompleted sequence = true ↔
      ∃ entry ∈ record.committed, entry.Completes sequence := by
  obtain ⟨member, same, -⟩ := rep.activeProof_entry found
  have guard := completing.guards active member
  rw [same] at guard
  rw [← guard, isCompleted, List.any_eq_true]
  constructor
  · rintro ⟨proof, inside, flagged⟩
    simp only [Bool.and_eq_true, decide_eq_true_eq] at flagged
    have at' := (rep.proofs proof inside).1
    have completed := (completing.guards proof inside).mp flagged.2
    rw [flagged.1] at completed
    exact guard.mpr completed
  · intro flagged
    exact ⟨active, member, by simp [same, flagged]⟩

/-- A new entry completes nothing that was not about to be. -/
theorem completes_append {committed : List Entry} {entry : Entry} {sequence : Nat} :
    (∃ found ∈ committed ++ [entry], found.Completes sequence) ↔
      (∃ found ∈ committed, found.Completes sequence) ∨ entry.Completes sequence := by
  constructor
  · rintro ⟨found, member, completes⟩
    rcases List.mem_append.mp member with old | new
    · exact .inl ⟨found, old, completes⟩
    · obtain rfl := List.mem_singleton.mp new
      exact .inr completes
  · rintro (⟨found, member, completes⟩ | completes)
    · exact ⟨found, List.mem_append_left _ member, completes⟩
    · exact ⟨entry, List.mem_append_right _ List.mem_cons_self, completes⟩

/-- An authorization that is this record's, and can be presented, was minted
here. -/
theorem minted_of_own {authorized : Authorization} {proof : Option Nat}
    (offers : record.Presentable authorized proof)
    (own : record.state.thisRecordsDecision alive authorized proof = .ok ()) :
    authorized ∈ record.minted := by
  rcases offers with foreign | ⟨-, minted, -⟩
  · have named := (activeProof_of_own own).2
    rw [foreign] at named
    cases named
  · exact minted

section
variable {who : Attribution} {event : Event} {ready : State} {readable : Bool} {written : Written}

/-- The guards after a commit are those of the proofs that were there, and of a
new one if the entry pins. -/
theorem mem_committing {proof : Proof}
    (member : proof ∈ (State.committing format now before who event ready readable).proofs) :
    proof ∈ ready.proofs ∨ event.pins = true ∧ proof.completed = false ∧
      proof.entry = before.draft format now who event := by
  simp only [State.committing, State.commit] at member
  split at member
  · rename_i pins
    rcases List.mem_cons.mp member with rfl | old
    · exact .inr ⟨pins, rfl, rfl⟩
    · exact .inl old
  · exact .inl member

theorem Completing.commits (completing : record.Completing)
    (rep : Represents format genesis record.committed record.state)
    (offers : record.Offers operation)
    (commits : Commits format limits record.alive now record.state operation who event ready
      readable next.state written)
    (committed : next.committed = record.committed ++ [record.state.draft format now who event])
    (minted : next.minted =
      (if event.allowsRun then [(record.state.draft format now who event).authorization] else []) ++
        record.minted) :
    next.Completing := by
  let entry := record.state.draft format now who event
  have place : entry.sequence = record.committed.length := rep.total
  have handed : ∀ authorized ∈ record.minted, authorized ∈ next.minted := by
    intro authorized member
    rw [minted]
    exact List.mem_append_right _ member
  -- What the new entry completes, if it completes anything.
  have completed : ∀ what, event = .completed what →
      (∃ authorized ∈ record.minted, authorized.sequence = what.decided ∧ who = authorized.who) ∧
        ¬ ∃ found ∈ record.committed, found.Completes what.decided := by
    intro what completion
    have finishes := commits.finishes
    generalize next.state = after at finishes
    cases finishes with
    | indexed _ other => exact absurd completion (other what)
    | completed outcome asked _ own clear attributed written =>
      subst asked
      have decided := Outcome.decided_of_event (written.symm.trans completion)
      obtain ⟨active, found⟩ := (activeProof_of_own own).1
      refine ⟨⟨_, minted_of_own offers own, decided.symm, attributed⟩, fun done => ?_⟩
      rw [decided] at done
      rw [(completing.isCompleted_iff rep found).mpr done] at clear
      cases clear
  exact {
    minted := by
      intro authorized member
      rw [minted, List.mem_append] at member
      rw [committed]
      rcases member with new | old
      · split at new
        · rename_i allows
          obtain rfl := List.mem_singleton.mp new
          exact ⟨entry, List.mem_append_right _ List.mem_cons_self, allows, rfl⟩
        · cases new
      · obtain ⟨source, inside, allows, same⟩ := completing.minted authorized old
        exact ⟨source, List.mem_append_left _ inside, allows, same⟩
    guards := by
      intro proof member
      rw [committed, completes_append]
      have finishes := commits.finishes
      generalize next.state = after at finishes member
      cases finishes with
      | indexed unmoved other =>
        have plain : ¬ entry.Completes proof.entry.sequence :=
          fun ⟨what, same, _⟩ => other what same
        rw [unmoved.proofs] at member
        rcases mem_committing member with old | ⟨-, clear, new⟩
        · rw [completing.guards proof (commits.makes.kept.fewer proof old)]
          exact ⟨.inl, fun either => either.resolve_right plain⟩
        · rw [clear]
          refine ⟨fun impossible => (by cases impossible), fun either => ?_⟩
          rcases either with ⟨found, inside, completes⟩ | completes
          · rw [new] at completes
            have none' := completing.not_completes rep inside
            rw [← place] at none'
            exact absurd completes none'
          · exact absurd completes plain
      | completed outcome asked _ own clear attributed written =>
        obtain ⟨old, held, rfl⟩ := State.mem_complete.mp member
        rcases mem_committing held with kept | ⟨pins, -⟩
        · have guard := completing.guards old (commits.makes.kept.fewer old kept)
          have completes : entry.Completes old.entry.sequence ↔
              old.entry.sequence = outcome.authorization.sequence := by
            constructor
            · rintro ⟨what, same, decided⟩
              exact decided.symm.trans (Outcome.decided_of_event (written.symm.trans same))
            · intro same
              exact ⟨_, written, same.symm⟩
          rw [Bool.or_eq_true, guard, decide_eq_true_eq, completes]
        · rw [written] at pins
          cases pins
    attributed := by
      intro found member what same
      rw [committed, List.mem_append, List.mem_singleton] at member
      rcases member with old | rfl
      · obtain ⟨authorized, inside, rest⟩ := completing.attributed found old what same
        exact ⟨authorized, handed authorized inside, rest⟩
      · obtain ⟨⟨authorized, inside, rest⟩, -⟩ := completed what same
        exact ⟨authorized, handed authorized inside, rest⟩
    once := by
      have fresh : ∀ found ∈ record.committed, ∀ sequence, entry.Completes sequence →
          ¬ found.Completes sequence := by
        rintro found inside sequence ⟨what, same, rfl⟩ completes
        exact (completed what same).2 ⟨found, inside, completes⟩
      intro a inA b inB sequence completesA completesB
      rw [committed, List.mem_append, List.mem_singleton] at inA inB
      rcases inA with oldA | rfl <;> rcases inB with oldB | rfl
      · exact completing.once a oldA b oldB sequence completesA completesB
      · exact absurd completesA (fresh a oldA sequence completesB)
      · exact absurd completesB (fresh b oldB sequence completesA)
      · rfl }

end

theorem Moves.completing (moves : Moves format limits now accepts record operation next)
    (rep : Represents format genesis record.committed record.state)
    (offers : record.Offers operation) (completing : record.Completing) : next.Completing := by
  cases moves with
  | quiet makes committed minted =>
    refine ⟨?_, ?_, ?_, ?_⟩
    · rw [committed, minted]
      exact completing.minted
    · rw [committed]
      exact fun proof member => completing.guards proof (makes.kept.fewer proof member)
    · rw [committed, minted]
      exact completing.attributed
    · rw [committed]
      exact completing.once
  | commits _ commits committed minted =>
    exact completing.commits rep offers commits committed minted

theorem Reachable.completing (reached : Reachable format limits genesis record) :
    record.Completing := by
  induction reached with
  | refl => exact Completing.new genesis
  | tail earlier step ih =>
    obtain ⟨operation, now, accepts, offers, rfl⟩ := step
    exact (perform_moves format limits _ operation now accepts).completing
      (Reachable.represents earlier) offers ih

/-! ## Recording an outcome -/

/-- A settled outcome of a run that this record authorized, held by whoever
presents it. -/
structure Owed (record : Record) (outcome : Outcome) : Prop where
  settled : outcome.stillRunning = false
  minted : outcome.authorization ∈ record.minted
  own : outcome.proof = some outcome.authorization.sequence
  live : record.alive outcome.authorization.sequence = true

variable {outcome : Outcome}

theorem Owed.thisRecordsDecision (owed : record.Owed outcome)
    (reached : Reachable format limits genesis record) :
    record.state.thisRecordsDecision record.alive outcome.authorization outcome.proof = .ok () := by
  obtain ⟨entry, member, allows, same⟩ := reached.completing.minted _ owed.minted
  have live := owed.live
  rw [same] at live
  have pinned := reached.pinned entry
    (mem_live.mpr ⟨member, Event.pins_of_allowsRun allows, live⟩)
  rw [owed.own, same]
  exact reached.represents.thisRecordsDecision member allows live pinned

/-- Recording an owed outcome finds its completion already there, or rests on
the recording boundary alone. -/
theorem Owed.recordOutcome_cases (owed : record.Owed outcome)
    (reached : Reachable format limits genesis record) (slots : 0 < limits.entries)
    (below : record.state.issued.total < maxCount) (now : Nat) (accepts : Bool) :
    (∃ entry ∈ record.committed, entry.Completes outcome.authorization.sequence) ∧
      record.state.recordOutcome format limits record.alive now accepts outcome =
        .error (.alreadyCompleted outcome.run, record.state) ∨
    (¬ ∃ entry ∈ record.committed, entry.Completes outcome.authorization.sequence) ∧
      if accepts then
        (record.state.recordOutcome format limits record.alive now accepts outcome).isOk = true
      else ∃ after, record.state.recordOutcome format limits record.alive now accepts outcome =
        .error (.notRecorded, after) := by
  have rep := reached.represents
  have own := owed.thisRecordsDecision reached
  obtain ⟨active, found⟩ := (activeProof_of_own own).1
  have guard := reached.completing.isCompleted_iff rep found
  unfold recordOutcome
  simp only [owed.settled, own, bind, Except.bind, pure, Except.pure, throw, throwThe,
    MonadExceptOf.throw, Bool.false_eq_true, if_false]
  by_cases completed : ∃ entry ∈ record.committed, entry.Completes outcome.authorization.sequence
  · rw [if_pos (guard.mpr completed)]
    exact .inl ⟨completed, rfl⟩
  · rw [if_neg (fun flagged => completed (guard.mp flagged))]
    refine .inr ⟨completed, ?_⟩
    have room := rep.prepare_ok slots below record.alive now
      (record.state.draft format now outcome.authorization.who outcome.event)
    have plain : outcome.event.pins = false := rfl
    unfold append
    simp only [plain, bind, Except.bind, pure, Except.pure, throw, throwThe, MonadExceptOf.throw]
    cases prepared : record.state.prepare format limits record.alive now
        (record.state.draft format now outcome.authorization.who outcome.event) false with
    | error refused =>
      rw [prepared] at room
      cases room
    | ok ready =>
      cases accepts with
      | true => rfl
      | false => exact ⟨_, rfl⟩

/-- An outcome whose proof nothing keeps alive is nobody's. -/
theorem perform_dead (settled : outcome.stillRunning = false)
    (dead : record.alive outcome.authorization.sequence = false) (format : Format) (limits : Limits)
    (now : Nat) (accepts : Bool) :
    record.perform format limits (.recordOutcome outcome) now accepts = record := by
  have missing : record.state.activeProof record.alive outcome.authorization.sequence = none := by
    simp [State.activeProof, dead]
  obtain ⟨error, foreign⟩ : ∃ error, record.state.thisRecordsDecision record.alive
      outcome.authorization outcome.proof = .error error := by
    unfold State.thisRecordsDecision
    simp only [missing]
    split <;> exact ⟨_, rfl⟩
  have refused : record.state.recordOutcome format limits record.alive now accepts outcome =
      .error (error, record.state) := by
    unfold recordOutcome
    simp only [settled, foreign, bind, Except.bind, throw, throwThe, MonadExceptOf.throw,
      Bool.false_eq_true, if_false]
  simp only [perform, Operation.perform, refused, Except.map]

/-- Whatever outcome a record is asked to take, it answers that it has its
completion only where it does, and otherwise commits it or nothing. -/
theorem Reachable.recordOutcome_cases (reached : Reachable format limits genesis record)
    (outcome : Outcome) (now : Nat) (accepts : Bool) :
    (∃ error after, record.state.recordOutcome format limits record.alive now accepts outcome =
        .error (error, after) ∧
      (record.perform format limits (.recordOutcome outcome) now accepts).committed =
        record.committed ∧
      ∀ run, error = .alreadyCompleted run →
        ∃ entry ∈ record.committed, entry.Completes outcome.authorization.sequence) ∨
    ∃ written entry, record.state.recordOutcome format limits record.alive now accepts outcome =
        .ok written ∧
      entry.event = outcome.event ∧
      (record.perform format limits (.recordOutcome outcome) now accepts).committed =
        record.committed ++ [entry] := by
  have rep := reached.represents
  cases result : record.state.recordOutcome format limits record.alive now accepts outcome with
  | error refused =>
    refine .inl ⟨refused.1, refused.2, rfl, ?_, fun run already => ?_⟩
    · simp only [perform, Operation.perform, result, Except.map]
    · unfold recordOutcome at result
      simp only [bind, Except.bind, pure, Except.pure, throw, throwThe, MonadExceptOf.throw] at result
      split at result
      · cases result
        cases already
      split at result
      · rename_i error own
        cases result
        simp only at already
        rw [already] at own
        exact absurd own (thisRecordsDecision_ne_completed _ _ _ _ _)
      · rename_i own
        obtain ⟨active, found⟩ := (activeProof_of_own own).1
        split at result
        · rename_i flagged
          exact (reached.completing.isCompleted_iff rep found).mp flagged
        · rcases rep.append limits record.alive now accepts outcome.authorization.who
              outcome.event with ⟨error, after, failed, why, -⟩ | ⟨-, after, entry, appended, -⟩
          · rw [failed] at result
            cases result
            rcases why with rfl | rfl <;> cases already
          · rw [appended] at result
            cases result
  | ok written =>
    have done := result
    unfold recordOutcome at done
    simp only [bind, Except.bind, pure, Except.pure, throw, throwThe, MonadExceptOf.throw] at done
    split at done
    · cases done
    split at done
    · cases done
    split at done
    · cases done
    rcases record.state.append_cases format limits record.alive now accepts
      outcome.authorization.who outcome.event with
      ⟨error, after, failed, -⟩ | ⟨ready, readable, appended, -, makes, -⟩
    · rw [failed] at done
      cases done
    · rw [appended] at done
      cases done
      refine .inr ⟨_, record.state.draft format now outcome.authorization.who outcome.event, rfl, rfl,
        ?_⟩
      have total := makes.shrinks.total
      simp only [perform, Operation.perform, result, Except.map, Prod.map, Written.of]
      rw [if_neg (by simp only [id, State.complete, State.commit]; omega)]
      rfl

end Record

namespace Sample

end Sample

end Ledger

end McpSsh
