import McpSsh.Audit.Worlds

/-!
# Tampering

Somebody may replace the list of held entries by any other. What verifies is
then what was committed, entry by entry; what does not verify stays where it
is, whatever is appended, sealed or reclaimed afterwards.
-/

namespace McpSsh.Ledger

open State

variable {format : Format} {limits : Limits} {genesis : Digest} {now : Nat} {accepts : Bool}
variable {alive : Nat → Bool} {committed : List Entry} {before after state : State}
variable {record next later : Record} {operation : Operation} {altered : List Held}

/-- The state with its held entries replaced. -/
def State.holding (state : State) (altered : List Held) : State :=
  { state with entries := altered }

/-- `digest_of` tells an entry from another. -/
def Separates (format : Format) (found entry : Entry) : Prop :=
  format.digestOf found = format.digestOf entry →
    { found with digest := entry.digest } = entry

/-! ## What an altered window shows -/

namespace Represents

theorem holding_anchored (rep : Represents format genesis committed state) (altered : List Held) :
    (state.holding altered).Anchored :=
  rep.anchored

/-- The commitment at an index of the window is the digest committed there. -/
theorem commitment (rep : Represents format genesis committed state) {index : Nat}
    {digest : Digest} (issued : state.issued.digests[index]? = some digest) :
    ∃ entry, committed[state.issued.retired + index]? = some entry ∧ digest = entry.digest := by
  rw [rep.digests, List.getElem?_map] at issued
  obtain ⟨held, found, rfl⟩ := Option.map_eq_some_iff.mp issued
  obtain ⟨entry, at', shows⟩ := rep.shows index held found
  exact ⟨entry, at', shows.digest⟩

/-- An entry that passes its check has the place and the digest of what was
committed there, and if it can be read its content. -/
theorem shows_of_check (rep : Represents format genesis committed state) {index : Nat} {held : Held}
    (found : altered[index]? = some held)
    (passes : (state.holding altered).check format index = true) :
    ∃ entry, committed[state.issued.retired + index]? = some entry ∧
      held.sequence = entry.sequence ∧ held.digest = entry.digest ∧
      held.previous = (state.holding altered).linkAt index ∧
      ∀ read, held = .intact read → Separates format read entry → read = entry := by
  have committed' := (check_eq_true_iff (rep.holding_anchored altered) found).mp passes
  obtain ⟨place, link, issued, reads⟩ := committed'
  obtain ⟨entry, at', digest⟩ := rep.commitment issued
  obtain ⟨sequence, -, hashed⟩ := rep.chained _ _ at'
  refine ⟨entry, at', ?_, digest, link, ?_⟩
  · have within := (List.getElem?_eq_some_iff.mp at').1
    have bound := rep.bound
    rw [place, sequence]
    simp only [Issued.position, State.holding]
    omega
  · rintro read rfl apart
    have same := apart ((reads read rfl).trans (digest.trans hashed.symm))
    rw [← same, ← digest]
    rfl

/-- The link before an entry is the one that was committed, if the entry before
it has the digest that was. -/
theorem linkAt_holding (rep : Represents format genesis committed state) {index : Nat}
    (within : index < altered.length)
    (before : ∀ earlier, earlier + 1 = index →
      state.issued.digests[earlier]? = altered[earlier]?.map Held.digest) :
    (state.holding altered).linkAt index =
      linkBefore genesis committed (state.issued.retired + index) := by
  cases index with
  | zero => exact rep.checkpoint
  | succ earlier =>
    have found := List.getElem?_eq_getElem (Nat.lt_of_succ_lt within)
    have issued := before earlier rfl
    rw [found, Option.map_some] at issued
    obtain ⟨entry, at', digest⟩ := rep.commitment issued
    change _ = linkBefore genesis committed (state.issued.retired + earlier + 1)
    simp only [State.linkAt, State.holding, found, Option.map_some, Option.getD_some, linkBefore,
      at', digest]

/-- **What verifies is what was committed.** -/
theorem holding_shows (rep : Represents format genesis committed state)
    (ok : ((state.holding altered).verify format).isOk = true)
    (apart : ∀ read, .intact read ∈ altered → ∀ entry ∈ committed, Separates format read entry) :
    altered.length = state.entries.length ∧
      ∀ index held, altered[index]? = some held →
        ∃ entry, committed[state.issued.retired + index]? = some entry ∧ held.Shows entry := by
  obtain ⟨length, checked⟩ := (verify_isOk_iff (rep.holding_anchored altered)).mp ok
  refine ⟨?_, fun index held found => ?_⟩
  · change altered.length = state.issued.digests.length at length
    rw [length, rep.digests, List.length_map]
  have within := (List.getElem?_eq_some_iff.mp found).1
  obtain ⟨entry, at', place, digest, link, reads⟩ := rep.shows_of_check found (checked index within)
  refine ⟨entry, at', ?_⟩
  cases held with
  | intact read =>
    have member : Held.intact read ∈ altered := List.mem_of_getElem? found
    rw [reads read rfl (apart read member entry (List.mem_of_getElem? at'))]
    exact .inl rfl
  | «sealed» sequence previous own =>
    have before : ∀ earlier, earlier + 1 = index →
        state.issued.digests[earlier]? = altered[earlier]?.map Held.digest := by
      rintro earlier rfl
      have found' := List.getElem?_eq_getElem (Nat.lt_of_succ_lt within)
      obtain ⟨-, -, issued, -⟩ := (check_eq_true_iff (rep.holding_anchored altered) found').mp
        (checked earlier (Nat.lt_of_succ_lt within))
      rw [found']
      exact issued
    have previous' := rep.linkAt_holding within before
    rw [← link, ← (rep.chained _ _ at').2.1] at previous'
    right
    change sequence = _ at place
    change own = _ at digest
    change previous = _ at previous'
    rw [place, digest, previous']

end Represents

/-! ## What operations make of it -/

theorem Evolves.of_same (entries : after.entries = before.entries)
    (issued : after.issued = before.issued) : Evolves format before after where
  forward := by rw [issued]
  gone := fun index _ less => by rw [issued] at less; omega
  kept := by
    intro index held found place same
    rw [issued] at same
    obtain rfl : place = index := by omega
    refine ⟨check_congr (by rw [entries]) (by rw [issued]) ?_ (by rw [issued]),
      .inl (by rw [entries]; exact found)⟩
    cases place <;> simp only [linkAt, entries, issued]
  even := by rw [entries, issued]
  anchored := by unfold Anchored; rw [issued]; exact id

/-- A commit leaves every entry before it as it was. -/
theorem commit_evolves (even : before.entries.length = before.issued.digests.length)
    (total : before.issued.total + 1 ≤ maxCount) (entry : Entry) (prepared : Prepared)
    (pin : Bool) : Evolves format before (before.commit entry prepared pin) where
  forward := Nat.le_refl _
  gone := fun index _ less => absurd less (by simp only [commit]; omega)
  kept := by
    intro index held found place same
    obtain rfl : place = index := by simp only [commit] at same; omega
    have within := (List.getElem?_eq_some_iff.mp found).1
    have stays : (before.commit entry prepared pin).entries[place]? = before.entries[place]? := by
      simp only [commit, List.getElem?_append_left within]
    refine ⟨check_congr stays rfl ?_ ?_, .inl (stays.trans found)⟩
    · cases place with
      | zero => rfl
      | succ earlier =>
        refine linkAt_congr ?_ (by simp only [commit, List.length_append]; omega)
        simp only [commit, List.map_append]
        rw [List.getElem?_append_left (by rw [List.length_map]; omega)]
    · simp only [commit]
      rw [List.getElem?_append_left (by omega)]
  even := by
    simp only [commit, List.length_append, List.length_singleton]
    omega
  anchored := fun ⟨accounted, _⟩ => by
    refine ⟨?_, total⟩
    simp only [commit, List.length_append, List.length_singleton]
    omega

theorem Record.Moves.evolves (moves : Record.Moves format limits now accepts record operation next) :
    Evolves format record.state next.state := by
  cases moves with
  | quiet makes => exact makes.evolves
  | @commits who event ready readable written accepted commits =>
    have aligned := commits.aligned
    simp only [State.aligned, Bool.and_eq_true, decide_eq_true_eq] at aligned
    have room := commits.makes.evolves
    have total := commits.total
    rw [← commits.makes.shrinks.total] at total
    have grown : Evolves format ready
        (State.committing format now record.state who event ready readable) :=
      commit_evolves (room.even.mpr aligned.1.1) total _ _ _
    refine room.trans (grown.trans ?_)
    have finishes := commits.finishes
    generalize next.state = last at finishes
    cases finishes with
    | indexed unmoved => exact Evolves.of_same unmoved.entries unmoved.issued
    | completed => exact Evolves.of_same rfl rfl

theorem Record.Later.evolves (run : Record.Later format limits record later) :
    Evolves format record.state later.state := by
  induction run with
  | refl => exact Evolves.refl _
  | tail _ step ih =>
    obtain ⟨operation, now, accepts, -, rfl⟩ := step
    exact ih.trans (Record.perform_moves format limits _ operation now accepts).evolves

/-- An entry that fails its check is neither retired nor sealed, and neither is
retired anything after it. -/
theorem State.Evolves.stuck (evolves : Evolves format before after) {index : Nat} {held : Held}
    (found : before.entries[index]? = some held) (fails : before.check format index = false) :
    after.issued.retired ≤ before.issued.retired + index ∧
      after.get (before.issued.retired + index) = some held := by
  have stays : after.issued.retired ≤ before.issued.retired + index := by
    by_contra retired
    have passes := evolves.gone index (List.getElem?_eq_some_iff.mp found).1 (by omega)
    rw [fails] at passes
    cases passes
  refine ⟨stays, ?_⟩
  unfold State.get
  rw [if_pos stays]
  rcases (evolves.kept index held found _ (Nat.add_sub_cancel' stays)).2 with kept | ⟨passes, -⟩
  · exact kept
  · rw [fails] at passes
    cases passes

/-- What became sound was sound. -/
theorem State.Evolves.sound (evolves : Evolves format before after) (sound : after.Sound format) :
    before.Sound format := by
  refine ⟨evolves.even.mp sound.1, fun index within => ?_⟩
  have found := List.getElem?_eq_getElem within
  by_contra fails
  have fails' := Bool.eq_false_of_not_eq_true fails
  have stays := (evolves.stuck found fails').1
  have place := Nat.add_sub_cancel' stays
  obtain ⟨check, kept⟩ := evolves.kept index _ found _ place
  have within' : before.issued.retired + index - after.issued.retired < after.entries.length := by
    rcases kept with kept | ⟨-, kept⟩
    · exact (List.getElem?_eq_some_iff.mp kept).1
    · exact (List.getElem?_eq_some_iff.mp kept).1
  rw [sound.2 _ within'] at check
  exact fails check.symm

namespace Record

/-- A record whose held entries somebody replaced. -/
def holding (record : Record) (altered : List Held) : Record :=
  { record with state := record.state.holding altered }

/-- **Tampering is evident.** A replaced window verifies only if each entry is
what was committed at its place, intact or sealed, and none is missing; and
what verifies verifies from any place on. -/
theorem Reachable.tamper_evident (reached : Reachable format limits genesis record) :
    (∀ altered : List Held,
      (∀ read, .intact read ∈ altered → ∀ entry ∈ record.committed, Separates format read entry) →
      ((record.state.holding altered).verify format).isOk = true →
        altered.length = record.state.entries.length ∧
          ∀ index held, altered[index]? = some held →
            ∃ entry, record.committed[record.state.issued.retired + index]? = some entry ∧
              held.Shows entry) ∧
    ∀ state : State, (state.verify format).isOk = true →
      ∀ limit, (state.verifyRecent format limit).isOk = true :=
  ⟨fun _ apart ok => reached.represents.holding_shows ok apart,
    fun _ ok limit => verifyRecent_isOk ok limit⟩

/-- **Retention never launders tampering.** Where a replaced window does not
verify, no later operation makes it verify, and an entry that is not what was
committed at its place is still there. -/
theorem Reachable.tamper_stays (reached : Reachable format limits genesis record)
    (altered : List Held)
    (broken : ((record.state.holding altered).verify format).isOk = false)
    (run : Later format limits (record.holding altered) later) :
    (later.state.verify format).isOk = false ∧
      ∀ index held, altered[index]? = some held →
        (∀ entry, record.committed[record.state.issued.retired + index]? = some entry →
          ¬ held.Shows entry ∧ ∀ read, held = .intact read → Separates format read entry) →
        later.state.get (record.state.issued.retired + index) = some held := by
  have rep := reached.represents
  have anchored := rep.holding_anchored altered
  have evolves : Evolves format (record.state.holding altered) later.state := run.evolves
  constructor
  · by_contra ok
    have sound := (verify_isOk_iff (evolves.anchored anchored)).mp (Bool.eq_true_of_not_eq_false ok)
    rw [(verify_isOk_iff anchored).mpr (evolves.sound sound)] at broken
    cases broken
  · intro index held found differs
    cases passes : (record.state.holding altered).check format index with
    | false => exact (evolves.stuck found passes).2
    | true =>
      obtain ⟨entry, at', place, digest, link, reads⟩ := rep.shows_of_check found passes
      obtain ⟨hides, apart⟩ := differs entry at'
      -- It passes its check, so only its link can be wrong, and it was sealed already.
      cases held with
      | intact read => exact absurd (.inl (by rw [reads read rfl (apart read rfl)])) hides
      | «sealed» sequence previous own =>
        have within := (List.getElem?_eq_some_iff.mp found).1
        have wrong : ¬ ∀ earlier, earlier + 1 = index →
            record.state.issued.digests[earlier]? = altered[earlier]?.map Held.digest := by
          intro before
          have previous' := rep.linkAt_holding within before
          rw [← link, ← (rep.chained _ _ at').2.1] at previous'
          change sequence = _ at place
          change own = _ at digest
          change previous = _ at previous'
          exact hides (.inr (by rw [place, digest, previous']))
        -- The entry before it is the one that fails, and holds up retirement.
        push Not at wrong
        obtain ⟨earlier, rfl, mismatch⟩ := wrong
        have found' := List.getElem?_eq_getElem (Nat.lt_of_succ_lt within)
        have fails : (record.state.holding altered).check format earlier = false := by
          by_contra checks
          obtain ⟨-, -, issued, -⟩ := (check_eq_true_iff anchored found').mp
            (Bool.eq_true_of_not_eq_false checks)
          rw [found'] at mismatch
          exact mismatch issued
        have stays := (evolves.stuck found' fails).1
        have stays' : later.state.issued.retired ≤ record.state.issued.retired + (earlier + 1) :=
          Nat.le_trans stays (Nat.add_le_add_left (Nat.le_succ _) _)
        unfold State.get
        rw [if_pos stays']
        rcases (evolves.kept _ _ found _ (Nat.add_sub_cancel' stays')).2 with kept | ⟨-, kept⟩
        · exact kept
        · exact kept

end Record

namespace Sample

/-- The entry the one decision was committed as. -/
def entry : Entry := decided.committed.headD default

/-- The entry of what came of it. -/
def second : Entry := settled.committed.getD 1 default

/-- A window with a sealed entry verifies, and shows what was committed. -/
theorem settled_shown :
    (settled.state.entries.map Held.isIntact = [false, true]) ∧
    ∀ (index : Nat) (held : Held), settled.state.entries[index]? = some held →
      ∃ shown, settled.committed[index]? = some shown ∧ held.Shows shown := by
  have apart : ∀ read, .intact read ∈ settled.state.entries → ∀ other ∈ settled.committed,
      Separates format read other := by
    have held : settled.state.entries =
        [.sealed entry.sequence entry.previous entry.digest, .intact second] := by decide +kernel
    have committed : settled.committed = [entry, second] := by decide +kernel
    intro read inside other member same
    rw [held] at inside
    rw [committed] at member
    obtain rfl : read = second := by simpa using inside
    rcases List.mem_pair.mp member with rfl | rfl
    · have other : Sample.format.digestOf second ≠ Sample.format.digestOf entry := by decide +kernel
      exact absurd same other
    · rfl
  have shown := ((Record.Reachable.tamper_evident settled_reachable).1 settled.state.entries apart
    (by decide +kernel)).2
  have retired : settled.state.issued.retired = 0 := by decide +kernel
  refine ⟨by decide +kernel, fun index held found => ?_⟩
  obtain ⟨own, at', shows⟩ := shown index held found
  rw [retired, Nat.zero_add] at at'
  exact ⟨own, at', shows⟩

/-- A sealed entry with another digest stays where it is, whatever is sealed. -/
theorem forged_stays :
    let forged : List Held := [.sealed 0 ⟨[]⟩ ⟨[7]⟩]
    let later := (decided.holding forged).perform Sample.format Sample.limits (.sealBefore 1) 0 true
    (later.state.verify Sample.format).isOk = false ∧
      later.state.get 0 = some (.sealed 0 ⟨[]⟩ ⟨[7]⟩) := by
  obtain ⟨fails, stays⟩ := Record.Reachable.tamper_stays decided_reachable
    [.sealed 0 ⟨[]⟩ ⟨[7]⟩] (by decide +kernel)
    (.single ⟨.sealBefore 1, 0, true, trivial, rfl⟩)
  refine ⟨fails, stays 0 _ rfl fun shown at' => ⟨?_, fun _ same => by cases same⟩⟩
  obtain rfl : entry = shown := Option.some.inj at'
  rintro (same | same)
  · cases same
  · exact absurd same (by decide +kernel)

end Sample

end McpSsh.Ledger
