import McpSsh.Audit.Worlds

/-!
# Budgets

What a reachable record holds is within its limits, and every count it keeps is
exact. Live proofs are counted from the entries that were committed, not from
the index that refers to them.
-/

namespace McpSsh.Ledger

open State

variable {format : Format} {limits : Limits} {genesis : Digest} {now : Nat} {accepts : Bool}
variable {before after : State} {record next : Record} {operation : Operation}

/-- A state within its limits. -/
structure Within (limits : Limits) (state : State) : Prop where
  entries : state.entries.length ≤ limits.entries
  readable : state.readableBytes ≤ limits.readableBytes
  proofs : state.proofs.length ≤ limits.activeProofs
  proofBytes : (state.proofs.map Proof.bytes).sum ≤ limits.proofBytes

theorem Within.new (limits : Limits) (genesis : Digest) : Within limits (State.new genesis) :=
  ⟨Nat.zero_le _, Nat.zero_le _, Nat.zero_le _, Nat.zero_le _⟩

theorem Within.shrinks (within : Within limits before) (shrinks : Shrinks before after) :
    Within limits after where
  entries := Nat.le_trans shrinks.entries within.entries
  readable := Nat.le_trans shrinks.readable within.readable
  proofs := Nat.le_trans shrinks.proofs.length_le within.proofs
  proofBytes := Nat.le_trans
    ((shrinks.proofs.map Proof.bytes).sum_le_sum (fun _ _ => Nat.zero_le _)) within.proofBytes

/-- What was reserved is what a commit takes up. -/
theorem Within.commit {entry : Entry} {prepared : Prepared} {pin : Bool}
    (within : Within limits before) (room : Room limits before prepared pin) :
    Within limits (before.commit entry prepared pin) where
  entries := by
    have slot := room.entries
    simp only [State.commit, List.length_append, List.length_singleton]
    omega
  readable := room.readable
  proofs := by
    cases pin with
    | false => exact within.proofs
    | true => exact (room.proofs rfl).1
  proofBytes := by
    cases pin with
    | false => exact within.proofBytes
    | true =>
      have fits := (room.proofs rfl).2
      simp only [State.commit, if_true, List.map_cons, List.sum_cons]
      omega

theorem Within.finishes {alive : Nat → Bool} {who : Attribution} {event : Event} {appended : State}
    (within : Within limits appended)
    (finishes : Finishes alive before operation who event appended after) :
    Within limits after := by
  have count := congrArg List.length finishes.proof_entries
  rw [List.length_map, List.length_map] at count
  refine ⟨?_, ?_, by rw [count]; exact within.proofs,
    by rw [finishes.proof_bytes]; exact within.proofBytes⟩
  · cases finishes with
    | indexed unmoved =>
      rw [unmoved.entries]
      exact within.entries
    | completed => exact within.entries
  · cases finishes with
    | indexed unmoved =>
      rw [unmoved.readable]
      exact within.readable
    | completed => exact within.readable

namespace Record

theorem Moves.within (moves : Moves format limits now accepts record operation next)
    (within : Within limits record.state) : Within limits next.state := by
  cases moves with
  | quiet makes => exact within.shrinks makes.shrinks
  | commits _ commits =>
    exact ((within.shrinks commits.makes.shrinks).commit commits.room).finishes commits.finishes

theorem Reachable.within (reached : Reachable format limits genesis record) :
    Within limits record.state :=
  Later.keeps (fun _ _ _ _ _ within _ moves => moves.within within) reached
    (Within.new limits genesis)

/-! ## Live proofs -/

/-- The entries whose proofs are still referenced. -/
def live (record : Record) : List Entry :=
  record.committed.filter (fun entry => entry.event.pins && record.alive entry.sequence)

/-- Every live entry's proof can be found. -/
def Pinned (record : Record) : Prop :=
  ∀ entry ∈ record.live, entry ∈ record.state.proofs.map Proof.entry

theorem mem_live {entry : Entry} : entry ∈ record.live ↔
    entry ∈ record.committed ∧ entry.event.pins = true ∧ record.alive entry.sequence = true := by
  simp [live, List.mem_filter]

theorem Moves.pinned (moves : Moves format limits now accepts record operation next)
    (pinned : record.Pinned) : next.Pinned := by
  intro entry member
  obtain ⟨member, pins, live⟩ := mem_live.mp member
  cases moves with
  | quiet makes committed minted dropped =>
    rw [committed] at member
    obtain ⟨proof, held, rfl⟩ :=
      List.mem_map.mp (pinned entry (mem_live.mpr ⟨member, pins, dropped _ live⟩))
    exact List.mem_map_of_mem (makes.kept.pinned proof held (dropped _ live))
  | commits accepted commits committed minted dropped =>
    have live' : record.alive entry.sequence = true := by
      simpa only [alive, dropped] using live
    rw [commits.finishes.proof_entries]
    rw [committed, List.mem_append, List.mem_singleton] at member
    simp only [State.committing, State.commit]
    rcases member with old | rfl
    · obtain ⟨proof, held, rfl⟩ :=
        List.mem_map.mp (pinned entry (mem_live.mpr ⟨old, pins, live'⟩))
      have kept := commits.makes.kept.pinned proof held live'
      split
      · exact List.mem_map_of_mem (List.mem_cons_of_mem _ kept)
      · exact List.mem_map_of_mem kept
    · split
      · exact List.mem_cons_self
      · rename_i unpinned
        exact absurd pins unpinned

theorem Reachable.pinned (reached : Reachable format limits genesis record) : record.Pinned :=
  Later.keeps (fun _ _ _ _ _ pinned _ moves => moves.pinned pinned) reached
    (fun entry member => by simp [live, new] at member)

end Record

/-- No entry is committed twice. -/
theorem Represents.nodup {committed : List Entry} {state : State}
    (rep : Represents format genesis committed state) : committed.Nodup := by
  refine List.pairwise_iff_getElem.mpr fun first second within within' less same => ?_
  have place := (rep.chained _ _ (List.getElem?_eq_getElem within)).1
  have place' := (rep.chained _ _ (List.getElem?_eq_getElem within')).1
  rw [same] at place
  omega

namespace Record

/-- Live entries are among those whose proofs are indexed, once each. -/
theorem live_subperm (rep : Represents format genesis record.committed record.state)
    (pinned : record.Pinned) : record.live.Subperm (record.state.proofs.map Proof.entry) :=
  List.subperm_of_subset (rep.nodup.filter _) pinned

theorem live_length_le (rep : Represents format genesis record.committed record.state)
    (within : Within limits record.state) (pinned : record.Pinned) :
    record.live.length ≤ limits.activeProofs := by
  have le := (live_subperm rep pinned).length_le
  rw [List.length_map] at le
  exact Nat.le_trans le within.proofs

theorem live_bytes_le (rep : Represents format genesis record.committed record.state)
    (within : Within limits record.state) (pinned : record.Pinned) :
    (record.live.map format.encodedBytes).sum ≤ limits.proofBytes := by
  obtain ⟨listed, perm, sub⟩ := live_subperm rep pinned
  have bytes : (record.state.proofs.map Proof.entry).map format.encodedBytes =
      record.state.proofs.map Proof.bytes := by
    rw [List.map_map]
    exact List.map_congr_left fun proof member => (rep.proofs proof member).2.2.symm
  calc (record.live.map format.encodedBytes).sum
      = (listed.map format.encodedBytes).sum := (perm.map _).sum_eq.symm
    _ ≤ ((record.state.proofs.map Proof.entry).map format.encodedBytes).sum :=
        (sub.map _).sum_le_sum (fun _ _ => Nat.zero_le _)
    _ ≤ limits.proofBytes := by
        rw [bytes]
        exact within.proofBytes

/-! ## What a record keeps -/

/-- Every count is exact, every budget is kept, and a refusal commits nothing. -/
structure Accounts (format : Format) (limits : Limits) (record : Record) : Prop where
  verifies : (record.state.verify format).isOk = true
  issued : record.state.issued.retired + record.state.entries.length = record.state.issued.total ∧
    record.state.issued.total = record.committed.length
  digests : record.state.issued.digests = record.state.entries.map Held.digest
  sizes : record.state.sizes = record.state.entries.map (Held.charge format)
  places : ∀ index held, record.state.entries[index]? = some held →
    held.sequence = record.state.issued.retired + index
  readable : record.state.readableBytes = (record.state.entries.map (Held.charge format)).sum ∧
    record.state.readableBytes ≤ limits.readableBytes
  entries : record.state.entries.length ≤ limits.entries
  proofs : record.live.length ≤ limits.activeProofs ∧
    (record.live.map format.encodedBytes).sum ≤ limits.proofBytes
  refuses : ∀ (operation : Operation) (now : Nat) (accepts : Bool) (error : AuditError) (after : State),
    operation.perform format limits record.alive now accepts record.state = .error (error, after) →
      after.issued.total = record.state.issued.total ∧ after.head = record.state.head ∧
        (after.verify format).isOk = true

/-- **Every reachable record accounts for itself**, whatever operations, sink
failures, drops of proofs and readings of the clock led to it. -/
theorem Reachable.accounts (reached : Reachable format limits genesis record) :
    Accounts format limits record := by
  have rep := reached.represents
  have within := reached.within
  refine {
    verifies := rep.verify_isOk
    issued := ⟨by rw [rep.total]; exact rep.window, rep.total⟩
    digests := rep.digests
    sizes := rep.sizes
    places := ?_
    readable := ⟨by rw [rep.readable, rep.sizes], within.readable⟩
    entries := within.entries
    proofs := ⟨live_length_le rep within reached.pinned, live_bytes_le rep within reached.pinned⟩
    refuses := ?_ }
  · intro index held found
    obtain ⟨entry, committedAt, shows⟩ := rep.shows index held found
    rw [shows.sequence]
    exact (rep.chained _ _ committedAt).1
  · intro operation now accepts error after failed
    have did := operation.perform_did format limits record.alive now accepts record.state
    rw [failed] at did
    cases did with
    | refused makes =>
      exact ⟨makes.shrinks.total, makes.shrinks.head, (rep.makesRoom makes).verify_isOk⟩

end Record

/-- One entry retired and two held, one of them a decision that is pinned. -/
theorem Sample.busy_accounts : Record.Accounts Sample.format Sample.limits Sample.busy ∧
    Sample.busy.state.issued.retired = 1 ∧ Sample.busy.live.length = 1 :=
  ⟨Record.Reachable.accounts Sample.busy_reachable, by decide +kernel, by decide +kernel⟩

end McpSsh.Ledger
