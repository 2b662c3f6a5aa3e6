import McpSsh.Audit.Retention

/-!
# The retained window of a chain

`Represents` says which list of committed entries a ledger state stands for:
the window after the retired prefix is those entries, each intact or sealed,
and every count, commitment and proof the state keeps agrees with them. Every
retention operation keeps it, and on a state that has it none of them finds
corrupt evidence; an append extends the list by one entry or leaves it as it
was.
-/

namespace McpSsh.Ledger

/-- The digest the entry at a position commits to. -/
def linkBefore (genesis : Digest) (committed : List Entry) : Nat → Digest
  | 0 => genesis
  | before + 1 => (committed[before]?.map Entry.digest).getD genesis

/-- Appending leaves every earlier link as it was. -/
theorem linkBefore_append (genesis : Digest) (committed : List Entry) (entry : Entry) {place : Nat}
    (le : place ≤ committed.length) :
    linkBefore genesis (committed ++ [entry]) place = linkBefore genesis committed place := by
  cases place with
  | zero => rfl
  | succ before =>
    simp only [linkBefore]
    rw [List.getElem?_append_left (by omega)]

/-- Every entry has its place, its link and its digest. -/
def Chained (format : Format) (genesis : Digest) (committed : List Entry) : Prop :=
  ∀ index entry, committed[index]? = some entry →
    entry.sequence = index ∧ entry.previous = linkBefore genesis committed index ∧
      format.digestOf entry = entry.digest

/-- A chain goes on with an entry that has the next place and the last link. -/
theorem Chained.concat {format : Format} {genesis : Digest} {committed : List Entry}
    (chained : Chained format genesis committed) {entry : Entry}
    (place : entry.sequence = committed.length)
    (link : entry.previous = linkBefore genesis committed committed.length)
    (digest : format.digestOf entry = entry.digest) :
    Chained format genesis (committed ++ [entry]) := by
  intro index found member
  rcases Nat.lt_or_ge index committed.length with old | new
  · rw [List.getElem?_append_left old] at member
    rw [linkBefore_append _ _ _ (Nat.le_of_lt old)]
    exact chained index found member
  · rw [List.getElem?_append_right new, List.getElem?_singleton] at member
    split at member
    · cases member
      obtain rfl : index = committed.length := by omega
      rw [linkBefore_append _ _ _ le_rfl]
      exact ⟨place, link, digest⟩
    · cases member

/-- What a state holds of a committed entry: the entry, or its links. -/
def Held.Shows (held : Held) (entry : Entry) : Prop :=
  held = .intact entry ∨ held = .sealed entry.sequence entry.previous entry.digest

/-- The bytes a held entry is charged for. -/
def Held.charge (format : Format) : Held → Nat
  | .intact entry => format.encodedBytes entry
  | .sealed .. => 0

/-- A state that stands for a list of committed entries. -/
structure Represents (format : Format) (genesis : Digest) (committed : List Entry)
    (state : State) : Prop where
  chained : Chained format genesis committed
  total : state.issued.total = committed.length
  bound : committed.length ≤ maxCount
  window : state.issued.retired + state.entries.length = committed.length
  checkpoint : state.issued.checkpoint = linkBefore genesis committed state.issued.retired
  shows : ∀ index held, state.entries[index]? = some held →
    ∃ entry, committed[state.issued.retired + index]? = some entry ∧ held.Shows entry
  digests : state.issued.digests = state.entries.map Held.digest
  sizes : state.sizes = state.entries.map (Held.charge format)
  readable : state.readableBytes = state.sizes.sum
  proofs : ∀ proof ∈ state.proofs, committed[proof.entry.sequence]? = some proof.entry ∧
    proof.entry.event.pins = true ∧ proof.bytes = format.encodedBytes proof.entry
  keys : (state.proofs.map (·.entry.sequence)).Nodup

variable {format : Format} {genesis : Digest} {committed : List Entry} {state : State}
variable {limits : Limits} {alive : Nat → Bool} {now : Nat}

@[simp] theorem Held.Shows.sequence {held : Held} {entry : Entry} (shows : held.Shows entry) :
    held.sequence = entry.sequence := by
  rcases shows with rfl | rfl <;> rfl

@[simp] theorem Held.Shows.previous {held : Held} {entry : Entry} (shows : held.Shows entry) :
    held.previous = entry.previous := by
  rcases shows with rfl | rfl <;> rfl

@[simp] theorem Held.Shows.digest {held : Held} {entry : Entry} (shows : held.Shows entry) :
    held.digest = entry.digest := by
  rcases shows with rfl | rfl <;> rfl

/-- A fresh ledger stands for no entries. -/
theorem Represents.new (format : Format) (genesis : Digest) :
    Represents format genesis [] (State.new genesis) where
  chained := by intro index entry member; simp at member
  total := rfl
  bound := Nat.zero_le _
  window := rfl
  checkpoint := rfl
  shows := by intro index held member; simp [State.new] at member
  digests := rfl
  sizes := rfl
  readable := rfl
  proofs := by intro proof member; simp [State.new] at member
  keys := List.nodup_nil

namespace Represents

/-! ## Checking -/

/-- The link a held entry must carry is the one its committed entry does. -/
theorem linkAt_eq (rep : Represents format genesis committed state) {index : Nat}
    (within : index < state.entries.length) :
    state.linkAt index = linkBefore genesis committed (state.issued.retired + index) := by
  cases index with
  | zero => exact rep.checkpoint
  | succ before =>
    have held := List.getElem?_eq_getElem (Nat.lt_of_succ_lt within)
    obtain ⟨entry, committedAt, shows⟩ := rep.shows before _ held
    change _ = linkBefore genesis committed (state.issued.retired + before + 1)
    simp only [State.linkAt, held, Option.map_some, Option.getD_some, shows.digest, linkBefore,
      committedAt]

/-- No evidence in the window is corrupt. -/
theorem check_eq_true (rep : Represents format genesis committed state) {index : Nat}
    (within : index < state.entries.length) : state.check format index = true := by
  have held := List.getElem?_eq_getElem within
  obtain ⟨entry, committedAt, shows⟩ := rep.shows index _ held
  obtain ⟨place, link, digest⟩ := rep.chained _ _ committedAt
  have bound := rep.bound
  have window := rep.window
  have issued : state.issued.digests[index]? = some state.entries[index].digest := by
    rw [rep.digests, List.getElem?_map, held, Option.map_some]
  simp only [State.check, held, issued, shows.sequence, shows.previous, place, link,
    rep.linkAt_eq within, decide_true, Bool.and_true]
  have fits : state.issued.retired + index ≤ maxCount := by omega
  simp only [fits, decide_true, Bool.true_and]
  rcases shows with intact | hidden
  · simp [intact, digest]
  · simp [hidden]

/-! ## Sealing -/

/-- Emptying one slot takes its size off the total. -/
theorem sum_set_zero (sizes : List Nat) (index size : Nat) (at' : sizes[index]? = some size) :
    (sizes.set index 0).sum + size = sizes.sum := by
  induction sizes generalizing index with
  | nil => simp at at'
  | cons head tail ih =>
    cases index with
    | zero =>
      simp only [List.getElem?_cons_zero, Option.some.injEq] at at'
      simp [at', Nat.add_comm]
    | succ index =>
      have rest := ih index (by simpa using at')
      simp only [List.set_cons_succ, List.sum_cons]
      omega

theorem sealAt (rep : Represents format genesis committed state) {index : Nat}
    (within : index < state.entries.length) :
    ∃ state', state.sealAt format index = .ok state' ∧
      Represents format genesis committed state' ∧ state'.issued = state.issued ∧
      state'.entries.length = state.entries.length ∧ state'.proofs = state.proofs := by
  have held := List.getElem?_eq_getElem within
  unfold State.sealAt
  rw [if_pos (rep.check_eq_true within)]
  generalize state.entries[index] = entryAt at held
  rw [held]
  cases entryAt with
  | «sealed» => exact ⟨state, rfl, rep, rfl, rfl, rfl⟩
  | intact entry =>
    refine ⟨_, rfl, ?_, rfl, by simp, rfl⟩
    have charge : state.sizes[index]? = some (format.encodedBytes entry) := by
      rw [rep.sizes, List.getElem?_map, held]
      rfl
    exact {
      chained := rep.chained
      total := rep.total
      bound := rep.bound
      window := by simpa using rep.window
      checkpoint := rep.checkpoint
      shows := by
        intro other held' member
        rw [List.getElem?_set] at member
        split at member
        · rename_i same
          subst same
          cases member
          obtain ⟨found, committedAt, shows⟩ := rep.shows index _ held
          rcases shows with intact | hidden
          · cases intact
            exact ⟨entry, committedAt, .inr rfl⟩
          · cases hidden
        · exact rep.shows other held' member
      digests := by
        -- A sealed entry keeps its digest, so the commitments do not move.
        rw [List.map_set, rep.digests]
        refine (List.ext_getElem? fun other => ?_).symm
        rw [List.getElem?_set]
        split
        · rename_i same
          subst same
          obtain ⟨_, here⟩ := List.getElem?_eq_some_iff.mp held
          simp [within, here, Held.digest]
        · rfl
      sizes := by
        rw [List.map_set, rep.sizes]
        rfl
      readable := by
        have total := rep.readable
        have rest := sum_set_zero _ _ _ charge
        simp only [charge, Option.getD_some]
        omega
      proofs := rep.proofs
      keys := rep.keys }

end Represents

/-- What making room may do to the rest of the state: issued entries stay
issued, and a proof that is still referenced is still found. -/
structure Kept (alive : Nat → Bool) (before after : State) : Prop where
  total : after.issued.total = before.issued.total
  fewer : ∀ proof ∈ after.proofs, proof ∈ before.proofs
  pinned : ∀ proof ∈ before.proofs, alive proof.entry.sequence = true → proof ∈ after.proofs

theorem Kept.refl (state : State) : Kept alive state state :=
  ⟨rfl, fun _ member => member, fun _ member _ => member⟩

theorem Kept.trans {a b c : State} (first : Kept alive a b) (second : Kept alive b c) :
    Kept alive a c :=
  ⟨second.total.trans first.total, fun proof member => first.fewer proof (second.fewer proof member),
    fun proof member live => second.pinned proof (first.pinned proof member live) live⟩

theorem Kept.of_proofs_eq {a b : State} (total : b.issued.total = a.issued.total)
    (same : b.proofs = a.proofs) : Kept alive a b :=
  ⟨total, fun _ member => same ▸ member, fun _ member _ => same ▸ member⟩

namespace Represents

theorem sealStale (rep : Represents format genesis committed state) {indexes : List Nat}
    (within : ∀ index ∈ indexes, index < state.entries.length) :
    ∃ state', State.sealStale format limits now indexes state = .ok state' ∧
      Represents format genesis committed state' ∧ Kept alive state state' := by
  induction indexes generalizing state with
  | nil => exact ⟨state, rfl, rep, Kept.refl state⟩
  | cons index rest ih =>
    unfold State.sealStale
    split
    · obtain ⟨next, sealed', rep', issued, length, proofs⟩ :=
        rep.sealAt (within index List.mem_cons_self)
      rw [sealed']
      obtain ⟨last, done, repLast, kept⟩ := ih rep' (by
        intro other member
        rw [length]
        exact within other (List.mem_cons_of_mem _ member))
      exact ⟨last, done, repLast, (Kept.of_proofs_eq (by rw [issued]) proofs).trans kept⟩
    · exact ih rep (fun other member => within other (List.mem_cons_of_mem _ member))

theorem pruneIndexes (rep : Represents format genesis committed state) (alive : Nat → Bool) :
    Represents format genesis committed (state.pruneIndexes alive) ∧
      Kept alive state (state.pruneIndexes alive) := by
  refine ⟨?_, rfl, fun proof member => List.mem_of_mem_filter member,
    fun proof member live => List.mem_filter.mpr ⟨member, live⟩⟩
  exact { rep with
    proofs := fun proof member => rep.proofs proof (List.mem_of_mem_filter member)
    keys := rep.keys.sublist (List.filter_sublist.map _) }

theorem aligned (rep : Represents format genesis committed state) : state.aligned = true := by
  have window := rep.window
  have total := rep.total
  simp only [State.aligned, rep.digests, rep.sizes, List.length_map, decide_true, Bool.true_and,
    decide_eq_true_eq]
  omega

/-- Reclaiming a represented state never finds corrupt evidence. -/
theorem reclaim (rep : Represents format genesis committed state) (limits : Limits)
    (alive : Nat → Bool) (now : Nat) :
    ∃ state', state.reclaim format limits alive now = .ok state' ∧
      Represents format genesis committed state' ∧ Kept alive state state' := by
  obtain ⟨stale, sealed', rep', kept⟩ :
      ∃ state', State.sealStale format limits now (List.range state.entries.length) state =
        .ok state' ∧ Represents format genesis committed state' ∧ Kept alive state state' :=
    rep.sealStale (fun _ member => List.mem_range.mp member)
  obtain ⟨repLast, keptLast⟩ := rep'.pruneIndexes alive
  refine ⟨stale.pruneIndexes alive, ?_, repLast, kept.trans keptLast⟩
  unfold State.reclaim
  rw [if_pos rep.aligned, sealed']
  rfl

/-! ## Retiring -/

theorem retireFront (rep : Represents format genesis committed state)
    (some' : 0 < state.entries.length) :
    ∃ state', state.retireFront format = .ok state' ∧
      Represents format genesis committed state' ∧
      state'.entries.length + 1 = state.entries.length ∧ state'.issued.total = state.issued.total ∧
      state'.proofs = state.proofs := by
  have window := rep.window
  have bound := rep.bound
  unfold State.retireFront
  rw [if_pos (rep.check_eq_true some'), if_pos (by omega)]
  cases entries : state.entries with
  | nil => simp [entries] at some'
  | cons held rest =>
    obtain ⟨entry, committedAt, shows⟩ := rep.shows 0 held (by simp [entries])
    have sizes := rep.sizes
    have readable := rep.readable
    rw [entries, List.map_cons] at sizes
    refine ⟨_, rfl, ?_, by simp, rfl, rfl⟩
    exact {
      chained := rep.chained
      total := rep.total
      bound := rep.bound
      window := by simp only [entries, List.length_cons] at window; simp only; omega
      checkpoint := by
        simp only [Nat.add_zero] at committedAt
        simp only [linkBefore, committedAt, Option.map_some, Option.getD_some, shows.digest]
      shows := by
        intro index held' member
        obtain ⟨found, foundAt, shows'⟩ := rep.shows (index + 1) held' (by simpa [entries] using member)
        exact ⟨found, by rw [← foundAt]; congr 1; simp only; omega, shows'⟩
      digests := by rw [rep.digests, entries]; rfl
      sizes := by rw [sizes]; rfl
      readable := by
        rw [readable, sizes]
        simp
      proofs := rep.proofs
      keys := rep.keys }

theorem retire (rep : Represents format genesis committed state) (alive : Nat → Bool) {count : Nat}
    (enough : count ≤ state.entries.length) :
    ∃ state', State.retire format count state = .ok state' ∧
      Represents format genesis committed state' ∧ Kept alive state state' := by
  induction count generalizing state with
  | zero => exact ⟨state, rfl, rep, Kept.refl state⟩
  | succ count ih =>
    obtain ⟨next, retired, rep', length, total, proofs⟩ := rep.retireFront (by omega)
    obtain ⟨last, done, repLast, kept⟩ := ih rep' (by omega)
    refine ⟨last, ?_, repLast, (Kept.of_proofs_eq total proofs).trans kept⟩
    simp only [State.retire, retired, bind, Except.bind, done]

theorem sealFor (rep : Represents format genesis committed state) (limits : Limits)
    (alive : Nat → Bool) (charge : Nat) {indexes : List Nat} (within : ∀ index ∈ indexes, index < state.entries.length) :
    ∃ state', State.sealFor format limits charge indexes state = .ok state' ∧
      Represents format genesis committed state' ∧ Kept alive state state' := by
  induction indexes generalizing state with
  | nil => exact ⟨state, rfl, rep, Kept.refl state⟩
  | cons index rest ih =>
    unfold State.sealFor
    split
    · exact ⟨state, rfl, rep, Kept.refl state⟩
    · obtain ⟨next, sealed', rep', issued, length, proofs⟩ :=
        rep.sealAt (within index List.mem_cons_self)
      rw [sealed']
      obtain ⟨last, done, repLast, kept⟩ := ih rep' (by
        intro other member
        rw [length]
        exact within other (List.mem_cons_of_mem _ member))
      exact ⟨last, done, repLast, (Kept.of_proofs_eq (by rw [issued]) proofs).trans kept⟩

/-! ## Appending -/

/-- On a represented state, `prepare` either reserves the room or finds the
budget used up; nothing it did on the way is lost evidence. -/
theorem prepare (rep : Represents format genesis committed state) (limits : Limits)
    (alive : Nat → Bool) (now : Nat) (entry : Entry) (pin : Bool) :
    ∃ state', Represents format genesis committed state' ∧ Kept alive state state' ∧
      (state.prepare format limits alive now entry pin = .error (.full, state') ∨
        committed.length < maxCount ∧
        ∃ readable, state.prepare format limits alive now entry pin =
          .ok (state', ⟨format.encodedBytes entry, readable⟩)) := by
  unfold State.prepare
  simp only [bind, Except.bind, pure, Except.pure, throw, throwThe, MonadExceptOf.throw]
  split
  · exact ⟨state, rep, Kept.refl state, .inl rfl⟩
  rename_i room
  obtain ⟨reclaimed, eq, rep₁, kept₁⟩ := rep.reclaim limits alive now
  simp only [eq]
  split
  · exact ⟨reclaimed, rep₁, kept₁, .inl rfl⟩
  rename_i usable
  split
  · exact ⟨reclaimed, rep₁, kept₁, .inl rfl⟩
  obtain ⟨retired, eq, rep₂, kept₂⟩ :=
    rep₁.retire alive (show reclaimed.entries.length + 1 - limits.entries ≤ _ by omega)
  simp only [eq]
  obtain ⟨fitted, eq, rep₃, kept₃⟩ :=
    rep₂.sealFor limits alive
      (if format.encodedBytes entry ≤ limits.readableBytes then format.encodedBytes entry else 0)
      (fun _ member => List.mem_range.mp member)
  simp only [decide_eq_true_eq, eq]
  have kept := (kept₁.trans kept₂).trans kept₃
  generalize (if format.encodedBytes entry ≤ limits.readableBytes then format.encodedBytes entry
    else 0) = charge
  split
  · exact ⟨fitted, rep₃, kept, .inl rfl⟩
  obtain ⟨rep₄, kept₄⟩ := rep₃.pruneIndexes alive
  have total := rep.total
  exact ⟨fitted.pruneIndexes alive, rep₄, kept.trans kept₄, .inr ⟨by omega, _, rfl⟩⟩

/-- The head of a represented state is the link its next entry needs. -/
theorem head_eq (rep : Represents format genesis committed state) :
    state.head = linkBefore genesis committed committed.length := by
  have window := rep.window
  unfold State.head
  rcases Nat.eq_zero_or_pos state.entries.length with none' | some'
  · rw [List.eq_nil_of_length_eq_zero none']
    simp only [List.getLast?_nil, Option.map_none, Option.getD_none, rep.checkpoint]
    congr 1
    omega
  · have held := List.getElem?_eq_getElem (show state.entries.length - 1 < state.entries.length by omega)
    obtain ⟨entry, committedAt, shows⟩ := rep.shows _ _ held
    have place : committed.length = state.issued.retired + (state.entries.length - 1) + 1 := by omega
    rw [List.getLast?_eq_getElem?, held, place]
    simp only [Option.map_some, Option.getD_some, shows.digest, linkBefore, committedAt]

/-- A drafted entry extends the chain. -/
theorem chained_draft (rep : Represents format genesis committed state) (who : Attribution)
    (event : Event) :
    Chained format genesis (committed ++ [state.draft format now who event]) :=
  rep.chained.concat rep.total rep.head_eq rfl

theorem commit (rep : Represents format genesis committed state) {entry : Entry} (readable : Bool)
    (room : committed.length < maxCount)
    (chained : Chained format genesis (committed ++ [entry])) :
    Represents format genesis (committed ++ [entry])
      (state.commit entry ⟨format.encodedBytes entry, readable⟩ entry.event.pins) := by
  have window := rep.window
  have place : entry.sequence = committed.length := (chained committed.length entry (by simp)).1
  have older : ∀ (index : Nat) (found : Entry), committed[index]? = some found →
      (committed ++ [entry])[index]? = some found := by
    intro index found member
    rw [List.getElem?_append_left (List.getElem?_eq_some_iff.mp member).1, member]
  exact {
    chained := chained
    total := by simp [State.commit, rep.total]
    bound := by simp; omega
    window := by simp [State.commit]; omega
    checkpoint := by
      rw [linkBefore_append _ _ _ (by simp only [State.commit]; omega)]
      exact rep.checkpoint
    shows := by
      intro index held member
      simp only [State.commit] at member ⊢
      rcases Nat.lt_or_ge index state.entries.length with old | new
      · rw [List.getElem?_append_left old] at member
        obtain ⟨found, committedAt, shows⟩ := rep.shows index held member
        exact ⟨found, older _ _ committedAt, shows⟩
      · rw [List.getElem?_append_right new, List.getElem?_singleton] at member
        split at member
        · cases member
          refine ⟨entry, by rw [show state.issued.retired + index = committed.length by omega]; simp,
            ?_⟩
          cases readable
          · exact .inr rfl
          · exact .inl rfl
        · cases member
    digests := by
      simp only [State.commit, List.map_append, rep.digests, List.map_cons, List.map_nil]
      split <;> rfl
    sizes := by
      simp only [State.commit, List.map_append, rep.sizes, List.map_cons, List.map_nil]
      split <;> rfl
    readable := by
      simp only [State.commit, List.sum_append, rep.readable, List.sum_singleton]
    proofs := by
      intro proof member
      simp only [State.commit] at member
      split at member
      · rename_i pins
        rcases List.mem_cons.mp member with rfl | old
        · exact ⟨by simp [place], pins, rfl⟩
        · obtain ⟨found, pins, bytes⟩ := rep.proofs proof old
          exact ⟨older _ _ found, pins, bytes⟩
      · obtain ⟨found, pins, bytes⟩ := rep.proofs proof member
        exact ⟨older _ _ found, pins, bytes⟩
    keys := by
      simp only [State.commit]
      split
      · refine List.nodup_cons.mpr ⟨fun member => ?_, rep.keys⟩
        obtain ⟨proof, old, same⟩ := List.mem_map.mp member
        have found := (List.getElem?_eq_some_iff.mp (rep.proofs proof old).1).1
        simp only at same
        omega
      · exact rep.keys }

/-- **One append.** On a state that represents `committed`, an append is either
refused for want of room or by the recording boundary, committing nothing, or
commits exactly the drafted entry; and where that entry pins, its proof is
found from then on. -/
theorem append (rep : Represents format genesis committed state) (limits : Limits)
    (alive : Nat → Bool) (now : Nat) (accepts : Bool) (who : Attribution) (event : Event) :
    (∃ error state', state.append format limits alive now accepts who event = .error (error, state') ∧
        (error = .full ∨ error = .notRecorded) ∧
        Represents format genesis committed state' ∧ Kept alive state state') ∨
    (accepts = true ∧ ∃ state' entry,
        state.append format limits alive now accepts who event = .ok (state', entry) ∧
        entry.sequence = committed.length ∧ entry.atMillis = now ∧ entry.who = who ∧
        entry.event = event ∧ Represents format genesis (committed ++ [entry]) state' ∧
        (∀ proof ∈ state.proofs, alive proof.entry.sequence = true → proof ∈ state'.proofs) ∧
        (event.pins = true → ∃ proof ∈ state'.proofs, proof.entry = entry)) := by
  obtain ⟨roomy, rep', kept, refused | ⟨room, readable, prepared⟩⟩ :=
    rep.prepare limits alive now
      (state.draft format now who event) event.pins
  · refine .inl ⟨.full, roomy, ?_, .inl rfl, rep', kept⟩
    simp only [State.append, refused, bind, Except.bind]
  · cases accepts with
    | false =>
      refine .inl ⟨.notRecorded, roomy, ?_, .inr rfl, rep', kept⟩
      simp only [State.append, prepared, bind, Except.bind]
      rfl
    | true =>
      refine .inr ⟨rfl, _, state.draft format now who event, ?_, rep.total, rfl, rfl, rfl,
        rep'.commit readable room (rep.chained_draft who event), ?_, ?_⟩
      · simp only [State.append, prepared, bind, Except.bind]
        rfl
      · intro proof member live
        have found := kept.pinned proof member live
        simp only [State.commit]
        split
        · exact List.mem_cons_of_mem _ found
        · exact found
      · intro pins
        let entry := state.draft format now who event
        refine ⟨⟨entry, format.encodedBytes entry, false⟩, ?_, rfl⟩
        simp only [State.commit]
        rw [if_pos (show entry.event.pins = true from pins)]
        exact List.mem_cons_self

end Represents

end McpSsh.Ledger
