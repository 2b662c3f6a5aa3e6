import McpSsh.SessionSlots

/-!
# Quota and lifetime

What holds of the session store in any run: how many sessions and openings one
principal has, how a session comes to leave, and what a use of one says of the
clock.
-/

namespace McpSsh

/-- Before both of its ends, a session has not lapsed; a lapsed one is past one
of them. -/
theorem Session.expiry_eq_none {session : Session} {now : Nat} :
    session.expiry now = none ↔
      now - session.openedAt < session.lifetime.max ∧
        now - session.lastUsed < session.lifetime.idle := by
  unfold Session.expiry
  split
  · simp; omega
  · split
    · simp; omega
    · simp; omega

/-- What a sweep forgets has lapsed. -/
theorem Sessions.sweep_lapsed {store : Sessions} {now : Nat} {session : Session}
    (member : session ∈ store.held) (gone : session ∉ (store.sweep now).held) :
    (session.expiry now).isSome := by
  simp only [sweep, List.mem_filter, member, true_and, Bool.not_eq_true', Bool.not_eq_false] at gone
  simp only [Session.forgettable, Bool.and_eq_true] at gone
  exact gone.1

namespace Sessions

variable {store : Sessions} {now : Nat} {id : SessionId} {principal : PrincipalId}
  {session : Session}

theorem mem_remove (member : session ∈ store.held) (other : session.id ≠ id) :
    session ∈ (store.remove id).held :=
  List.mem_filter.mpr ⟨member, by simpa using other⟩

/-- A use loses a session only once it is of no more use. -/
theorem useSession_left (distinct : store.Distinct) (member : session ∈ store.held)
    (gone : ∀ other ∈ (store.useSession now id principal).2.held, other.id ≠ session.id) :
    (session.expiry now).isSome := by
  cases ran : store.useSession now id principal with
  | mk answer left =>
    rw [ran] at gone
    cases answer with
    | ok used =>
      obtain ⟨found, -, named, -, -, usedEq, rfl⟩ := useSession_ok ran
      -- A renewed session keeps its name.
      have kept : session.id ∈ (store.held.map (fun other =>
          if other.id = id then used else other)).map (·.id) := by
        rw [renewed_ids (by rw [usedEq]; exact named)]
        exact List.mem_map_of_mem member
      obtain ⟨other, among, same⟩ := List.mem_map.mp kept
      exact (gone other among same).elim
    | error error =>
      unfold useSession at ran
      split at ran
      · cases ran
        exact (gone session member rfl).elim
      rename_i found foundEq
      obtain ⟨inside, named⟩ := find_eq_some foundEq
      split at ran
      · cases ran
        exact (gone session member rfl).elim
      split at ran
      · rename_i why expired
        cases ran
        split at gone
        · by_cases here : session.id = id
          · have same : session = found :=
              List.inj_on_of_nodup_map distinct member inside (here.trans named.symm)
            rw [same, expired]
            rfl
          · exact (gone session (mem_remove member here) rfl).elim
        · exact (gone session member rfl).elim
      · cases ran

/-- A close loses the session it names, for its owner. -/
theorem close_left (distinct : store.Distinct) (member : session ∈ store.held)
    (gone : session ∉ (store.close id principal).2.held) :
    session.id = id ∧ session.principal = principal ∧
      (store.close id principal).1 = .ok () := by
  unfold close at gone ⊢
  split at gone
  · rename_i found foundEq
    obtain ⟨inside, named⟩ := find_eq_some foundEq
    split at gone
    · rename_i mine
      have here : session.id = id := by
        by_contra other
        exact gone (mem_remove member other)
      have same : session = found :=
        List.inj_on_of_nodup_map distinct member inside (here.trans named.symm)
      exact ⟨here, same ▸ mine, by rw [if_pos mine]⟩
    · exact (gone member).elim
  · exact (gone member).elim

end Sessions

namespace Slots

variable {limit : Nat} {lifetime : Lifetime} {slots after : Slots} {act : SlotAct}

/-- How a session leaves: its owner closes it, an operator's removal is
recorded, or it had lapsed by the clock the critical section read. -/
theorem Step.left (inv : Inv limit lifetime slots) (step : Step limit lifetime slots act after)
    {session : Session} (member : session ∈ slots.held)
    (gone : ∀ other ∈ after.held, other.id ≠ session.id) :
    act = .close session.id session.principal (.ok ()) ∨ act = .removeRecorded session.id ∨
      (session.expiry slots.reading).isSome := by
  have missing : session ∉ after.held := fun still => gone session still rfl
  cases step with
  | tick forward => exact (missing member).elim
  | rehash free held pending => exact (missing (held.mem_iff.mp member)).elim
  | @enter principal kept free fewer retained =>
    rw [enter_held] at missing
    have lapsed := Sessions.sweep_lapsed (show session ∈ slots.store.held from member) missing
    exact .inr (.inr (by simpa [reading, free] using lapsed))
  | load inside first => exact (missing member).elim
  | @settle request opening inside loaded =>
    unfold Slots.settle at missing
    simp only at missing
    split at missing
    · split at missing
      · exact (missing member).elim
      · rename_i stale picked
        obtain ⟨among, -, lapsed⟩ := stale_mem picked
        have evicted : session.id = stale.id := by
          by_contra other
          exact missing (List.mem_filter.mpr ⟨member, by simpa using other⟩)
        have same : session = stale :=
          List.inj_on_of_nodup_map inv.distinct member among evicted
        refine .inr (.inr ?_)
        simpa [reading, inside, same] using lapsed
    · exact (missing member).elim
  | drop active => exact (missing member).elim
  | @publish opening published free active mine opened used lives =>
    by_cases same : session.id = published.id
    · exact (gone _ List.mem_cons_self same.symm).elim
    · exact (missing (List.mem_cons_of_mem _
        (List.mem_filter.mpr ⟨member, by simpa using same⟩))).elim
  | sweep free =>
    have lapsed := Sessions.sweep_lapsed (show session ∈ slots.store.held from member) missing
    exact .inr (.inr (by simpa [reading, free] using lapsed))
  | @useSession id principal free =>
    have lapsed := Sessions.useSession_left inv.distinct member gone
    exact .inr (.inr (by simpa [reading, free] using lapsed))
  | @close id principal free =>
    obtain ⟨here, mine, closed⟩ :=
      Sessions.close_left inv.distinct member missing
    exact .inl (by rw [here, mine, closed])
  | @removeRecorded id free =>
    have same : session.id = id := by
      by_contra other
      exact missing (Sessions.mem_remove (show session ∈ slots.store.held from member) other)
    exact .inr (.inl (by rw [same]))

/-- A use that succeeds is the store's own. -/
theorem Step.use_eq {id : SessionId} {principal : PrincipalId} {used : Session}
    (step : Step limit lifetime slots (.useSession id principal (.ok used)) after) :
    slots.store.useSession slots.clock id principal =
        (.ok used, (slots.store.useSession slots.clock id principal).2) ∧
      after = { slots with
        held := (slots.store.useSession slots.clock id principal).2.held } := by
  generalize label : SlotAct.useSession id principal (.ok used) = act at step
  cases step with
  | useSession free =>
    simp only [SlotAct.useSession.injEq] at label
    obtain ⟨rfl, rfl, answered⟩ := label
    exact ⟨Prod.ext answered.symm rfl, rfl⟩
  | _ => cases label

/-- A session is used by its owner, before either of its ends. -/
theorem Step.used (inv : Inv limit lifetime slots) {id : SessionId} {principal : PrincipalId}
    {used : Session} (step : Step limit lifetime slots (.useSession id principal (.ok used)) after) :
    ∃ session ∈ slots.held, session.id = id ∧ session.principal = principal ∧
      slots.clock < session.openedAt + lifetime.max ∧
      slots.clock < session.lastUsed + lifetime.idle ∧
      used = { session with lastUsed := slots.clock } ∧ used ∈ after.held := by
  obtain ⟨ran, rfl⟩ := step.use_eq
  obtain ⟨session, member, named, mine, good, rfl, left⟩ := Sessions.useSession_ok ran
  rw [Session.expiry_eq_none, inv.lifetimes session member] at good
  refine ⟨session, member, named, mine, by omega, by omega, rfl, ?_⟩
  rw [left]
  exact List.mem_map.mpr ⟨session, member, if_pos named⟩

/-- What a step leaves of a session was not last used earlier. -/
theorem Step.lastUsed
    (step : Step limit lifetime slots act after) {id : SessionId} {since : Nat}
    (early : since ≤ slots.clock)
    (used : ∀ session ∈ slots.held, session.id = id → since ≤ session.lastUsed) :
    since ≤ after.clock ∧ ∀ session ∈ after.held, session.id = id → since ≤ session.lastUsed := by
  have fewer : ∀ {held : List Session}, held.Sublist slots.held →
      ∀ session ∈ held, session.id = id → since ≤ session.lastUsed :=
    fun sub session member => used session (sub.subset member)
  cases step with
  | tick forward => exact ⟨early.trans forward, used⟩
  | rehash free held pending =>
    exact ⟨early, fun session member => used session (held.mem_iff.mpr member)⟩
  | @enter principal kept free sub retained =>
    rw [enter_clock, enter_held]
    exact ⟨early, fewer Sessions.sweep_held⟩
  | load inside first => exact ⟨early, used⟩
  | settle inside loaded =>
    unfold Slots.settle
    simp only
    split
    · split
      · exact ⟨early, used⟩
      · exact ⟨early, fewer Sessions.remove_held⟩
    · exact ⟨early, used⟩
  | drop active => exact ⟨early, used⟩
  | publish free active mine opened lately lives =>
    refine ⟨early, fun session member named => ?_⟩
    rcases List.mem_cons.mp member with rfl | before
    · exact early.trans lately.ge
    · exact used session (List.mem_of_mem_filter before) named
  | sweep free => exact ⟨early, fewer Sessions.sweep_held⟩
  | @useSession name principal free =>
    refine ⟨early, ?_⟩
    cases ran : slots.store.useSession slots.clock name principal with
    | mk answer left =>
      cases answer with
      | error error => exact fewer (Sessions.useSession_error ran).1
      | ok renewed =>
        obtain ⟨found, -, -, -, -, rfl, rfl⟩ := Sessions.useSession_ok ran
        intro session member named
        obtain ⟨other, before, rfl⟩ := List.mem_map.mp member
        split at named
        · rw [if_pos ‹_›]
          exact early
        · rw [if_neg ‹_›]
          exact used other before named
  | close free => exact ⟨early, fewer Sessions.close_held⟩
  | removeRecorded free => exact ⟨early, fewer Sessions.remove_held⟩

/-- A session was not last used earlier than it was before. -/
theorem Reaches.lastUsed (inv : Inv limit lifetime slots)
    (run : Reaches limit lifetime slots after) {old later : Session} (before : old ∈ slots.held)
    (now : later ∈ after.held) (same : later.id = old.id) : old.lastUsed ≤ later.lastUsed := by
  have carried : old.lastUsed ≤ after.clock ∧
      ∀ session ∈ after.held, session.id = old.id → old.lastUsed ≤ session.lastUsed := by
    clear now same
    induction run with
    | refl =>
      refine ⟨inv.past old before, fun session member named => ?_⟩
      exact (congrArg _ (List.inj_on_of_nodup_map inv.distinct member before named)).ge
    | tail _ last ih =>
      obtain ⟨act, step⟩ := last
      exact step.lastUsed ih.1 ih.2
  exact carried.2 later now same

/-- What the store promises of its slots and its sessions.

* No principal occupies more than its slots, those of opens in progress
  included, and each of these is counted once.
* What leaves the store was closed by its owner, removed on record, or had
  lapsed by the reading under which it was let go of, as whatever is evicted to
  make room had.
* A session is used by its owner alone, before its age or its idleness end it.
* A session is never last used earlier than it was. -/
structure Kept (limit : Nat) (lifetime : Lifetime) (slots : Slots) : Prop where
  room : ∀ principal, slots.heldOf principal + slots.pendingOf principal ≤ limit
  pending : ∀ principal,
    slots.pendingOf principal = slots.openings.countP (·.principal = principal)
  leaves : ∀ act after, Step limit lifetime slots act after → ∀ session ∈ slots.held,
    (∀ other ∈ after.held, other.id ≠ session.id) →
      act = .close session.id session.principal (.ok ()) ∨ act = .removeRecorded session.id ∨
        (session.expiry slots.reading).isSome
  used : ∀ id principal used after,
    Step limit lifetime slots (.useSession id principal (.ok used)) after →
      ∃ session ∈ slots.held, session.id = id ∧ session.principal = principal ∧
        slots.clock < session.openedAt + lifetime.max ∧
        slots.clock < session.lastUsed + lifetime.idle ∧
        used = { session with lastUsed := slots.clock } ∧ used ∈ after.held
  lastUsed : ∀ after, Reaches limit lifetime slots after → ∀ old ∈ slots.held,
    ∀ later ∈ after.held, later.id = old.id → old.lastUsed ≤ later.lastUsed

/-- The session store keeps its promises after any operations in any order,
with openings dropped at any moment and the clock only going forward. -/
theorem quota {start : Nat} (run : Reaches limit lifetime (Slots.new start) slots) :
    Kept limit lifetime slots := by
  have inv : Inv limit lifetime slots := run.inv (Inv.new start)
  constructor
  case room =>
    intro principal
    rw [inv.pendingOf]
    exact inv.quota principal
  case pending => exact inv.pendingOf
  case leaves =>
    intro act after step session member gone
    exact step.left inv member gone
  case used =>
    intro id principal used after step
    exact step.used inv
  case lastUsed =>
    intro after onward old before later now same
    exact onward.lastUsed inv before now same

section Sample

/-- A reservation that nothing comes between. -/
theorem Reaches.reserve {principal : PrincipalId} {address opening : Nat}
    (free : slots.reserving = none)
    (entered : (slots.enter principal slots.pending).reserving =
      some ⟨principal, slots.clock, address, none⟩)
    (load : (slots.enter principal slots.pending).counters address = opening) :
    Reaches limit lifetime slots
      ((slots.enter principal slots.pending).settle limit
        ⟨principal, slots.clock, address, some opening⟩ opening).2 := by
  have enters : Step limit lifetime slots (.enter principal)
      (slots.enter principal slots.pending) :=
    .enter free (List.Sublist.refl _) (fun _ member _ => member)
  have loads : Step limit lifetime (slots.enter principal slots.pending) .load
      { slots.enter principal slots.pending with
        reserving := some ⟨principal, slots.clock, address, some opening⟩ } := by
    rw [← load]
    exact .load entered rfl
  have settles : Step limit lifetime
      { slots.enter principal slots.pending with
        reserving := some ⟨principal, slots.clock, address, some opening⟩ } _ _ := .settle rfl rfl
  exact .tail (.tail (.single ⟨_, enters⟩) ⟨_, loads⟩) ⟨_, settles⟩

/-- One session of the only caller, opened at the start. -/
def sampleSession : Session := { (default : Session) with lifetime := ⟨10, 100, 5⟩ }

/-- The only caller has taken its one slot and opened a session there. -/
def sampleOpened : Slots :=
  (((Slots.new 0).enter sampleSession.principal []).settle 1
    ⟨sampleSession.principal, 0, 0, some 0⟩ 0).2.publish ⟨sampleSession.principal, 0⟩ sampleSession

/-- The session lapsed, and was evicted for the next. -/
def sampleSlots : Slots :=
  (({ sampleOpened with clock := 10 }.enter sampleSession.principal sampleOpened.pending).settle 1
    ⟨sampleSession.principal, 10, 0, some 0⟩ 0).2

theorem sampleSlots_reached : Reaches 1 ⟨10, 100, 5⟩ (Slots.new 0) sampleSlots := by
  have reserved : Reaches 1 ⟨10, 100, 5⟩ (Slots.new 0)
      (((Slots.new 0).enter sampleSession.principal []).settle 1
        ⟨sampleSession.principal, 0, 0, some 0⟩ 0).2 := Reaches.reserve rfl rfl rfl
  have opened : Reaches 1 ⟨10, 100, 5⟩ (Slots.new 0) sampleOpened :=
    reserved.tail ⟨_, .publish rfl (by decide) rfl rfl rfl rfl⟩
  have lapsed : Reaches 1 ⟨10, 100, 5⟩ (Slots.new 0) { sampleOpened with clock := 10 } :=
    opened.tail ⟨_, .tick (by decide)⟩
  have again : Reaches 1 ⟨10, 100, 5⟩ { sampleOpened with clock := 10 } sampleSlots :=
    Reaches.reserve rfl rfl rfl
  exact lapsed.trans again

theorem quota_sample : Kept 1 ⟨10, 100, 5⟩ sampleSlots := quota sampleSlots_reached

example : sampleSlots.held = [] ∧ sampleSlots.pendingOf sampleSession.principal = 1 := by decide

end Sample

end Slots

end McpSsh
