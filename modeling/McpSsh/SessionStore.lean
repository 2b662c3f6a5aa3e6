import McpSsh.Session
import Mathlib.Data.List.Nodup

/-!
# What the session store keeps

An identifier names one session. Every operation but a publication forgets or
renews, and a session that cannot be used is not made usable again.
-/

namespace McpSsh

/-- One session for each identifier. -/
def Sessions.Distinct (store : Sessions) : Prop := (store.held.map (·.id)).Nodup

namespace Sessions

variable {store : Sessions} {now : Nat} {id : SessionId} {session : Session}

theorem find_eq_some (found : store.find id = some session) :
    session ∈ store.held ∧ session.id = id :=
  ⟨List.mem_of_find?_eq_some found, by simpa using List.find?_some found⟩

theorem Distinct.find (distinct : store.Distinct) (member : session ∈ store.held) :
    store.find session.id = some session := by
  cases found : store.find session.id with
  | none =>
    have missed := List.find?_eq_none.mp found session member
    simp at missed
  | some other =>
    obtain ⟨mo, same⟩ := find_eq_some found
    rw [List.inj_on_of_nodup_map distinct mo member same]

theorem Distinct.sublist (distinct : store.Distinct) {fewer : Sessions}
    (sub : fewer.held.Sublist store.held) : fewer.Distinct :=
  List.Nodup.sublist (sub.map _) distinct

theorem usable_eq_some (distinct : store.Distinct) :
    store.usable now id = some session ↔
      session ∈ store.held ∧ session.id = id ∧ session.expiry now = none := by
  simp only [usable, Option.filter_eq_some_iff, Option.isNone_iff_eq_none]
  constructor
  · rintro ⟨found, good⟩
    obtain ⟨member, same⟩ := find_eq_some found
    exact ⟨member, same, good⟩
  · rintro ⟨member, rfl, good⟩
    exact ⟨distinct.find member, good⟩

theorem usable_eq_none (distinct : store.Distinct) :
    store.usable now id = none ↔
      ∀ session ∈ store.held, session.id = id → session.expiry now ≠ none := by
  rw [Option.eq_none_iff_forall_ne_some]
  constructor
  · intro none' session member same good
    exact none' session ((usable_eq_some distinct).mpr ⟨member, same, good⟩)
  · intro lapsed session found
    obtain ⟨member, same, good⟩ := (usable_eq_some distinct).mp found
    exact lapsed session member same good

/-- Forgetting makes nothing usable. -/
theorem usable_sublist (distinct : store.Distinct) {fewer : Sessions}
    (sub : fewer.held.Sublist store.held) (gone : store.usable now id = none) :
    fewer.usable now id = none := by
  rw [usable_eq_none (distinct.sublist sub)]
  rw [usable_eq_none distinct] at gone
  exact fun session member => gone session (sub.subset member)

/-- Nor does time. -/
theorem usable_later (distinct : store.Distinct) {later : Nat} (le : now ≤ later)
    (gone : store.usable now id = none) : store.usable later id = none := by
  rw [usable_eq_none distinct] at gone ⊢
  intro session member same good
  have early := Session.expiry_isNone_of_le le (Option.isNone_iff_eq_none.mpr good)
  exact gone session member same (Option.isNone_iff_eq_none.mp early)

/-- Nor does laying the map out anew. -/
theorem usable_perm (distinct : store.Distinct) {other : Sessions}
    (same : store.held.Perm other.held) (gone : store.usable now id = none) :
    other.usable now id = none := by
  have distinct' : other.Distinct := (same.map _).nodup_iff.mp distinct
  rw [usable_eq_none distinct']
  rw [usable_eq_none distinct] at gone
  exact fun session member => gone session (same.mem_iff.mpr member)

/-! ## The operations -/

theorem sweep_held : (store.sweep now).held.Sublist store.held := List.filter_sublist

theorem remove_held : (store.remove id).held.Sublist store.held := List.filter_sublist

theorem close_held {principal : PrincipalId} :
    (store.close id principal).2.held.Sublist store.held := by
  unfold close
  split
  · split
    · exact remove_held
    · exact List.Sublist.refl _
  · exact List.Sublist.refl _

@[simp] theorem close_pending {principal : PrincipalId} :
    (store.close id principal).2.pending = store.pending := by
  unfold close
  split
  · split <;> rfl
  · rfl

/-- A reservation forgets at most, and counts one more slot if it is given. -/
theorem reserve_eq {perPrincipal : Nat} {principal : PrincipalId} {after : Sessions}
    {answer : Except TooManySessions Unit}
    (reserved : store.reserve perPrincipal now principal = (answer, after)) :
    after.held.Sublist store.held ∧
      after.pending = match answer with
        | .ok () => principal :: store.pending
        | .error _ => store.pending := by
  unfold reserve at reserved
  simp only at reserved
  split at reserved
  · split at reserved
    · cases reserved
      exact ⟨sweep_held, rfl⟩
    · cases reserved
      exact ⟨remove_held.trans sweep_held, rfl⟩
  · cases reserved
    exact ⟨sweep_held, rfl⟩

/-- A session is used in its owner's name while it lasts, and renewed by it. -/
theorem useSession_ok {principal : PrincipalId} {used : Session} {after : Sessions}
    (ran : store.useSession now id principal = (.ok used, after)) :
    ∃ session ∈ store.held, session.id = id ∧ session.principal = principal ∧
      session.expiry now = none ∧ used = { session with lastUsed := now } ∧
      after = { store with
        held := store.held.map (fun other => if other.id = id then used else other) } := by
  unfold useSession at ran
  split at ran
  · cases ran
  rename_i session found
  obtain ⟨member, same⟩ := find_eq_some found
  split at ran
  · cases ran
  rename_i mine
  split at ran
  · cases ran
  rename_i good
  cases ran
  exact ⟨session, member, same, by simpa using mine, good, rfl, rfl⟩

/-- A use that is refused forgets at most. -/
theorem useSession_error {principal : PrincipalId} {error : SessionError} {after : Sessions}
    (ran : store.useSession now id principal = (.error error, after)) :
    after.held.Sublist store.held ∧ after.pending = store.pending := by
  unfold useSession at ran
  split at ran
  · cases ran
    exact ⟨List.Sublist.refl _, rfl⟩
  split at ran
  · cases ran
    exact ⟨List.Sublist.refl _, rfl⟩
  split at ran
  · cases ran
    split
    · exact ⟨remove_held, rfl⟩
    · exact ⟨List.Sublist.refl _, rfl⟩
  · cases ran

/-- Renewing one session changes no identifier. -/
theorem renewed_ids {used : Session} (same : used.id = id) (held : List Session) :
    (held.map (fun other => if other.id = id then used else other)).map (·.id) =
      held.map (·.id) := by
  rw [List.map_map]
  refine List.map_congr_left fun other _ => ?_
  simp only [Function.comp_apply]
  split
  · rw [same]; exact Eq.symm ‹_›
  · rfl

/-- A usable session is what a use renews, so nothing else becomes usable. -/
theorem useSession_usable (distinct : store.Distinct) {principal : PrincipalId}
    {answer : Except SessionError Session} {after : Sessions}
    (ran : store.useSession now id principal = (answer, after)) {other : SessionId}
    (gone : store.usable now other = none) : after.usable now other = none := by
  cases answer with
  | error error => exact usable_sublist distinct (useSession_error ran).1 gone
  | ok used =>
    obtain ⟨session, member, same, -, good, usedEq, rfl⟩ := useSession_ok ran
    have sameUsed : used.id = id := by rw [usedEq]; exact same
    rw [usable_eq_none distinct] at gone
    have distinct' : Distinct { store with
        held := store.held.map (fun other => if other.id = id then used else other) } := by
      unfold Distinct
      rw [renewed_ids sameUsed]
      exact distinct
    rw [usable_eq_none distinct']
    intro found inside sameOther
    obtain ⟨before, mb, rfl⟩ := List.mem_map.mp inside
    split at sameOther
    · rename_i here
      exact absurd good (gone session member (same.trans (sameUsed.symm.trans sameOther)))
    · rename_i elsewhere
      rw [if_neg elsewhere]
      exact gone before mb sameOther

end Sessions

end McpSsh
