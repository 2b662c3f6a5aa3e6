import McpSsh.Approval.Store
import Mathlib.Data.List.Nodup
import Mathlib.Data.List.Perm.Basic

/-!
# The request store stays tidy

`Requests.Tidy` is what every operation of the store keeps: identifiers are
distinct, a request carries the principal of its session, at most one request
of a session is unredeemed for one action, and a session has no more requests
waiting than it may. From it, a refusal answers every later ask for its action
until the session's requests are swept.
-/

namespace McpSsh.Approvals

/-- Not yet spent. -/
def Held.isOpen (held : Held) : Bool := !held.state.isRedeemed

/-- Who a session belongs to does not change while it exists. -/
abbrev Owner : Type := SessionId → PrincipalId

structure Requests.Tidy (limit : Nat) (owner : Owner) (requests : Requests) : Prop where
  ids : (requests.map (·.asked.id)).Nodup
  owned : ∀ held ∈ requests, held.asked.principal = owner held.asked.session
  sole : ∀ a ∈ requests, ∀ b ∈ requests, a.asked.session = b.asked.session →
    a.action = b.action → a.isOpen = true → b.isOpen = true → a = b
  waiting : ∀ session, (requests.waitingOf session).length ≤ limit

variable {limit : Nat} {owner : Owner} {requests : Requests} {config : Config}

/-! ## The lookups -/

theorem Requests.find_eq_some {id : RequestId} {held : Held} (found : requests.find id = some held) :
    held ∈ requests ∧ held.asked.id = id :=
  ⟨List.mem_of_find?_eq_some found, by simpa using List.find?_some found⟩

/-- What can be decided is waiting, and in time. -/
theorem Requests.decidable_eq_ok {now : Nat} {id : RequestId} {held : Held}
    (found : requests.decidable now id = .ok held) :
    held ∈ requests ∧ held.asked.id = id ∧ held.state = .waiting ∧ now < held.asked.decideBy := by
  unfold Requests.decidable at found
  split at found
  · cases found
  rename_i held' foundAt
  obtain ⟨member, rfl⟩ := Requests.find_eq_some foundAt
  split at found
  · cases found
  rename_i waiting
  split at found
  · cases found
  · cases found
    refine ⟨member, rfl, ?_, by omega⟩
    cases state : held.state <;> simp_all [State.isWaiting]

@[simp] theorem Held.isAbout_iff {held : Held} {session : SessionId} {action : Digest} :
    held.isAbout session action = true ↔ held.asked.session = session ∧ held.action = action := by
  simp [Held.isAbout]

@[simp] theorem Held.isFor_iff {held : Held} {session : Session} {action : Digest} :
    held.isFor session action = true ↔ (held.asked.session = session.id ∧ held.action = action) ∧
      held.asked.principal = session.principal := by
  simp [Held.isFor]

theorem State.collectableBy_eq_some {state : State} {by_ : Approver} :
    state.collectableBy = some by_ ↔ state = .approved by_ true := by
  unfold State.collectableBy
  split <;> simp_all

theorem State.refusedBy_eq_some {state : State} {by_ : Approver} :
    state.refusedBy = some by_ ↔ state = .refused by_ := by
  unfold State.refusedBy
  split <;> simp_all

section
variable {now : Nat} {session : Session} {action : Digest}

theorem Requests.agreed_eq_some {grant : Grant}
    (found : requests.agreed now session action = some grant) :
    ∃ held ∈ requests, ∃ by_, held.isFor session action = true ∧ now < held.redeemBy ∧
      held.state = .approved by_ true ∧ grant = held.grant by_ := by
  obtain ⟨held, member, eq⟩ := List.exists_of_findSome?_eq_some found
  split at eq
  · rename_i fits
    simp only [Bool.and_eq_true, decide_eq_true_eq] at fits
    obtain ⟨by_, collectable, rfl⟩ := Option.map_eq_some_iff.mp eq
    exact ⟨held, member, by_, fits.1, fits.2, State.collectableBy_eq_some.mp collectable, rfl⟩
  · cases eq

theorem Requests.agreed_eq_none (none' : requests.agreed now session action = none) {held : Held}
    (member : held ∈ requests) (mine : held.isFor session action = true) {by_ : Approver}
    (collectable : held.state = .approved by_ true) : held.redeemBy ≤ now := by
  have missed := List.findSome?_eq_none_iff.mp none' held member
  simp only [mine, Bool.true_and, decide_eq_true_eq, State.collectableBy_eq_some.mpr collectable,
    Option.map_some] at missed
  split at missed
  · cases missed
  · omega

theorem Requests.lapsed_eq_some {id : RequestId} {by_ : Approver}
    (found : requests.lapsed now session action = some (id, by_)) :
    ∃ held ∈ requests, held.asked.id = id ∧ held.isFor session action = true ∧
      held.redeemBy ≤ now ∧ held.state = .approved by_ true := by
  obtain ⟨held, member, eq⟩ := List.exists_of_findSome?_eq_some found
  split at eq
  · rename_i fits
    simp only [Bool.and_eq_true, decide_eq_true_eq] at fits
    obtain ⟨found, collectable, same⟩ := Option.map_eq_some_iff.mp eq
    cases same
    exact ⟨held, member, rfl, fits.1, fits.2, State.collectableBy_eq_some.mp collectable⟩
  · cases eq

theorem Requests.lapsed_eq_none (none' : requests.lapsed now session action = none) {held : Held}
    (member : held ∈ requests) (mine : held.isFor session action = true) {by_ : Approver}
    (collectable : held.state = .approved by_ true) : now < held.redeemBy := by
  have missed := List.findSome?_eq_none_iff.mp none' held member
  simp only [mine, Bool.true_and, decide_eq_true_eq, State.collectableBy_eq_some.mpr collectable,
    Option.map_some] at missed
  split at missed
  · cases missed
  · omega

theorem Requests.refused_eq_some {id : SessionId} {by_ : Approver}
    (found : requests.refused id action = some by_) :
    ∃ held ∈ requests, held.isAbout id action = true ∧ held.state = .refused by_ := by
  obtain ⟨held, member, eq⟩ := List.exists_of_findSome?_eq_some found
  split at eq
  · exact ⟨held, member, ‹_›, State.refusedBy_eq_some.mp eq⟩
  · cases eq

theorem Requests.refused_eq_none {id : SessionId} (none' : requests.refused id action = none)
    {held : Held} (member : held ∈ requests) (about : held.isAbout id action = true) :
    ∀ by_, held.state ≠ .refused by_ := by
  intro by_ state
  have missed := List.findSome?_eq_none_iff.mp none' held member
  rw [if_pos about, state] at missed
  cases missed

theorem Requests.existing_eq_none {id : SessionId} (none' : requests.existing id action = none)
    {held : Held} (member : held ∈ requests) (about : held.isAbout id action = true) :
    held.state.isWaiting = false ∧ held.state.isUnrecorded = false := by
  have missed := List.find?_eq_none.mp none' held member
  simp only [about, Bool.true_and, Bool.or_eq_true, not_or, Bool.not_eq_true] at missed
  exact missed

/-- What an ask that raises a request left open for its action: an agreement
that outlived its window. -/
theorem Requests.lapsed_of_isOpen (noneAgreed : requests.agreed now session action = none)
    (noneRefused : requests.refused session.id action = none)
    (noneExisting : requests.existing session.id action = none) {held : Held}
    (member : held ∈ requests) (mine : held.isFor session action = true)
    (opened : held.isOpen = true) :
    ∃ by_, held.state = .approved by_ true ∧ held.redeemBy ≤ now := by
  have about : held.isAbout session.id action = true := by
    simp only [Held.isFor_iff] at mine
    simpa using mine.1
  obtain ⟨waiting, unrecorded⟩ := Requests.existing_eq_none noneExisting member about
  cases state : held.state with
  | waiting => simp [state, State.isWaiting] at waiting
  | refused by_ => exact (Requests.refused_eq_none noneRefused member about by_ state).elim
  | redeemed => simp [Held.isOpen, State.isRedeemed, state] at opened
  | approved by_ recorded =>
    cases recorded with
    | false => simp [state, State.isUnrecorded] at unrecorded
    | true => exact ⟨by_, rfl, Requests.agreed_eq_none noneAgreed member mine state⟩

end

/-- What a redemption that reaches its callback found. -/
theorem Requests.redeem_eq_ok {requests : Requests} {now : Nat} {id : RequestId}
    {principal : PrincipalId} {action : Digest} {grant : Grant}
    (redeemed : requests.redeem now id principal action = .ok grant) :
    ∃ held ∈ requests, ∃ by_, held.asked.id = id ∧ held.asked.principal = principal ∧
      held.action = action ∧ now < held.redeemBy ∧ held.state = .approved by_ true ∧
        grant = held.grant by_ := by
  unfold Requests.redeem at redeemed
  split at redeemed
  · cases redeemed
  rename_i held found
  obtain ⟨member, rfl⟩ := Requests.find_eq_some found
  split at redeemed
  · cases redeemed
  rename_i principals
  split at redeemed
  · cases redeemed
  · cases redeemed
  · cases redeemed
  · cases redeemed
  · rename_i by_ state
    split at redeemed
    · cases redeemed
    split at redeemed
    · cases redeemed
    · cases redeemed
      exact ⟨held, member, by_, rfl, by simpa using principals, by simp_all, by omega, state, rfl⟩

/-! ## What an ask comes to -/

/-- The request an ask raises, as it is kept. -/
def Config.raised (config : Config) (now : Nat) (fresh : RequestId) (intended : Intended) : Held :=
  ⟨intended.proof, config.raise now fresh intended, config.actionOf intended, .waiting, 0⟩

/-- What an ask comes to, by what it finds among the requests it keeps. -/
inductive AskCase (config : Config) (now : Nat) (fresh : RequestId) (intended : Intended)
    (kept : Requests) : Asking → Requests → Prop
  | collect {held : Held} {by_ : Approver} (member : held ∈ kept)
      (mine : held.isFor intended.decision.session (config.actionOf intended) = true)
      (within : now < held.redeemBy) (state : held.state = .approved by_ true) :
      AskCase config now fresh intended kept (.collect (held.grant by_)) kept
  | refused {held : Held} {by_ : Approver} (member : held ∈ kept)
      (about : held.isAbout intended.decision.session.id (config.actionOf intended) = true)
      (state : held.state = .refused by_) :
      AskCase config now fresh intended kept (.answered (.ok (.refused by_))) kept
  | pending {held : Held} (member : held ∈ kept)
      (about : held.isAbout intended.decision.session.id (config.actionOf intended) = true)
      (unanswered : held.state.isWaiting = true ∨ held.state.isUnrecorded = true) :
      AskCase config now fresh intended kept (.answered (.ok (.waiting (.pending held.asked)))) kept
  | full (many : config.waitingPerSession ≤ (kept.waitingOf intended.decision.session.id).length) :
      AskCase config now fresh intended kept (.answered (.error .tooManyWaiting)) kept
  | raised :
      AskCase config now fresh intended kept
        (.answered (.ok (.waiting (.new (config.raise now fresh intended)))))
        (config.raised now fresh intended :: kept)
  | lapsed {gone : Held} {by_ : Approver} (member : gone ∈ kept)
      (mine : gone.isFor intended.decision.session (config.actionOf intended) = true)
      (late : gone.redeemBy ≤ now) (state : gone.state = .approved by_ true)
      (found : kept.lapsed now intended.decision.session (config.actionOf intended) =
        some (gone.asked.id, by_)) :
      AskCase config now fresh intended kept
        (.answered (.ok (.lapsed (.new (config.raise now fresh intended)) by_)))
        ((config.raised now fresh intended :: kept).filter (·.asked.id ≠ gone.asked.id))

theorem Config.ask_case (config : Config) (now : Nat) (fresh : RequestId) (intended : Intended)
    (requests : Requests) :
    AskCase config now fresh intended (requests.retain now)
      (config.ask now fresh intended requests).1 (config.ask now fresh intended requests).2 := by
  unfold Config.ask
  generalize requests.retain now = kept
  simp only
  split
  · rename_i found
    obtain ⟨held, member, by_, mine, within, state, rfl⟩ := Requests.agreed_eq_some found
    exact .collect member mine within state
  split
  · rename_i found
    obtain ⟨held, member, about, state⟩ := Requests.refused_eq_some found
    exact .refused member about state
  split
  · rename_i held found
    have open' := List.find?_some found
    simp only [Bool.and_eq_true, Bool.or_eq_true] at open'
    exact .pending (List.mem_of_find?_eq_some found) open'.1 open'.2
  split
  · exact .full ‹_›
  split
  · rename_i found
    obtain ⟨gone, member, rfl, mine, late, state⟩ := Requests.lapsed_eq_some found
    exact .lapsed member mine late state found
  · exact .raised

namespace Requests.Tidy

theorem nil (limit : Nat) (owner : Owner) : Requests.Tidy limit owner [] where
  ids := List.nodup_nil
  owned := by intro held member; cases member
  sole := by intro a member; cases member
  waiting := by intro session; exact Nat.zero_le _

/-- An identifier names one request. -/
theorem eq_of_id (tidy : requests.Tidy limit owner) {a b : Held} (ma : a ∈ requests)
    (mb : b ∈ requests) (same : a.asked.id = b.asked.id) : a = b :=
  List.inj_on_of_nodup_map tidy.ids ma mb same

theorem find_eq (tidy : requests.Tidy limit owner) {held : Held} (member : held ∈ requests) :
    requests.find held.asked.id = some held := by
  cases found : requests.find held.asked.id with
  | none =>
    have none' := List.find?_eq_none.mp found held member
    simp at none'
  | some other =>
    obtain ⟨mo, same⟩ := Requests.find_eq_some found
    rw [tidy.eq_of_id mo member same]

/-- Forgetting keeps the store tidy. -/
theorem sublist (tidy : requests.Tidy limit owner) {fewer : Requests}
    (sub : fewer.Sublist requests) : fewer.Tidy limit owner where
  ids := tidy.ids.sublist (sub.map _)
  owned := fun held member => tidy.owned held (sub.subset member)
  sole := fun a ma b mb => tidy.sole a (sub.subset ma) b (sub.subset mb)
  waiting := fun session => (sub.filter _).length_le.trans (tidy.waiting session)

theorem filter (tidy : requests.Tidy limit owner) (keep : Held → Bool) :
    Requests.Tidy limit owner (List.filter keep requests) :=
  tidy.sublist List.filter_sublist

theorem retain (tidy : requests.Tidy limit owner) (now : Nat) :
    (requests.retain now).Tidy limit owner :=
  tidy.filter _

/-- The order in which requests are found does not matter. -/
theorem perm (tidy : requests.Tidy limit owner) {other : Requests} (same : requests.Perm other) :
    other.Tidy limit owner where
  ids := (same.map _).nodup_iff.mp tidy.ids
  owned := fun held member => tidy.owned held (same.mem_iff.mpr member)
  sole := fun a ma b mb => tidy.sole a (same.mem_iff.mpr ma) b (same.mem_iff.mpr mb)
  waiting := fun session => by
    rw [show (other.waitingOf session).length = (requests.waitingOf session).length from
      ((same.filter _).length_eq).symm]
    exact tidy.waiting session

/-- A change to one request that reopens nothing keeps the store tidy. -/
theorem update (tidy : requests.Tidy limit owner) {id : RequestId} {change : Held → Held}
    (asked : ∀ held, (change held).asked = held.asked)
    (action : ∀ held, (change held).action = held.action)
    (opened : ∀ held ∈ requests, held.asked.id = id → (change held).isOpen = true →
      held.isOpen = true)
    (waiting : ∀ held, (change held).state.isWaiting = true → held.state.isWaiting = true) :
    (requests.update id change).Tidy limit owner := by
  have keeps : ∀ held, (if held.asked.id = id then change held else held).asked = held.asked := by
    intro held
    split
    · exact asked held
    · rfl
  constructor
  · rw [Requests.update, List.map_map]
    rw [show ((·.asked.id) ∘ fun held => if held.asked.id = id then change held else held) =
      fun held : Held => held.asked.id from funext fun held => by simp [keeps]]
    exact tidy.ids
  · intro held member
    obtain ⟨old, mo, rfl⟩ := List.mem_map.mp member
    rw [keeps]
    exact tidy.owned old mo
  · intro a ma b mb sessions actions oa ob
    obtain ⟨x, mx, rfl⟩ := List.mem_map.mp ma
    obtain ⟨y, my, rfl⟩ := List.mem_map.mp mb
    have same : x = y := by
      apply tidy.sole x mx y my
      · simpa [keeps] using sessions
      · simp only [apply_ite Held.action, action, ite_self] at actions
        exact actions
      · split at oa
        · exact opened x mx ‹_› oa
        · exact oa
      · split at ob
        · exact opened y my ‹_› ob
        · exact ob
    rw [same]
  · intro session
    refine Nat.le_trans ?_ (tidy.waiting session)
    simp only [Requests.waitingOf, Requests.update, List.filter_map, List.length_map]
    refine (List.monotone_filter_right requests fun held => ?_).length_le
    simp only [Function.comp_apply, keeps, Bool.and_eq_true, decide_eq_true_eq]
    rintro ⟨here, waits⟩
    refine ⟨here, ?_⟩
    split at waits
    · exact waiting held waits
    · exact waits

/-- Raising a request for an action nothing open is about keeps the store tidy. -/
theorem cons (tidy : requests.Tidy limit owner) {raised : Held}
    (fresh : ∀ held ∈ requests, held.asked.id ≠ raised.asked.id)
    (owned : raised.asked.principal = owner raised.asked.session)
    (alone : ∀ held ∈ requests, held.asked.session = raised.asked.session →
      held.action = raised.action → held.isOpen = false)
    (room : (requests.waitingOf raised.asked.session).length < limit) :
    Requests.Tidy limit owner (raised :: requests) where
  ids := by
    refine List.nodup_cons.mpr ⟨fun member => ?_, tidy.ids⟩
    obtain ⟨held, mh, same⟩ := List.mem_map.mp member
    exact fresh held mh same
  owned := by
    intro held member
    rcases List.mem_cons.mp member with rfl | old
    · exact owned
    · exact tidy.owned held old
  sole := by
    intro a ma b mb sessions actions oa ob
    rcases List.mem_cons.mp ma with rfl | old <;> rcases List.mem_cons.mp mb with rfl | old'
    · rfl
    · rw [alone b old' sessions.symm actions.symm] at ob
      cases ob
    · rw [alone a old sessions actions] at oa
      cases oa
    · exact tidy.sole a old b old' sessions actions oa ob
  waiting := by
    intro session
    have before := tidy.waiting session
    simp only [Requests.waitingOf, List.filter_cons] at before ⊢
    split
    · rename_i here
      simp only [Bool.and_eq_true, decide_eq_true_eq] at here
      obtain ⟨rfl, _⟩ := here
      exact room
    · exact before

/-! ## The operations -/

theorem spend (tidy : requests.Tidy limit owner) (id : RequestId) :
    (requests.spend id).Tidy limit owner :=
  tidy.update (fun _ => rfl) (fun _ => rfl)
    (fun _ _ _ opened => by simp [Held.isOpen, State.isRedeemed] at opened)
    (fun _ waits => by cases waits)

theorem markRecorded (tidy : requests.Tidy limit owner) (id : RequestId) :
    (requests.markRecorded id).2.Tidy limit owner := by
  unfold Requests.markRecorded
  split
  · rename_i by_ found
    obtain ⟨held, foundAt, agreed⟩ := Option.bind_eq_some_iff.mp found
    obtain ⟨member, rfl⟩ := Requests.find_eq_some foundAt
    refine tidy.update (fun _ => rfl) (fun _ => rfl) (fun other mo same _ => ?_)
      (fun _ waits => by cases waits)
    rw [tidy.eq_of_id mo member same]
    cases state : held.state <;> simp_all [Held.isOpen, State.isRedeemed, State.agreedBy]
  · exact tidy

theorem answer (tidy : requests.Tidy limit owner) {held : Held} (member : held ∈ requests)
    (waiting : held.state.isWaiting = true) (now : Nat) (approver : Approver) (agreed : Bool) :
    (requests.update held.asked.id (config.answer now approver agreed)).Tidy limit owner := by
  refine tidy.update ?_ ?_ (fun other mo same _ => ?_) ?_
  · intro other
    unfold Config.answer
    split <;> rfl
  · intro other
    unfold Config.answer
    split <;> rfl
  · rw [tidy.eq_of_id mo member same]
    cases state : held.state <;> simp_all [Held.isOpen, State.isRedeemed, State.isWaiting]
  · intro other
    unfold Config.answer
    split <;> intro waits <;> cases waits

/-- Asking keeps the store tidy, whatever it finds. -/
theorem ask (tidy : requests.Tidy config.waitingPerSession owner) (now : Nat)
    {fresh : RequestId} {intended : Intended}
    (unused : ∀ held ∈ requests, held.asked.id ≠ fresh)
    (owned : intended.decision.session.principal = owner intended.decision.session.id) :
    (config.ask now fresh intended requests).2.Tidy config.waitingPerSession owner := by
  have tidy := tidy.retain now
  have unused : ∀ held ∈ requests.retain now, held.asked.id ≠ fresh :=
    fun held member => unused held (List.mem_of_mem_filter member)
  unfold Config.ask
  generalize requests.retain now = requests at tidy unused
  simp only
  split
  · exact tidy
  rename_i noneAgreed
  split
  · exact tidy
  rename_i noneRefused
  split
  · exact tidy
  rename_i noneExisting
  split
  · exact tidy
  rename_i room
  have room : (requests.waitingOf intended.decision.session.id).length < config.waitingPerSession := by
    omega
  -- Whatever is open for this action is an agreement that lapsed.
  have lapsedOnly : ∀ held ∈ requests, held.asked.session = intended.decision.session.id →
      held.action = config.actionOf intended → held.isOpen = true →
      held.isFor intended.decision.session (config.actionOf intended) = true ∧
        ∃ by_, held.state = .approved by_ true ∧ held.redeemBy ≤ now := by
    intro held member sessions actions opened
    have mine : held.isFor intended.decision.session (config.actionOf intended) = true := by
      simp [sessions, actions, tidy.owned held member, owned]
    exact ⟨mine, Requests.lapsed_of_isOpen noneAgreed noneRefused noneExisting member mine opened⟩
  split
  · rename_i id by_ lapsed
    obtain ⟨gone, memberGone, rfl, mine, late, state⟩ := Requests.lapsed_eq_some lapsed
    simp only [Held.isFor_iff] at mine
    have idGone : gone.asked.id ≠ fresh := unused gone memberGone
    simp only [List.filter_cons, ne_eq, Config.raise, idGone.symm, not_false_eq_true, decide_true,
      ite_true]
    refine (tidy.filter _).cons (fun held member => unused held (List.mem_of_mem_filter member))
      owned (fun held member sessions actions => ?_)
      (lt_of_le_of_lt ((List.filter_sublist.filter _).length_le) room)
    obtain ⟨member, other⟩ := List.mem_filter.mp member
    cases opened : held.isOpen with
    | false => rfl
    | true =>
      have same := tidy.sole held member gone memberGone (sessions.trans mine.1.1.symm)
        (actions.trans mine.1.2.symm) opened (by simp [Held.isOpen, state, State.isRedeemed])
      simp [same] at other
  · rename_i noneLapsed
    refine tidy.cons unused owned (fun held member sessions actions => ?_) room
    cases opened : held.isOpen with
    | false => rfl
    | true =>
      obtain ⟨mine, by_, state, late⟩ := lapsedOnly held member sessions actions opened
      exact absurd (Requests.lapsed_eq_none noneLapsed member mine state) (by omega)

end Requests.Tidy

end McpSsh.Approvals
