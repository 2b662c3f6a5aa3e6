import McpSsh.SessionQuota

/-!
# What the counters stand for

The bastion knows the store as `Sessions`, where a slot reserved is an entry of
`pending`. A reservation takes place there when the counter is loaded: what the
rest of `reserve` does is then decided, whatever is dropped meanwhile.
-/

namespace McpSsh

/-- One operation of the store, by the names the bastion's model has for it. -/
inductive Sessions.Does (limit : Nat) : Sessions → Sessions → Prop
  | stays {store : Sessions} : Does limit store store
  | rehash {store : Sessions} {held : List Session} (same : store.held.Perm held) :
      Does limit store { store with held }
  | sweep {store : Sessions} (now : Nat) : Does limit store (store.sweep now)
  | reserve {store : Sessions} (now : Nat) (principal : PrincipalId) :
      Does limit store (store.reserve limit now principal).2
  | release {store : Sessions} (principal : PrincipalId) :
      Does limit store (store.release principal)
  | publish {store : Sessions} {session : Session}
      (drawn : ∀ other ∈ store.held, other.id ≠ session.id) :
      Does limit store (store.publish session)
  | useSession {store : Sessions} (now : Nat) (id : SessionId) (principal : PrincipalId) :
      Does limit store (store.useSession now id principal).2
  | close {store : Sessions} (id : SessionId) (principal : PrincipalId) :
      Does limit store (store.close id principal).2
  | remove {store : Sessions} (id : SessionId) : Does limit store (store.remove id)

namespace Sessions

variable {store : Sessions} {pending : List PrincipalId} {now : Nat} {id : SessionId}
  {principal : PrincipalId}

/-- A use has nothing to do with the slots reserved. -/
theorem useSession_apart :
    (({ store with pending } : Sessions).useSession now id principal).2 =
      { (store.useSession now id principal).2 with pending } := by
  unfold useSession
  rw [show ({ store with pending } : Sessions).find id = store.find id from rfl]
  cases store.find id with
  | none => rfl
  | some session =>
    simp only
    split
    · rfl
    · cases session.expiry now with
      | none => rfl
      | some why =>
        simp only
        split <;> rfl

/-- Nor has a close. -/
theorem close_apart :
    (({ store with pending } : Sessions).close id principal).2 =
      { (store.close id principal).2 with pending } := by
  unfold close
  rw [show ({ store with pending } : Sessions).find id = store.find id from rfl]
  cases store.find id with
  | none => rfl
  | some session =>
    simp only
    split <;> rfl

end Sessions

namespace Slots

variable {limit : Nat} {lifetime : Lifetime} {slots after : Slots} {act : SlotAct}
  {sessions : Sessions}

/-- The store as it will be once the reservation in progress has been decided,
if it has loaded its counter. -/
def decided (limit : Nat) (slots : Slots) : Slots :=
  match slots.reserving with
  | none => slots
  | some request =>
    match request.opening with
    | none => slots
    | some opening => (slots.settle limit request opening).2

/-- The same sessions, and as many slots for every principal. -/
def Shows (limit : Nat) (slots : Slots) (sessions : Sessions) : Prop :=
  sessions.held = (slots.decided limit).held ∧
    sessions.pending.Perm ((slots.decided limit).openings.map (·.principal))

/-- What `reserve` swept is still swept while it holds the locks. -/
def Swept (slots : Slots) : Prop :=
  ∀ request, slots.reserving = some request →
    ∀ session ∈ slots.held, session.forgettable request.now = false

theorem decided_free (free : slots.reserving = none) : slots.decided limit = slots := by
  unfold decided
  rw [free]

theorem Step.swept (step : Step limit lifetime slots act after) (swept : Swept slots) :
    Swept after := by
  have outside : slots.reserving = none → ∀ held : List Session,
      Swept { slots with held } := fun free held request inside => by
    rw [show ({ slots with held } : Slots).reserving = slots.reserving from rfl, free] at inside
    cases inside
  cases step with
  | tick forward => exact swept
  | rehash free held pending =>
    intro request inside
    rw [free] at inside
    cases inside
  | @enter principal kept free fewer retained =>
    intro request inside session member
    obtain ⟨reservation, entered⟩ := slots.enter_reserving principal kept
    rw [entered] at inside
    cases inside
    rw [enter_held] at member
    simpa using (List.mem_filter.mp member).2
  | load inside first =>
    intro request now session member
    cases now
    exact swept _ inside session member
  | settle inside loaded =>
    intro request now
    unfold Slots.settle at now
    simp only at now
    split at now
    · split at now <;> cases now
    · cases now
  | drop active => exact swept
  | publish free active mine opened used lives =>
    intro request inside
    rw [show (slots.publish _ _).reserving = slots.reserving from rfl, free] at inside
    cases inside
  | sweep free => exact outside free _
  | useSession free => exact outside free _
  | close free => exact outside free _
  | removeRecorded free => exact outside free _

/-- A reservation that has not loaded its counter has decided nothing. -/
theorem decided_unloaded {request : Reserving} (inside : slots.reserving = some request)
    (first : request.opening = none) : slots.decided limit = slots := by
  unfold decided
  simp [inside, first]

theorem decided_loaded {request : Reserving} {opening : Nat}
    (inside : slots.reserving = some request) (loaded : request.opening = some opening) :
    slots.decided limit = (slots.settle limit request opening).2 := by
  unfold decided
  simp [inside, loaded]

/-- What is left of an opening's slots once it is dropped. -/
theorem openings_perm {opening : Opening} (active : opening ∈ slots.openings) :
    (slots.openings.map (·.principal)).Perm
      (opening.principal :: (slots.openings.erase opening).map (·.principal)) :=
  (List.perm_cons_erase active).map _

/-- Once loaded, a reservation is the one `Sessions.reserve` makes. -/
theorem Shows.load (inv : Inv limit lifetime slots) (swept : Swept slots)
    (shows' : Shows limit slots sessions) {request : Reserving}
    (inside : slots.reserving = some request) (first : request.opening = none) :
    Shows limit
      { slots with reserving := some { request with
        opening := some (slots.counters request.reservation) } }
      (sessions.reserve limit request.now request.principal).2 := by
  obtain ⟨held, pending⟩ := shows'
  rw [decided_unloaded inside first] at held pending
  have clean : sessions.sweep request.now = sessions := by
    have all : sessions.held.filter (fun session => !session.forgettable request.now) =
        sessions.held := List.filter_eq_self.mpr fun session member => by
      simpa using swept request inside session (held ▸ member)
    unfold Sessions.sweep
    rw [all]
  have count : sessions.pending.count request.principal =
      slots.counters request.reservation := by
    obtain ⟨-, mapped, -⟩ := inv.reserving request inside
    rw [inv.shared mapped, pending.count_eq, List.count, List.countP_map]
    exact List.countP_congr fun opening _ => by simp
  unfold Shows
  rw [decided_loaded rfl rfl]
  unfold Sessions.reserve settle
  simp only [clean, count, held]
  split
  · split
    · rename_i refused
      simp only [refused]
      exact ⟨held, pending⟩
    · rename_i stale picked
      simp only [picked]
      exact ⟨by simp [grant, setCounter, store, Sessions.remove, held], pending.cons _⟩
  · exact ⟨rfl, pending.cons _⟩

/-- A drop gives back one slot of its principal's, also behind the back of a
reservation that is about to be decided. -/
theorem Shows.drop (shows' : Shows limit slots sessions) {opening : Opening}
    (active : opening ∈ slots.openings) :
    Shows limit (slots.drop opening) (sessions.release opening.principal) := by
  have free : ∀ {before : Slots}, before.openings = slots.openings →
      sessions.pending.Perm (before.openings.map (·.principal)) →
      (sessions.release opening.principal).pending.Perm
        ((slots.openings.erase opening).map (·.principal)) := by
    intro before same pending
    rw [same] at pending
    simpa [Sessions.release] using (pending.trans (openings_perm active)).erase opening.principal
  have granted : ∀ {before : Slots} {request : Reserving},
      before.openings = ⟨request.principal, request.reservation⟩ :: slots.openings →
      sessions.pending.Perm (before.openings.map (·.principal)) →
      (sessions.release opening.principal).pending.Perm
        (request.principal :: (slots.openings.erase opening).map (·.principal)) := by
    intro before request same pending
    rw [same, List.map_cons] at pending
    have two := pending.trans (((openings_perm active).cons _).trans (List.Perm.swap _ _ _))
    simpa [Sessions.release] using two.erase opening.principal
  obtain ⟨held, pending⟩ := shows'
  cases inside : slots.reserving with
  | none =>
    rw [decided_free inside] at held pending
    unfold Shows
    rw [decided_free (show (slots.drop opening).reserving = none from inside)]
    exact ⟨held, free rfl pending⟩
  | some request =>
    cases loaded : request.opening with
    | none =>
      rw [decided_unloaded inside loaded] at held pending
      unfold Shows
      rw [decided_unloaded (show (slots.drop opening).reserving = some request from inside) loaded]
      exact ⟨held, free rfl pending⟩
    | some count =>
      rw [decided_loaded inside loaded] at held pending
      unfold Shows
      rw [decided_loaded (show (slots.drop opening).reserving = some request from inside) loaded]
      unfold settle at held pending ⊢
      have same : (slots.drop opening).held = slots.held := rfl
      simp only [same] at held pending ⊢
      split at held
      · rename_i full
        simp only [full, if_true] at pending ⊢
        split at held
        · rename_i none'
          simp only [none'] at pending ⊢
          exact ⟨held, free rfl pending⟩
        · rename_i stale picked
          simp only [picked] at pending ⊢
          exact ⟨held, granted rfl pending⟩
      · rename_i room
        simp only [room, if_false] at pending ⊢
        exact ⟨held, granted rfl pending⟩

/-- Outside a reservation, the two stores are the same. -/
theorem Shows.of_free (free : slots.reserving = none) :
    Shows limit slots sessions ↔
      sessions.held = slots.held ∧ sessions.pending.Perm slots.store.pending := by
  unfold Shows
  rw [decided_free free]
  rfl

theorem Shows.free (free : slots.reserving = none) (held : sessions.held = slots.held)
    (pending : sessions.pending.Perm slots.store.pending) : Shows limit slots sessions :=
  (Shows.of_free free).mpr ⟨held, pending⟩

/-- What touches the sessions alone does to one store what it does to the
other. -/
theorem Shows.same (free : slots.reserving = none) (shows' : Shows limit slots sessions)
    (does : Sessions → Sessions)
    (apart : ∀ store pending, does { store with pending } = { does store with pending }) :
    Shows limit { slots with held := (does slots.store).held } (does sessions) := by
  obtain ⟨held, pending⟩ := (Shows.of_free free).mp shows'
  have did : does sessions = { does slots.store with pending := sessions.pending } := by
    rw [← apart, show ({ slots.store with pending := sessions.pending } : Sessions) = sessions by
      rw [store, ← held]]
  rw [did]
  apply Shows.free
  case free => exact free
  case held => rfl
  case pending => exact pending

/-- Every step of the store with counters is one operation of the store the
bastion knows, or none that it can tell. -/
theorem Step.simulated (inv : Inv limit lifetime slots) (swept : Swept slots)
    (shows' : Shows limit slots sessions) (step : Step limit lifetime slots act after)
    (drawn : ∀ principal id, act = .publish principal id → ∀ held ∈ slots.held, held.id ≠ id) :
    ∃ left, Sessions.Does limit sessions left ∧ Shows limit after left := by
  cases step with
  | @tick later forward =>
    refine ⟨sessions, .stays, ?_⟩
    have same : decided limit { slots with clock := later } =
        { slots.decided limit with clock := later } := by
      unfold decided
      simp only
      split
      · rfl
      · split
        · rfl
        · unfold Slots.settle
          simp only
          split
          · cases (List.argmin Session.lapsedAt _) <;> rfl
          · rfl
    unfold Shows
    rw [same]
    exact shows'
  | rehash free held pending =>
    obtain ⟨sameHeld, samePending⟩ := (Shows.of_free free).mp shows'
    refine ⟨_, .rehash (sameHeld ▸ held), ?_⟩
    apply Shows.free
    case free => exact free
    case held => rfl
    case pending => exact samePending
  | @enter principal kept free fewer retained =>
    obtain ⟨sameHeld, samePending⟩ := (Shows.of_free free).mp shows'
    obtain ⟨reservation, entered⟩ := slots.enter_reserving principal kept
    refine ⟨_, .sweep slots.clock, ?_⟩
    unfold Shows
    rw [decided_unloaded entered rfl, enter_held, enter_openings]
    exact ⟨by simp only [Sessions.sweep, sameHeld, store], samePending⟩
  | load inside first => exact ⟨_, .reserve _ _, shows'.load inv swept inside first⟩
  | @settle request opening inside loaded =>
    refine ⟨sessions, .stays, ?_⟩
    unfold Shows at shows' ⊢
    rw [decided_loaded inside loaded] at shows'
    have free : (slots.settle limit request opening).2.reserving = none := by
      unfold Slots.settle
      simp only
      split
      · split <;> rfl
      · rfl
    rwa [decided_free free]
  | drop active => exact ⟨_, .release _, shows'.drop active⟩
  | @publish opening session free active mine opened used lives =>
    obtain ⟨sameHeld, samePending⟩ := (Shows.of_free free).mp shows'
    have unused := drawn _ _ rfl
    refine ⟨_, .publish (sameHeld ▸ unused), ?_⟩
    apply Shows.free
    case free => exact free
    case held =>
      have all : slots.held.filter (·.id ≠ session.id) = slots.held :=
        List.filter_eq_self.mpr fun held member => by simpa using unused held member
      simp only [Sessions.publish, Slots.publish, all, sameHeld]
    case pending =>
      have one := (samePending.trans (openings_perm active)).erase opening.principal
      rw [List.erase_cons_head] at one
      rw [Sessions.publish, mine]
      exact one
  | sweep free =>
    exact ⟨_, .sweep slots.clock, shows'.same free (·.sweep slots.clock) fun _ _ => rfl⟩
  | @useSession id principal free =>
    exact ⟨_, .useSession slots.clock id principal,
      shows'.same free (fun store => (store.useSession slots.clock id principal).2)
        fun _ _ => Sessions.useSession_apart⟩
  | @close id principal free =>
    exact ⟨_, .close id principal,
      shows'.same free (fun store => (store.close id principal).2) fun _ _ => Sessions.close_apart⟩
  | @removeRecorded id free =>
    exact ⟨_, .remove id, shows'.same free (·.remove id) fun _ _ => rfl⟩

end Slots

end McpSsh
