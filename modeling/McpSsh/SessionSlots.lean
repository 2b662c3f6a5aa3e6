import McpSsh.SessionStore
import Mathlib.Logic.Relation

/-!
# Slots

How the session store counts the opens in progress. Each principal has one
shared counter, which the map of pending opens names by its address; an
`Opening` holds that address, and gives its slot back when it is dropped.

`reserve` holds the locks of both maps from its sweep to its last write, but an
`Opening` is dropped under no lock at all. So a reservation is taken in three
steps here, with room between them for drops and for the clock: the sweep and
the entry in the map, the load of the counter, and the decision.
-/

namespace McpSsh

/-- A slot held while connection setup is in flight. An `Opening` that was used
or handed on is no longer active, and is not kept: dropping it does nothing. -/
structure Opening where
  principal : PrincipalId
  reservation : Nat
  deriving DecidableEq

/-- A `reserve` that holds the locks: the clock it read, the counter it found
or made, and what it loaded from it once it has. -/
structure Reserving where
  principal : PrincipalId
  now : Nat
  reservation : Nat
  opening : Option Nat
  deriving DecidableEq

/-- The session store with its counters. -/
structure Slots where
  clock : Nat
  held : List Session
  pending : List (PrincipalId × Nat)
  counters : Nat → Nat
  fresh : Nat
  openings : List Opening
  reserving : Option Reserving

namespace Slots

/-- `SessionStore::new`. -/
def new (clock : Nat) : Slots := ⟨clock, [], [], fun _ => 0, 0, [], none⟩

/-- What the store holds, for the operations that touch no counter. -/
def store (slots : Slots) : Sessions := ⟨slots.held, slots.openings.map (·.principal)⟩

/-- The entries one principal occupies. -/
def heldOf (slots : Slots) (principal : PrincipalId) : Nat :=
  slots.held.countP (·.principal = principal)

/-- What the map says of a principal's opens in progress, as `usage` reads it. -/
def pendingOf (slots : Slots) (principal : PrincipalId) : Nat :=
  ((slots.pending.find? (·.1 = principal)).map (fun entry => slots.counters entry.2)).getD 0

/-- The clock reading of the critical section in progress, or of one that
begins now. -/
def reading (slots : Slots) : Nat :=
  (slots.reserving.map (·.now)).getD slots.clock

def setCounter (slots : Slots) (address value : Nat) : Slots :=
  { slots with counters := fun other => if other = address then value else slots.counters other }

/-- The first part of `reserve`: the sweep, and the principal's counter among
those kept. -/
def enter (slots : Slots) (principal : PrincipalId) (kept : List (PrincipalId × Nat)) : Slots :=
  let swept := (slots.store.sweep slots.clock).held
  match kept.find? (·.1 = principal) with
  | some entry => { slots with
      held := swept
      pending := kept
      reserving := some ⟨principal, slots.clock, entry.2, none⟩ }
  | none => { slots.setCounter slots.fresh 0 with
      held := swept
      pending := (principal, slots.fresh) :: kept
      fresh := slots.fresh + 1
      reserving := some ⟨principal, slots.clock, slots.fresh, none⟩ }

section
variable (slots : Slots) (principal : PrincipalId) (kept : List (PrincipalId × Nat))

@[simp] theorem enter_held :
    (slots.enter principal kept).held = (slots.store.sweep slots.clock).held := by
  unfold enter
  cases kept.find? (·.1 = principal) <;> rfl

@[simp] theorem enter_clock : (slots.enter principal kept).clock = slots.clock := by
  unfold enter
  cases kept.find? (·.1 = principal) <;> rfl

@[simp] theorem enter_openings : (slots.enter principal kept).openings = slots.openings := by
  unfold enter
  cases kept.find? (·.1 = principal) <;> rfl

/-- A reservation has read the clock once it is in, and not yet its counter. -/
theorem enter_reserving : ∃ reservation, (slots.enter principal kept).reserving =
    some ⟨principal, slots.clock, reservation, none⟩ := by
  unfold enter
  cases kept.find? (·.1 = principal) <;> exact ⟨_, rfl⟩

end

/-- `fetch_add`, and the `Opening` it is for. -/
def grant (slots : Slots) (request : Reserving) : Slots :=
  { slots.setCounter request.reservation (slots.counters request.reservation + 1) with
    openings := ⟨request.principal, request.reservation⟩ :: slots.openings
    reserving := none }

/-- The last part of `reserve`: a slot, with the oldest of the principal's
lapsed sessions giving up its own when there is none left. -/
def settle (slots : Slots) (limit : Nat) (request : Reserving) (opening : Nat) :
    Except TooManySessions Unit × Slots :=
  let mine := slots.held.filter (·.principal = request.principal)
  if limit ≤ mine.length + opening then
    match (mine.filter (fun session => (session.expiry request.now).isSome)).argmin
        Session.lapsedAt with
    | none => (.error ⟨limit⟩, { slots with reserving := none })
    | some stale =>
      (.ok (), { slots with held := (slots.store.remove stale.id).held }.grant request)
  else (.ok (), slots.grant request)

/-- An `Opening` dropped while it was active. -/
def drop (slots : Slots) (opening : Opening) : Slots :=
  { slots.setCounter opening.reservation (slots.counters opening.reservation - 1) with
    openings := slots.openings.erase opening }

/-- `Opening::open`. An insertion under a name that is taken replaces what is
there. -/
def publish (slots : Slots) (opening : Opening) (session : Session) : Slots :=
  { slots.drop opening with
    held := session :: (slots.held.filter (·.id ≠ session.id)) }

end Slots

/-- What was done to the store, with its answer where it gives one. -/
inductive SlotAct
  | tick
  | rehash
  | enter (principal : PrincipalId)
  | load
  | settle (answer : Except TooManySessions Unit)
  | drop (principal : PrincipalId)
  | publish (principal : PrincipalId) (id : SessionId)
  | sweep
  | useSession (id : SessionId) (principal : PrincipalId) (answer : Except SessionError Session)
  | close (id : SessionId) (principal : PrincipalId) (answer : Except SessionError Unit)
  | removeRecorded (id : SessionId)

/-- One step of the store. What `retain` keeps is every counter that is not
zero: one that a drop brings to zero behind its back may be kept as well. -/
inductive Slots.Step (limit : Nat) (lifetime : Lifetime) : Slots → SlotAct → Slots → Prop
  | tick {slots : Slots} {later : Nat} (forward : slots.clock ≤ later) :
      Step limit lifetime slots .tick { slots with clock := later }
  | rehash {slots : Slots} {held : List Session} {pending : List (PrincipalId × Nat)}
      (free : slots.reserving = none) (held' : slots.held.Perm held)
      (pending' : slots.pending.Perm pending) :
      Step limit lifetime slots .rehash { slots with held, pending }
  | enter {slots : Slots} {principal : PrincipalId} {kept : List (PrincipalId × Nat)}
      (free : slots.reserving = none) (fewer : kept.Sublist slots.pending)
      (retained : ∀ entry ∈ slots.pending, slots.counters entry.2 ≠ 0 → entry ∈ kept) :
      Step limit lifetime slots (.enter principal) (slots.enter principal kept)
  | load {slots : Slots} {request : Reserving} (inside : slots.reserving = some request)
      (first : request.opening = none) :
      Step limit lifetime slots .load { slots with
        reserving := some { request with opening := some (slots.counters request.reservation) } }
  | settle {slots : Slots} {request : Reserving} {opening : Nat}
      (inside : slots.reserving = some request) (loaded : request.opening = some opening) :
      Step limit lifetime slots (.settle (slots.settle limit request opening).1)
        (slots.settle limit request opening).2
  | drop {slots : Slots} {opening : Opening} (active : opening ∈ slots.openings) :
      Step limit lifetime slots (.drop opening.principal) (slots.drop opening)
  | publish {slots : Slots} {opening : Opening} {session : Session}
      (free : slots.reserving = none) (active : opening ∈ slots.openings)
      (mine : session.principal = opening.principal) (opened : session.openedAt = slots.clock)
      (used : session.lastUsed = slots.clock) (lives : session.lifetime = lifetime) :
      Step limit lifetime slots (.publish opening.principal session.id)
        (slots.publish opening session)
  | sweep {slots : Slots} (free : slots.reserving = none) :
      Step limit lifetime slots .sweep
        { slots with held := (slots.store.sweep slots.clock).held }
  | useSession {slots : Slots} {id : SessionId} {principal : PrincipalId}
      (free : slots.reserving = none) :
      Step limit lifetime slots
        (.useSession id principal (slots.store.useSession slots.clock id principal).1)
        { slots with held := (slots.store.useSession slots.clock id principal).2.held }
  | close {slots : Slots} {id : SessionId} {principal : PrincipalId}
      (free : slots.reserving = none) :
      Step limit lifetime slots (.close id principal (slots.store.close id principal).1)
        { slots with held := (slots.store.close id principal).2.held }
  | removeRecorded {slots : Slots} {id : SessionId} (free : slots.reserving = none) :
      Step limit lifetime slots (.removeRecorded id)
        { slots with held := (slots.store.remove id).held }

namespace Slots

/-- Any number of steps. -/
def Reaches (limit : Nat) (lifetime : Lifetime) : Slots → Slots → Prop :=
  Relation.ReflTransGen fun slots after => ∃ act, Step limit lifetime slots act after

/-! ## The invariant -/

/-- Every active opening is counted where the map looks for its principal, and
nobody holds more than the limit allows. -/
structure Inv (limit : Nat) (lifetime : Lifetime) (slots : Slots) : Prop where
  keys : (slots.pending.map (·.1)).Nodup
  addresses : (slots.pending.map (·.2)).Nodup
  old : ∀ entry ∈ slots.pending, entry.2 < slots.fresh
  mapped : ∀ opening ∈ slots.openings, (opening.principal, opening.reservation) ∈ slots.pending
  counted : ∀ address,
    slots.counters address = slots.openings.countP (·.reservation = address)
  quota : ∀ principal, slots.heldOf principal +
    slots.openings.countP (·.principal = principal) ≤ limit
  distinct : slots.store.Distinct
  past : ∀ session ∈ slots.held, session.lastUsed ≤ slots.clock
  lifetimes : ∀ session ∈ slots.held, session.lifetime = lifetime
  reserving : ∀ request, slots.reserving = some request →
    request.now ≤ slots.clock ∧ (request.principal, request.reservation) ∈ slots.pending ∧
      ∀ opening, request.opening = some opening →
        slots.openings.countP (·.principal = request.principal) ≤ opening ∧
          slots.heldOf request.principal + opening ≤ limit

variable {limit : Nat} {lifetime : Lifetime} {slots after : Slots}

theorem Inv.new (clock : Nat) : Inv limit lifetime (Slots.new clock) where
  keys := List.nodup_nil
  addresses := List.nodup_nil
  old := fun _ member => absurd member List.not_mem_nil
  mapped := fun _ member => absurd member List.not_mem_nil
  counted := fun _ => rfl
  quota := fun _ => Nat.zero_le _
  distinct := List.nodup_nil
  past := fun _ member => absurd member List.not_mem_nil
  lifetimes := fun _ member => absurd member List.not_mem_nil
  reserving := fun _ inside => by cases inside

/-- A counter counts the openings of the principal the map has it under. -/
theorem Inv.shared (inv : Inv limit lifetime slots) {entry : PrincipalId × Nat}
    (member : entry ∈ slots.pending) :
    slots.counters entry.2 = slots.openings.countP (·.principal = entry.1) := by
  rw [inv.counted]
  apply List.countP_congr
  intro opening active
  have mapped := inv.mapped opening active
  simp only [decide_eq_true_eq]
  constructor
  · intro same
    have one := List.inj_on_of_nodup_map inv.addresses mapped member same
    exact congrArg Prod.fst one
  · intro same
    have one := List.inj_on_of_nodup_map inv.keys mapped member same
    exact congrArg Prod.snd one

/-- What the map says of a principal is how many openings it has. -/
theorem Inv.pendingOf (inv : Inv limit lifetime slots) (principal : PrincipalId) :
    slots.pendingOf principal = slots.openings.countP (·.principal = principal) := by
  unfold Slots.pendingOf
  cases found : slots.pending.find? (·.1 = principal) with
  | some entry =>
    have same : entry.1 = principal := by simpa using List.find?_some found
    simpa [same] using inv.shared (List.mem_of_find?_eq_some found)
  | none =>
    symm
    simp only [Option.map_none, Option.getD_none, List.countP_eq_zero, decide_eq_true_eq]
    intro opening active same
    have missed := List.find?_eq_none.mp found _ (inv.mapped opening active)
    simp [same] at missed

/-- Sessions may be forgotten, renewed and laid out anew. -/
theorem Inv.held (inv : Inv limit lifetime slots) {held : List Session}
    (fewer : ∀ principal, held.countP (·.principal = principal) ≤ slots.heldOf principal)
    (distinct : (held.map (·.id)).Nodup)
    (past : ∀ session ∈ held, session.lastUsed ≤ slots.clock)
    (lifetimes : ∀ session ∈ held, session.lifetime = lifetime) :
    Inv limit lifetime { slots with held } where
  keys := inv.keys
  addresses := inv.addresses
  old := inv.old
  mapped := inv.mapped
  counted := inv.counted
  quota := fun principal => by
    have bound := inv.quota principal
    have less := fewer principal
    simp only [heldOf] at *
    omega
  distinct := distinct
  past := past
  lifetimes := lifetimes
  reserving := fun request inside => by
    obtain ⟨early, mapped, loaded⟩ := inv.reserving request inside
    refine ⟨early, mapped, fun opening found => ?_⟩
    obtain ⟨counted, bound⟩ := loaded opening found
    have less := fewer request.principal
    simp only [heldOf] at *
    omega

theorem Inv.forget (inv : Inv limit lifetime slots) {held : List Session}
    (fewer : held.Sublist slots.held) : Inv limit lifetime { slots with held } :=
  inv.held (fun _ => fewer.countP_le) ((fewer.map _).nodup inv.distinct)
    (fun session member => inv.past session (fewer.subset member))
    (fun session member => inv.lifetimes session (fewer.subset member))

/-! ## What each step keeps -/

theorem Inv.tick (inv : Inv limit lifetime slots) {later : Nat} (forward : slots.clock ≤ later) :
    Inv limit lifetime { slots with clock := later } where
  keys := inv.keys
  addresses := inv.addresses
  old := inv.old
  mapped := inv.mapped
  counted := inv.counted
  quota := inv.quota
  distinct := inv.distinct
  past := fun session member => (inv.past session member).trans forward
  lifetimes := inv.lifetimes
  reserving := fun request inside =>
    have ⟨early, rest⟩ := inv.reserving request inside
    ⟨early.trans forward, rest⟩

theorem Inv.rehash (inv : Inv limit lifetime slots) {held : List Session}
    {pending : List (PrincipalId × Nat)} (held' : slots.held.Perm held)
    (pending' : slots.pending.Perm pending) :
    Inv limit lifetime { slots with held, pending } := by
  have relaid : Inv limit lifetime { slots with held } :=
    inv.held (fun principal => (held'.countP_eq _).ge) ((held'.map _).nodup_iff.mp inv.distinct)
      (fun session member => inv.past session (held'.mem_iff.mpr member))
      (fun session member => inv.lifetimes session (held'.mem_iff.mpr member))
  exact { relaid with
    keys := (pending'.map _).nodup_iff.mp inv.keys
    addresses := (pending'.map _).nodup_iff.mp inv.addresses
    old := fun entry member => inv.old entry (pending'.mem_iff.mpr member)
    mapped := fun opening active => pending'.mem_iff.mp (inv.mapped opening active)
    reserving := fun request inside =>
      have ⟨early, mapped, loaded⟩ := relaid.reserving request inside
      ⟨early, pending'.mem_iff.mp mapped, loaded⟩ }

/-- A counter somebody holds a slot of is not zero, so it is kept. -/
theorem Inv.retained (inv : Inv limit lifetime slots) {kept : List (PrincipalId × Nat)}
    (retained : ∀ entry ∈ slots.pending, slots.counters entry.2 ≠ 0 → entry ∈ kept)
    {opening : Opening} (active : opening ∈ slots.openings) :
    (opening.principal, opening.reservation) ∈ kept := by
  apply retained _ (inv.mapped opening active)
  have positive : 0 < slots.openings.countP (·.reservation = opening.reservation) :=
    List.countP_pos_iff.mpr ⟨opening, active, by simp⟩
  rw [inv.counted]
  exact Nat.ne_of_gt positive

theorem Inv.enter (inv : Inv limit lifetime slots) {principal : PrincipalId}
    {kept : List (PrincipalId × Nat)} (fewer : kept.Sublist slots.pending)
    (retained : ∀ entry ∈ slots.pending, slots.counters entry.2 ≠ 0 → entry ∈ kept) :
    Inv limit lifetime (slots.enter principal kept) := by
  have swept : Inv limit lifetime { slots with held := (slots.store.sweep slots.clock).held } :=
    inv.forget Sessions.sweep_held
  unfold Slots.enter
  cases found : kept.find? (·.1 = principal) with
  | some entry =>
    have same : entry.1 = principal := by simpa using List.find?_some found
    have member := List.mem_of_find?_eq_some found
    exact {
      keys := (fewer.map _).nodup inv.keys
      addresses := (fewer.map _).nodup inv.addresses
      old := fun entry member => inv.old entry (fewer.subset member)
      mapped := fun opening active => inv.retained retained active
      counted := inv.counted
      quota := swept.quota
      distinct := swept.distinct
      past := swept.past
      lifetimes := swept.lifetimes
      reserving := fun request inside => by
        cases inside
        exact ⟨le_rfl, same ▸ member, fun _ none' => by cases none'⟩ }
  | none =>
    have absent : ∀ entry ∈ kept, entry.1 ≠ principal := fun entry member => by
      simpa using List.find?_eq_none.mp found entry member
    have unused : ∀ opening ∈ slots.openings, opening.reservation ≠ slots.fresh :=
      fun opening active => Nat.ne_of_lt (inv.old _ (inv.mapped opening active))
    exact {
      keys := by
        refine List.nodup_cons.mpr ⟨fun member => ?_, (fewer.map _).nodup inv.keys⟩
        obtain ⟨entry, among, same⟩ := List.mem_map.mp member
        exact absent entry among same
      addresses := by
        refine List.nodup_cons.mpr ⟨fun member => ?_, (fewer.map _).nodup inv.addresses⟩
        obtain ⟨entry, among, same⟩ := List.mem_map.mp member
        have older := inv.old entry (fewer.subset among)
        simp only at same
        omega
      old := fun entry member => by
        rcases List.mem_cons.mp member with rfl | among
        · exact Nat.lt_succ_self _
        · exact Nat.lt_succ_of_lt (inv.old entry (fewer.subset among))
      mapped := fun opening active => List.mem_cons_of_mem _ (inv.retained retained active)
      counted := fun address => by
        by_cases here : address = slots.fresh
        · subst here
          simp only [setCounter, if_true]
          exact (List.countP_eq_zero.mpr fun opening active => by
            simpa using unused opening active).symm
        · simpa [setCounter, here] using inv.counted address
      quota := swept.quota
      distinct := swept.distinct
      past := swept.past
      lifetimes := swept.lifetimes
      reserving := fun request inside => by
        cases inside
        exact ⟨le_rfl, List.mem_cons_self, fun _ none' => by cases none'⟩ }

theorem Inv.load (inv : Inv limit lifetime slots) {request : Reserving}
    (inside : slots.reserving = some request) :
    Inv limit lifetime { slots with
      reserving := some { request with
        opening := some (slots.counters request.reservation) } } := by
  obtain ⟨early, mapped, -⟩ := inv.reserving request inside
  have counted := inv.shared mapped
  refine { inv with reserving := fun other same => ?_ }
  cases same
  refine ⟨early, mapped, fun opening loaded => ?_⟩
  cases loaded
  have bound := inv.quota request.principal
  simp only [heldOf] at *
  omega

/-- A slot is granted where there is room for one more. -/
theorem Inv.grant (inv : Inv limit lifetime slots) {request : Reserving}
    (inside : slots.reserving = some request)
    (room : slots.heldOf request.principal +
      slots.openings.countP (·.principal = request.principal) < limit) :
    Inv limit lifetime (slots.grant request) where
  keys := inv.keys
  addresses := inv.addresses
  old := inv.old
  mapped := fun opening active => by
    rcases List.mem_cons.mp active with rfl | among
    · exact (inv.reserving request inside).2.1
    · exact inv.mapped opening among
  counted := fun address => by
    have counted := inv.counted address
    simp only [Slots.grant, setCounter, List.countP_cons]
    by_cases here : address = request.reservation
    · subst here
      simp [counted]
    · simp [here, Ne.symm here, counted]
  quota := fun principal => by
    have bound := inv.quota principal
    simp only [Slots.grant, setCounter, heldOf, List.countP_cons] at *
    by_cases here : request.principal = principal
    · subst here
      simp only [decide_true, if_true]
      omega
    · simpa [here] using bound
  distinct := inv.distinct
  past := inv.past
  lifetimes := inv.lifetimes
  reserving := fun _ none' => by cases none'

/-- The session that gives up its slot is one of the principal's, and lapsed. -/
theorem stale_mem {request : Reserving} {stale : Session}
    (picked : ((slots.held.filter (·.principal = request.principal)).filter
      (fun session => (session.expiry request.now).isSome)).argmin Session.lapsedAt = some stale) :
    stale ∈ slots.held ∧ stale.principal = request.principal ∧
      (stale.expiry request.now).isSome := by
  have member := List.argmin_mem (Option.mem_def.mpr picked)
  simp only [List.mem_filter, decide_eq_true_eq] at member
  exact ⟨member.1.1, member.1.2, member.2⟩

theorem countP_remove_lt {held : List Session} {stale : Session} (member : stale ∈ held) :
    (held.filter (·.id ≠ stale.id)).countP (·.principal = stale.principal) <
      held.countP (·.principal = stale.principal) := by
  obtain ⟨before, behind, rfl⟩ := List.append_of_mem member
  have less : ∀ part : List Session,
      (part.filter (·.id ≠ stale.id)).countP (·.principal = stale.principal) ≤
        part.countP (·.principal = stale.principal) := fun _ => List.filter_sublist.countP_le
  have first := less before
  have last := less behind
  simp only [ne_eq, List.filter_append, List.filter_cons, List.countP_append, List.countP_cons,
    not_true_eq_false, decide_false, Bool.false_eq_true, if_false, decide_true, if_true]
    at first last ⊢
  omega

theorem Inv.settle (inv : Inv limit lifetime slots) {request : Reserving} {opening : Nat}
    (inside : slots.reserving = some request) (loaded : request.opening = some opening) :
    Inv limit lifetime (slots.settle limit request opening).2 := by
  obtain ⟨-, -, known⟩ := inv.reserving request inside
  obtain ⟨counted, bound⟩ := known opening loaded
  have mine : (slots.held.filter (·.principal = request.principal)).length =
      slots.heldOf request.principal := List.countP_eq_length_filter.symm
  unfold Slots.settle
  simp only [mine]
  split
  · split
    · exact { inv with reserving := fun _ none' => by cases none' }
    · rename_i stale picked
      obtain ⟨member, same, -⟩ := stale_mem picked
      have removed : Inv limit lifetime
          { slots with held := (slots.store.remove stale.id).held } :=
        inv.forget Sessions.remove_held
      refine removed.grant inside ?_
      have fewer := countP_remove_lt member
      rw [same] at fewer
      simp only [heldOf, store, Sessions.remove] at *
      omega
  · exact inv.grant inside (by omega)

/-- What is counted without an opening, and with it. -/
theorem countP_openings {opening : Opening} (active : opening ∈ slots.openings)
    (counts : Opening → Bool) :
    slots.openings.countP counts =
      (slots.openings.erase opening).countP counts + if counts opening then 1 else 0 := by
  rw [(List.perm_cons_erase active).countP_eq, List.countP_cons]

theorem Inv.drop (inv : Inv limit lifetime slots) {opening : Opening}
    (active : opening ∈ slots.openings) : Inv limit lifetime (slots.drop opening) where
  keys := inv.keys
  addresses := inv.addresses
  old := inv.old
  mapped := fun other among => inv.mapped other (List.mem_of_mem_erase among)
  counted := fun address => by
    have counted := inv.counted address
    have split := countP_openings active (·.reservation = address)
    simp only [Slots.drop, setCounter]
    by_cases here : address = opening.reservation
    · subst here
      simp only [decide_true, if_true] at split ⊢
      omega
    · simp only [Ne.symm here, decide_false, Bool.false_eq_true, if_false, here] at split ⊢
      omega
  quota := fun principal =>
    (Nat.add_le_add_left List.erase_sublist.countP_le _).trans (inv.quota principal)
  distinct := inv.distinct
  past := inv.past
  lifetimes := inv.lifetimes
  reserving := fun request inside => by
    obtain ⟨early, mapped, loaded⟩ := inv.reserving request inside
    refine ⟨early, mapped, fun count found => ?_⟩
    obtain ⟨counted, bound⟩ := loaded count found
    exact ⟨List.erase_sublist.countP_le.trans counted, bound⟩

/-- The slot becomes the session, so nothing is counted twice. -/
theorem Inv.publish (inv : Inv limit lifetime slots) (free : slots.reserving = none)
    {opening : Opening} (active : opening ∈ slots.openings) {session : Session}
    (mine : session.principal = opening.principal) (used : session.lastUsed = slots.clock)
    (lives : session.lifetime = lifetime) :
    Inv limit lifetime (slots.publish opening session) where
  keys := inv.keys
  addresses := inv.addresses
  old := inv.old
  mapped := (inv.drop active).mapped
  counted := (inv.drop active).counted
  quota := fun principal => by
    have bound := inv.quota principal
    have fewer : (slots.held.filter (·.id ≠ session.id)).countP (·.principal = principal) ≤
        slots.held.countP (·.principal = principal) := List.filter_sublist.countP_le
    have split := countP_openings active (·.principal = principal)
    simp only [Slots.publish, Slots.drop, setCounter, heldOf, List.countP_cons, mine] at *
    omega
  distinct := by
    refine List.nodup_cons.mpr ⟨fun taken => ?_, (List.filter_sublist.map _).nodup inv.distinct⟩
    obtain ⟨other, among, same⟩ := List.mem_map.mp taken
    simp [same] at among
  past := fun other among => by
    rcases List.mem_cons.mp among with rfl | before
    · exact used.le
    · exact inv.past other (List.mem_of_mem_filter before)
  lifetimes := fun other among => by
    rcases List.mem_cons.mp among with rfl | before
    · exact lives
    · exact inv.lifetimes other (List.mem_of_mem_filter before)
  reserving := fun request inside => by
    rw [show (slots.publish opening session).reserving = slots.reserving from rfl, free] at inside
    cases inside

/-- A use renews one session, if any. -/
theorem Inv.useSession (inv : Inv limit lifetime slots) (id : SessionId)
    (principal : PrincipalId) :
    Inv limit lifetime
      { slots with held := (slots.store.useSession slots.clock id principal).2.held } := by
  cases ran : slots.store.useSession slots.clock id principal with
  | mk answer left =>
    cases answer with
    | error error => exact inv.forget (Sessions.useSession_error ran).1
    | ok used =>
      obtain ⟨session, member, rfl, -, -, usedEq, rfl⟩ := Sessions.useSession_ok ran
      have only : ∀ other ∈ slots.held, other.id = session.id → other = session :=
        fun other among same => List.inj_on_of_nodup_map inv.distinct among member same
      refine inv.held (fun owner => ?_) ?_ ?_ ?_
      · simp only [store, List.countP_map, heldOf]
        refine le_of_eq (List.countP_congr fun other among => ?_)
        by_cases here : other.id = session.id
        · simp [only other among here, usedEq]
        · simp [here]
      · rw [Sessions.renewed_ids (by rw [usedEq])]
        exact inv.distinct
      · intro renewed among
        obtain ⟨other, before, rfl⟩ := List.mem_map.mp among
        split
        · rw [usedEq]
        · exact inv.past other before
      · intro renewed among
        obtain ⟨other, before, rfl⟩ := List.mem_map.mp among
        split
        · rw [usedEq]
          exact inv.lifetimes session member
        · exact inv.lifetimes other before

theorem Step.inv {act : SlotAct} (step : Step limit lifetime slots act after)
    (inv : Inv limit lifetime slots) : Inv limit lifetime after := by
  cases step with
  | tick forward => exact inv.tick forward
  | rehash free held pending => exact inv.rehash held pending
  | enter free fewer retained => exact inv.enter fewer retained
  | load inside first => exact inv.load inside
  | settle inside loaded => exact inv.settle inside loaded
  | drop active => exact inv.drop active
  | publish free active mine opened used lives => exact inv.publish free active mine used lives
  | sweep free => exact inv.forget Sessions.sweep_held
  | useSession free => exact inv.useSession _ _
  | close free => exact inv.forget Sessions.close_held
  | removeRecorded free => exact inv.forget Sessions.remove_held

theorem Reaches.inv (run : Reaches limit lifetime slots after) (inv : Inv limit lifetime slots) :
    Inv limit lifetime after := by
  induction run with
  | refl => exact inv
  | tail _ last ih =>
    obtain ⟨act, step⟩ := last
    exact step.inv ih

end Slots

end McpSsh
