import Mathlib.Data.List.Basic
import Mathlib.Logic.Function.Basic
import Mathlib.Logic.Relation

/-!
# The gateway's keys

`ingress.rs`: the cache of the keys that the gateway signs assertions with, and
the calls that look in it. A call that the cache cannot answer takes a lock,
looks again and fetches; what it fetched, or that it could not, is written down
before the lock is let go. Clock readings are taken before the cache is locked,
so what a call looks with may be older than what it looks at.

Instants are counted; the clock does not come near the end of what an `Instant`
can name.
-/

namespace McpSsh.Ingress

/-- `IdentityError`, as far as a key can be refused with it. -/
inductive IdentityError
  | unknownKey
  | keysUnavailable
  deriving DecidableEq, Repr

/-- What the verifier rests on: how `jsonwebtoken` finds the key that carries an
identifier in a key set, and how many instants there are to a second. -/
structure Basis where
  Jwk : Type
  JwkSet : Type
  find : JwkSet → String → Option Jwk
  second : Nat

/-- `KEY_CACHE_TTL`. -/
def Basis.keyCacheTtl (basis : Basis) : Nat := 300 * basis.second

/-- `UNKNOWN_KEY_COOLDOWN`. -/
def Basis.unknownKeyCooldown (basis : Basis) : Nat := 5 * basis.second

variable {basis : Basis}

structure KeyCache (basis : Basis) where
  set : Option basis.JwkSet
  fetchedAt : Option Nat
  unknownKeyUntil : Option Nat
  unavailableUntil : Option Nat

/-- `KeyCache::default`. -/
def KeyCache.default : KeyCache basis := ⟨none, none, none, none⟩

inductive Lookup (basis : Basis)
  | found (jwk : basis.Jwk)
  | missing (mayRefetch : Bool)
  | stale

/-- `KeyCache::lookup`. -/
def KeyCache.lookup (cache : KeyCache basis) (keyId : String) (now : Nat) : Lookup basis :=
  let fresh := (cache.fetchedAt.map (· + basis.keyCacheTtl)).any (now < ·)
  if ¬ fresh then .stale
  else
    match cache.set with
    | none => .stale
    | some set =>
      match basis.find set keyId with
      | some jwk => .found jwk
      | none => .missing (cache.unknownKeyUntil.all (· ≤ now))

/-- `IdentityVerifier::cached`: what the cache can say without fetching. -/
def KeyCache.cached (cache : KeyCache basis) (keyId : String) (now : Nat) :
    Option (Except IdentityError basis.Jwk) :=
  let unavailable := if cache.unavailableUntil.any (now < ·) then some (.error .keysUnavailable) else none
  match cache.lookup keyId now with
  | .found jwk => some (.ok jwk)
  | .missing false => some (.error .unknownKey)
  | .missing true => unavailable
  | .stale => unavailable

/-- What `key` writes down of a fetch, and what it answers. The clock may move
between the two readings of one that succeeded. -/
def KeyCache.store (cache : KeyCache basis) (keyId : String) (now meanwhile : Nat) :
    Option basis.JwkSet → KeyCache basis × Except IdentityError basis.Jwk
  | none =>
    ({ cache with unavailableUntil := some (now + basis.unknownKeyCooldown) }, .error .keysUnavailable)
  | some set =>
    let cache := { cache with unavailableUntil := none, set := some set, fetchedAt := some now }
    match basis.find set keyId with
    | some jwk => (cache, .ok jwk)
    | none =>
      ({ cache with unknownKeyUntil := some (now + meanwhile + basis.unknownKeyCooldown) },
        .error .unknownKey)

/-! ## Calls -/

/-- Where a call of `key` is. It holds the lock from `locked` to `returning`. -/
inductive Phase (basis : Basis)
  | called
  | looking (now : Nat)
  | waiting
  | locked
  | lookingAgain (now : Nat)
  | missed
  | fetching
  | fetched (set : Option basis.JwkSet)
  | returning (answer : Except IdentityError basis.Jwk)
  | done (answer : Except IdentityError basis.Jwk)

/-- Whether a call holds `refreshing`. -/
def Phase.holds : Phase basis → Bool
  | .locked | .lookingAgain _ | .missed | .fetching | .fetched _ | .returning _ => true
  | _ => false

/-- Whether a call is in its fetch, what came of it not yet written down. -/
def Phase.inFetch : Phase basis → Bool
  | .fetching | .fetched _ => true
  | _ => false

structure Call (basis : Basis) where
  keyId : String
  phase : Phase basis

/-- What can be seen of the gateway's side: fetches that started, and that
ended, with a key set that has the key they were made for or without. -/
inductive Event
  | started (at' : Nat)
  | ended (at' : Nat) (served : Bool)
  deriving DecidableEq, Repr

/-- A verifier with its calls. `log` is what happened to the gateway, the newest
first. -/
structure System (basis : Basis) where
  clock : Nat
  cache : KeyCache basis
  refreshing : Option Nat
  calls : Nat → Option (Call basis)
  log : List Event

/-- `IdentityVerifier::new`, at some reading of the clock. -/
def System.new (clock : Nat) : System basis := ⟨clock, .default, none, fun _ => none, []⟩

/-- The clock advances, a call is made, goes on, gets an answer to its fetch,
writes it down, or is dropped. -/
inductive Move (basis : Basis)
  | tick (by' : Nat)
  | call (id : Nat) (keyId : String)
  | proceed (id : Nat)
  | respond (id : Nat) (set : Option basis.JwkSet)
  | store (id meanwhile : Nat)
  | drop (id : Nat)

namespace System

/-- The system with a call in another phase. -/
def setPhase (system : System basis) (id : Nat) (call : Call basis) (phase : Phase basis) :
    System basis :=
  { system with calls := Function.update system.calls id (some { call with phase }) }

/-- A call goes on by itself. -/
def proceed (system : System basis) (id : Nat) (call : Call basis) : Option (System basis) :=
  match call.phase with
  | .called => some (system.setPhase id call (.looking system.clock))
  | .looking now =>
    match system.cache.cached call.keyId now with
    | some answer => some (system.setPhase id call (.done answer))
    | none => some (system.setPhase id call .waiting)
  | .waiting =>
    if system.refreshing = none then
      some { system.setPhase id call .locked with refreshing := some id }
    else none
  | .locked => some (system.setPhase id call (.lookingAgain system.clock))
  | .lookingAgain now =>
    match system.cache.cached call.keyId now with
    | some answer => some (system.setPhase id call (.returning answer))
    | none => some (system.setPhase id call .missed)
  | .missed =>
    some { system.setPhase id call .fetching with log := .started system.clock :: system.log }
  | .returning answer => some { system.setPhase id call (.done answer) with refreshing := none }
  | .fetching | .fetched _ | .done _ => none

/-- A move, where it can be made. A call is not dropped in its fetch. -/
def step (system : System basis) : Move basis → Option (System basis)
  | .tick by' => some { system with clock := system.clock + by' }
  | .call id keyId =>
    match system.calls id with
    | none => some (system.setPhase id ⟨keyId, .called⟩ .called)
    | some _ => none
  | .proceed id => (system.calls id).bind (system.proceed id)
  | .respond id set =>
    match system.calls id with
    | some ⟨keyId, .fetching⟩ =>
      some { system.setPhase id ⟨keyId, .fetching⟩ (.fetched set) with
        log := .ended system.clock (set.any fun set => (basis.find set keyId).isSome) :: system.log }
    | _ => none
  | .store id meanwhile =>
    match system.calls id with
    | some ⟨keyId, .fetched set⟩ =>
      let (cache, answer) := system.cache.store keyId system.clock meanwhile set
      some { system.setPhase id ⟨keyId, .fetched set⟩ (.returning answer) with
        cache, clock := system.clock + meanwhile }
    | _ => none
  | .drop id =>
    match system.calls id with
    | some call =>
      if call.phase.inFetch then none
      else some { system with
        calls := Function.update system.calls id none
        refreshing := if call.phase.holds then none else system.refreshing }
    | none => none

def Step (before after : System basis) : Prop := ∃ move, before.step move = some after

/-- What any interleaving of calls can come to. -/
def Reachable (system : System basis) : Prop :=
  ∃ clock, Relation.ReflTransGen Step (System.new clock) system

end System

/-! ## What the cache can say -/

theorem cooldown_le_ttl (basis : Basis) : basis.unknownKeyCooldown ≤ basis.keyCacheTtl :=
  Nat.mul_le_mul_right _ (by decide)

variable {cache : KeyCache basis} {keyId : String}

/-- The key that a set that is fresh has under an identifier. -/
def KeyCache.Fresh (cache : KeyCache basis) (keyId : String) (now : Nat) (jwk : basis.Jwk) : Prop :=
  ∃ at' set, cache.fetchedAt = some at' ∧ now < at' + basis.keyCacheTtl ∧ cache.set = some set ∧
    basis.find set keyId = some jwk

/-- A key that was found was found in a set that was fresh then. -/
theorem KeyCache.lookup_found {now : Nat} {jwk : basis.Jwk} :
    cache.lookup keyId now = .found jwk ↔ cache.Fresh keyId now jwk := by
  obtain ⟨set, fetchedAt, unknownKeyUntil, unavailableUntil⟩ := cache
  unfold lookup Fresh
  cases fetchedAt with
  | none => simp
  | some at' =>
    by_cases fresh : now < at' + basis.keyCacheTtl
    · cases set with
      | none => simp [fresh]
      | some set => cases found : basis.find set keyId <;> simp [fresh, found]
    · simp [fresh]

/-- It was found at every earlier reading. -/
theorem KeyCache.lookup_earlier {earlier now : Nat} (before : earlier ≤ now) {jwk : basis.Jwk}
    (found : cache.lookup keyId now = .found jwk) : cache.lookup keyId earlier = .found jwk := by
  obtain ⟨at', set, fetched, fresh, held, listed⟩ := lookup_found.mp found
  exact lookup_found.mpr ⟨at', set, fetched, by omega, held, listed⟩

theorem KeyCache.cached_found {now : Nat} {jwk : basis.Jwk}
    (found : cache.lookup keyId now = .found jwk) : cache.cached keyId now = some (.ok jwk) := by
  unfold cached
  rw [found]

/-- A cache that asks nothing of the gateway before some time, whatever is asked
of it. -/
def KeyCache.Quiet (cache : KeyCache basis) (until' : Nat) : Prop :=
  ∀ keyId now, now < until' → (cache.cached keyId now).isSome = true

/-- A fetch that failed keeps the cache quiet. -/
theorem KeyCache.quiet_unavailable {until' : Nat} (stamped : cache.unavailableUntil = some until') :
    cache.Quiet until' := by
  intro keyId now early
  unfold cached
  rw [stamped, Option.any_some, decide_eq_true early, if_pos rfl]
  cases cache.lookup keyId now with
  | found => rfl
  | missing mayRefetch => cases mayRefetch <;> rfl
  | stale => rfl

/-- So does one whose set lacked the key: the set is fresh for longer than that. -/
theorem KeyCache.quiet_unknown {set : basis.JwkSet} {at' until' : Nat} (held : cache.set = some set)
    (fetched : cache.fetchedAt = some at') (stamped : cache.unknownKeyUntil = some until')
    (later : at' + basis.unknownKeyCooldown ≤ until') : cache.Quiet (at' + basis.unknownKeyCooldown) := by
  intro keyId now early
  have shorter := cooldown_le_ttl basis
  have fresh : now < at' + basis.keyCacheTtl := by omega
  have cooling : ¬ until' ≤ now := by omega
  have looked : cache.lookup keyId now = match basis.find set keyId with
      | some jwk => .found jwk
      | none => .missing false := by
    unfold lookup
    simp [fetched, fresh, held, stamped, cooling]
  unfold cached
  rw [looked]
  cases basis.find set keyId <;> rfl

theorem KeyCache.Quiet.mono {earlier later : Nat} (quiet : cache.Quiet later)
    (before : earlier ≤ later) : cache.Quiet earlier :=
  fun keyId now early => quiet keyId now (by omega)

/-- Whether a fetch brought the key it was made for. -/
def serves (keyId : String) (set : Option basis.JwkSet) : Bool :=
  set.any fun set => (basis.find set keyId).isSome

/-- What is written down of a fetch that did not bring its key keeps the cache
quiet. -/
theorem KeyCache.store_quiet {set : Option basis.JwkSet} (now meanwhile : Nat)
    (failed : serves keyId set = false) :
    (cache.store keyId now meanwhile set).1.Quiet (now + basis.unknownKeyCooldown) := by
  cases set with
  | none => exact quiet_unavailable rfl
  | some set =>
    have missing : basis.find set keyId = none := by
      unfold serves at failed
      rw [Option.any_some] at failed
      exact Option.isSome_eq_false_iff.mp failed |> Option.isNone_iff_eq_none.mp
    unfold store
    dsimp only
    rw [missing]
    exact quiet_unknown rfl rfl rfl (by omega)

/-! ## Every interleaving -/

namespace System

variable {system next : System basis}

/-- What holds of a call where it is. -/
def Allows (system : System basis) (call : Call basis) : Prop :=
  match call.phase with
  | .looking now | .lookingAgain now => now ≤ system.clock
  | .missed =>
    (∀ at', .ended at' false ∈ system.log → at' + basis.unknownKeyCooldown ≤ system.clock) ∧
      ∀ jwk, system.cache.lookup call.keyId system.clock ≠ .found jwk
  | .fetching => ∀ at', .ended at' false ∈ system.log → at' + basis.unknownKeyCooldown ≤ system.clock
  | .fetched set => ∀ at', .ended at' false ∈ system.log →
      at' + basis.unknownKeyCooldown ≤ system.clock ∨ serves call.keyId set = false ∧ at' ≤ system.clock
  | _ => True

/-- Nothing is asked of the gateway for a while after a fetch that did not bring
its key: the while is over, the cache sees to it, or it is about to. -/
def Cooling (system : System basis) (at' : Nat) : Prop :=
  at' + basis.unknownKeyCooldown ≤ system.clock ∨
    system.cache.Quiet (at' + basis.unknownKeyCooldown) ∨
      ∃ id call set, system.calls id = some call ∧ call.phase = .fetched set ∧
        serves call.keyId set = false ∧ at' ≤ system.clock

/-- A fetch starts a while after one that did not bring its key. -/
def Apart (basis : Basis) : Event → Event → Prop
  | .started later, .ended earlier false => earlier + basis.unknownKeyCooldown ≤ later
  | _, _ => True

structure Sound (system : System basis) : Prop where
  holder : ∀ id call, system.calls id = some call → call.phase.holds = true →
    system.refreshing = some id
  allows : ∀ id call, system.calls id = some call → system.Allows call
  cooling : ∀ at', .ended at' false ∈ system.log → system.Cooling at'
  apart : system.log.Pairwise (Apart basis)

theorem sound_new (clock : Nat) : (new clock : System basis).Sound where
  holder _ _ found := nomatch found
  allows _ _ found := nomatch found
  cooling _ listed := absurd listed List.not_mem_nil
  apart := List.Pairwise.nil

/-- At most one call holds the lock. -/
theorem Sound.alone (sound : system.Sound) {id other : Nat} {call call' : Call basis}
    (found : system.calls id = some call) (found' : system.calls other = some call')
    (holds : call.phase.holds = true) (holds' : call'.phase.holds = true) : other = id :=
  Option.some.inj ((sound.holder other call' found' holds').symm.trans
    (sound.holder id call found holds))

theorem calls_update {id other : Nat} {new : Option (Call basis)} {call : Call basis}
    (found : Function.update system.calls id new other = some call) :
    other = id ∧ new = some call ∨ other ≠ id ∧ system.calls other = some call := by
  by_cases same : other = id
  · subst same
    rw [Function.update_self] at found
    exact .inl ⟨rfl, found⟩
  · rw [Function.update_of_ne same] at found
    exact .inr ⟨same, found⟩

/-- A call that does not hold the lock asks nothing of the log or the cache. -/
theorem Allows.of_free {call : Call basis} (allows : system.Allows call)
    (free : call.phase.holds = false) (later : system.clock ≤ next.clock) : next.Allows call := by
  unfold Allows at allows ⊢
  cases phase : call.phase with
  | looking now =>
    rw [phase] at allows
    exact Nat.le_trans allows later
  | called => trivial
  | waiting => trivial
  | done => trivial
  | _ =>
    rw [phase] at free
    exact nomatch free

/-- What holds of a call goes on to hold as the clock advances. -/
theorem Allows.later {call : Call basis} (allows : system.Allows call)
    (cache : next.cache = system.cache) (log : next.log = system.log)
    (later : system.clock ≤ next.clock) : next.Allows call := by
  unfold Allows at allows ⊢
  rw [cache, log]
  cases phase : call.phase with
  | looking now | lookingAgain now =>
    rw [phase] at allows
    exact Nat.le_trans allows later
  | missed =>
    rw [phase] at allows
    refine ⟨fun at' listed => Nat.le_trans (allows.1 at' listed) later, ?_⟩
    intro jwk found
    exact allows.2 jwk (KeyCache.lookup_earlier later found)
  | fetching =>
    rw [phase] at allows
    exact fun at' listed => Nat.le_trans (allows at' listed) later
  | fetched set =>
    rw [phase] at allows
    intro at' listed
    rcases allows at' listed with over' | ⟨failed, before⟩
    · exact .inl (Nat.le_trans over' later)
    · exact .inr ⟨failed, Nat.le_trans before later⟩
  | _ => trivial

/-! ### What a step of one call leaves -/

section

variable {id : Nat} {new : Option (Call basis)}

/-- The lock has one holder still: it did not change hands, or it was free, or
this call had it. -/
theorem Sound.holders (sound : system.Sound) (calls : next.calls = Function.update system.calls id new)
    (own : ∀ call, new = some call → call.phase.holds = true → next.refreshing = some id)
    (hands : next.refreshing = system.refreshing ∨ system.refreshing = none ∨
      ∃ call, system.calls id = some call ∧ call.phase.holds = true)
    (other : Nat) (call : Call basis) (found : next.calls other = some call)
    (holds : call.phase.holds = true) : next.refreshing = some other := by
  rw [calls] at found
  rcases calls_update found with ⟨rfl, same⟩ | ⟨apart, found⟩
  · exact own call same holds
  · have holder := sound.holder other call found holds
    rcases hands with same | free | ⟨call', found', holds'⟩
    · exact same.trans holder
    · exact nomatch holder.symm.trans free
    · exact absurd (sound.alone found' found holds' holds) apart

/-- Every other call is as it has to be: nothing it asks about has changed, or
this call has the lock. -/
theorem Sound.others (sound : system.Sound) (calls : next.calls = Function.update system.calls id new)
    (later : system.clock ≤ next.clock) (own : ∀ call, new = some call → next.Allows call)
    (rest : next.cache = system.cache ∧ next.log = system.log ∨
      ∃ call, system.calls id = some call ∧ call.phase.holds = true)
    (other : Nat) (call : Call basis) (found : next.calls other = some call) :
    next.Allows call := by
  rw [calls] at found
  rcases calls_update found with ⟨rfl, same⟩ | ⟨apart, found⟩
  · exact own call same
  · have allows := sound.allows other call found
    rcases rest with ⟨cache, log⟩ | ⟨call', found', holds'⟩
    · exact allows.later cache log later
    · refine allows.of_free ?_ later
      by_contra holds
      rw [Bool.not_eq_false] at holds
      exact apart (sound.alone found' found holds' holds)

/-- What keeps the gateway alone goes on to, unless this call was about to write
it down. -/
theorem Cooling.others {at' : Nat} (cooling : system.Cooling at')
    (calls : next.calls = Function.update system.calls id new)
    (later : system.clock ≤ next.clock) (cache : next.cache = system.cache)
    (outside : ∀ call set, system.calls id = some call → call.phase ≠ .fetched set) :
    next.Cooling at' := by
  rcases cooling with over' | quiet | ⟨other, call, set, found, inFetch, failed, before⟩
  · exact .inl (Nat.le_trans over' later)
  · exact .inr (.inl (cache ▸ quiet))
  · refine .inr (.inr ⟨other, call, set, ?_, inFetch, failed, Nat.le_trans before later⟩)
    have apart : other ≠ id := by
      rintro rfl
      exact outside call set found inFetch
    rw [calls, Function.update_of_ne apart]
    exact found

/-- A call moves to another phase and nothing else changes, but that it may take
the lock or let it go. -/
theorem Sound.moves (sound : system.Sound) {call : Call basis}
    (found : system.calls id = some call) (phase : Phase basis) (refreshing : Option Nat)
    (own : (system.setPhase id call phase).Allows { call with phase })
    (outside : ∀ set, call.phase ≠ .fetched set)
    (holds : phase.holds = true → refreshing = some id)
    (hands : refreshing = system.refreshing ∨ system.refreshing = none ∨
      call.phase.holds = true) :
    ({ system.setPhase id call phase with refreshing } : System basis).Sound where
  holder := by
    refine sound.holders rfl ?_ ?_
    · rintro _ ⟨rfl⟩ holds'
      exact holds holds'
    · rcases hands with same | free | held
      · exact .inl same
      · exact .inr (.inl free)
      · exact .inr (.inr ⟨call, found, held⟩)
  allows := by
    refine sound.others rfl (Nat.le_refl _) ?_ (.inl ⟨rfl, rfl⟩)
    rintro _ ⟨rfl⟩
    exact own
  cooling at' listed := by
    refine (sound.cooling at' listed).others rfl (Nat.le_refl _) rfl ?_
    intro call' set found'
    cases found.symm.trans found'
    exact outside set
  apart := sound.apart

/-- A call that looked again and got no answer may fetch: nothing keeps the
gateway alone any more, and no fresh set has its key. -/
theorem Sound.missed (sound : system.Sound) {call : Call basis}
    (found : system.calls id = some call) {now : Nat} (phase : call.phase = .lookingAgain now)
    (missed : system.cache.cached call.keyId now = none) :
    (∀ at', .ended at' false ∈ system.log → at' + basis.unknownKeyCooldown ≤ system.clock) ∧
      ∀ jwk, system.cache.lookup call.keyId system.clock ≠ .found jwk := by
  have before : now ≤ system.clock := by
    have allows := sound.allows id call found
    unfold Allows at allows
    rwa [phase] at allows
  constructor
  · intro at' listed
    rcases sound.cooling at' listed with past | quiet | ⟨other, call', set, found', inFetch, _, _⟩
    · exact past
    · by_contra early
      have answered := quiet call.keyId now (by omega)
      rw [missed] at answered
      exact nomatch answered
    · have same : other = id := sound.alone found found' (by rw [phase]; rfl) (by rw [inFetch]; rfl)
      subst same
      cases found.symm.trans found'
      exact nomatch phase.symm.trans inFetch
  · intro jwk listed
    have answered := KeyCache.cached_found (KeyCache.lookup_earlier before listed)
    exact nomatch missed.symm.trans answered

/-- A fetch starts. -/
theorem Sound.starts (sound : system.Sound) {call : Call basis}
    (found : system.calls id = some call) (phase : call.phase = .missed) :
    ({ system.setPhase id call .fetching with
        log := .started system.clock :: system.log } : System basis).Sound := by
  have holds : call.phase.holds = true := by rw [phase]; rfl
  have allowed : ∀ at', .ended at' false ∈ system.log →
      at' + basis.unknownKeyCooldown ≤ system.clock := by
    have allows := sound.allows id call found
    unfold Allows at allows
    rw [phase] at allows
    exact allows.1
  have listed {at' : Nat} (mem : .ended at' false ∈ .started system.clock :: system.log) :
      .ended at' false ∈ system.log := by
    rcases List.mem_cons.mp mem with same | mem
    · exact nomatch same
    · exact mem
  refine ⟨?_, ?_, ?_, ?_⟩
  · refine sound.holders rfl ?_ (.inl rfl)
    rintro _ ⟨rfl⟩ _
    exact sound.holder id call found holds
  · refine sound.others rfl (Nat.le_refl _) ?_ (.inr ⟨call, found, holds⟩)
    rintro _ ⟨rfl⟩ at' mem
    exact allowed at' (listed mem)
  · intro at' mem
    refine (sound.cooling at' (listed mem)).others rfl (Nat.le_refl _) rfl ?_
    intro call' set found' inFetch
    cases found.symm.trans found'
    exact nomatch phase.symm.trans inFetch
  · refine List.Pairwise.cons ?_ sound.apart
    rintro (at' | ⟨at', served⟩) mem
    · trivial
    · cases served with
      | true => trivial
      | false => exact allowed at' mem

/-- A fetch ends. What came of it is with the call until it is written down. -/
theorem Sound.ends (sound : system.Sound) {keyId : String}
    (found : system.calls id = some ⟨keyId, .fetching⟩) (set : Option basis.JwkSet) :
    ({ system.setPhase id ⟨keyId, .fetching⟩ (.fetched set) with
        log := .ended system.clock (serves keyId set) :: system.log } : System basis).Sound := by
  have allowed : ∀ at', .ended at' false ∈ system.log →
      at' + basis.unknownKeyCooldown ≤ system.clock := sound.allows id _ found
  refine ⟨?_, ?_, ?_, ?_⟩
  · refine sound.holders rfl ?_ (.inl rfl)
    rintro _ ⟨rfl⟩ _
    exact sound.holder id _ found rfl
  · refine sound.others rfl (Nat.le_refl _) ?_ (.inr ⟨_, found, rfl⟩)
    rintro _ ⟨rfl⟩ at' mem
    rcases List.mem_cons.mp mem with same | mem
    · injection same with at_eq failed
      subst at_eq
      exact .inr ⟨failed.symm, Nat.le_refl _⟩
    · exact .inl (allowed at' mem)
  · intro at' mem
    rcases List.mem_cons.mp mem with same | mem
    · injection same with at_eq failed
      subst at_eq
      refine .inr (.inr ⟨id, ⟨keyId, .fetched set⟩, set, ?_, rfl, failed.symm, Nat.le_refl _⟩)
      exact Function.update_self ..
    · exact .inl (allowed at' mem)
  · refine List.Pairwise.cons ?_ sound.apart
    intro event _
    cases event <;> trivial

/-- What came of a fetch is written down, and keeps the gateway alone if it did
not bring its key. -/
theorem Sound.stores (sound : system.Sound) {keyId : String} {set : Option basis.JwkSet}
    (found : system.calls id = some ⟨keyId, .fetched set⟩) (meanwhile : Nat)
    (answer : Except IdentityError basis.Jwk) :
    ({ system.setPhase id ⟨keyId, .fetched set⟩ (.returning answer) with
        cache := (system.cache.store keyId system.clock meanwhile set).1
        clock := system.clock + meanwhile } : System basis).Sound := by
  refine ⟨?_, ?_, ?_, sound.apart⟩
  · refine sound.holders rfl ?_ (.inl rfl)
    rintro _ ⟨rfl⟩ _
    exact sound.holder id _ found rfl
  · refine sound.others rfl (Nat.le_add_right _ _) ?_ (.inr ⟨_, found, rfl⟩)
    rintro _ ⟨rfl⟩
    trivial
  · intro at' mem
    rcases sound.allows id _ found at' mem with past | ⟨failed, before⟩
    · exact .inl (Nat.le_trans past (Nat.le_add_right _ _))
    · refine .inr (.inl ?_)
      exact (KeyCache.store_quiet system.clock meanwhile failed).mono (Nat.add_le_add_right before _)

/-- A call that is not in its fetch is dropped, and lets go of the lock. -/
theorem Sound.drops (sound : system.Sound) {call : Call basis}
    (found : system.calls id = some call) (outside : call.phase.inFetch = false) :
    ({ system with
        calls := Function.update system.calls id none
        refreshing := if call.phase.holds then none else system.refreshing } : System basis).Sound := by
  refine ⟨?_, ?_, ?_, sound.apart⟩
  · refine sound.holders rfl nofun ?_
    cases holds : call.phase.holds with
    | true => exact .inr (.inr ⟨call, found, holds⟩)
    | false => exact .inl rfl
  · exact sound.others rfl (Nat.le_refl _) nofun (.inl ⟨rfl, rfl⟩)
  · intro at' mem
    refine (sound.cooling at' mem).others rfl (Nat.le_refl _) rfl ?_
    intro call' set found' inFetch
    cases found.symm.trans found'
    rw [inFetch] at outside
    exact nomatch outside

end

/-- A call that goes on by itself keeps all of it. -/
theorem Sound.proceeds {id : Nat} {call : Call basis} (sound : system.Sound)
    (found : system.calls id = some call) (moved : system.proceed id call = some next) :
    next.Sound := by
  have held : call.phase.holds = true → system.refreshing = some id := sound.holder id call found
  unfold proceed at moved
  cases phase : call.phase with
  | called =>
    rw [phase] at moved
    obtain rfl := Option.some.inj moved
    exact sound.moves found (.looking system.clock) system.refreshing (Nat.le_refl _)
      (by simp [phase]) nofun (.inl rfl)
  | looking now =>
    rw [phase] at moved
    dsimp only at moved
    cases looked : system.cache.cached call.keyId now with
    | some answer =>
      rw [looked] at moved
      obtain rfl := Option.some.inj moved
      exact sound.moves found (.done answer) system.refreshing trivial (by simp [phase]) nofun
        (.inl rfl)
    | none =>
      rw [looked] at moved
      obtain rfl := Option.some.inj moved
      exact sound.moves found .waiting system.refreshing trivial (by simp [phase]) nofun (.inl rfl)
  | waiting =>
    rw [phase] at moved
    dsimp only at moved
    split at moved
    · next free =>
      obtain rfl := Option.some.inj moved
      exact sound.moves found .locked (some id) trivial (by simp [phase]) (fun _ => rfl)
        (.inr (.inl free))
    · exact nomatch moved
  | locked =>
    rw [phase] at moved held
    obtain rfl := Option.some.inj moved
    exact sound.moves found (.lookingAgain system.clock) system.refreshing (Nat.le_refl _)
      (by simp [phase]) (fun _ => held rfl) (.inl rfl)
  | lookingAgain now =>
    rw [phase] at moved held
    dsimp only at moved
    cases looked : system.cache.cached call.keyId now with
    | some answer =>
      rw [looked] at moved
      obtain rfl := Option.some.inj moved
      exact sound.moves found (.returning answer) system.refreshing trivial (by simp [phase])
        (fun _ => held rfl) (.inl rfl)
    | none =>
      rw [looked] at moved
      obtain rfl := Option.some.inj moved
      have may := sound.missed found phase looked
      exact sound.moves found .missed system.refreshing may (by simp [phase]) (fun _ => held rfl)
        (.inl rfl)
  | missed =>
    rw [phase] at moved
    obtain rfl := Option.some.inj moved
    exact sound.starts found phase
  | returning answer =>
    rw [phase] at moved
    obtain rfl := Option.some.inj moved
    exact sound.moves found (.done answer) none trivial (by simp [phase]) nofun
      (.inr (.inr (by rw [phase]; rfl)))
  | fetching | fetched set | done answer =>
    rw [phase] at moved
    exact nomatch moved

/-- Every move keeps all of it. -/
theorem Sound.step {move : Move basis} (sound : system.Sound) (moved : system.step move = some next) :
    next.Sound := by
  cases move with
  | tick by' =>
    obtain rfl := Option.some.inj moved
    have later : system.clock ≤ system.clock + by' := Nat.le_add_right _ _
    refine ⟨sound.holder, ?_, ?_, sound.apart⟩
    · exact fun id call found => (sound.allows id call found).later rfl rfl later
    · intro at' mem
      rcases sound.cooling at' mem with past | quiet | ⟨id, call, set, found, inFetch, failed, before⟩
      · exact .inl (Nat.le_trans past later)
      · exact .inr (.inl quiet)
      · exact .inr (.inr ⟨id, call, set, found, inFetch, failed, Nat.le_trans before later⟩)
  | call id keyId =>
    unfold System.step at moved
    dsimp only at moved
    cases free : system.calls id with
    | some call =>
      rw [free] at moved
      exact nomatch moved
    | none =>
      rw [free] at moved
      obtain rfl := Option.some.inj moved
      refine ⟨?_, ?_, ?_, sound.apart⟩
      · refine sound.holders rfl ?_ (.inl rfl)
        rintro _ ⟨rfl⟩ holds
        exact nomatch holds
      · refine sound.others rfl (Nat.le_refl _) ?_ (.inl ⟨rfl, rfl⟩)
        rintro _ ⟨rfl⟩
        trivial
      · intro at' mem
        refine (sound.cooling at' mem).others rfl (Nat.le_refl _) rfl ?_
        intro call set found
        exact nomatch free.symm.trans found
  | proceed id =>
    obtain ⟨call, found, moved⟩ := Option.bind_eq_some_iff.mp moved
    exact sound.proceeds found moved
  | respond id set =>
    unfold System.step at moved
    dsimp only at moved
    split at moved
    · next found =>
      obtain rfl := Option.some.inj moved
      exact sound.ends found set
    · exact nomatch moved
  | store id meanwhile =>
    unfold System.step at moved
    dsimp only at moved
    split at moved
    · next found =>
      obtain rfl := Option.some.inj moved
      exact sound.stores found meanwhile _
    · exact nomatch moved
  | drop id =>
    unfold System.step at moved
    dsimp only at moved
    split at moved
    · next call found =>
      split at moved
      · exact nomatch moved
      · next outside =>
        obtain rfl := Option.some.inj moved
        exact sound.drops found (Bool.eq_false_iff.mpr outside)
    · exact nomatch moved

/-- So does every run. -/
theorem Reachable.sound (reached : system.Reachable) : system.Sound := by
  obtain ⟨clock, run⟩ := reached
  induction run with
  | refl => exact sound_new clock
  | tail _ step before =>
    obtain ⟨move, moved⟩ := step
    exact before.step moved

/-- A call that looks finds a fresh key, whatever else the cache has been told. -/
theorem proceed_looking {id : Nat} {call : Call basis} {now : Nat} {jwk : basis.Jwk}
    (phase : call.phase = .looking now) (fresh : system.cache.Fresh call.keyId now jwk) :
    system.proceed id call = some (system.setPhase id call (.done (.ok jwk))) := by
  unfold proceed
  rw [phase]
  dsimp only
  rw [KeyCache.cached_found (KeyCache.lookup_found.mpr fresh)]

/-- So does one that looks again. -/
theorem proceed_lookingAgain {id : Nat} {call : Call basis} {now : Nat} {jwk : basis.Jwk}
    (phase : call.phase = .lookingAgain now) (fresh : system.cache.Fresh call.keyId now jwk) :
    system.proceed id call = some (system.setPhase id call (.returning (.ok jwk))) := by
  unfold proceed
  rw [phase]
  dsimp only
  rw [KeyCache.cached_found (KeyCache.lookup_found.mpr fresh)]

/-- However calls of `key` interleave and whatever the gateway does: one fetch is
in flight at a time; a call whose key is in a fresh set is answered with it where
it looks, and is not about to fetch; and no fetch starts within the cooldown of
one that did not bring the key it was made for. -/
theorem Reachable.keys {system : System basis} (reached : system.Reachable) :
    (∀ id other call call', system.calls id = some call → system.calls other = some call' →
        call.phase.inFetch = true → call'.phase.inFetch = true → other = id) ∧
      (∀ id call jwk, system.calls id = some call →
        system.cache.Fresh call.keyId system.clock jwk →
          (∀ now, call.phase = .looking now →
            system.step (.proceed id) = some (system.setPhase id call (.done (.ok jwk)))) ∧
          (∀ now, call.phase = .lookingAgain now →
            system.step (.proceed id) = some (system.setPhase id call (.returning (.ok jwk)))) ∧
          call.phase ≠ .missed) ∧
      system.log.Pairwise (Apart basis) := by
  have sound := reached.sound
  have holds {call : Call basis} (inFetch : call.phase.inFetch = true) :
      call.phase.holds = true := by
    cases phase : call.phase <;> rw [phase] at inFetch <;> first | rfl | exact nomatch inFetch
  refine ⟨?_, ?_, sound.apart⟩
  · intro id other call call' found found' inFetch inFetch'
    exact sound.alone found found' (holds inFetch) (holds inFetch')
  · intro id call jwk found fresh
    have allows := sound.allows id call found
    unfold Allows at allows
    -- it may have read the clock some time ago, when the set was fresh all the more
    have earlier {now : Nat} (before : now ≤ system.clock) : system.cache.Fresh call.keyId now jwk :=
      KeyCache.lookup_found.mp (KeyCache.lookup_earlier before (KeyCache.lookup_found.mpr fresh))
    have stepped : system.step (.proceed id) = system.proceed id call := by
      unfold System.step
      dsimp only
      rw [found]
      rfl
    refine ⟨?_, ?_, ?_⟩
    · intro now phase
      rw [phase] at allows
      exact stepped.trans (proceed_looking phase (earlier allows))
    · intro now phase
      rw [phase] at allows
      exact stepped.trans (proceed_lookingAgain phase (earlier allows))
    · intro phase
      rw [phase] at allows
      exact allows.2 jwk (KeyCache.lookup_found.mpr fresh)

end System

/-! ## A gateway that fails once -/

namespace Sample

/-- A key set is its identifiers, and the clock counts seconds. -/
abbrev gateway : Basis := ⟨String, List String, fun set keyId => set.find? (· = keyId), 1⟩

/-- What a list of moves comes to. -/
def perform (system : System gateway) : List (Move gateway) → Option (System gateway)
  | [] => some system
  | move :: moves => (system.step move).bind (perform · moves)

theorem perform_run {moves : List (Move gateway)} {system next : System gateway}
    (performed : perform system moves = some next) :
    Relation.ReflTransGen System.Step system next := by
  induction moves generalizing system with
  | nil =>
    obtain rfl := Option.some.inj performed
    exact .refl
  | cons move moves ih =>
    obtain ⟨middle, moved, rest⟩ := Option.bind_eq_some_iff.mp performed
    exact .head ⟨move, moved⟩ (ih rest)

/-- Two calls look in an empty cache. The first fetches and gets nothing, the
second is refused on the strength of that; a third comes after the cooldown and
gets a set, and a fourth looks in it. -/
def moves : List (Move gateway) :=
  [.call 1 "a", .call 2 "b", .proceed 1, .proceed 2, .proceed 1, .proceed 2, .proceed 1,
    .proceed 1, .proceed 1, .proceed 1, .tick 1, .respond 1 none, .store 1 0, .proceed 1,
    .proceed 2, .proceed 2, .proceed 2, .proceed 2, .tick 5, .call 3 "a", .proceed 3, .proceed 3,
    .proceed 3, .proceed 3, .proceed 3, .proceed 3, .respond 3 (some ["a"]), .store 3 0,
    .proceed 3, .call 4 "a", .proceed 4]

/-- Whatever that comes to, its log is apart, and the fourth call is answered. -/
theorem keys_sample :
    ∃ system, perform (System.new 0) moves = some system ∧
      system.log = [.ended 6 true, .started 6, .ended 1 false, .started 0] ∧
      system.log.Pairwise (System.Apart gateway) ∧
      ∃ call, system.calls 4 = some call ∧
        system.step (.proceed 4) = some (system.setPhase 4 call (.done (.ok "a"))) := by
  obtain ⟨system, performed⟩ : ∃ system, perform (System.new 0) moves = some system := ⟨_, rfl⟩
  have reached : system.Reachable := ⟨0, perform_run performed⟩
  obtain ⟨-, served, apart⟩ := reached.keys
  refine ⟨system, performed, ?_, apart, ⟨"a", .looking 6⟩, ?_, ?_⟩
  · obtain rfl := Option.some.inj performed
    rfl
  · obtain rfl := Option.some.inj performed
    rfl
  · refine (served 4 ⟨"a", .looking 6⟩ "a" ?_ ?_).1 6 rfl
    · obtain rfl := Option.some.inj performed
      rfl
    · obtain rfl := Option.some.inj performed
      exact ⟨6, ["a"], rfl, by decide, rfl, rfl⟩

end Sample

end McpSsh.Ingress
