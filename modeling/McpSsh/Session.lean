import McpSsh.Identity
import Mathlib.Data.List.MinMax

/-!
# Sessions

The session store of `session.rs`. Each function is one critical section: it
is given the clock reading taken under the lock and returns the answer beside
the store it leaves, since most of them forget something on the way out.

A slot reserved for an open in progress is an occurrence of its principal in
`pending`; the source counts them in one shared counter per principal.
-/

namespace McpSsh

/-- How long a session may live. -/
structure Lifetime where
  idle : Nat
  max : Nat
  grace : Nat
  deriving DecidableEq, Repr, Inhabited

structure Session where
  id : SessionId
  principal : PrincipalId
  host : HostId
  role : RoleId
  purpose : Purpose
  accessClass : AccessClass
  openedAt : Nat
  lastUsed : Nat
  lifetime : Lifetime
  deriving DecidableEq, Inhabited

inductive Expiry
  | idle
  | maxLifetime
  deriving DecidableEq, Repr

/-- `Session::expiry`. -/
def Session.expiry (session : Session) (now : Nat) : Option Expiry :=
  if session.lifetime.max ≤ now - session.openedAt then some .maxLifetime
  else if session.lifetime.idle ≤ now - session.lastUsed then some .idle
  else none

/-- When this session stopped being usable, whichever bound came first. -/
def Session.lapsedAt (session : Session) : Nat :=
  min (satAdd session.openedAt session.lifetime.max) (satAdd session.lastUsed session.lifetime.idle)

/-- Whether the session is old enough to stop remembering. -/
def Session.forgettable (session : Session) (now : Nat) : Bool :=
  (session.expiry now).isSome && satAdd session.lapsedAt session.lifetime.grace ≤ now

structure LapsedContext where
  host : HostId
  role : RoleId
  purpose : Purpose
  accessClass : AccessClass
  deriving DecidableEq

inductive SessionError
  | unknown
  | expired (why : Expiry) (context : LapsedContext)
  deriving DecidableEq

structure TooManySessions where
  limit : Nat
  deriving DecidableEq, Repr

/-- What the store holds: the sessions, and one entry per reserved slot. -/
structure Sessions where
  held : List Session
  pending : List PrincipalId
  deriving DecidableEq

namespace Sessions

def find (store : Sessions) (id : SessionId) : Option Session :=
  store.held.find? (·.id = id)

def remove (store : Sessions) (id : SessionId) : Sessions :=
  { store with held := store.held.filter (·.id ≠ id) }

/-- Drops what lapsed longer ago than the grace period. -/
def sweep (store : Sessions) (now : Nat) : Sessions :=
  { store with held := store.held.filter (fun session => !session.forgettable now) }

/-- The session under an identifier, if it can still be used. -/
def usable (store : Sessions) (now : Nat) (id : SessionId) : Option Session :=
  (store.find id).filter (fun session => (session.expiry now).isNone)

/-- `SessionStore::holds`. -/
def holds (store : Sessions) (now : Nat) (id : SessionId) : Bool :=
  (store.usable now id).isSome

/-- `SessionStore::ends_by`. -/
def endsBy (store : Sessions) (now : Nat) (id : SessionId) : Option Nat :=
  (store.usable now id).map (fun session => satAdd session.openedAt session.lifetime.max)

/-- `SessionStore::live`. -/
def live (store : Sessions) (now : Nat) : List SessionId :=
  (store.held.filter (fun session => (session.expiry now).isNone)).map (·.id)

/-- `SessionStore::reserve`. The lapsed session that gives up its slot is the
first of the oldest, as `min_by_key` picks it. -/
def reserve (store : Sessions) (perPrincipal now : Nat) (principal : PrincipalId) :
    Except TooManySessions Unit × Sessions :=
  let store := store.sweep now
  let mine := store.held.filter (·.principal = principal)
  if perPrincipal ≤ mine.length + store.pending.count principal then
    match (mine.filter (fun session => (session.expiry now).isSome)).argmin Session.lapsedAt with
    | none => (.error ⟨perPrincipal⟩, store)
    | some stale =>
      let store := store.remove stale.id
      (.ok (), { store with pending := principal :: store.pending })
  else (.ok (), { store with pending := principal :: store.pending })

/-- Releases a reserved slot: an `Opening` dropped before it was used. -/
def release (store : Sessions) (principal : PrincipalId) : Sessions :=
  { store with pending := store.pending.erase principal }

/-- `Opening::open`: the reserved slot becomes a session. -/
def publish (store : Sessions) (session : Session) : Sessions :=
  { held := session :: store.held, pending := store.pending.erase session.principal }

/-- `SessionStore::use_session`. -/
def useSession (store : Sessions) (now : Nat) (id : SessionId) (principal : PrincipalId) :
    Except SessionError Session × Sessions :=
  match store.find id with
  | none => (.error .unknown, store)
  | some session =>
    if session.principal ≠ principal then (.error .unknown, store)
    else
      match session.expiry now with
      | some why =>
        let context := ⟨session.host, session.role, session.purpose, session.accessClass⟩
        (.error (.expired why context),
          if session.forgettable now then store.remove id else store)
      | none =>
        let used := { session with lastUsed := now }
        (.ok used, { store with
          held := store.held.map (fun other => if other.id = id then used else other) })

/-- `SessionStore::check_binding`. -/
def checkBinding (store : Sessions) (id : SessionId) (principal : PrincipalId) (host : HostId)
    (role : RoleId) : Except SessionError Unit :=
  match store.find id with
  | none => .error .unknown
  | some session =>
    if session.principal ≠ principal ∨ session.host ≠ host ∨ session.role ≠ role then
      .error .unknown
    else .ok ()

/-- `SessionStore::close`. -/
def close (store : Sessions) (id : SessionId) (principal : PrincipalId) :
    Except SessionError Unit × Sessions :=
  match store.find id with
  | some session =>
    if session.principal = principal then (.ok (), store.remove id) else (.error .unknown, store)
  | none => (.error .unknown, store)

end Sessions

/-! ## Expiry is final -/

/-- A session that has lapsed stays lapsed while nobody renews it. -/
theorem Session.expiry_isNone_of_le {session : Session} {now later : Nat} (le : now ≤ later)
    (good : (session.expiry later).isNone) : (session.expiry now).isNone := by
  unfold Session.expiry at good ⊢
  split at good
  · cases good
  · split at good
    · cases good
    · rw [if_neg (by omega), if_neg (by omega)]
      rfl

end McpSsh
