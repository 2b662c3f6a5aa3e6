import McpSsh.Bastion.Worlds
import McpSsh.Lib.Layers

/-!
# What the publishing lock keeps together

A session and its entry in the connection map appear together and go together,
and an end is in the record before either goes. Both are said here as one more
invariant of the service, with what a call may count on while others move and
what each step has to mind.

A connection that was found gone is replaced without being closed. Which
connections those are is a parameter, `lost`.
-/

namespace McpSsh.Bastion

open Interleaving History

/-! ## The record and the store -/

/-- The record says that this session is over. -/
def Journal.Ended (journal : Journal) (id : SessionId) : Prop :=
  ∃ entry ∈ journal.entries, entry.ends = some id

theorem Journal.Ended.grow {journal later : Journal} {id : SessionId} (ended : journal.Ended id)
    (grows : journal <+: later) : later.Ended id := by
  obtain ⟨entry, member, ends⟩ := ended
  exact ⟨entry, Journal.mem_entries.mpr (grows.subset (Journal.mem_entries.mp member)), ends⟩

namespace Service

/-- No session held is over by the record. -/
def Clear (service : Service) : Prop :=
  ∀ session ∈ service.sessions.store.held, ¬ service.journal.Ended session.id

/-- Every session opened has been given its holder. -/
def AllPlaced (service : Service) : Prop :=
  ∀ session, service.journal.Opened session →
    ∃ placer holder, Note.placed placer holder session.id ∈ service.journal

/-- The holder a session has in the connection map. -/
def linked (service : Service) (id : SessionId) : Option Nat :=
  service.links.connections.lookup id

/-- A session that was given a holder and has none in the map. -/
def Parted (service : Service) (id : SessionId) : Prop :=
  (∃ placer holder, Note.placed placer holder id ∈ service.journal) ∧ service.linked id = none

/-- What a holder holds has been closed. -/
def Shut (service : Service) (holder : Nat) : Prop :=
  ∃ held, service.links.find holder = some held ∧ held.connection.id ∈ service.links.closed

/-- A connection was dialled under this number. -/
def Dialled (service : Service) (connection : Nat) : Prop :=
  ∃ dialler other, Note.dialled dialler other ∈ service.journal ∧ other.id = connection

/-- One was closed or bound under it. -/
def Spent (service : Service) (connection : Nat) : Prop :=
  connection ∈ service.links.closed ∨
    ∃ binder id other, Note.bound binder id other ∈ service.journal ∧ other.id = connection

theorem Dialled.grow {before after : Service} {connection : Nat} (dialled : before.Dialled connection)
    (grows : before.journal <+: after.journal) : after.Dialled connection := by
  obtain ⟨dialler, other, member, same⟩ := dialled
  exact ⟨dialler, other, grows.subset member, same⟩

/-- A connection a call has dialled and nobody has bound or closed. -/
structure Fresh (service : Service) (tid : Nat) (connection : Connection) : Prop where
  dialled : Note.dialled tid connection ∈ service.journal
  unbound : ∀ binder id other, Note.bound binder id other ∈ service.journal →
    other.id ≠ connection.id
  unclosed : connection.id ∉ service.links.closed

theorem Fresh.was {service : Service} {tid : Nat} {connection : Connection}
    (fresh : service.Fresh tid connection) : service.Dialled connection.id :=
  ⟨tid, connection, fresh.dialled, rfl⟩

end Service

/-! ## The invariant -/

/-- The end of a session is in the record once, and only an ending under way
may not have removed the session yet. -/
structure EndsOk (service : Service) : Prop where
  once : Keyed Entry.ends service.journal.entries
  known : ∀ id, service.journal.Ended id → ∃ session, service.journal.Opened session ∧ session.id = id
  clear : service.locks .publishing = none → service.Clear

/-- Every session has been given a holder, unless its opening is under way. It
is in the map with it while it can be used, and what is in the map is not
closed. What was bound to a session is closed, lost or still in its holder. -/
structure MapOk (lost : Nat → Prop) (service : Service) : Prop where
  all : service.locks .publishing = none → service.AllPlaced
  known : ∀ placer holder id, Note.placed placer holder id ∈ service.journal →
    ∃ session, service.journal.Opened session ∧ session.id = id
  mapped : ∀ session ∈ service.sessions.store.held, session.expiry service.clock = none →
    ∀ placer holder, Note.placed placer holder session.id ∈ service.journal →
      service.linked session.id = some holder
  single : ∀ placer holder placer' holder' id, Note.placed placer holder id ∈ service.journal →
    Note.placed placer' holder' id ∈ service.journal → holder = holder'
  found : ∀ placer holder id, Note.placed placer holder id ∈ service.journal →
    ∃ held, service.links.find holder = some held ∧ held.session = id
  unclosed : ∀ id holder held, service.linked id = some holder →
    service.links.find holder = some held → held.connection.id ∉ service.links.closed
  distinct : ∀ binder id connection binder' id' connection',
    Note.bound binder id connection ∈ service.journal →
    Note.bound binder' id' connection' ∈ service.journal → connection.id = connection'.id → id = id'
  bound : ∀ binder id connection, Note.bound binder id connection ∈ service.journal →
    connection.id ∈ service.links.closed ∨ lost connection.id ∨
      ∃ holder held, service.links.find holder = some held ∧ held.session = id ∧
        held.connection = connection
  dialled : ∀ connection, service.Spent connection → service.Dialled connection

/-- Both. -/
structure Published (lost : Nat → Prop) (service : Service) : Prop where
  ends : EndsOk service
  map : MapOk lost service

theorem Published.new (lost : Nat → Prop) (deployment : Deployment) (clock : Nat) :
    Published lost (Service.new deployment clock) where
  ends := ⟨.nil, (by rintro id ⟨entry, member, -⟩; cases member),
    fun _ session member => by cases member⟩
  map := {
    all := by rintro - session ⟨tid, lastUsed, member⟩; cases member
    known := fun _ _ _ member => by cases member
    mapped := fun _ member => by cases member
    single := fun _ _ _ _ _ member => by cases member
    found := fun _ _ _ member => by cases member
    unclosed := fun _ _ _ member => by cases member
    distinct := fun _ _ _ _ _ _ member => by cases member
    bound := fun _ _ _ member => by cases member
    dialled := by rintro connection (closed | ⟨binder, id, other, bound, -⟩) <;> cases ‹_ ∈ _› }

/-! ## What a call relies on -/

/-- What no step undoes. -/
structure Lasts (before after : Service) : Prop where
  closed : before.links.closed ⊆ after.links.closed
  shut : ∀ holder, before.Shut holder → after.Shut holder
  parted : ∀ id, before.Parted id → after.Parted id

theorem Lasts.refl (service : Service) : Lasts service service :=
  ⟨fun _ member => member, fun _ shut => shut, fun _ parted => parted⟩

theorem Lasts.trans {a b c : Service} (first : Lasts a b) (second : Lasts b c) : Lasts a c :=
  ⟨List.Subset.trans first.closed second.closed, fun holder shut => second.shut holder (first.shut holder shut),
    fun id parted => second.parted id (first.parted id parted)⟩

/-- What others leave to the call that has the publishing lock. -/
structure Sheltered (before after : Service) : Prop where
  ended : ∀ id, after.journal.Ended id → before.journal.Ended id
  held : ∀ session ∈ after.sessions.store.held, ∃ old ∈ before.sessions.store.held,
    old.id = session.id ∧ (session.expiry after.clock = none → old.expiry before.clock = none)
  opened : ∀ session, after.journal.Opened session → before.journal.Opened session
  placed : ∀ placer holder id, Note.placed placer holder id ∈ after.journal →
    Note.placed placer holder id ∈ before.journal
  connections : after.links.connections = before.links.connections

namespace Sheltered

theorem refl (service : Service) : Sheltered service service :=
  ⟨fun _ ended => ended, fun session member => ⟨session, member, rfl, fun good => good⟩,
    fun _ opened => opened, fun _ _ _ placed => placed, rfl⟩

theorem trans {a b c : Service} (first : Sheltered a b) (second : Sheltered b c) :
    Sheltered a c where
  ended := fun id ended => first.ended id (second.ended id ended)
  held := by
    intro session member
    obtain ⟨middle, inside, same, good⟩ := second.held session member
    obtain ⟨old, inside', same', good'⟩ := first.held middle inside
    exact ⟨old, inside', same'.trans same, fun lives => good' (good lives)⟩
  opened := fun session opened => first.opened session (second.opened session opened)
  placed := fun placer holder id placed =>
    first.placed placer holder id (second.placed placer holder id placed)
  connections := second.connections.trans first.connections

variable {before after : Service}

/-- No end is recorded and no session comes. -/
theorem clear (sheltered : Sheltered before after) (clear : before.Clear) : after.Clear := by
  intro session member ended
  obtain ⟨old, inside, same, -⟩ := sheltered.held session member
  exact clear old inside (same ▸ sheltered.ended _ ended)

theorem allPlaced (sheltered : Sheltered before after) (grows : before.journal <+: after.journal)
    (all : before.AllPlaced) : after.AllPlaced := by
  intro session opened
  obtain ⟨placer, holder, member⟩ := all session (sheltered.opened session opened)
  exact ⟨placer, holder, grows.subset member⟩

end Sheltered

/-- What others leave alone. -/
structure Leaves (tid : Nat) (before after : Service) : Prop where
  lasts : Lasts before after
  sheltered : before.locks .publishing = some tid → Sheltered before after
  fresh : ∀ connection, before.Fresh tid connection → after.Fresh tid connection
  spared : ∀ holder held, before.locks (.holder holder) = some tid →
    before.links.find holder = some held → held.connection.id ∉ before.links.closed →
      held.connection.id ∉ after.links.closed

/-! ## What a step has to mind -/

section
variable (lost : Nat → Prop) (tid : Nat) (service : Service)

def ServiceStep.Minds {β : Type} : ServiceStep β → Prop
  | .unlock which => which = .publishing → service.AllPlaced ∧ service.Clear
  | _ => True

def SessionStep.Minds {β : Type} : SessionStep β → Prop
  | .publish .. => service.locks .publishing = some tid
  | _ => True

def LedgerStep.Minds {β : Type} : LedgerStep β → Prop
  | .record who event => event.isEnd = true →
    service.locks .publishing = some tid ∧ service.AllPlaced ∧ ¬ service.journal.Ended who.session ∧
      ∃ session, service.journal.Opened session ∧ session.id = who.session
  | _ => True

def LinkStep.Minds {β : Type} : LinkStep β → Prop
  | .insert session connection => service.locks .publishing = some tid ∧
    service.Fresh tid connection ∧
    ∀ placer holder, Note.placed placer holder session ∉ service.journal
  | .remove id => service.locks .publishing = some tid ∧ service.AllPlaced ∧
    ∀ session ∈ service.sessions.store.held, session.id = id → session.expiry service.clock ≠ none
  | .removeOrphans live => service.locks .publishing = some tid ∧ service.AllPlaced ∧
    ∀ session ∈ service.sessions.store.held, session.expiry service.clock = none → session.id ∈ live
  | .replace holder connection => service.Fresh tid connection ∧
    ∀ held, service.links.find holder = some held →
      held.connection.id ∉ service.links.closed ∧ lost held.connection.id
  | .hangUp connection =>
    (∀ holder held, service.links.find holder = some held → held.connection.id = connection →
      service.locks (.holder holder) = some tid ∧ service.linked held.session ≠ some holder) ∧
    (∀ other fresh, other ≠ tid → service.Fresh other fresh → fresh.id ≠ connection) ∧
    service.Dialled connection
  | _ => True

/-- What a step has to mind for sessions, ends and connections to agree. -/
def Step.Minds {β : Type} : Step β → Prop
  | .service step => step.Minds service
  | .sessions step => step.Minds tid service
  | .ledger step => step.Minds tid service
  | .links step => step.Minds lost tid service
  | _ => True

def LinkStep.Finds (choice : Choice) {β : Type} : LinkStep β → Prop
  | .look holder => choice.accepts = false →
    ∀ held, service.links.find holder = some held → lost held.connection.id
  | _ => True

/-- A transport that is found gone is one of those lost. -/
def Step.Finds (choice : Choice) {β : Type} : Step β → Prop
  | .links step => step.Finds lost service choice
  | _ => True

end

end McpSsh.Bastion
