import McpSsh.Audit.Completion
import McpSsh.Runs.Calls
import McpSsh.SessionStore

/-!
# What holds of the run store

`Change` says once what a step or a happening can do to the service. Every run
is either with its reader or accounted for, and one that the store let go of was
recorded; a session that can no longer be used stays so, whatever is opened.
-/

namespace McpSsh.RunStore

open Interleaving Ledger
open Bastion (Deployment)

variable {deployment : Deployment} {tid : Nat} {choice : Choice} {service before after : Service}
variable {outcome : Outcome} {live : Live} {β : Type} {answer : β}

namespace Service

/-- What a settled run came to. -/
def Settled (service : Service) (outcome : Outcome) : Prop :=
  ∃ live ∈ service.lives, live.snapshot = outcome ∧ live.state ≠ .running

/-- The completion of a run is in the record. -/
def Completed (service : Service) (outcome : Outcome) : Prop :=
  ∃ entry ∈ service.record.committed, entry.event = outcome.event

/-- The record was asked to take an outcome, and would not. -/
def Refused (service : Service) (outcome : Outcome) : Prop :=
  ∃ error, (outcome, error) ∈ service.refused

/-- Nobody can use a session. -/
def Gone (service : Service) (id : SessionId) : Prop :=
  service.sessions.usable service.clock id = none

end Service

/-- A run's reader has got so far only if the run has, and a run that the store
let go of is in the record. Completions are those of these runs, one each. -/
structure Inv (deployment : Deployment) (service : Service) : Prop where
  record : Record.Reachable deployment.format deployment.limits deployment.genesis service.record
  sessions : service.sessions.Distinct
  ids : (service.lives.map Live.id).Nodup
  sequences : (service.lives.map (·.authorization.sequence)).Nodup
  minted : ∀ live ∈ service.lives, live.authorization ∈ service.record.minted
  running : ∀ live ∈ service.lives, live.state = .running ↔
    live.reader = .registered ∨ live.reader = .reading
  registered : ∀ live ∈ service.lives, live.reader = .registered →
    ∃ tid, service.admitting = some (tid, live.id)
  admitting : ∀ tid run, service.admitting = some (tid, run) →
    ∃ live ∈ service.lives, live.id = run ∧ live.reader = .registered
  reading : ∀ live ∈ service.lives, live.reader ≠ .registered → live.reader ≠ .gone →
    live.id ∈ service.reading
  recorded : ∀ live ∈ service.lives, live.reader = .recorded ∨ live.reader = .gone →
    service.Completed live.snapshot ∨ service.Refused live.snapshot
  released : ∀ live ∈ service.lives, live.id ∉ service.held →
    live.state ≠ .running ∧ service.Completed live.snapshot
  completions : ∀ entry ∈ service.record.committed, ∀ what, entry.event = .completed what →
    ∃ live ∈ service.lives, live.state ≠ .running ∧ live.snapshot.event = entry.event
  stopping : service.stopping = true → service.admitting = none

theorem Inv.new (deployment : Deployment) (clock : Nat) :
    Inv deployment (Service.new deployment clock) where
  record := .refl
  sessions := List.nodup_nil
  ids := List.nodup_nil
  sequences := List.nodup_nil
  minted := fun _ member => by cases member
  running := fun _ member => by cases member
  registered := fun _ member => by cases member
  admitting := fun _ _ admitting => by cases admitting
  reading := fun _ member => by cases member
  recorded := fun _ member => by cases member
  released := fun _ member => by cases member
  completions := fun _ member => by cases member
  stopping := fun stopping => by cases stopping

/-! ## Finding a run -/

theorem find_eq_some {run : RunId} (found : service.find run = some live) :
    live ∈ service.lives ∧ live.id = run :=
  ⟨List.mem_of_find?_eq_some found, by simpa using List.find?_some found⟩

theorem Inv.find (inv : Inv deployment service) (member : live ∈ service.lives) :
    service.find live.id = some live := by
  cases found : service.find live.id with
  | none => simpa using List.find?_eq_none.mp found live member
  | some other =>
    obtain ⟨inside, same⟩ := find_eq_some found
    rw [List.inj_on_of_nodup_map inv.ids inside member same]

/-- A run that has settled came to one thing. -/
theorem Inv.settled_unique (inv : Inv deployment service) {other : Outcome}
    (settled : service.Settled outcome) (settled' : service.Settled other)
    (same : outcome.run = other.run) : outcome = other := by
  obtain ⟨live, member, rfl, -⟩ := settled
  obtain ⟨live', member', rfl, -⟩ := settled'
  rw [List.inj_on_of_nodup_map inv.ids member member' same]

/-- A completion of a run's authorization is the run's own. -/
theorem Inv.completed_of (inv : Inv deployment service) (member : live ∈ service.lives)
    (completes : ∃ entry ∈ service.record.committed,
      entry.Completes live.authorization.sequence) :
    live.state ≠ .running ∧ service.Completed live.snapshot := by
  obtain ⟨entry, inside, what, event, decided⟩ := completes
  obtain ⟨other, among, settled, same⟩ := inv.completions entry inside what event
  have sequence := Outcome.decided_of_event (same.trans event)
  rw [decided] at sequence
  obtain rfl := List.inj_on_of_nodup_map inv.sequences member among sequence
  exact ⟨settled, entry, inside, same.symm⟩

/-! ## What can change -/

/-- What a reader does to its run; who keeps the records' lock and which runs
are read, afterwards. -/
inductive Advance (before : Service) : Live → Live → Option (Nat × RunId) → List RunId → Prop
  | starts {live : Live} (tid : Nat) (at' : live.reader = .registered)
      (locked : before.admitting = some (tid, live.id)) :
      Advance before live { live with reader := .reading } none (live.id :: before.reading)
  | reads {live : Live} (stdout stderr : Stream) (at' : live.reader = .reading) :
      Advance before live { live with stdout, stderr } before.admitting before.reading
  | settles {live : Live} (state : RunState) (stdout stderr : Stream) (file : Option Transferred)
      (info : Option FileInfo) (at' : live.reader = .reading) (ended : state ≠ .running) :
      Advance before live { live with state, stdout, stderr, file, info, reader := .settled }
        before.admitting before.reading
  | permitted {live : Live} (at' : live.reader = .settled) :
      Advance before live { live with reader := .recording } before.admitting before.reading
  | told {live : Live} (at' : live.reader = .recording)
      (told : before.Completed live.snapshot ∨ before.Refused live.snapshot) :
      Advance before live { live with reader := .recorded } before.admitting before.reading
  | leaves {live : Live} (at' : live.reader = .recorded) :
      Advance before live { live with reader := .gone } before.admitting
        (before.reading.filter (· ≠ live.id))

/-- What a step or a happening can do. -/
inductive Change (deployment : Deployment) : Service → Service → Prop
  | sessions {before : Service} (clock : Nat) (sessions : Sessions) (later : before.clock ≤ clock)
      (distinct : before.sessions.Distinct → sessions.Distinct)
      (gone : before.sessions.Distinct → ∀ id, (∃ authorized ∈ before.record.minted,
        authorized.who.session = id) → before.Gone id → sessions.usable clock id = none) :
      Change deployment before { before with clock, sessions }
  | writes {before : Service} (operation : Ledger.Operation) (accepts : Bool)
      (offers : before.record.Offers operation)
      (other : ∀ outcome, operation ≠ .recordOutcome outcome) :
      Change deployment before (before.writes deployment operation accepts).2
  | outcome {before : Service} (outcome : Outcome) (accepts : Bool)
      (settled : before.Settled outcome) :
      Change deployment before (before.recordOutcome deployment outcome accepts).2
  | admits {before : Service} (tid : Nat) (live : Live) (authorization : Authorization)
      (new : live = Live.new live.id authorization) (open_ : before.stopping = false)
      (free : before.admitting = none) (fresh : before.find live.id = none)
      (unspent : before.unspent authorization = true) :
      Change deployment before { before with
        lives := live :: before.lives
        held := live.id :: before.held
        admitting := some (tid, live.id) }
  | advances {before : Service} {live live' : Live} {admitting : Option (Nat × RunId)}
      {reading : List RunId} (permits : Nat) (member : live ∈ before.lives)
      (advance : Advance before live live' admitting reading) :
      Change deployment before { before.put live' with admitting, reading, permits }
  | held {before : Service} (held : List RunId)
      (fewer : ∀ run ∈ before.held, run ∈ held ∨
        ∃ outcome, before.Settled outcome ∧ before.Completed outcome ∧ outcome.run = run) :
      Change deployment before { before with held }
  | stops {before : Service} (free : before.admitting = none) :
      Change deployment before { before with stopping := true }
  | both {a b c : Service} (first : Change deployment a b) (second : Change deployment b c) :
      Change deployment a c

theorem Change.same (deployment : Deployment) (service : Service) :
    Change deployment service service :=
  .sessions service.clock service.sessions (Nat.le_refl _) id (fun _ _ _ gone => gone)

/-! ## What a reader changes -/

theorem Advance.same {live live' : Live} {admitting : Option (Nat × RunId)} {reading : List RunId}
    (advance : Advance before live live' admitting reading) :
    live'.id = live.id ∧ live'.authorization = live.authorization := by
  cases advance <;> exact ⟨rfl, rfl⟩

/-- What a run came to does not change once it has settled. -/
theorem Advance.settled {live live' : Live} {admitting : Option (Nat × RunId)}
    {reading : List RunId} (inv : Inv deployment before) (member : live ∈ before.lives)
    (advance : Advance before live live' admitting reading) (settled : live.state ≠ .running) :
    live'.snapshot = live.snapshot ∧ live'.state = live.state := by
  have running := inv.running live member
  cases advance with
  | starts _ at' => exact absurd (running.mpr (.inl at')) settled
  | reads _ _ at' => exact absurd (running.mpr (.inr at')) settled
  | settles _ _ _ _ _ at' => exact absurd (running.mpr (.inr at')) settled
  | permitted | told | leaves => exact ⟨rfl, rfl⟩

theorem mem_put {other : Live} (known : live.id ∈ service.lives.map Live.id) :
    other ∈ (service.put live).lives ↔ other = live ∨ other ∈ service.lives ∧ other.id ≠ live.id := by
  simp only [Service.put, List.mem_map]
  constructor
  · rintro ⟨old, member, rfl⟩
    split
    · exact .inl rfl
    · rename_i differ
      exact .inr ⟨member, differ⟩
  · rintro (rfl | ⟨member, differ⟩)
    · obtain ⟨old, member, same⟩ := List.mem_map.mp known
      exact ⟨old, member, if_pos same⟩
    · exact ⟨other, member, if_neg differ⟩

/-- A run is replaced by one with the same key. -/
theorem put_map {κ : Type} (key : Live → κ)
    (same : ∀ other ∈ service.lives, other.id = live.id → key live = key other) :
    (service.put live).lives.map key = service.lives.map key := by
  simp only [Service.put, List.map_map]
  refine List.map_congr_left fun other member => ?_
  simp only [Function.comp]
  split
  · rename_i this
    exact same other member this
  · rfl

section
variable {live' : Live} {admitting : Option (Nat × RunId)} {reading : List RunId} {permits : Nat}

/-- Who is in the store after a reader moved: its run, and the others. -/
theorem Advance.mem (member : live ∈ before.lives)
    (advance : Advance before live live' admitting reading) {other : Live} :
    other ∈ (before.put live').lives ↔
      other = live' ∨ other ∈ before.lives ∧ other.id ≠ live.id := by
  rw [← advance.same.1]
  exact mem_put (advance.same.1 ▸ List.mem_map_of_mem member)

theorem Inv.advances (inv : Inv deployment before) (member : live ∈ before.lives)
    (advance : Advance before live live' admitting reading) :
    Inv deployment { before.put live' with admitting, reading, permits } := by
  have mem : ∀ other, other ∈ (before.put live').lives ↔
      other = live' ∨ other ∈ before.lives ∧ other.id ≠ live.id := fun _ => advance.mem member
  have only : ∀ other ∈ before.lives, other.id = live'.id → live = other := fun other inside same =>
    List.inj_on_of_nodup_map inv.ids member inside (advance.same.1.symm.trans same.symm)
  -- Another run's reader stands where it stood.
  have runs := inv.running live member
  exact {
    record := inv.record
    sessions := inv.sessions
    ids := by
      refine (put_map Live.id fun other inside same => ?_).symm ▸ inv.ids
      rw [same]
    sequences := by
      refine (put_map (·.authorization.sequence) fun other inside same => ?_).symm ▸ inv.sequences
      rw [← only other inside same, advance.same.2]
    minted := by
      intro other inside
      rcases (mem other).mp inside with rfl | ⟨old, -⟩
      · rw [advance.same.2]
        exact inv.minted live member
      · exact inv.minted other old
    running := by
      intro other inside
      rcases (mem other).mp inside with rfl | ⟨old, -⟩
      · cases advance with
        | starts _ at' => simpa using runs.mpr (.inl at')
        | reads _ _ at' => exact runs
        | settles _ _ _ _ _ _ ended => simpa using ended
        | permitted at' | told at' | leaves at' => simpa [at'] using runs
      · exact inv.running other old
    registered := by
      intro other inside at'
      rcases (mem other).mp inside with rfl | ⟨old, differ⟩
      · cases advance with
        | reads _ _ here => exact absurd (here.symm.trans at') (by decide)
        | _ => cases at'
      · obtain ⟨tid, locked⟩ := inv.registered other old at'
        cases advance with
        | starts holder _ here =>
          rw [here, Option.some.injEq, Prod.mk.injEq] at locked
          exact absurd locked.2.symm differ
        | _ => exact ⟨tid, locked⟩
    admitting := by
      intro tid run locked
      have kept : before.admitting = some (tid, run) → live.reader ≠ .registered →
          ∃ other ∈ (before.put live').lives, other.id = run ∧ other.reader = .registered := by
        intro locked elsewhere
        obtain ⟨other, old, same, at'⟩ := inv.admitting tid run locked
        refine ⟨other, (mem other).mpr (.inr ⟨old, fun equal => ?_⟩), same, at'⟩
        rw [List.inj_on_of_nodup_map inv.ids old member equal] at at'
        exact elsewhere at'
      cases advance with
      | starts => cases locked
      | reads _ _ at' | settles _ _ _ _ _ at' | permitted at' | told at' | leaves at' =>
        exact kept locked (by simp [at'])
    reading := by
      intro other inside unregistered ungone
      rcases (mem other).mp inside with rfl | ⟨old, differ⟩
      · cases advance with
        | starts => exact List.mem_cons_self
        | leaves => exact absurd rfl ungone
        | reads _ _ at' | settles _ _ _ _ _ at' | permitted at' | told at' =>
          exact inv.reading live member (by simp [at']) (by simp [at'])
      · have kept := inv.reading other old unregistered ungone
        cases advance with
        | starts => exact List.mem_cons_of_mem _ kept
        | leaves => exact List.mem_filter.mpr ⟨kept, by simpa using differ⟩
        | _ => exact kept
    recorded := by
      intro other inside at'
      rcases (mem other).mp inside with rfl | ⟨old, -⟩
      · cases advance with
        | told _ told => exact told
        | leaves here => exact inv.recorded live member (.inl here)
        | reads _ _ here => simp [here] at at'
        | _ => simp at at'
      · exact inv.recorded other old at'
    released := by
      intro other inside gone
      rcases (mem other).mp inside with rfl | ⟨old, -⟩
      · rw [advance.same.1] at gone
        obtain ⟨settled, completed⟩ := inv.released live member gone
        obtain ⟨snapshot, state⟩ := advance.settled inv member settled
        rw [snapshot, state]
        exact ⟨settled, completed⟩
      · exact inv.released other old gone
    completions := by
      intro entry committed what event
      obtain ⟨other, old, settled, same⟩ := inv.completions entry committed what event
      by_cases here : other.id = live.id
      · obtain rfl := List.inj_on_of_nodup_map inv.ids old member here
        obtain ⟨snapshot, state⟩ := advance.settled inv member settled
        refine ⟨live', (mem live').mpr (.inl rfl), ?_, ?_⟩
        · rw [state]
          exact settled
        · rw [snapshot]
          exact same
      · exact ⟨other, (mem other).mpr (.inr ⟨old, here⟩), settled, same⟩
    stopping := by
      intro stopping
      have free := inv.stopping stopping
      cases advance with
      | starts => rfl
      | _ => exact free }

end

end McpSsh.RunStore
