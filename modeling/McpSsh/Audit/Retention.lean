import McpSsh.Audit.Event
import Mathlib.Algebra.GroupWithZero.Nat

/-!
# Retention

The ledger's state and how it makes room: readable content is sealed, old links
retire into a checkpoint, and active authority keeps its own proof.

An operation that fails part way keeps what it had already done, so a refusal
carries the state it leaves. Which proofs are still referenced from outside the
ledger (their weak references upgrade) is the parameter `alive`, by sequence.
-/

namespace McpSsh.Ledger

/-- `u64::MAX`, the last count of issued entries. -/
def maxCount : Nat := 2 ^ 64 - 1

structure Limits where
  entries : Nat
  readableBytes : Nat
  readableMillis : Nat
  activeProofs : Nat
  proofBytes : Nat
  evaluationIds : Nat
  deriving DecidableEq, Repr

/-- `Limits::default`. -/
def Limits.default : Limits where
  entries := 4096
  readableBytes := 16 * 2 ^ 20
  readableMillis := 3600000
  activeProofs := 1024
  proofBytes := 16 * 2 ^ 20
  evaluationIds := 65536

/-- An entry as the ledger holds it. A sealed one keeps its place and its two
digests and nothing else. -/
inductive Held
  | intact (entry : Entry)
  | sealed (sequence : Nat) (previous digest : Digest)
  deriving DecidableEq

def Held.sequence : Held → Nat
  | .intact entry => entry.sequence
  | .sealed sequence _ _ => sequence

def Held.previous : Held → Digest
  | .intact entry => entry.previous
  | .sealed _ previous _ => previous

def Held.digest : Held → Digest
  | .intact entry => entry.digest
  | .sealed _ _ digest => digest

def Held.isIntact : Held → Bool
  | .intact _ => true
  | .sealed .. => false

/-- Independent commitments for the retained window and its retired prefix. -/
structure Issued where
  digests : List Digest
  retired : Nat
  total : Nat
  checkpoint : Digest
  deriving DecidableEq

structure ReadableDecision where
  operation : ActionKind
  sequence : Nat
  attribution : Attribution
  argv : List String
  agentIntent : String
  purpose : String
  accessClass : AccessClass
  deriving DecidableEq

structure EvaluationIndex where
  issuedIds : List String
  evaluatedDecisions : List Digest
  readableDecisions : List (Digest × ReadableDecision)
  readableArtifacts : List (String × Entry)
  deriving DecidableEq

/-- What one proof keeps, found by the sequence of its entry. -/
structure Proof where
  entry : Entry
  bytes : Nat
  completed : Bool
  deriving DecidableEq

structure State where
  entries : List Held
  issued : Issued
  evaluations : EvaluationIndex
  proofs : List Proof
  readableBytes : Nat
  sizes : List Nat
  deriving DecidableEq

/-- A refusal, and the state it leaves. -/
abbrev Refused : Type := AuditError × State

/-- What `prepare` reserves for an entry. -/
structure Prepared where
  bytes : Nat
  readable : Bool

namespace State

/-- `State::new`. -/
def new (genesis : Digest) : State where
  entries := []
  issued := ⟨[], 0, 0, genesis⟩
  evaluations := ⟨[], [], [], []⟩
  proofs := []
  readableBytes := 0
  sizes := []

def get (state : State) (sequence : Nat) : Option Held :=
  if state.issued.retired ≤ sequence then state.entries[sequence - state.issued.retired]? else none

def activeProof (state : State) (alive : Nat → Bool) (sequence : Nat) : Option Proof :=
  if alive sequence then state.proofs.find? (·.entry.sequence = sequence) else none

/-- Whether the entry at a sequence can still be read. -/
def readable (state : State) (sequence : Nat) : Bool :=
  (state.get sequence).any Held.isIntact

/-- `State::prune_indexes`. -/
def pruneIndexes (state : State) (alive : Nat → Bool) : State :=
  { state with
    proofs := state.proofs.filter (fun proof => alive proof.entry.sequence)
    evaluations := { state.evaluations with
      readableDecisions :=
        state.evaluations.readableDecisions.filter (fun (_, kept) => state.readable kept.sequence)
      readableArtifacts :=
        state.evaluations.readableArtifacts.filter (fun (_, kept) => state.readable kept.sequence) } }

/-- The digest an entry at `index` must commit to. -/
def linkAt (state : State) (index : Nat) : Digest :=
  match index with
  | 0 => state.issued.checkpoint
  | before + 1 => (state.entries[before]?.map Held.digest).getD state.issued.checkpoint

/-- The digest the next entry must commit to. -/
def head (state : State) : Digest :=
  (state.entries.getLast?.map Held.digest).getD state.issued.checkpoint

section
variable (format : Format) (limits : Limits) (alive : Nat → Bool) (now : Nat)

/-- `State::check`: a held entry has its place, its link, its issued digest
and, while it can be read, its own digest. -/
def check (state : State) (index : Nat) : Bool :=
  match state.entries[index]? with
  | none => false
  | some held =>
    state.issued.retired + index ≤ maxCount
      && held.sequence = state.issued.retired + index
      && held.previous = state.linkAt index
      && state.issued.digests[index]? = some held.digest
      && match held with
        | .intact entry => format.digestOf entry = entry.digest
        | .sealed .. => true

/-- `State::seal`. -/
def sealAt (state : State) (index : Nat) : Except AuditError State :=
  if state.check format index then
    match state.entries[index]? with
    | some (.intact entry) => .ok { state with
        entries := state.entries.set index (.sealed entry.sequence entry.previous entry.digest)
        readableBytes := state.readableBytes - (state.sizes[index]?).getD 0
        sizes := state.sizes.set index 0 }
    | _ => .ok state
  else .error .retentionCorrupt

/-- Whether the entry at `index` has been readable for long enough. -/
def stale (state : State) (index : Nat) : Bool :=
  match state.entries[index]? with
  | some (.intact entry) => limits.readableMillis ≤ now - entry.atMillis
  | _ => false

def sealStale : List Nat → State → Except Refused State
  | [], state => .ok state
  | index :: rest, state =>
    if state.stale limits now index then
      match state.sealAt format index with
      | .error error => .error (error, state)
      | .ok state => sealStale rest state
    else sealStale rest state

/-- The counts a reclaim trusts. -/
def aligned (state : State) : Bool :=
  state.entries.length = state.issued.digests.length
    && state.entries.length = state.sizes.length
    && state.issued.retired + state.entries.length = state.issued.total

/-- `State::reclaim`. -/
def reclaim (state : State) : Except Refused State :=
  if state.aligned then do
    let state ← sealStale format limits now (List.range state.entries.length) state
    .ok (state.pruneIndexes alive)
  else .error (.retentionCorrupt, state)

/-- `State::retire_front`. -/
def retireFront (state : State) : Except Refused State :=
  if state.check format 0 then
    if state.issued.retired + 1 ≤ maxCount then
      match state.entries with
      | [] => .error (.retentionCorrupt, state)
      | held :: rest => .ok { state with
          entries := rest
          issued := { state.issued with
            checkpoint := held.digest
            retired := state.issued.retired + 1
            digests := state.issued.digests.tail }
          readableBytes := state.readableBytes - state.sizes.headD 0
          sizes := state.sizes.tail }
    else .error (.full, state)
  else .error (.retentionCorrupt, state)

def retire : Nat → State → Except Refused State
  | 0, state => .ok state
  | count + 1, state => do
    let state ← retireFront format state
    retire count state

/-- Seals oldest first until `charge` more bytes fit. -/
def sealFor (charge : Nat) : List Nat → State → Except Refused State
  | [], state => .ok state
  | index :: rest, state =>
    if state.readableBytes + charge ≤ limits.readableBytes then .ok state
    else
      match state.sealAt format index with
      | .error error => .error (error, state)
      | .ok state => sealFor charge rest state

/-- Whether one more proof of this size is within the budget. -/
def fitsProof (state : State) (bytes : Nat) : Bool :=
  state.proofs.length < limits.activeProofs
    && ((state.proofs.filter (fun proof => alive proof.entry.sequence)).map Proof.bytes).sum
        + bytes ≤ limits.proofBytes

/-- `State::prepare`: reserves space before the required sink write or the
issuance of authority. -/
def prepare (state : State) (entry : Entry) (pin : Bool) :
    Except Refused (State × Prepared) := do
  if maxCount < state.issued.total + 1 then throw (.full, state)
  let bytes := format.encodedBytes entry
  let state ← state.reclaim format limits alive now
  let readable : Bool := bytes ≤ limits.readableBytes
  if limits.entries = 0 ∨ (pin ∧ ¬ readable) then throw (.full, state)
  if pin ∧ ¬ state.fitsProof limits alive bytes then throw (.full, state)
  let state ← retire format (state.entries.length + 1 - limits.entries) state
  -- An oversized outcome keeps its commitment without its readable body.
  let charge := if readable then bytes else 0
  let state ← sealFor format limits charge (List.range state.entries.length) state
  if limits.readableBytes < state.readableBytes + charge then throw (.full, state)
  return (state.pruneIndexes alive, ⟨bytes, readable⟩)

/-- `State::commit`. -/
def commit (state : State) (entry : Entry) (prepared : Prepared) (pin : Bool) : State :=
  let charge := if prepared.readable then prepared.bytes else 0
  { state with
    issued := { state.issued with
      digests := state.issued.digests ++ [entry.digest]
      total := state.issued.total + 1 }
    sizes := state.sizes ++ [charge]
    readableBytes := state.readableBytes + charge
    entries := state.entries ++
      [if prepared.readable then .intact entry
        else .sealed entry.sequence entry.previous entry.digest]
    proofs := if pin then ⟨entry, prepared.bytes, false⟩ :: state.proofs else state.proofs }

/-- The entry an append writes: its place, its link and its digest. -/
def draft (state : State) (who : Attribution) (event : Event) : Entry :=
  let entry : Entry := ⟨state.issued.total, now, who, event, state.head, ⟨[]⟩⟩
  { entry with digest := format.digestOf entry }

/-- `Ledger::append_to`. `accepts` is the recording boundary's answer, asked
for only once there is room. -/
def append (accepts : Bool) (who : Attribution) (event : Event) (state : State) :
    Except Refused (State × Entry) := do
  let entry := state.draft format now who event
  let (state, prepared) ← state.prepare format limits alive now entry event.pins
  if ¬ accepts then throw (.notRecorded, state)
  return (state.commit entry prepared event.pins, entry)

/-- Whether space can be reserved for an entry. -/
def hasRoom (who : Attribution) (event : Event) (state : State) : Bool :=
  (state.prepare format limits alive now (state.draft format now who event) event.pins).isOk

/-- An append goes through if there is room and the boundary accepts. -/
theorem append_isOk (accepts : Bool) (who : Attribution) (event : Event) (state : State) :
    (state.append format limits alive now accepts who event).isOk =
      (accepts && state.hasRoom format limits alive now who event) := by
  unfold append hasRoom
  cases ready : state.prepare format limits alive now (state.draft format now who event)
      event.pins with
  | error refused =>
    simp only [ready, bind, Except.bind]
    cases accepts <;> rfl
  | ok prepared =>
    simp only [ready, bind, Except.bind]
    cases accepts <;> rfl

end

end State

end McpSsh.Ledger
