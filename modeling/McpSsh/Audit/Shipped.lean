import McpSsh.Audit.Worlds

/-!
# The audit output

A record that hands every entry to one worker, as a line, and waits for its
answer with a deadline. The caller holds the ledger's lock for all of it, so one
call at a time is asking; the worker goes on by itself, and may finish a line
whose caller has left.

`refused` and `failed` are history variables: the entries whose callers were
told that they were not recorded, and whether a write, a flush or a deadline
has failed yet. A reference to a proof that is dropped while a call waits is
noticed by the operation after it.
-/

namespace McpSsh.Shipped

open Ledger (Record Limits)

/-- Most complete entries waiting for the output writer. -/
def outputQueue : Nat := 8

/-- What ends a line. -/
def newline : UInt8 := 10

/-- An entry as one line. -/
def lineOf (format : Format) (entry : Entry) : List UInt8 := format.encode entry ++ [newline]

/-- The lines that have been ended, in order. -/
def completeLines (bytes : List UInt8) : List (List UInt8) := (bytes.splitOn newline).dropLast

/-- A line to write, and the channel of the call that waits for its answer. -/
structure Line where
  bytes : List UInt8
  answered : Nat
  deriving DecidableEq

/-- Where the worker is in `write_lines`: at the queue, in `write_all` with what
is left to write or after it, at the answer, or no longer running. -/
inductive Worker
  | idle
  | writing (line : Line) (rest : List UInt8)
  | answering (line : Line) (written : Bool)
  | gone
  deriving DecidableEq

/-- The sink's side: what it has received, and how much of that was flushed. -/
structure Sink where
  received : List UInt8
  flushed : Nat
  deriving DecidableEq

/-- `ToAuditOutput` and its worker. -/
structure Output where
  queue : List Line
  worker : Worker
  sink : Sink
  poisoned : Bool
  deriving DecidableEq

/-- A call that waits for an answer, and the entry it waits for. -/
structure Call where
  operation : Ledger.Operation
  now : Nat
  entry : Entry
  answered : Nat

structure Shipping where
  record : Record
  call : Option Call
  output : Output
  channels : Nat
  refused : List Entry
  failed : Bool

/-- A new ledger, recording to a new output. -/
def Shipping.new (genesis : Digest) : Shipping where
  record := Record.new genesis
  call := none
  output := ⟨[], .idle, ⟨[], 0⟩, false⟩
  channels := 0
  refused := []
  failed := false

/-- What can happen next. -/
inductive Move
  /-- A call takes the ledger's lock and runs up to the answer it needs. -/
  | call (operation : Ledger.Operation) (now : Nat)
  /-- The worker takes a line, or finds none. -/
  | take
  /-- The sink takes some bytes. -/
  | write (count : Nat)
  /-- The sink fails, having taken some bytes. -/
  | writeFails (count : Nat)
  | flush (ok : Bool)
  /-- The worker hands its answer over, or finds nobody left to receive it. -/
  | answer
  /-- The deadline of the waiting call passes. -/
  | timeout
  /-- The worker's thread ends. -/
  | die

variable (format : Format) (limits : Limits)

/-- The entry an operation hands to the recording boundary, if it gets that far:
the one it commits when it is accepted. -/
def asks (record : Record) (operation : Ledger.Operation) (now : Nat) : Option Entry :=
  match operation.perform format limits record.alive now true record.state with
  | .ok (state, written) =>
    if state.issued.total = record.state.issued.total then none else written.entry
  | .error _ => none

namespace Shipping

/-- A call returns with what the output said. -/
def returns (shipping : Shipping) (call : Call) (accepted : Bool) : Shipping :=
  { shipping with
    record := shipping.record.perform format limits call.operation call.now accepted
    call := none
    output := { shipping.output with poisoned := shipping.output.poisoned || !accepted }
    refused := if accepted then shipping.refused else call.entry :: shipping.refused
    failed := shipping.failed || !accepted }

/-- `ToAuditOutput::wrote`, up to the answer. -/
def wrote (shipping : Shipping) (call : Call) : Shipping :=
  if shipping.output.poisoned then
    returns format limits shipping call false
  else if shipping.output.worker = .gone ∨ outputQueue ≤ shipping.output.queue.length then
    returns format limits shipping call false
  else { shipping with
    call := some call
    output := { shipping.output with
      queue := shipping.output.queue ++ [⟨lineOf format call.entry, call.answered⟩] }
    channels := shipping.channels + 1 }

/-- The worker in another place. -/
def working (shipping : Shipping) (worker : Worker) : Shipping :=
  { shipping with output := { shipping.output with worker } }

/-- The sink has taken more bytes. -/
def receives (shipping : Shipping) (bytes : List UInt8) : Shipping :=
  { shipping with output := { shipping.output with
      sink := { shipping.output.sink with received := shipping.output.sink.received ++ bytes } } }

/-- What a move does, where it can be made. -/
def move (shipping : Shipping) : Move → Option Shipping
  | .call operation now =>
    match shipping.call with
    | some _ => none
    | none =>
      match asks format limits shipping.record operation now with
      | none => some { shipping with
          record := shipping.record.perform format limits operation now true }
      | some entry => some (wrote format limits shipping ⟨operation, now, entry, shipping.channels⟩)
  | .take =>
    match shipping.output.worker, shipping.output.queue with
    | .idle, line :: rest =>
      some { shipping with output := { shipping.output with
        queue := rest
        worker := .writing line line.bytes } }
    | _, _ => none
  | .write count =>
    match shipping.output.worker with
    | .writing line rest =>
      if 0 < count ∧ count ≤ rest.length then
        some ((shipping.receives (rest.take count)).working (.writing line (rest.drop count)))
      else none
    | _ => none
  | .writeFails count =>
    match shipping.output.worker with
    | .writing line rest =>
      some { (shipping.receives (rest.take count)).working (.answering line false) with
        failed := true }
    | _ => none
  | .flush ok =>
    match shipping.output.worker with
    | .writing line [] =>
      if ok then
        some { shipping with output := { shipping.output with
          worker := .answering line true
          sink := ⟨shipping.output.sink.received, shipping.output.sink.received.length⟩ } }
      else some { shipping.working (.answering line false) with failed := true }
    | _ => none
  | .answer =>
    match shipping.output.worker with
    | .answering line written =>
      match shipping.call with
      | some call =>
        if call.answered = line.answered then
          some ((returns format limits shipping call written).working .idle)
        else some (shipping.working .idle)
      | none => some (shipping.working .idle)
    | _ => none
  | .timeout => shipping.call.map (returns format limits shipping · false)
  | .die => some (shipping.working .gone)

/-- One move. A call is made for something that can be asked for. -/
def Step (before after : Shipping) : Prop :=
  ∃ move, (∀ operation now, move = .call operation now → before.record.Offers operation) ∧
    before.move format limits move = some after

/-- Any number of moves. -/
def Later : Shipping → Shipping → Prop := Relation.ReflTransGen (Step format limits)

/-- What a new ledger and a new output can come to. -/
def Reachable (genesis : Digest) (shipping : Shipping) : Prop :=
  Later format limits (new genesis) shipping

end Shipping

variable {format limits} {genesis : Digest} {record : Record} {operation : Ledger.Operation}
variable {now : Nat} {entry : Entry} {before after shipping later : Shipping}

/-! ## What a call asks for -/

/-- Nothing is committed that was not accepted. -/
theorem perform_refused (format : Format) (limits : Limits) (record : Record)
    (operation : Ledger.Operation) (now : Nat) :
    (record.perform format limits operation now false).committed = record.committed := by
  cases Record.perform_moves format limits record operation now false with
  | quiet _ committed => exact committed
  | commits accepted => cases accepted

/-- An entry that can be the next one of a record. -/
def Next (format : Format) (genesis : Digest) (record : Record) (entry : Entry) : Prop :=
  entry.sequence = record.committed.length ∧
    entry.previous = Ledger.linkBefore genesis record.committed record.committed.length ∧
    entry.digest = format.digestOf entry

/-- What an operation asks for is the entry it commits when it is accepted. -/
theorem asks_some (reached : Record.Reachable format limits genesis record)
    (asked : asks format limits record operation now = some entry) :
    Next format genesis record entry ∧
      (record.perform format limits operation now true).committed =
        record.committed ++ [entry] := by
  have rep := reached.represents
  unfold asks at asked
  have did := operation.perform_did format limits record.alive now true record.state
  cases result : operation.perform format limits record.alive now true record.state with
  | error refused =>
    rw [result] at asked
    cases asked
  | ok written =>
    rw [result] at asked did
    simp only at asked
    split at asked
    · cases asked
    rename_i grown
    cases did with
    | quiet makes => exact absurd makes.shrinks.total grown
    | committed _ commits =>
      rw [commits.entry] at asked
      cases asked
      refine ⟨⟨rep.total, rep.head_eq, rfl⟩, ?_⟩
      simp only [Record.perform, result, if_neg grown, commits.entry, Option.toList_some]

theorem asks_none (asked : asks format limits record operation now = none) :
    (record.perform format limits operation now true).committed = record.committed := by
  unfold asks at asked
  have did := operation.perform_did format limits record.alive now true record.state
  unfold Record.perform
  cases result : operation.perform format limits record.alive now true record.state with
  | error refused => rfl
  | ok written =>
    rw [result] at asked did
    simp only at asked
    split at asked
    · rename_i same
      simp only [if_pos same, List.append_nil]
    · cases did with
      | quiet makes =>
        rename_i grown
        exact absurd makes.shrinks.total grown
      | committed _ commits =>
        rw [commits.entry] at asked
        cases asked

/-! ## The one line that is out -/

/-- Where the worker has a line, and how much of it the sink has received. -/
inductive Carries (line : Line) : List UInt8 → Worker → List Line → Prop
  | queued : Carries line [] .idle [line]
  | writing {tail rest : List UInt8} (split : line.bytes = tail ++ rest) :
      Carries line tail (.writing line rest) []
  | written : Carries line line.bytes (.answering line true) []
  | failing {tail : List UInt8} (part : tail <+: line.bytes) :
      Carries line tail (.answering line false) []
  | left {tail : List UInt8} (queue : List Line) (part : tail <+: line.bytes) :
      Carries line tail .gone queue

theorem Carries.part {line : Line} {tail : List UInt8} {worker : Worker} {queue : List Line}
    (carries : Carries line tail worker queue) : tail <+: line.bytes := by
  cases carries with
  | queued => exact List.nil_prefix
  | writing split => exact ⟨_, split.symm⟩
  | written => exact List.prefix_rfl
  | failing part => exact part
  | left _ part => exact part

/-- The bytes of what was committed. -/
def shipped (format : Format) (record : Record) : List UInt8 :=
  record.committed.flatMap (lineOf format)

/-- What can be true between two moves. Either nothing is out; or a call waits
for the one line that is out; or the output has ended, with at most one line
out that nobody waits for. -/
inductive Phase (format : Format) (limits : Limits) (genesis : Digest) (shipping : Shipping) : Prop
  | resting (alone : shipping.call = none) (open_ : shipping.output.poisoned = false)
      (well : shipping.failed = false) (none_ : shipping.refused = [])
      (at_ : shipping.output.worker = .gone ∨
        shipping.output.worker = .idle ∧ shipping.output.queue = [])
      (received : shipping.output.sink.received = shipped format shipping.record)
      (flushed : shipping.output.sink.flushed = (shipped format shipping.record).length)
  | asking {call : Call} {tail : List UInt8} (waits : shipping.call = some call)
      (offers : shipping.record.Offers call.operation) (open_ : shipping.output.poisoned = false)
      (none_ : shipping.refused = [])
      (asked : asks format limits shipping.record call.operation call.now = some call.entry)
      (carries : Carries ⟨lineOf format call.entry, call.answered⟩ tail shipping.output.worker
        shipping.output.queue)
      (received : shipping.output.sink.received = shipped format shipping.record ++ tail)
      (flushed : (shipped format shipping.record).length ≤ shipping.output.sink.flushed)
      (written : ∀ line, shipping.output.worker = .answering line true →
        shipping.failed = false ∧
          shipping.output.sink.flushed = shipping.output.sink.received.length)
      (doomed : shipping.failed = true → shipping.output.worker = .gone ∨
        ∃ line, shipping.output.worker = .answering line false)
  | ended {extra : Entry} {tail : List UInt8} (alone : shipping.call = none)
      (shut : shipping.output.poisoned = true) (failed : shipping.failed = true)
      (told : extra ∈ shipping.refused) (next : Next format genesis shipping.record extra)
      (at_ : shipping.output.worker = .idle ∧ shipping.output.queue = [] ∧
          tail <+: lineOf format extra ∨
        ∃ answered, Carries ⟨lineOf format extra, answered⟩ tail shipping.output.worker
          shipping.output.queue)
      (received : shipping.output.sink.received = shipped format shipping.record ++ tail)
      (flushed : (shipped format shipping.record).length ≤ shipping.output.sink.flushed)

/-! ## The worker by itself -/

/-- Whether a move is the worker's, apart from its answer. -/
def Move.isWorkers : Move → Bool
  | .take | .write _ | .writeFails _ | .flush _ | .die => true
  | .call .. | .answer | .timeout => false

/-- What the worker does with the one line that is out, after what the sink had
before it. -/
structure Worked (line : Line) (base : List UInt8) (before after : Shipping) : Prop where
  record : after.record = before.record
  call : after.call = before.call
  poisoned : after.output.poisoned = before.output.poisoned
  refused : after.refused = before.refused
  carries : ∃ tail, Carries line tail after.output.worker after.output.queue ∧
    after.output.sink.received = base ++ tail
  flushed : base.length ≤ after.output.sink.flushed
  /-- A line is answered for once it was flushed. -/
  written : ∀ other, after.output.worker = .answering other true →
    (∃ other, before.output.worker = .writing other []) ∧ after.failed = before.failed ∧
      after.output.sink.flushed = after.output.sink.received.length
  failed : before.failed = true → after.failed = true
  /-- What fails is answered for as such, if at all. -/
  doomed : after.failed = true → after.output.worker = .gone ∨
    (∃ other, after.output.worker = .answering other false) ∨
    before.failed = true ∧ (before.output.worker = .idle ∨
      ∃ other rest, before.output.worker = .writing other rest)

theorem worked {line : Line} {base tail : List UInt8} {move : Move} (workers : move.isWorkers = true)
    (carries : Carries line tail before.output.worker before.output.queue)
    (received : before.output.sink.received = base ++ tail)
    (flushed : base.length ≤ before.output.sink.flushed)
    (moved : before.move format limits move = some after) : Worked line base before after := by
  have part := carries.part
  generalize place : before.output.worker = worker at carries
  generalize waiting : before.output.queue = queue at carries
  cases move with
  | call | answer | timeout => cases workers
  | die =>
    cases moved
    refine ⟨rfl, rfl, rfl, rfl, ⟨tail, .left _ part, received⟩, flushed, ?_, id, fun _ => .inl rfl⟩
    intro other same
    cases same
  | take =>
    simp only [Shipping.move, place, waiting] at moved
    cases carries with
    | queued =>
      cases moved
      refine ⟨rfl, rfl, rfl, rfl, ⟨[], .writing rfl, received⟩, flushed, ?_, id,
        fun failed => .inr (.inr ⟨failed, .inl place⟩)⟩
      intro other same
      cases same
    | _ => cases moved
  | write count =>
    simp only [Shipping.move, place] at moved
    cases carries with
    | @writing tail rest split =>
      simp only at moved
      split at moved
      · cases moved
        refine ⟨rfl, rfl, rfl, rfl, ⟨tail ++ rest.take count, ?_, ?_⟩, flushed, ?_, id,
          fun failed => .inr (.inr ⟨failed, .inr ⟨_, _, place⟩⟩)⟩
        · simp only [Shipping.working, Shipping.receives, waiting]
          exact .writing (by rw [List.append_assoc, List.take_append_drop]; exact split)
        · simp only [Shipping.working, Shipping.receives, received, List.append_assoc]
        · intro other same
          cases same
      · cases moved
    | _ => cases moved
  | writeFails count =>
    simp only [Shipping.move, place] at moved
    cases carries with
    | @writing tail rest split =>
      cases moved
      refine ⟨rfl, rfl, rfl, rfl, ⟨tail ++ rest.take count, ?_, ?_⟩, flushed, ?_, fun _ => rfl,
        fun _ => .inr (.inl ⟨line, rfl⟩)⟩
      · simp only [Shipping.working, Shipping.receives, waiting]
        refine .failing ⟨rest.drop count, ?_⟩
        rw [List.append_assoc, List.take_append_drop]
        exact split.symm
      · simp only [Shipping.working, Shipping.receives, received, List.append_assoc]
      · intro other same
        cases same
    | _ => cases moved
  | flush ok =>
    simp only [Shipping.move, place] at moved
    cases carries with
    | @writing tail rest split =>
      cases rest with
      | cons => cases moved
      | nil =>
        rw [List.append_nil] at split
        simp only at moved
        split at moved
        · cases moved
          refine ⟨rfl, rfl, rfl, rfl, ⟨tail, ?_, received⟩, ?_, fun _ _ => ⟨⟨_, place⟩, rfl, rfl⟩, id,
            fun failed => .inr (.inr ⟨failed, .inr ⟨_, _, place⟩⟩)⟩
          · simp only [waiting, ← split]
            exact .written
          · simp only [received, List.length_append]
            exact Nat.le_add_right _ _
        · cases moved
          refine ⟨rfl, rfl, rfl, rfl, ⟨tail, ?_, received⟩, flushed, ?_, fun _ => rfl,
            fun _ => .inr (.inl ⟨line, rfl⟩)⟩
          · simp only [Shipping.working, waiting]
            exact .failing part
          · intro other same
            cases same
    | _ => cases moved

/-! ## Every move -/

theorem shipped_congr {a b : Record} (same : a.committed = b.committed) :
    shipped format a = shipped format b := by
  rw [shipped, shipped, same]

theorem Next.congr {a b : Record} (same : a.committed = b.committed)
    (next : Next format genesis a entry) : Next format genesis b entry := by
  rw [Next, ← same]
  exact next

theorem shipped_append (format : Format) {a b : Record} (grown : b.committed = a.committed ++ [entry]) :
    shipped format b = shipped format a ++ lineOf format entry := by
  simp [shipped, grown]

/-- A call that is told its entry was not recorded ends the output. -/
theorem ended_of_returns {call : Call} {tail : List UInt8} (worker : Worker)
    (reached : Record.Reachable format limits genesis before.record)
    (asked : asks format limits before.record call.operation call.now = some call.entry)
    (at_ : worker = .idle ∧ before.output.queue = [] ∧ tail <+: lineOf format call.entry ∨
      ∃ answered, Carries ⟨lineOf format call.entry, answered⟩ tail worker before.output.queue)
    (received : before.output.sink.received = shipped format before.record ++ tail)
    (flushed : (shipped format before.record).length ≤ before.output.sink.flushed) :
    Phase format limits genesis
      ((Shipping.returns format limits before call false).working worker) := by
  have same := perform_refused format limits before.record call.operation call.now
  refine .ended rfl ?_ ?_ List.mem_cons_self ((asks_some reached asked).1.congr same.symm) at_ ?_ ?_
  · exact Bool.or_true _
  · exact Bool.or_true _
  · exact received.trans (by rw [← shipped_congr same]; rfl)
  · exact Nat.le_trans (Nat.le_of_eq (by rw [← shipped_congr same]; rfl)) flushed

/-- A call that gets as far as the output asks, or is told at once. -/
theorem Phase.wrote {call : Call} (phase : Phase format limits genesis before)
    (alone : before.call = none) (reached : Record.Reachable format limits genesis before.record)
    (offers : before.record.Offers call.operation)
    (asked : asks format limits before.record call.operation call.now = some call.entry) :
    Phase format limits genesis (Shipping.wrote format limits before call) := by
  unfold Shipping.wrote
  cases phase with
  | asking waits =>
    rw [alone] at waits
    cases waits
  | resting _ open_ well none_ at_ received flushed =>
    rw [open_, if_neg Bool.false_ne_true]
    split
    · rename_i full
      refine ended_of_returns before.output.worker reached asked (.inr ⟨0, ?_⟩)
        (by rw [received, List.append_nil]) (Nat.le_of_eq flushed.symm)
      rcases at_ with gone | ⟨idle, empty⟩
      · rw [gone]
        exact .left _ List.nil_prefix
      · rw [idle, empty] at full
        rcases full with impossible | impossible
        · cases impossible
        · exact absurd impossible (by decide)
    · rename_i room
      obtain ⟨idle, empty⟩ := at_.resolve_left (fun gone => room (.inl gone))
      refine .asking rfl offers open_ none_ asked ?_ (by rw [received, List.append_nil])
        (Nat.le_of_eq flushed.symm) ?_ ?_
      · simp only [idle, empty, List.nil_append]
        exact .queued
      · intro line same
        rw [idle] at same
        cases same
      · intro failed
        rw [well] at failed
        cases failed
  | ended _ shut failed told next at_ received flushed =>
    rw [if_pos shut]
    have same := perform_refused format limits before.record call.operation call.now
    refine .ended rfl (Bool.or_true _) (Bool.or_true _) (List.mem_cons_of_mem _ told)
      (next.congr same.symm) at_ ?_ ?_
    · exact received.trans (by rw [← shipped_congr same]; rfl)
    · exact Nat.le_trans (Nat.le_of_eq (by rw [← shipped_congr same]; rfl)) flushed

/-- An operation that commits nothing leaves the output alone. -/
theorem Phase.quiet {record : Record} (phase : Phase format limits genesis before)
    (alone : before.call = none) (same : record.committed = before.record.committed) :
    Phase format limits genesis { before with record } := by
  cases phase with
  | asking waits =>
    rw [alone] at waits
    cases waits
  | resting _ open_ well none_ at_ received flushed =>
    refine .resting alone open_ well none_ at_ ?_ ?_
    · exact received.trans (shipped_congr same.symm)
    · exact flushed.trans (by rw [shipped_congr same.symm])
  | ended _ shut failed told next at_ received flushed =>
    refine .ended alone shut failed told (next.congr same.symm) at_ ?_ ?_
    · exact received.trans (by rw [shipped_congr same.symm])
    · exact Nat.le_trans (Nat.le_of_eq (by rw [shipped_congr same])) flushed

theorem Phase.call (phase : Phase format limits genesis before)
    (reached : Record.Reachable format limits genesis before.record)
    (offers : before.record.Offers operation)
    (moved : before.move format limits (.call operation now) = some after) :
    Phase format limits genesis after := by
  simp only [Shipping.move] at moved
  split at moved
  · cases moved
  rename_i alone
  split at moved
  · rename_i asked
    cases moved
    exact phase.quiet alone (asks_none asked)
  · rename_i entry asked
    cases moved
    exact phase.wrote alone reached offers asked

/-- The worker by itself keeps every phase. -/
theorem Phase.worked {move : Move} (phase : Phase format limits genesis before)
    (workers : move.isWorkers = true) (moved : before.move format limits move = some after) :
    Phase format limits genesis after := by
  cases phase with
  | asking waits offers open_ none_ asked carries received flushed written doomed =>
    have did := Shipped.worked workers carries received flushed moved
    obtain ⟨tail, carries', received'⟩ := did.carries
    have same := did.record
    refine .asking (did.call.trans waits) (by rw [same]; exact offers)
      (did.poisoned.trans open_) (did.refused.trans none_) (by rw [same]; exact asked) carries'
      (by rw [same]; exact received') (by rw [same]; exact did.flushed) ?_ ?_
    · intro line answering
      obtain ⟨⟨other, writing⟩, kept, flushed'⟩ := did.written line answering
      refine ⟨?_, flushed'⟩
      rw [kept]
      by_contra failed
      rcases doomed (Bool.eq_true_of_not_eq_false failed) with gone | ⟨_, failing⟩
      · rw [gone] at writing
        cases writing
      · rw [failing] at writing
        cases writing
    · intro failed
      rcases did.doomed failed with gone | failing | ⟨earlier, idle | ⟨_, _, writing⟩⟩
      · exact .inl gone
      · exact .inr failing
      · rcases doomed earlier with gone | ⟨_, failing⟩
        · rw [gone] at idle
          cases idle
        · rw [failing] at idle
          cases idle
      · rcases doomed earlier with gone | ⟨_, failing⟩
        · rw [gone] at writing
          cases writing
        · rw [failing] at writing
          cases writing
  | resting alone open_ well none_ at_ received flushed =>
    -- Nothing is out: all the worker can do is end.
    cases move with
    | die =>
      cases moved
      exact .resting alone open_ well none_ (.inl rfl) received flushed
    | call | answer | timeout => cases workers
    | _ =>
      rcases at_ with gone | ⟨idle, empty⟩
      · simp only [Shipping.move, gone] at moved
        cases moved
      · simp only [Shipping.move, idle, empty] at moved
        cases moved
  | ended alone shut failed told next at_ received flushed =>
    rcases at_ with ⟨idle, empty, part⟩ | ⟨answered, carries⟩
    · cases move with
      | die =>
        cases moved
        exact .ended alone shut failed told next (.inr ⟨0, .left _ part⟩) received flushed
      | call | answer | timeout => cases workers
      | _ =>
        simp only [Shipping.move, idle, empty] at moved
        cases moved
    · have did := Shipped.worked workers carries received flushed moved
      obtain ⟨tail, carries', received'⟩ := did.carries
      have same := did.record
      exact .ended (did.call.trans alone) (did.poisoned.trans shut) (did.failed failed)
        (by rw [did.refused]; exact told) (by rw [same]; exact next) (.inr ⟨answered, carries'⟩)
        (by rw [same]; exact received') (by rw [same]; exact did.flushed)

theorem Phase.timeout (phase : Phase format limits genesis before)
    (reached : Record.Reachable format limits genesis before.record)
    (moved : before.move format limits .timeout = some after) :
    Phase format limits genesis after := by
  simp only [Shipping.move] at moved
  obtain ⟨call, waits, rfl⟩ := Option.map_eq_some_iff.mp moved
  cases phase with
  | resting alone =>
    rw [alone] at waits
    cases waits
  | ended alone =>
    rw [alone] at waits
    cases waits
  | asking waits' offers open_ none_ asked carries received flushed =>
    rw [waits] at waits'
    cases waits'
    exact ended_of_returns before.output.worker reached asked (.inr ⟨_, carries⟩)
      received flushed

/-- An answer ends its call, with the entry committed or the output ended; a
late one finds nobody. -/
theorem Phase.answer (phase : Phase format limits genesis before)
    (reached : Record.Reachable format limits genesis before.record)
    (moved : before.move format limits .answer = some after) :
    Phase format limits genesis after := by
  cases phase with
  | resting _ _ _ _ at_ =>
    rcases at_ with place | ⟨place, -⟩
    · simp only [Shipping.move, place] at moved
      cases moved
    · simp only [Shipping.move, place] at moved
      cases moved
  | ended alone shut failed told next at_ received flushed =>
    rcases at_ with ⟨idle, -⟩ | ⟨answered, carries⟩
    · simp only [Shipping.move, idle] at moved
      cases moved
    · have part := carries.part
      generalize place : before.output.worker = worker at carries
      generalize waiting : before.output.queue = queue at carries
      simp only [Shipping.move, place, alone] at moved
      cases carries with
      | written =>
        cases moved
        exact .ended alone shut failed told next (.inl ⟨rfl, waiting, part⟩) received flushed
      | failing =>
        cases moved
        exact .ended alone shut failed told next (.inl ⟨rfl, waiting, part⟩) received flushed
      | _ => cases moved
  | @asking call tail waits offers open_ none_ asked carries received flushed written doomed =>
    have part := carries.part
    generalize place : before.output.worker = worker at carries
    generalize waiting : before.output.queue = queue at carries
    simp only [Shipping.move, place, waits] at moved
    cases carries with
    | failing =>
      simp only [if_true] at moved
      cases moved
      exact ended_of_returns _ reached asked (.inl ⟨rfl, waiting, part⟩) received flushed
    | written =>
      simp only [if_true] at moved
      cases moved
      obtain ⟨well, all⟩ := written _ place
      have grown := shipped_append format (asks_some reached asked).2
      refine .resting rfl ?_ ?_ none_ (.inr ⟨rfl, waiting⟩) ?_ ?_
      · simp [Shipping.returns, Shipping.working, open_]
      · simp [Shipping.returns, Shipping.working, well]
      · exact received.trans grown.symm
      · exact all.trans (by rw [received]; exact congrArg List.length grown.symm)
    | _ => cases moved

/-- **One move.** -/
theorem Phase.step (phase : Phase format limits genesis before)
    (reached : Record.Reachable format limits genesis before.record)
    (step : Shipping.Step format limits before after) : Phase format limits genesis after := by
  obtain ⟨move, offers, moved⟩ := step
  cases move with
  | call operation now => exact phase.call reached (offers operation now rfl) moved
  | answer => exact phase.answer reached moved
  | timeout => exact phase.timeout reached moved
  | _ => exact phase.worked rfl moved

/-- The worker by itself reaches no record and no call. -/
theorem worker_frame {move : Move} (workers : move.isWorkers = true)
    (moved : before.move format limits move = some after) :
    after.record = before.record ∧ after.call = before.call ∧
      (before.failed = true → after.failed = true) := by
  cases move with
  | call | answer | timeout => cases workers
  | die =>
    cases moved
    exact ⟨rfl, rfl, id⟩
  | take =>
    simp only [Shipping.move] at moved
    split at moved
    · cases moved
      exact ⟨rfl, rfl, id⟩
    · cases moved
  | write count =>
    simp only [Shipping.move] at moved
    split at moved
    · split at moved
      · cases moved
        exact ⟨rfl, rfl, id⟩
      · cases moved
    · cases moved
  | writeFails count =>
    simp only [Shipping.move] at moved
    split at moved
    · cases moved
      exact ⟨rfl, rfl, fun _ => rfl⟩
    · cases moved
  | flush ok =>
    simp only [Shipping.move] at moved
    split at moved
    · split at moved
      · cases moved
        exact ⟨rfl, rfl, id⟩
      · cases moved
        exact ⟨rfl, rfl, fun _ => rfl⟩
    · cases moved

/-- What a move does to the record and to a call that waits. -/
structure Effect (format : Format) (limits : Limits) (before after : Shipping) : Prop where
  record : Record.Later format limits before.record after.record
  failed : before.failed = true → after.failed = true ∧
    after.record.committed = before.record.committed
  waits : ∀ call, before.call = some call →
    after.call = some call ∨
    after.record.committed = before.record.committed ++ [call.entry] ∨
    after.record.committed = before.record.committed ∧ call.entry ∈ after.refused

theorem Effect.of_refused {call : Call} (waits : ∀ other, before.call = some other → other = call)
    (offers : before.record.Offers call.operation) (worker : Worker) :
    Effect format limits before
      ((Shipping.returns format limits before call false).working worker) where
  record := .single ⟨_, _, _, offers, rfl⟩
  failed := fun _ => ⟨Bool.or_true _, perform_refused format limits _ _ _⟩
  waits := by
    intro other same
    obtain rfl := waits other same
    exact .inr (.inr ⟨perform_refused format limits _ _ _, List.mem_cons_self⟩)

theorem Effect.of_same (record : after.record = before.record) (call : after.call = before.call)
    (failed : before.failed = true → after.failed = true) : Effect format limits before after where
  record := by rw [record]; exact .refl
  failed := fun was => ⟨failed was, by rw [record]⟩
  waits := fun _ waits => .inl (call.trans waits)

theorem Phase.effect (phase : Phase format limits genesis before)
    (reached : Record.Reachable format limits genesis before.record)
    (step : Shipping.Step format limits before after) : Effect format limits before after := by
  obtain ⟨move, offers, moved⟩ := step
  cases move with
  | call operation now =>
    have offers := offers operation now rfl
    simp only [Shipping.move] at moved
    split at moved
    · cases moved
    rename_i alone
    split at moved
    · rename_i asked
      cases moved
      refine ⟨.single ⟨_, _, _, offers, rfl⟩, fun failed => ⟨failed, asks_none asked⟩, ?_⟩
      intro other waits
      rw [alone] at waits
      cases waits
    · rename_i entry asked
      cases moved
      let call : Call := ⟨operation, now, entry, before.channels⟩
      have nobody : ∀ other, before.call = some other → other = call := by
        intro other waits
        rw [alone] at waits
        cases waits
      have refused : Effect format limits before (Shipping.returns format limits before call false) :=
        Effect.of_refused nobody offers before.output.worker
      unfold Shipping.wrote
      split
      · exact refused
      split
      · exact refused
      · refine ⟨.refl, fun failed => ⟨failed, rfl⟩, fun other waits => ?_⟩
        rw [alone] at waits
        cases waits
  | answer =>
    simp only [Shipping.move] at moved
    split at moved
    · rename_i line written place
      split at moved
      · rename_i call waits
        cases phase with
        | resting alone =>
          rw [alone] at waits
          cases waits
        | ended alone =>
          rw [alone] at waits
          cases waits
        | asking waits' offers open_ none_ asked carries received flushed written' doomed =>
          rw [waits] at waits'
          cases waits'
          split at moved
          · cases moved
            cases written with
            | false =>
              refine Effect.of_refused (fun other same => ?_) offers .idle
              rw [waits] at same
              exact (Option.some.inj same).symm
            | true =>
              refine ⟨.single ⟨_, _, _, offers, rfl⟩, fun failed => ?_, fun other same => ?_⟩
              · rw [(written' line place).1] at failed
                cases failed
              · rw [waits] at same
                cases same
                exact .inr (.inl (asks_some reached asked).2)
          · cases moved
            exact Effect.of_same rfl rfl id
      · cases moved
        exact Effect.of_same rfl rfl id
    · cases moved
  | timeout =>
    simp only [Shipping.move] at moved
    obtain ⟨call, waits, rfl⟩ := Option.map_eq_some_iff.mp moved
    cases phase with
    | resting alone =>
      rw [alone] at waits
      cases waits
    | ended alone =>
      rw [alone] at waits
      cases waits
    | asking waits' offers =>
      rw [waits] at waits'
      cases waits'
      refine Effect.of_refused (fun other same => ?_) offers before.output.worker
      rw [waits] at same
      exact (Option.some.inj same).symm
  | _ =>
    obtain ⟨record, call, failed⟩ := worker_frame rfl moved
    exact Effect.of_same record call failed

/-! ## Every run -/

theorem Phase.new (format : Format) (limits : Limits) (genesis : Digest) :
    Phase format limits genesis (Shipping.new genesis) :=
  .resting rfl rfl rfl rfl (.inr ⟨rfl, rfl⟩) rfl rfl

theorem Shipping.Reachable.phase (reached : Shipping.Reachable format limits genesis shipping) :
    Record.Reachable format limits genesis shipping.record ∧
      Phase format limits genesis shipping := by
  induction reached with
  | refl => exact ⟨.refl, Phase.new format limits genesis⟩
  | tail _ step ih =>
    obtain ⟨reached, phase⟩ := ih
    exact ⟨reached.trans (phase.effect reached step).record, phase.step reached step⟩

/-- Once something has failed, no entry is committed any more. -/
theorem Shipping.Later.failed (run : Shipping.Later format limits shipping later)
    (reached : Shipping.Reachable format limits genesis shipping) (failed : shipping.failed = true) :
    later.failed = true ∧ later.record.committed = shipping.record.committed := by
  induction run with
  | refl => exact ⟨failed, rfl⟩
  | tail earlier step ih =>
    obtain ⟨record, phase⟩ := Shipping.Reachable.phase (reached.trans earlier)
    obtain ⟨failed', same⟩ := (phase.effect record step).failed ih.1
    exact ⟨failed', same.trans ih.2⟩

end McpSsh.Shipped
