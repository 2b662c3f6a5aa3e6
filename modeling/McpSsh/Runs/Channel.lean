import McpSsh.Runs.Control
import McpSsh.Runs.Withheld

/-!
# What a channel settles

A command's reader between the moment its request is sent and the moment its
channel is closed. The peer chooses what comes and in which order; callers ask
for the run to be cancelled in between, which costs the command a signal and the
reader nothing. What the run is called when it is over depends on the messages
alone, and from then on everyone who asks is told the same.
-/

namespace McpSsh.RunTask

open RunControl (Cancellation)

/-- Evidence that the command began: only one that runs produces this. -/
def Message.began : Message → Bool
  | .success | .data _ | .exitSignal | .exitStatus _ => true
  | .extendedData _ ext => ext = 1
  | .failure | .other => false

def Message.status : Message → Option UInt32
  | .exitStatus code => some code
  | _ => none

/-- The reader of a command's channel, and what it shares with the run's
callers. -/
structure Reader where
  task : RunTask
  cancellation : Cancellation
  deriving DecidableEq

/-- What may happen while a reader lives: the channel brings a message or its
end, a caller asks for the run to be cancelled, or the reader finds that it was
asked to and signals the command, which is sent or is not. -/
inductive Happening
  | message (message : Message)
  | closed
  | cancel
  | signal (sent : Bool)
  deriving DecidableEq

/-- The reader once its exec request was sent. -/
def Reader.sent (outputBytes : Nat) : Reader :=
  ⟨⟨Record.new outputBytes, .reading none false⟩, .notRequested⟩

/-- A reader that has left its loop takes nothing from the channel any more. -/
def Reader.told (reader : Reader) (told : Told) : Reader :=
  { reader with task := (reader.task.step told).getD reader.task }

namespace Reader

/-- One thing happens. A request is noted once and only while the run goes on;
the signal's branch of the loop is open from then on until it was taken. -/
def step (reader : Reader) : Happening → Reader
  | .message message => reader.told (.message message)
  | .closed => reader.told .closed
  | .cancel =>
    if reader.task.record.state = .running ∧ reader.cancellation = .notRequested then
      { reader with cancellation := .requested }
    else reader
  | .signal sent =>
    if reader.task.stage ≠ .over ∧ reader.cancellation = .requested then
      { reader with cancellation := if sent then .signalSent else .signalFailed }
    else reader

def run (reader : Reader) (happenings : List Happening) : Reader := happenings.foldl step reader

end Reader

/-- `Runs::finished`. -/
def finished (run : RunId) (authorization : Authorization) (reader : Reader) : Option Snapshot :=
  if reader.task.record.state = .running then none
  else some (snapshotOf run authorization reader.task.record)

/-- `Runs::wait`, for which `meanwhile` happens if it has to wait at all. -/
def wait (run : RunId) (authorization : Authorization) (reader : Reader)
    (meanwhile : List Happening) : Snapshot :=
  if reader.task.record.state ≠ .running then snapshotOf run authorization reader.task.record
  else snapshotOf run authorization (reader.run meanwhile).task.record

/-- `announce`: what the watcher records once it is handed the run. -/
def announced (run : RunId) (authorization : Authorization) (reader : Reader) : Event :=
  (snapshotOf run authorization reader.task.record).toOutcome.event

/-- What the channel brought, of all that happened. -/
def brought (happenings : List Happening) : List Message :=
  happenings.filterMap fun
    | .message message => some message
    | .closed | .cancel | .signal _ => none

/-- A refusal that comes before any evidence that the command began. -/
def Refusal (messages : List Message) : Prop :=
  ∃ earlier later, messages = earlier ++ .failure :: later ∧
    ∀ message ∈ earlier, message.began = false

/-- The messages before the refusal that ends the reading, all of them if none
does. -/
def received : List Message → List Message
  | [] => []
  | .failure :: _ => []
  | message :: messages => message :: if message.began then messages else received messages

/-- The bytes of the output stream that some messages carry. -/
def stdoutOf (messages : List Message) : List UInt8 :=
  (messages.flatMap fun message => Told.stdout (.message message)).flatten

/-- And of the error stream. -/
def stderrOf (messages : List Message) : List UInt8 :=
  (messages.flatMap fun message => Told.stderr (.message message)).flatten

/-! ## The loop -/

variable {record : Record} {code : Option UInt32} {began : Bool} {messages : List Message}

/-- The record after some messages that did not end the reading. -/
def Record.heard (record : Record) (messages : List Message) : Record :=
  { record with
    stdout := (messages.flatMap fun message => Told.stdout (.message message)).foldl
      Collected.push record.stdout
    stderr := (messages.flatMap fun message => Told.stderr (.message message)).foldl
      Collected.push record.stderr }

/-- The last of some statuses, or one that came before. -/
def lastStatus (code : Option UInt32) (messages : List Message) : Option UInt32 :=
  (messages.filterMap Message.status).getLast?.or code

theorem refusal_nil : ¬ Refusal [] := by
  rintro ⟨earlier, later, shape, -⟩
  cases earlier <;> cases shape

theorem refusal_failure : Refusal (.failure :: messages) :=
  ⟨[], messages, rfl, fun _ listed => absurd listed List.not_mem_nil⟩

theorem refusal_cons {message : Message} (other : message ≠ .failure) :
    Refusal (message :: messages) ↔ message.began = false ∧ Refusal messages := by
  constructor
  · rintro ⟨earlier, later, shape, silent⟩
    cases earlier with
    | nil => exact absurd (List.cons.inj shape).1 other
    | cons first earlier =>
      rcases List.cons.inj shape with ⟨rfl, rest⟩
      exact ⟨silent _ List.mem_cons_self, earlier, later, rest,
        fun _ listed => silent _ (List.mem_cons_of_mem _ listed)⟩
  · rintro ⟨quiet, earlier, later, rfl, silent⟩
    refine ⟨message :: earlier, later, rfl, ?_⟩
    intro heard listed
    rcases List.mem_cons.mp listed with rfl | listed
    · exact quiet
    · exact silent heard listed

theorem lastStatus_cons (message : Message) (messages : List Message) :
    lastStatus code (message :: messages) = lastStatus (message.status.or code) messages := by
  unfold lastStatus
  rw [List.filterMap_cons]
  cases message.status with
  | none => rfl
  | some status =>
    rw [List.getLast?_cons]
    cases (messages.filterMap Message.status).getLast? <;> rfl

/-- A message that does not end the reading: what is read of it, and what it
says of the command. -/
theorem hear_on {message : Message} (goes : message ≠ .failure ∨ began = true) :
    hear record code began message =
      ⟨record.heard [message], .reading (message.status.or code) (began || message.began)⟩ := by
  cases message with
  | success => simp [hear, Record.heard, Told.stdout, Told.stderr, Message.status, Message.began]
  | data data => simp [hear, Record.heard, Told.stdout, Told.stderr, Message.status, Message.began]
  | extendedData data ext =>
    by_cases standard : ext = 1 <;>
      simp [hear, Record.heard, Told.stdout, Told.stderr, Message.status, Message.began, standard]
  | exitSignal =>
    simp [hear, Record.heard, Told.stdout, Told.stderr, Message.status, Message.began]
  | exitStatus status =>
    simp [hear, Record.heard, Told.stdout, Told.stderr, Message.status, Message.began]
  | failure =>
    have begun : began = true := goes.resolve_left (fun other => other rfl)
    simp [hear, Record.heard, Told.stdout, Told.stderr, Message.status, Message.began, begun]
  | other => simp [hear, Record.heard, Told.stdout, Told.stderr, Message.status, Message.began]

theorem heard_cons (record : Record) (message : Message) (messages : List Message) :
    (record.heard [message]).heard messages = record.heard (message :: messages) := by
  simp [Record.heard, List.flatMap_cons, List.foldl_append]

/-- The reader's loop over messages alone. -/
def reads (task : RunTask) (messages : List Message) : RunTask :=
  messages.foldl (fun task message => (task.step (.message message)).getD task) task

theorem reads_over (messages : List Message) : reads ⟨record, .over⟩ messages = ⟨record, .over⟩ := by
  induction messages with
  | nil => rfl
  | cons message messages ih => exact ih

theorem reads_hear (message : Message) (messages : List Message) :
    reads ⟨record, .reading code began⟩ (message :: messages) =
      (hear record code began message).reads messages := rfl

/-- Once there is evidence that the command began, every message is read. -/
theorem reads_began (messages : List Message) :
    reads ⟨record, .reading code true⟩ messages =
      ⟨record.heard messages, .reading (lastStatus code messages) true⟩ := by
  induction messages generalizing record code with
  | nil => rfl
  | cons message messages ih =>
    rw [reads_hear, hear_on (.inr rfl), Bool.true_or, ih, heard_cons, lastStatus_cons]

theorem received_cons {message : Message} (other : message ≠ .failure) :
    received (message :: messages) =
      message :: if message.began then messages else received messages := by
  cases message <;> first | rfl | exact absurd rfl other

/-- Up to the evidence, the first refusal is the last thing read. -/
theorem reads_silent (messages : List Message) :
    (Refusal messages →
      reads ⟨record, .reading code false⟩ messages =
        ⟨{ record.heard (received messages) with state := .refused }, .over⟩) ∧
    (¬ Refusal messages →
      received messages = messages ∧
      reads ⟨record, .reading code false⟩ messages =
        ⟨record.heard messages,
          .reading (lastStatus code messages) (messages.any Message.began)⟩) := by
  induction messages generalizing record code with
  | nil => exact ⟨fun refused => absurd refused refusal_nil, fun _ => ⟨rfl, rfl⟩⟩
  | cons message messages ih =>
    by_cases failed : message = .failure
    · subst failed
      refine ⟨fun _ => ?_, fun kept => absurd refusal_failure kept⟩
      exact reads_over messages
    · rw [refusal_cons failed, received_cons failed, reads_hear, hear_on (.inl failed),
        Bool.false_or, List.any_cons]
      cases quiet : message.began with
      | true =>
        refine ⟨fun refused => absurd refused.1 Bool.noConfusion, fun _ => ⟨rfl, ?_⟩⟩
        rw [reads_began, heard_cons, lastStatus_cons, Bool.true_or]
      | false =>
        obtain ⟨refused, kept⟩ :=
          @ih (record.heard [message]) (message.status.or code)
        constructor
        · rintro ⟨-, ends⟩
          rw [refused ends, heard_cons]
          rfl
        · intro goes
          have rest : ¬ Refusal messages := fun ends => goes ⟨rfl, ends⟩
          rw [(kept rest).2, heard_cons, lastStatus_cons, Bool.false_or]
          refine ⟨?_, rfl⟩
          rw [if_neg Bool.false_ne_true, (kept rest).1]

/-! ## The reader -/

namespace Reader

variable {reader : Reader} {happening : Happening} {happenings : List Happening}

theorem run_append (reader : Reader) (earlier later : List Happening) :
    reader.run (earlier ++ later) = (reader.run earlier).run later := List.foldl_append

theorem cancel_task (reader : Reader) : (reader.step .cancel).task = reader.task := by
  unfold step
  dsimp only
  split <;> rfl

theorem signal_task (reader : Reader) (sent : Bool) :
    (reader.step (.signal sent)).task = reader.task := by
  unfold step
  dsimp only
  split <;> rfl

/-- Requests and signals come in between the messages and change nothing of
what is read. -/
theorem run_task (reader : Reader) (goes : .closed ∉ happenings) :
    (reader.run happenings).task = reader.task.reads (brought happenings) := by
  induction happenings generalizing reader with
  | nil => rfl
  | cons happening happenings ih =>
    rw [List.mem_cons, not_or] at goes
    change ((reader.step happening).run happenings).task = _
    rw [ih _ goes.2]
    cases happening with
    | message message => rfl
    | closed => exact absurd rfl goes.1
    | cancel => exact congrArg (RunTask.reads · _) reader.cancel_task
    | signal sent => exact congrArg (RunTask.reads · _) (reader.signal_task sent)

theorem told_over (over' : reader.task.stage = .over) (told : Told) :
    reader.told told = reader := by
  unfold Reader.told RunTask.step
  rw [over']
  rfl

theorem run_over (over' : reader.task.stage = .over) :
    (reader.run happenings).task = reader.task := by
  induction happenings generalizing reader with
  | nil => rfl
  | cons happening happenings ih =>
    change ((reader.step happening).run happenings).task = _
    have still : (reader.step happening).task = reader.task := by
      cases happening with
      | message message => exact congrArg Reader.task (told_over over' _)
      | closed => exact congrArg Reader.task (told_over over' _)
      | cancel => exact reader.cancel_task
      | signal sent => exact reader.signal_task sent
    rw [ih (still ▸ over'), still]

/-- The end of the channel, where the reading went on until then. -/
theorem closed_task {code : Option UInt32} {began : Bool}
    (reading : reader.task.stage = .reading code began)
    (running : reader.task.record.state = .running) :
    (reader.step .closed).task =
      ⟨{ reader.task.record with state := ended code began }, .over⟩ := by
  change (reader.task.step .closed).getD reader.task = _
  unfold RunTask.step
  rw [reading, Option.getD_some, if_pos running]

/-- A reader holds what it has read, and its state is the last it writes. -/
theorem known (outputBytes : Nat) (happenings : List Happening) :
    ∃ stdout stderr, Reads stdout stderr ((sent outputBytes).run happenings).task := by
  induction happenings using List.reverseRecOn with
  | nil =>
    exact ⟨_, _, @Reads.step _ _ _ _ .sent (reads_execution outputBytes) rfl⟩
  | append_singleton happenings happening ih =>
    obtain ⟨stdout, stderr, reads⟩ := ih
    rw [run_append]
    generalize (sent outputBytes).run happenings = reader at reads
    have heard (told : Told) : ∃ stdout stderr, Reads stdout stderr (reader.told told).task := by
      unfold Reader.told
      cases stepped : reader.task.step told with
      | none => exact ⟨stdout, stderr, reads⟩
      | some next => exact ⟨_, _, reads.step stepped⟩
    change ∃ stdout stderr, Reads stdout stderr (reader.step happening).task
    cases happening with
    | message message => exact heard _
    | closed => exact heard _
    | cancel => exact ⟨stdout, stderr, reader.cancel_task ▸ reads⟩
    | signal sent => exact ⟨stdout, stderr, reader.signal_task sent ▸ reads⟩

/-- What a reader has settled stays as it is. -/
theorem settled_stays {outputBytes : Nat} {early : List Happening} (late : List Happening)
    (settled : ((sent outputBytes).run early).task.record.state ≠ .running) :
    ((sent outputBytes).run (early ++ late)).task = ((sent outputBytes).run early).task := by
  obtain ⟨stdout, stderr, reads⟩ := known outputBytes early
  have over' : ((sent outputBytes).run early).task.stage = .over := by
    by_contra going
    exact settled (reads.running.mpr going)
  rw [run_append, run_over over']

section

variable {before : List Happening}

/-- The task once its channel was closed, where the request had been refused. -/
theorem closed_refused (outputBytes : Nat) (goes : .closed ∉ before) (refused : Refusal (brought before))
    (later : List Happening) :
    ((sent outputBytes).run (before ++ .closed :: later)).task.record =
      { (Record.new outputBytes).heard (received (brought before)) with state := .refused } := by
  have task := (run_task (sent outputBytes) goes).trans
    ((reads_silent (brought before)).1 refused)
  rw [settled_stays _ (by rw [task]; exact nofun), task]

/-- And where it had not been. -/
theorem closed_ended (outputBytes : Nat) (goes : .closed ∉ before) (kept : ¬ Refusal (brought before))
    (later : List Happening) :
    ((sent outputBytes).run (before ++ .closed :: later)).task.record =
      { (Record.new outputBytes).heard (received (brought before)) with
        state :=
          ended (lastStatus none (brought before)) ((brought before).any Message.began) } := by
  obtain ⟨all, silent⟩ := (reads_silent (brought before)).2 kept
  have task := (run_task (sent outputBytes) goes).trans silent
  have closed := closed_task (congrArg RunTask.stage task)
    (congrArg (·.record.state) task : _ = RunState.running)
  change ((sent outputBytes).run before |>.run [.closed]).task = _ at closed
  rw [← run_append] at closed
  rw [List.append_cons, settled_stays, closed, task, all]
  rw [closed]
  exact ended_ne_running _ _

end

end Reader

section

variable {messages : List Message}

theorem lastStatus_none (unsaid : ∀ message ∈ messages, message.status = none) :
    lastStatus none messages = none := by
  unfold lastStatus
  rw [List.filterMap_eq_nil_iff.mpr unsaid]
  rfl

theorem silent_status {message : Message} (silent : message.began = false) :
    message.status = none := by
  cases message <;> first | rfl | cases silent

end

/-- **Settlement.** Whatever the channel brings before it is closed and whenever
a caller asks for the run to be cancelled, the run is refused exactly if the
request was before there was any evidence that the command began; else it is
called after the last exit status, or after the evidence there is. What was
received is kept in order as far as there is room, and once a run is settled it
stays what it is for everyone who looks. -/
theorem settlement (outputBytes : Nat) :
    (∀ before later : List Happening, .closed ∉ before →
      let messages := brought before
      let record := ((Reader.sent outputBytes).run (before ++ .closed :: later)).task.record
      (record.state = .refused ↔ Refusal messages) ∧
      (¬ Refusal messages →
        (∀ code, (messages.filterMap Message.status).getLast? = some code →
          record.state = .exited code) ∧
        ((∀ message ∈ messages, message.status = none) →
          (∃ message ∈ messages, message.began = true) → record.state = .ended) ∧
        ((∀ message ∈ messages, message.began = false) → record.state = .indeterminate) ∧
        received messages = messages) ∧
      record.stdout.kept = (stdoutOf (received messages)).take outputBytes ∧
      record.stderr.kept = (stderrOf (received messages)).take outputBytes) ∧
    ∀ (early late meanwhile : List Happening) (run : RunId) (authorization : Authorization)
      (outcome : Snapshot),
      finished run authorization ((Reader.sent outputBytes).run early) = some outcome →
      let reader := (Reader.sent outputBytes).run (early ++ late)
      finished run authorization reader = some outcome ∧
      wait run authorization reader meanwhile = outcome ∧
      ∃ what, announced run authorization reader = .completed what ∧
        what.run = outcome.run ∧ what.state = outcome.state.debug ∧
        what.stdout = outcome.stdout.recorded ∧ what.stderr = outcome.stderr.recorded := by
  constructor
  · intro before later goes messages record
    have stream (state : RunState)
        (same : record =
          { (Record.new outputBytes).heard (received messages) with state }) :
        record.stdout.kept = (stdoutOf (received messages)).take outputBytes ∧
          record.stderr.kept = (stderrOf (received messages)).take outputBytes := by
      rw [same]
      constructor
      · have out := (Collected.of_new outputBytes).pushed
          ((received messages).flatMap fun message => Told.stdout (.message message))
        have kept := out.kept
        rw [Collected.pushed_limit] at kept
        exact kept
      · have err := (Collected.of_new outputBytes).pushed
          ((received messages).flatMap fun message => Told.stderr (.message message))
        have kept := err.kept
        rw [Collected.pushed_limit] at kept
        exact kept
    by_cases refused : Refusal messages
    · have settled := Reader.closed_refused outputBytes goes refused later
      exact ⟨iff_of_true (congrArg Record.state settled) refused, fun kept => absurd refused kept,
        stream _ settled⟩
    · have settled := Reader.closed_ended outputBytes goes refused later
      have state : record.state = ended (lastStatus none messages) (messages.any Message.began) :=
        congrArg Record.state settled
      refine ⟨iff_of_false ?_ refused, fun _ => ⟨?_, ?_, ?_, ?_⟩, stream _ settled⟩
      · rw [state]
        unfold ended
        split <;> exact nofun
      · intro code last
        rw [state, lastStatus, last]
        rfl
      · intro unsaid begun
        rw [state, lastStatus_none unsaid, List.any_eq_true.mpr begun]
        rfl
      · intro silent
        have nothing : messages.any Message.began = false := by
          rw [List.any_eq_false]
          exact fun message listed => Bool.eq_false_iff.mp (silent message listed)
        rw [state, lastStatus_none fun message listed => silent_status (silent message listed),
          nothing]
        rfl
      · exact ((@reads_silent (Record.new outputBytes) none messages).2
          refused).1
  · intro early late meanwhile run authorization outcome settled reader
    unfold finished at settled
    split at settled
    case isTrue => cases settled
    case isFalse over' =>
      have same : reader.task = ((Reader.sent outputBytes).run early).task :=
        Reader.settled_stays late over'
      cases settled
      unfold finished wait announced
      rw [same, if_neg over', if_pos over']
      exact ⟨rfl, rfl, _, rfl, rfl, rfl, rfl, rfl⟩

namespace Sample

/-- A command that prints a byte, is asked to stop, and dies of the signal
after its request was declined. -/
def stopped : List Happening :=
  [.message .success, .cancel, .message (.data [7]), .signal true, .message .failure,
    .message .exitSignal]

theorem settlement_sample :
    let record := ((Reader.sent 4).run (stopped ++ [.closed])).task.record
    record.state = .ended ∧ record.stdout.kept = [7] ∧
      ∃ outcome, finished ⟨7⟩ default ((Reader.sent 4).run (stopped ++ [.closed])) = some outcome ∧
        wait ⟨7⟩ default ((Reader.sent 4).run (stopped ++ [.closed] ++ [.cancel])) [] = outcome := by
  obtain ⟨settles, stays⟩ := settlement 4
  obtain ⟨refused, kept, stdout, -⟩ := settles stopped [] (by decide)
  have went : ((Reader.sent 4).run (stopped ++ [.closed])).task.record.state = .ended := by
    decide +kernel
  refine ⟨went, stdout, _, if_neg (by rw [went]; exact nofun), ?_⟩
  exact (stays _ [.cancel] [] ⟨7⟩ default _ (if_neg (by rw [went]; exact nofun))).2.1

end Sample

end McpSsh.RunTask
