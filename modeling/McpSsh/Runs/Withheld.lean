import McpSsh.Runs.Output
import McpSsh.Transfer.Reference

/-!
# What a poll hands over

A run's outcome at any moment of it, the completion that is recorded of that
outcome, and what the tools answer. A stream that looks like a credential goes
no further than its length and what it was taken for, and one that has not
ended yet does not go anywhere: the piece that gives it away may be the next.
-/

namespace McpSsh

/-- `Outcome`, with the bytes a settled run shares. -/
structure Snapshot extends Outcome where
  stdoutBytes : Option (List UInt8)
  stderrBytes : Option (List UInt8)
  deriving DecidableEq

/-- What is decoded of a stream, once it is whole and may be told. -/
def textOf (complete : Bool) (collected : Collected) : Stream :=
  { collected.snapshot with
    text :=
      if complete && collected.matched.isNone then fromUtf8Lossy collected.kept else "" }

/-- `snapshot_of`. -/
def snapshotOf (run : RunId) (authorization : Authorization) (record : RunTask.Record) :
    Snapshot :=
  let complete := decide (record.state ≠ .running)
  { run
    authorization
    proof := some authorization.sequence
    state := record.state
    stdout := textOf complete record.stdout
    stderr := textOf complete record.stderr
    file := record.file
    info := record.info
    stdoutBytes := if complete then some record.stdout.kept else none
    stderrBytes := if complete then some record.stderr.kept else none }

/-! ## Tool results -/

/-- What an agent is told about one of a command's streams. -/
inductive StreamOut
  | reference (file : Reference) (truncated : Bool) (bytes : UInt64)
  | unavailable (bytes : UInt64) (why : String)
  | text (text : String) (truncated : Bool) (bytes : UInt64)
  | withheld (bytes : UInt64) (matched : String)
  | pending (bytes : UInt64)
  deriving DecidableEq, Repr

/-- Longest output that is handed over inline. -/
def inlineBytes : Nat := 4096

namespace StreamOut

/-- `StreamOut::pending`. -/
def stillGoing (stream : Stream) : StreamOut := .pending stream.bytes

def released (stream : Stream) : StreamOut :=
  match stream.matched with
  | some matched => .withheld stream.bytes matched
  | none =>
    if inlineBytes < stream.text.utf8ByteSize then
      .unavailable stream.bytes "bulk output requires a configured file transfer channel"
    else .text stream.text stream.truncated stream.bytes

/-- What of the stream itself stands in the answer. -/
def inline : StreamOut → String
  | .text shown _ _ => shown
  | .reference .. | .unavailable .. | .withheld .. | .pending _ => ""

end StreamOut

/-- What an agent is told about a command that was sent. -/
inductive ExecResult
  | ran (file : Option Reference) (info : Option FileInfo) (run : RunId) (exit : Option UInt32)
      (stdout stderr : StreamOut) (why : String)
  | stillRunning (run : RunId) (stdout stderr : StreamOut) (why : String)
  | notStarted (run : RunId) (why : String)
  | unknown (run : RunId) (why : String)
  | transferFailed (run : RunId) (cause : String) (remoteWriteMayBePartial : Bool)
      (why : String)
  deriving DecidableEq

/-- What a result tells of the output stream, if anything. -/
def ExecResult.stdout : ExecResult → Option StreamOut
  | .ran _ _ _ _ stdout _ _ | .stillRunning _ stdout _ _ => some stdout
  | .notStarted .. | .unknown .. | .transferFailed .. => none

/-- And of the error stream. -/
def ExecResult.stderr : ExecResult → Option StreamOut
  | .ran _ _ _ _ _ stderr _ | .stillRunning _ _ stderr _ => some stderr
  | .notStarted .. | .unknown .. | .transferFailed .. => none

/-- `reported`. -/
def reported (run : RunId) (state : RunState) (stdout stderr : Stream) (why : String) :
    ExecResult :=
  match state with
  | .transferFailed cause remoteWriteMayBePartial =>
    .transferFailed run cause.code remoteWriteMayBePartial
      (if remoteWriteMayBePartial then
        cause.message ++ " A remote write may be partial; do not automatically retry."
      else cause.message)
  | .refused => .notStarted run why
  | .indeterminate => .unknown run why
  | .running =>
    .stillRunning run (StreamOut.stillGoing stdout) (StreamOut.stillGoing stderr) why
  | .ended =>
    .ran none none run none (StreamOut.released stdout) (StreamOut.released stderr) why
  | .exited code =>
    .ran none none run (some code) (StreamOut.released stdout) (StreamOut.released stderr) why

/-- `ran`. -/
def ran (outcome : Snapshot) (why : String) : ExecResult :=
  match reported outcome.run outcome.state outcome.stdout outcome.stderr why with
  | .ran _ _ run exit stdout stderr why =>
    .ran (outcome.producedFile.map Reference.of) outcome.info run exit stdout stderr why
  | result => result

/-- A file store as the streams of one result find it: what it answers when
each is to be published, a refused destination or a failed receipt included. -/
structure Files where
  stdout : List UInt8 → Except TransferError FileIdentity
  stderr : List UInt8 → Except TransferError FileIdentity

/-- `stream_with_files`. -/
def streamWithFiles (stream : Stream) (bytes : List UInt8)
    (files : Option (List UInt8 → Except TransferError FileIdentity)) : StreamOut :=
  if stream.matched.isNone && bytes.length ≤ inlineBytes && Utf8.valid bytes then
    StreamOut.released stream
  else
    match files with
    | none =>
      .unavailable stream.bytes
        "binary, bulk, or sensitive output requires a configured file transfer channel"
    | some publish =>
      match publish bytes with
      | .ok file => .reference (Reference.of file) stream.truncated stream.bytes
      | .error error =>
        .unavailable stream.bytes
          ("output could not be retained: " ++ error.display ++
            "; do not repeat the command to recover it")

/-- `ran_with_files`, which every tool answers with that has an outcome. -/
def ranWithFiles (outcome : Snapshot) (why : String) (files : Option Files) : ExecResult :=
  match ran outcome why with
  | .ran file info run exit _ _ why =>
    .ran file info run exit
      (streamWithFiles outcome.stdout (outcome.stdoutBytes.getD []) (files.map Files.stdout))
      (streamWithFiles outcome.stderr (outcome.stderrBytes.getD []) (files.map Files.stderr))
      why
  | result => result

/-- What of a stream itself stands in a record of it. -/
def Recorded.inline : Recorded → String
  | .kept text _ _ => text
  | .withheld .. => ""

/-! ## Streams that look like a credential -/

section

variable {collected : Collected} {record : RunTask.Record}

theorem textOf_silent {complete : Bool}
    (withheld : complete = true → collected.matched.isSome = true) :
    (textOf complete collected).text = "" := by
  unfold textOf
  cases complete with
  | false => rfl
  | true =>
    obtain ⟨what, found⟩ := Option.isSome_iff_exists.mp (withheld rfl)
    simp [found]

/-- A record has nothing of a stream without a text. -/
theorem Stream.recorded_inline {stream : Stream} (silent : stream.text = "") :
    stream.recorded.inline = "" := by
  unfold Stream.recorded
  cases stream.matched with
  | some what => rfl
  | none => exact silent

/-- A stream that looks like a credential is a file or nothing. -/
theorem streamWithFiles_inline {stream : Stream} {what : String}
    (found : stream.matched = some what) (bytes : List UInt8)
    (files : Option (List UInt8 → Except TransferError FileIdentity)) :
    (streamWithFiles stream bytes files).inline = "" := by
  unfold streamWithFiles
  rw [found]
  cases files with
  | none => rfl
  | some publish =>
    change (match publish bytes with
      | .ok file => StreamOut.reference (Reference.of file) stream.truncated stream.bytes
      | .error error => _).inline = ""
    cases publish bytes <;> rfl

/-- What a stream of a run in some state is told as. -/
def toldAs (state : RunState) (stream : Stream) (bytes : Option (List UInt8))
    (files : Option (List UInt8 → Except TransferError FileIdentity)) : Option StreamOut :=
  match state with
  | .running => some (StreamOut.stillGoing stream)
  | .ended | .exited _ => some (streamWithFiles stream (bytes.getD []) files)
  | .refused | .indeterminate | .transferFailed .. => none

theorem ranWithFiles_stdout (outcome : Snapshot) (why : String) (files : Option Files) :
    (ranWithFiles outcome why files).stdout =
      toldAs outcome.state outcome.stdout outcome.stdoutBytes (files.map Files.stdout) := by
  unfold ranWithFiles ran
  cases outcome.state <;> rfl

theorem ranWithFiles_stderr (outcome : Snapshot) (why : String) (files : Option Files) :
    (ranWithFiles outcome why files).stderr =
      toldAs outcome.state outcome.stderr outcome.stderrBytes (files.map Files.stderr) := by
  unfold ranWithFiles ran
  cases outcome.state <;> rfl

/-- Nothing is told of a stream that has given itself away by the time its run
has settled. -/
theorem toldAs_inline {state : RunState}
    (withheld : state ≠ .running → collected.matched.isSome = true)
    (bytes : Option (List UInt8))
    (files : Option (List UInt8 → Except TransferError FileIdentity)) :
    ∀ out ∈ toldAs state (textOf (decide (state ≠ .running)) collected) bytes files,
      out.inline = "" := by
  intro out told
  cases state with
  | running =>
    cases told
    rfl
  | ended =>
    obtain ⟨what, found⟩ := Option.isSome_iff_exists.mp (withheld nofun)
    cases told
    exact streamWithFiles_inline found _ _
  | exited code =>
    obtain ⟨what, found⟩ := Option.isSome_iff_exists.mp (withheld nofun)
    cases told
    exact streamWithFiles_inline found _ _
  | refused => cases told
  | indeterminate => cases told
  | transferFailed cause maybePartial => cases told

theorem recorded_inline {state : RunState}
    (withheld : state ≠ .running → collected.matched.isSome = true) :
    (textOf (decide (state ≠ .running)) collected).recorded.inline = "" := by
  apply Stream.recorded_inline
  apply textOf_silent
  intro complete
  exact withheld (of_decide_eq_true complete)

end

namespace RunTask

/-- A task as it is spawned, for a command or a transfer. -/
def Spawned (outputBytes : Nat) (task : RunTask) : Prop :=
  task = execution outputBytes ∨ task = transfer outputBytes

variable {outputBytes : Nat} {first task last : RunTask} {told later : List Told}

theorem Spawned.reads (spawned : Spawned outputBytes first) : Reads [] [] first := by
  rcases spawned with rfl | rfl
  · exact reads_execution outputBytes
  · exact reads_transfer outputBytes

/-- Once a run has settled, what its streams are taken for has been decided
from all that will ever have been read of them. -/
theorem Spawned.settled (spawned : Spawned outputBytes first)
    (heard : first.hears told = some task) (heardLater : task.hears later = some last)
    (over' : task.record.state ≠ .running) :
    task.record.stdout.Of ((told ++ later).flatMap Told.stdout).flatten ∧
      task.record.stderr.Of ((told ++ later).flatMap Told.stderr).flatten := by
  have read := spawned.reads.hears heard
  have stopped : task.stage = .over := by
    by_contra going
    exact over' (read.running.mpr going)
  obtain ⟨rfl, -⟩ := hears_over stopped heardLater
  rw [List.append_nil]
  exact ⟨read.stdout, read.stderr⟩

/-- Detection, piece by piece, is detection on the whole stream, and nothing
that is recorded or handed over of a run, at any moment of it, has a byte of a
stream in which a secret's shape is, or will be. -/
theorem secrets_stay :
    (∀ (limit : Nat) (pieces : List (List UInt8)), pieces.flatten.length < 2 ^ 64 →
      let stream := pieces.flatten
      let collected := pieces.foldl Collected.push (Collected.new limit)
      collected.kept = stream.take limit ∧
        collected.snapshot.bytes.toNat = stream.length ∧
        (collected.snapshot.truncated = true ↔ limit < stream.length) ∧
        (collected.snapshot.matched.isSome = true ↔ Secret stream) ∧
        collected.snapshot.matched.isSome = (secretShape (fromUtf8Lossy stream)).isSome) ∧
    ∀ (outputBytes : Nat) (first task last : RunTask) (told later : List Told),
      Spawned outputBytes first →
      first.hears told = some task → task.hears later = some last →
      ∀ (run : RunId) (authorization : Authorization) (why : String) (files : Option Files),
        let outcome := snapshotOf run authorization task.record
        ∃ what, outcome.toOutcome.event = .completed what ∧
          (Secret ((told ++ later).flatMap Told.stdout).flatten →
            what.stdout.inline = "" ∧
              ∀ out ∈ (ranWithFiles outcome why files).stdout, out.inline = "") ∧
          (Secret ((told ++ later).flatMap Told.stderr).flatten →
            what.stderr.inline = "" ∧
              ∀ out ∈ (ranWithFiles outcome why files).stderr, out.inline = "") := by
  constructor
  · intro limit pieces small
    have read := (Collected.of_new limit).pushed pieces
    rw [List.nil_append] at read
    have bound := Collected.pushed_limit (Collected.new limit) pieces
    refine ⟨?_, ?_, ?_, read.matched, ?_⟩
    · rw [read.kept, bound]
      rfl
    · rw [Collected.snapshot, read.seen]
      omega
    · rw [read.truncated small, bound]
      rfl
    · rw [Bool.eq_iff_iff, secretShape_lossy]
      exact read.matched
  · intro outputBytes first task last told later spawned heard heardLater run authorization why files
    refine ⟨_, rfl, ?_, ?_⟩
    · intro secret
      have withheld (over' : task.record.state ≠ .running) :
          task.record.stdout.matched.isSome = true :=
        (spawned.settled heard heardLater over').1.matched.mpr secret
      refine ⟨recorded_inline withheld, ?_⟩
      rw [ranWithFiles_stdout]
      exact toldAs_inline withheld _ _
    · intro secret
      have withheld (over' : task.record.state ≠ .running) :
          task.record.stderr.matched.isSome = true :=
        (spawned.settled heard heardLater over').2.matched.mpr secret
      refine ⟨recorded_inline withheld, ?_⟩
      rw [ranWithFiles_stderr]
      exact toldAs_inline withheld _ _

namespace Sample

/-- A marker that comes in two pieces. -/
def pieces : List (List UInt8) := [asBytes "-----BE", asBytes "GIN"]

def collected : Collected := pieces.foldl Collected.push (Collected.new 4)

/-- A command that prints it and ends. -/
def printed : List Told := .sent :: (pieces.map (.message ∘ .data) ++ [.closed])

theorem pieces_secret : Secret pieces.flatten :=
  ⟨("-----BEGIN", "a PEM private key block"), by decide, by decide +kernel⟩

/-- Four bytes of it are kept and all of it is seen, and a run that printed it
tells nobody of it once it is over. -/
theorem secrets_stay_sample :
    (collected.kept = asBytes "----" ∧ collected.snapshot.truncated = true ∧
      collected.snapshot.matched.isSome = true) ∧
    ∃ task, (execution 4).hears printed = some task ∧ task.record.state = .ended ∧
      ∃ what, (snapshotOf ⟨7⟩ default task.record).toOutcome.event = .completed what ∧
        what.stdout.inline = "" ∧
        ∀ out ∈ (ranWithFiles (snapshotOf ⟨7⟩ default task.record) "polled" none).stdout,
          out.inline = "" := by
  obtain ⟨kept, -, truncated, matched, -⟩ := secrets_stay.1 4 pieces (by decide +kernel)
  constructor
  · refine ⟨kept.trans (by decide +kernel), truncated.mpr (by decide +kernel), ?_⟩
    exact matched.mpr pieces_secret
  · have state : ((execution 4).hears printed).map (·.record.state) = some .ended := by
      decide +kernel
    obtain ⟨task, heard, ended⟩ := Option.map_eq_some_iff.mp state
    obtain ⟨what, completed, out, -⟩ :=
      secrets_stay.2 4 (execution 4) task task printed [] (.inl rfl) heard rfl ⟨7⟩
        default "polled" none
    refine ⟨task, heard, ended, what, completed, out ?_⟩
    exact pieces_secret

end Sample

end RunTask

end McpSsh
