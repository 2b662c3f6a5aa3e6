import McpSsh.Runs.Outcome
import McpSsh.SecretShape

/-!
# Output as it is read

What a run's task keeps of the streams it reads, and what a run looks like at
any moment in between. Every piece goes past `Collected.push` once, whether
there is room for it or not, so what the stream is taken for has been decided
from all of it by the time the run settles.
-/

namespace McpSsh

/-- A bounded view of one stream. `carried` is the end of what was read, for a
shape that falls across two pieces. -/
structure Collected where
  kept : List UInt8
  seen : UInt64
  limit : Nat
  matched : Option String
  carried : List UInt8
  deriving DecidableEq

namespace Collected

def new (limit : Nat) : Collected := ⟨[], 0, limit, none, []⟩

/-- `u64::saturating_add` of a length. -/
def saturatingAdd (seen : UInt64) (length : Nat) : UInt64 :=
  UInt64.ofNat (min (seen.toNat + length) (2 ^ 64 - 1))

/-- Looks at a piece, unless the stream has given itself away already. -/
def scan (collected : Collected) (data : List UInt8) : Collected :=
  match collected.matched with
  | some _ => collected
  | none =>
    let window := collected.carried ++ data
    { collected with
      matched := secretShape (fromUtf8Lossy window)
      carried := window.drop (window.length - longestSecretShape) }

def push (collected : Collected) (data : List UInt8) : Collected :=
  { collected.scan data with
    seen := saturatingAdd collected.seen data.length
    kept := collected.kept ++ data.take (collected.limit - collected.kept.length) }

/-- `Collected::snapshot`, which copies nothing. -/
def snapshot (collected : Collected) : Stream where
  text := ""
  truncated := decide (collected.kept.length < collected.seen.toNat)
  bytes := collected.seen
  matched := collected.matched

/-! ## What a stream in pieces comes to -/

/-- What is kept and known of a stream once all of it has been pushed. -/
structure Of (stream : List UInt8) (collected : Collected) : Prop where
  kept : collected.kept = stream.take collected.limit
  seen : collected.seen.toNat = min stream.length (2 ^ 64 - 1)
  matched : collected.matched.isSome = true ↔ Secret stream
  carried : collected.matched = none →
    collected.carried = Overlap.lastN longestSecretShape stream

variable {collected : Collected} {stream data : List UInt8}

theorem saturatingAdd_toNat (seen : UInt64) (length : Nat) :
    (saturatingAdd seen length).toNat = min (seen.toNat + length) (2 ^ 64 - 1) := by
  rw [saturatingAdd, UInt64.toNat_ofNat']
  omega

theorem of_new (limit : Nat) : Of [] (new limit) where
  kept := List.take_nil.symm
  seen := rfl
  matched := by
    apply iff_of_false
    · exact Bool.false_ne_true
    · exact Secret.not_nil
  carried _ := rfl

@[simp] theorem push_limit (collected : Collected) (data : List UInt8) :
    (collected.push data).limit = collected.limit := by
  unfold push scan
  cases collected.matched <;> rfl

@[simp] theorem push_matched (collected : Collected) (data : List UInt8) :
    (collected.push data).matched = (collected.scan data).matched := rfl

@[simp] theorem push_carried (collected : Collected) (data : List UInt8) :
    (collected.push data).carried = (collected.scan data).carried := rfl

theorem scan_of_some {what : String} (found : collected.matched = some what)
    (data : List UInt8) : collected.scan data = collected := by
  unfold scan
  rw [found]

theorem scan_of_none (nothing : collected.matched = none) (data : List UInt8) :
    (collected.scan data).matched = secretShape (fromUtf8Lossy (collected.carried ++ data)) ∧
      (collected.scan data).carried =
        Overlap.lastN longestSecretShape (collected.carried ++ data) := by
  unfold scan
  rw [nothing]
  exact ⟨rfl, rfl⟩

/-- One more piece: what is known of the stream so far becomes what is known of
the longer one. -/
theorem Of.push (before : Of stream collected) (data : List UInt8) :
    Of (stream ++ data) (collected.push data) where
  kept := by
    rw [push_limit, List.take_append]
    change collected.kept ++ data.take (collected.limit - collected.kept.length) = _
    rw [before.kept, List.length_take]
    congr 2
    omega
  seen := by
    change (saturatingAdd collected.seen data.length).toNat = _
    rw [saturatingAdd_toNat, before.seen, List.length_append]
    omega
  matched := by
    rw [push_matched, Secret.append_iff, ← before.matched]
    cases found : collected.matched with
    | some what => simp [scan_of_some found, found]
    | none =>
      rw [(scan_of_none found data).1, secretShape_lossy, before.carried found]
      simp
  carried := by
    rw [push_matched, push_carried]
    cases found : collected.matched with
    | some what =>
      rw [scan_of_some found, found]
      rintro ⟨⟩
    | none =>
      intro _
      rw [(scan_of_none found data).2, before.carried found, Overlap.lastN_append]

/-- A whole stream, however it was cut. -/
theorem Of.pushed (before : Of stream collected) (pieces : List (List UInt8)) :
    Of (stream ++ pieces.flatten) (pieces.foldl Collected.push collected) := by
  induction pieces generalizing stream collected with
  | nil => simpa using before
  | cons piece pieces ih =>
    rw [List.flatten_cons, ← List.append_assoc]
    exact ih (before.push piece)

theorem pushed_limit (collected : Collected) (pieces : List (List UInt8)) :
    (pieces.foldl Collected.push collected).limit = collected.limit := by
  induction pieces generalizing collected with
  | nil => rfl
  | cons piece pieces ih => rw [List.foldl_cons, ih, push_limit]

theorem Of.truncated (read : Of stream collected) (small : stream.length < 2 ^ 64) :
    collected.snapshot.truncated = true ↔ collected.limit < stream.length := by
  have seen := read.seen
  change decide (collected.kept.length < collected.seen.toNat) = true ↔ _
  rw [decide_eq_true_iff, read.kept, List.length_take]
  omega

end Collected

/-! ## Runs -/

namespace RunTask

/-- What a run's task writes and its callers read. -/
structure Record where
  file : Option Transferred
  info : Option FileInfo
  stdout : Collected
  stderr : Collected
  state : RunState
  deriving DecidableEq

/-- A run as it is registered. -/
def Record.new (outputBytes : Nat) : Record where
  file := none
  info := none
  stdout := Collected.new outputBytes
  stderr := Collected.new outputBytes
  state := .running

/-- `ChannelMsg`, as far as the task tells one from another. -/
inductive Message
  | success
  | data (data : List UInt8)
  | extendedData (data : List UInt8) (ext : UInt32)
  | exitSignal
  | exitStatus (code : UInt32)
  | failure
  | other
  deriving DecidableEq

/-- A transfer whose remote work finished. -/
inductive Moved
  | downloaded (file : FileIdentity)
  | inspected (info : FileInfo)
  | uploaded (file : FileIdentity)
  deriving DecidableEq

def Moved.file : Moved → Option Transferred
  | .downloaded file => some (.output file)
  | .uploaded file => some (.source file)
  | .inspected _ => none

def Moved.info : Moved → Option FileInfo
  | .inspected info => some info
  | .downloaded _ | .uploaded _ => none

/-- What a task is told: how sending its command went, what the channel brings,
that the channel is closed, or what its transfer came to. -/
inductive Told
  | sent
  | sendFailed
  | message (message : Message)
  | closed
  | transferred (isUpload replaced : Bool) (result : Except Failure Moved)

/-- Where a task is. -/
inductive Stage
  | sending
  | reading (code : Option UInt32) (began : Bool)
  | transferring
  | over
  deriving DecidableEq

end RunTask

open RunTask (Message Moved Told Stage)

structure RunTask where
  record : RunTask.Record
  stage : Stage
  deriving DecidableEq

namespace RunTask

/-- `Runs::start`. -/
def execution (outputBytes : Nat) : RunTask := ⟨Record.new outputBytes, .sending⟩

/-- `Runs::transfer`. -/
def transfer (outputBytes : Nat) : RunTask := ⟨Record.new outputBytes, .transferring⟩

/-- The body of the reader's loop. Only a refusal before anything says that the
command began ends it: what else comes after may still show the stream to be a
credential. -/
def hear (record : Record) (code : Option UInt32) (began : Bool) : Message → RunTask
  | .success => ⟨record, .reading code true⟩
  | .data data => ⟨{ record with stdout := record.stdout.push data }, .reading code true⟩
  | .extendedData data ext =>
    if ext = 1 then ⟨{ record with stderr := record.stderr.push data }, .reading code true⟩
    else ⟨record, .reading code began⟩
  | .exitSignal => ⟨record, .reading code true⟩
  | .exitStatus exitStatus => ⟨record, .reading (some exitStatus) true⟩
  | .failure =>
    if began then ⟨record, .reading code began⟩
    else ⟨{ record with state := .refused }, .over⟩
  | .other => ⟨record, .reading code began⟩

/-- What to call a run whose channel is closed. -/
def ended (code : Option UInt32) (began : Bool) : RunState :=
  match code, began with
  | some code, _ => .exited code
  | none, true => .ended
  | none, false => .indeterminate

/-- Whether something of a failed transfer may be on the target. -/
def maybePartial (isUpload : Bool) (cause : Failure) : Bool :=
  isUpload && cause ≠ .unsupportedOperation

/-- What a failed transfer says on the error stream, a piece for each push. -/
def complaint (isUpload : Bool) (cause : Failure) : List (List UInt8) :=
  asBytes cause.message ::
    if maybePartial isUpload cause then
      [asBytes " A remote write may be partial; do not automatically retry."]
    else []

/-- `Failure::ReplacementUnknown` once the replacement was attempted. -/
def blamed (replaced : Bool) (cause : Failure) : Failure :=
  if replaced then .replacementUnknown else cause

/-- The end of a transfer, under one hold of the record. -/
def settle (record : Record) (isUpload replaced : Bool) : Except Failure Moved → Record
  | .ok moved =>
    { record with
      file := moved.file
      info := moved.info
      state := .exited 0 }
  | .error cause =>
    { record with
      state :=
        .transferFailed (blamed replaced cause) (maybePartial isUpload (blamed replaced cause))
      stderr := (complaint isUpload (blamed replaced cause)).foldl Collected.push record.stderr }

/-- One thing told, one hold of the record. -/
def step (task : RunTask) (told : Told) : Option RunTask :=
  match task.stage, told with
  | .sending, .sent => some ⟨task.record, .reading none false⟩
  | .sending, .sendFailed => some ⟨{ task.record with state := .indeterminate }, .over⟩
  | .reading code began, .message message => some (hear task.record code began message)
  | .reading code began, .closed =>
    some ⟨{ task.record with
      state := if task.record.state = .running then ended code began else task.record.state },
      .over⟩
  | .transferring, .transferred isUpload replaced result =>
    some ⟨settle task.record isUpload replaced result, .over⟩
  | _, _ => none

/-- What a task comes to that is told all this, if it lives to hear it. -/
def hears (task : RunTask) (told : List Told) : Option RunTask := told.foldlM step task

/-- The pieces of the output stream that are in what a task is told. -/
def Told.stdout : Told → List (List UInt8)
  | .message (.data data) => [data]
  | _ => []

/-- And of the error stream. -/
def Told.stderr : Told → List (List UInt8)
  | .message (.extendedData data ext) => if ext = 1 then [data] else []
  | .transferred isUpload replaced (.error cause) => complaint isUpload (blamed replaced cause)
  | _ => []

/-! ## What has been read -/

/-- What a task's record holds of the streams it has read, and that its state
is the last thing it writes. -/
structure Reads (stdout stderr : List UInt8) (task : RunTask) : Prop where
  stdout : task.record.stdout.Of stdout
  stderr : task.record.stderr.Of stderr
  running : task.record.state = .running ↔ task.stage ≠ .over

variable {stdout stderr : List UInt8} {task next : RunTask} {told : Told}

theorem reads_execution (outputBytes : Nat) : Reads [] [] (execution outputBytes) where
  stdout := Collected.of_new outputBytes
  stderr := Collected.of_new outputBytes
  running := iff_of_true rfl nofun

theorem reads_transfer (outputBytes : Nat) : Reads [] [] (transfer outputBytes) where
  stdout := Collected.of_new outputBytes
  stderr := Collected.of_new outputBytes
  running := iff_of_true rfl nofun

/-- A step that reads nothing. -/
theorem Reads.still (before : Reads stdout stderr task)
    (out : next.record.stdout = task.record.stdout)
    (err : next.record.stderr = task.record.stderr)
    (running : next.record.state = .running ↔ next.stage ≠ .over) :
    Reads (stdout ++ [].flatten) (stderr ++ [].flatten) next where
  stdout := by rw [out, List.flatten_nil, List.append_nil]; exact before.stdout
  stderr := by rw [err, List.flatten_nil, List.append_nil]; exact before.stderr
  running := running

theorem ended_ne_running (code : Option UInt32) (began : Bool) : ended code began ≠ .running := by
  unfold ended
  split <;> exact nofun

/-- The loop's body: a piece of a stream is pushed, or nothing is. -/
theorem Reads.hear {code : Option UInt32} {began : Bool}
    (before : Reads stdout stderr task) (reading : task.stage = .reading code began)
    (message : Message) :
    Reads (stdout ++ (Told.stdout (.message message)).flatten)
      (stderr ++ (Told.stderr (.message message)).flatten)
      (hear task.record code began message) := by
  have running : task.record.state = .running := by
    apply before.running.mpr
    rw [reading]
    exact nofun
  cases message with
  | success => exact before.still rfl rfl (iff_of_true running nofun)
  | data data =>
    constructor
    case stdout => simpa [Told.stdout, RunTask.hear] using before.stdout.push data
    case stderr => simpa [Told.stderr, RunTask.hear] using before.stderr
    case running => exact iff_of_true running nofun
  | extendedData data ext =>
    by_cases standard : ext = 1
    · rw [RunTask.hear, if_pos standard]
      constructor
      case stdout => simpa [Told.stdout] using before.stdout
      case stderr => simpa [Told.stderr, standard] using before.stderr.push data
      case running => exact iff_of_true running nofun
    · rw [RunTask.hear, if_neg standard, Told.stderr, if_neg standard]
      exact before.still rfl rfl (iff_of_true running nofun)
  | exitSignal => exact before.still rfl rfl (iff_of_true running nofun)
  | exitStatus status => exact before.still rfl rfl (iff_of_true running nofun)
  | failure =>
    rw [RunTask.hear]
    cases began with
    | true => exact before.still rfl rfl (iff_of_true running nofun)
    | false => exact before.still rfl rfl (iff_of_false nofun (absurd rfl))
  | other => exact before.still rfl rfl (iff_of_true running nofun)

theorem Reads.settle (before : Reads stdout stderr task) (isUpload replaced : Bool)
    (result : Except Failure Moved) :
    Reads (stdout ++ (Told.stdout (.transferred isUpload replaced result)).flatten)
      (stderr ++ (Told.stderr (.transferred isUpload replaced result)).flatten)
      ⟨settle task.record isUpload replaced result, .over⟩ := by
  cases result with
  | ok moved => exact before.still rfl rfl (iff_of_false nofun (absurd rfl))
  | error cause =>
    constructor
    case stdout => simpa [Told.stdout, RunTask.settle] using before.stdout
    case stderr => exact before.stderr.pushed (complaint isUpload (blamed replaced cause))
    case running => exact iff_of_false nofun (absurd rfl)

/-- What a task is told is added to what it has read. -/
theorem Reads.step (before : Reads stdout stderr task) (stepped : task.step told = some next) :
    Reads (stdout ++ told.stdout.flatten) (stderr ++ told.stderr.flatten) next := by
  unfold RunTask.step at stepped
  split at stepped
  case h_1 => 
    cases stepped
    exact before.still rfl rfl (iff_of_true (before.running.mpr (by simp [*])) nofun)
  case h_2 =>
    cases stepped
    exact before.still rfl rfl (iff_of_false nofun (absurd rfl))
  case h_3 reading =>
    cases stepped
    exact before.hear reading _
  case h_4 code began reading =>
    cases stepped
    refine before.still rfl rfl (iff_of_false ?_ (absurd rfl))
    have running : task.record.state = .running := by
      apply before.running.mpr
      rw [reading]
      exact nofun
    rw [if_pos running]
    exact ended_ne_running code began
  case h_5 =>
    cases stepped
    exact before.settle _ _ _
  case h_6 => cases stepped

theorem Reads.hears {told : List Told} (before : Reads stdout stderr task)
    (heard : task.hears told = some next) :
    Reads (stdout ++ (told.flatMap Told.stdout).flatten)
      (stderr ++ (told.flatMap Told.stderr).flatten) next := by
  induction told generalizing stdout stderr task with
  | nil =>
    cases heard
    simpa using before
  | cons first told ih =>
    rw [RunTask.hears, List.foldlM_cons, Option.bind_eq_bind, Option.bind_eq_some_iff] at heard
    obtain ⟨middle, stepped, later⟩ := heard
    have after := ih (before.step stepped) later
    simpa using after

/-- A task that is over hears nothing any more. -/
theorem hears_over {told : List Told} (over' : task.stage = .over)
    (heard : task.hears told = some next) : told = [] ∧ next = task := by
  cases told with
  | nil => exact ⟨rfl, (Option.some.inj heard).symm⟩
  | cons first told =>
    rw [RunTask.hears, List.foldlM_cons, Option.bind_eq_bind, Option.bind_eq_some_iff] at heard
    obtain ⟨middle, stepped, later⟩ := heard
    unfold RunTask.step at stepped
    rw [over'] at stepped
    cases stepped

end RunTask

end McpSsh
