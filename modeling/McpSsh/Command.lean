import McpSsh.Text
import Mathlib.Algebra.Order.BigOperators.Group.List
import Mathlib.Algebra.Order.Group.Nat
import Mathlib.Algebra.GroupWithZero.Nat

/-!
# Commands

An argument vector and the agent's stated intent, each behind the constructor
that bounds it. Holding a `Command` or a `CommandIntent` means the check
passed: the acceptance is a field.
-/

namespace McpSsh

/-- Largest number of arguments a command may carry. -/
def maxArgs : Nat := 1024

/-- Longest agent-supplied explanation accepted for one command. -/
def maxIntentBytes : Nat := 512

/-- Largest rendered command a target can be expected to run. -/
def maxWireBytes : Nat := 128 * 1024

/-- Largest total size of a command, before quoting. -/
def maxBytes : Nat := maxWireBytes / 4 - maxArgs * 3

inductive CommandError
  | empty
  | emptyProgram
  | tooManyArguments (max : Nat)
  | tooLarge (max : Nat)
  | interiorNul
  deriving DecidableEq, Repr

inductive CommandIntentError
  | blank
  | tooLong (max : Nat)
  deriving DecidableEq, Repr

/-- The total size of an argument vector, in bytes. -/
def argvBytes (argv : List String) : Nat :=
  (argv.map String.utf8ByteSize).sum

/-- Why `Command::new` refuses a vector, if it does. -/
def Command.refusal (argv : List String) : Option CommandError :=
  match argv with
  | [] => some .empty
  | program :: _ =>
    if program.isEmpty then some .emptyProgram
    else if maxArgs < argv.length then some (.tooManyArguments maxArgs)
    else if maxBytes < argvBytes argv then some (.tooLarge maxBytes)
    else if argv.any (fun arg => arg.toList.contains '\x00') then some .interiorNul
    else none

/-- A command to run on a target, as an argument vector. -/
structure Command where
  argv : List String
  accepted : Command.refusal argv = none
  deriving DecidableEq

/-- `Command::new`. -/
def Command.new (argv : List String) : Except CommandError Command :=
  match h : Command.refusal argv with
  | some error => .error error
  | none => .ok ⟨argv, h⟩

def Command.program (command : Command) : String :=
  command.argv.headD ""

theorem Command.new_argv {argv : List String} {command : Command}
    (built : Command.new argv = .ok command) : command.argv = argv := by
  unfold Command.new at built
  split at built
  · cases built
  · cases built; rfl

theorem Command.total_le (command : Command) : argvBytes command.argv ≤ maxBytes := by
  obtain ⟨argv, accepted⟩ := command
  simp only [Command.refusal] at accepted
  split at accepted
  · cases accepted
  · grind

theorem Command.length_le (command : Command) : command.argv.length ≤ maxArgs := by
  obtain ⟨argv, accepted⟩ := command
  simp only [Command.refusal] at accepted
  split at accepted
  · cases accepted
  · grind

/-- No argument holds a NUL, which would cut the command short on the target. -/
theorem Command.nul_notMem (command : Command) {arg : String} (member : arg ∈ command.argv) :
    '\x00' ∉ arg.toList := by
  obtain ⟨argv, accepted⟩ := command
  simp only [Command.refusal] at accepted
  split at accepted
  · cases accepted
  · grind

theorem utf8ByteSize_le_argvBytes {argv : List String} {arg : String} (member : arg ∈ argv) :
    arg.utf8ByteSize ≤ argvBytes argv :=
  List.le_sum_of_mem (List.mem_map_of_mem member)

/-- No argument is longer than the whole command may be. -/
theorem Command.arg_le (command : Command) {arg : String} (member : arg ∈ command.argv) :
    arg.utf8ByteSize ≤ maxBytes :=
  (utf8ByteSize_le_argvBytes member).trans command.total_le

/-- Why `CommandIntent::parse` refuses a text, if it does. -/
def CommandIntent.refusal (raw : String) : Option CommandIntentError :=
  if isBlank raw then some .blank
  else if maxIntentBytes < raw.utf8ByteSize then some (.tooLong maxIntentBytes)
  else none

/-- What the calling agent says one command is meant to accomplish. Evidence
for a human, not an authorization fact. -/
structure CommandIntent where
  text : String
  accepted : CommandIntent.refusal text = none
  deriving DecidableEq

/-- `CommandIntent::parse`. -/
def CommandIntent.parse (raw : String) : Except CommandIntentError CommandIntent :=
  match h : CommandIntent.refusal raw with
  | some error => .error error
  | none => .ok ⟨raw, h⟩

instance : Inhabited Command := ⟨["true"], by decide⟩

instance : Inhabited CommandIntent := ⟨"look around", by decide⟩

theorem CommandIntent.size_le (intent : CommandIntent) :
    intent.text.utf8ByteSize ≤ maxIntentBytes := by
  have accepted := intent.accepted
  unfold CommandIntent.refusal at accepted
  grind

theorem CommandIntent.ext_text {i j : CommandIntent} (same : i.text = j.text) : i = j := by
  cases i; cases j; simp_all

end McpSsh
