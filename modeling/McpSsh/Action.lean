import McpSsh.Command
import McpSsh.Files

/-!
# Actions

Typed execution and file-transfer intent. An action pairs the operation a
backend will carry out with the argument vector people are shown; for every
operation but execution the vector is computed from the operation, and the
field `displayed` says so.
-/

namespace McpSsh

inductive ActionKind
  | execute
  | download
  | upload
  | stat
  | list
  | checksum
  deriving DecidableEq, Repr

def ActionKind.asStr : ActionKind → String
  | .execute => "execute"
  | .download => "download"
  | .upload => "upload"
  | .stat => "stat"
  | .list => "list"
  | .checksum => "checksum"

/-- File content identity, excluding the content itself. -/
structure FileIdentity where
  uri : String
  bytes : UInt64
  sha256 : String
  deriving DecidableEq, Repr

inductive Operation
  | execute
  | download (path : RemotePath)
  | fileInfo (path : RemotePath) (operation : InfoOperation)
  | upload (path : RemotePath) (source : FileIdentity) (overwrite : Bool)
      (stagingPath : Option RemotePath)
  deriving DecidableEq

/-- The program a file inspection is displayed as. -/
def InfoOperation.program : InfoOperation → String
  | .stat => "file.stat"
  | .list => "file.list"
  | .checksum => "file.checksum"

/-- The vector a file operation is displayed as. An execution is displayed as
its own command. -/
def Operation.displayArgv : Operation → Option (List String)
  | .execute => none
  | .download path => some ["file.download", path.raw]
  | .fileInfo path operation => some [operation.program, path.raw]
  | .upload path source overwrite stagingPath =>
    some (["file.upload", path.raw, Nat.repr source.bytes.toNat, source.sha256,
        if overwrite then "replace" else "create_new"] ++
      match stagingPath with
      | some stage => ["staged", stage.raw]
      | none => [])

/-- An operation and the command that displays it. The fields are private in
the source, so only the constructors below make one. -/
structure Action where
  operation : Operation
  command : Command
  displayed : ∀ argv, operation.displayArgv = some argv → command.argv = argv
  deriving DecidableEq

/-- A file operation with the vector it is displayed as, if that vector is a
command. -/
def Action.display (operation : Operation) (argv : List String)
    (shown : operation.displayArgv = some argv) : Except CommandError Action :=
  match built : Command.new argv with
  | .error error => .error error
  | .ok command => .ok ⟨operation, command, by
      intro other same
      rw [shown] at same
      cases same
      exact Command.new_argv built⟩

/-- `Action::execute`. -/
def Action.execute (command : Command) : Action :=
  ⟨.execute, command, fun _ shown => by cases shown⟩

instance : Inhabited Action := ⟨Action.execute default⟩

/-- `Action::download`. -/
def Action.download (path : RemotePath) : Except CommandError Action :=
  Action.display (.download path) ["file.download", path.raw] rfl

/-- `Action::file_info`. -/
def Action.fileInfo (path : RemotePath) (operation : InfoOperation) :
    Except CommandError Action :=
  Action.display (.fileInfo path operation) [operation.program, path.raw] rfl

/-- `Action::upload_with_staging`. -/
def Action.uploadWithStaging (path : RemotePath) (source : FileIdentity) (overwrite : Bool)
    (stagingPath : Option RemotePath) : Except CommandError Action :=
  Action.display (.upload path source overwrite stagingPath) _ rfl

/-- `Action::kind`. -/
def Operation.kind : Operation → ActionKind
  | .execute => .execute
  | .download _ => .download
  | .upload .. => .upload
  | .fileInfo _ .stat => .stat
  | .fileInfo _ .list => .list
  | .fileInfo _ .checksum => .checksum

def Action.kind (action : Action) : ActionKind := action.operation.kind

end McpSsh
