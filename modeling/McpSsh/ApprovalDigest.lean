import McpSsh.Action
import McpSsh.Lib.PrefixCode
import Std.Data.String.ToNat

/-!
# What an approval is given for

`digest_parts` names the exact argument vector and agent explanation an
approval is about. The bytes it feeds to the hash are a fixed domain, then the
kind, the intent and each argument, every one behind its length in eight
little-endian bytes. `actionPreimage_inj` shows that those bytes determine the
kind, the intent and the vector, and hence — the vector of a file operation
being computed from it — every field of the operation except an upload's
source URI, which is not displayed.
-/

namespace McpSsh

/-- `b"mcp-ssh-action-v3"`. -/
def actionDomain : List UInt8 := asBytes "mcp-ssh-action-v3"

/-- The bytes `digest_parts` feeds to the hasher, in order. A `usize` length
is eight bytes on the targets this service runs on. -/
def digestParts (kind : ActionKind) (command : Command) (intent : CommandIntent) :
    List UInt8 :=
  actionDomain ++ PrefixCode.frame 8 (asBytes kind.asStr) ++
    PrefixCode.frame 8 (asBytes intent.text) ++
    PrefixCode.frames 8 (command.argv.map asBytes)

/-- The bytes hashed for an action under an intent. -/
def actionPreimage (action : Action) (intent : CommandIntent) : List UInt8 :=
  digestParts action.kind action.command intent

/-- `digest_action`. The hash is the `sha2` crate's. -/
def digestAction (sha256 : List UInt8 → Digest) (action : Action) (intent : CommandIntent) :
    Digest :=
  sha256 (actionPreimage action intent)

/-! ## The bytes determine the parts -/

theorem ActionKind.asStr_inj {a b : ActionKind} (same : a.asStr = b.asStr) : a = b := by
  cases a <;> cases b <;> first | rfl | simp [ActionKind.asStr] at same

theorem ActionKind.asStr_fits (kind : ActionKind) :
    (asBytes kind.asStr).length < 256 ^ 8 := by
  cases kind <;> decide

theorem CommandIntent.fits (intent : CommandIntent) :
    (asBytes intent.text).length < 256 ^ 8 := by
  have bound := intent.size_le
  simp only [asBytes_length, maxIntentBytes] at bound ⊢
  omega

theorem Command.fits (command : Command) {field : List UInt8}
    (member : field ∈ command.argv.map asBytes) : field.length < 256 ^ 8 := by
  obtain ⟨arg, argMember, rfl⟩ := List.mem_map.mp member
  have bound := command.arg_le argMember
  simp only [asBytes_length, maxBytes, maxWireBytes, maxArgs] at bound ⊢
  omega

/-- No boundary between two encodings is ambiguous. -/
theorem digestParts_inj {k l : ActionKind} {c e : Command} {i j : CommandIntent}
    (same : digestParts k c i = digestParts l e j) :
    k = l ∧ c.argv = e.argv ∧ i = j := by
  simp only [digestParts, List.append_assoc] at same
  have fields := List.append_cancel_left same
  obtain ⟨kinds, fields⟩ := PrefixCode.frame_append_inj k.asStr_fits l.asStr_fits fields
  obtain ⟨intents, fields⟩ := PrefixCode.frame_append_inj i.fits j.fits fields
  have vectors := PrefixCode.frames_inj (by decide)
    (fun _ member => c.fits member) (fun _ member => e.fits member) fields
  refine ⟨ActionKind.asStr_inj (asBytes_inj kinds), ?_, CommandIntent.ext_text (asBytes_inj intents)⟩
  exact List.map_injective_iff.mpr (fun _ _ => asBytes_inj) vectors

/-! ## The displayed vector determines the operation -/

/-- An operation with an upload's source URI blanked: what an approval binds. -/
def Operation.withoutUri : Operation → Operation
  | .upload path source overwrite stagingPath =>
    .upload path { source with uri := "" } overwrite stagingPath
  | operation => operation

theorem InfoOperation.program_inj {a b : InfoOperation} (same : a.program = b.program) :
    a = b := by
  cases a <;> cases b <;> first | rfl | simp [InfoOperation.program] at same

/-- The vector of an upload names its destination, content, replacement choice
and staging path. -/
theorem upload_eq_of_displayArgv {path path' : RemotePath} {source source' : FileIdentity}
    {overwrite overwrite' : Bool} {stage stage' : Option RemotePath}
    (same : (Operation.upload path source overwrite stage).displayArgv =
      (Operation.upload path' source' overwrite' stage').displayArgv) :
    path = path' ∧ source.bytes = source'.bytes ∧ source.sha256 = source'.sha256 ∧
      overwrite = overwrite' ∧ stage = stage' := by
  simp only [Operation.displayArgv, Option.some.injEq, List.cons_append, List.nil_append,
    List.cons.injEq, true_and, Nat.repr_inj, UInt64.toNat_inj] at same
  obtain ⟨paths, sizes, hashes, choices, stages⟩ := same
  refine ⟨RemotePath.ext_raw paths, sizes, hashes, ?_, ?_⟩
  · cases overwrite <;> cases overwrite' <;> simp at choices <;> rfl
  · cases stage <;> cases stage' <;> simp at stages
    · rfl
    · exact congrArg some (RemotePath.ext_raw stages)

/-- What is displayed for a file operation names all of it but a source URI. -/
theorem Operation.withoutUri_eq_of_displayArgv {a b : Operation}
    (kinds : a.kind = b.kind) (displays : a.displayArgv = b.displayArgv) :
    a.withoutUri = b.withoutUri := by
  cases a with
  | execute =>
    cases b with
    | execute => rfl
    | download _ => cases displays
    | fileInfo _ _ => cases displays
    | upload => cases displays
  | download path =>
    cases b with
    | download path' =>
      simp only [Operation.displayArgv, Option.some.injEq, List.cons.injEq, and_true,
        true_and] at displays
      rw [RemotePath.ext_raw displays]
    | execute => cases displays
    | fileInfo _ operation => cases operation <;> cases kinds
    | upload => cases kinds
  | fileInfo path operation =>
    cases b with
    | fileInfo path' operation' =>
      simp only [Operation.displayArgv, Option.some.injEq, List.cons.injEq, and_true] at displays
      rw [InfoOperation.program_inj displays.1, RemotePath.ext_raw displays.2]
    | execute => cases displays
    | download _ => cases operation <;> cases kinds
    | upload => cases operation <;> cases kinds
  | upload path source overwrite stage =>
    cases b with
    | upload path' source' overwrite' stage' =>
      obtain ⟨rfl, sizes, hashes, rfl, rfl⟩ := upload_eq_of_displayArgv displays
      simp only [Operation.withoutUri, sizes, hashes]
    | execute => cases displays
    | download _ => cases kinds
    | fileInfo _ operation => cases operation <;> cases kinds

theorem Operation.displayArgv_eq_none_iff (operation : Operation) :
    operation.displayArgv = none ↔ operation.kind = .execute := by
  cases operation with
  | execute => simp [Operation.displayArgv, Operation.kind]
  | download _ => simp [Operation.displayArgv, Operation.kind]
  | fileInfo _ operation => cases operation <;> simp [Operation.displayArgv, Operation.kind]
  | upload => simp [Operation.displayArgv, Operation.kind]

/-- Anything but an execution is displayed as its own vector. -/
theorem Action.displayArgv_eq_some (action : Action) (file : action.kind ≠ .execute) :
    action.operation.displayArgv = some action.command.argv := by
  cases display : action.operation.displayArgv with
  | none => exact (file ((Operation.displayArgv_eq_none_iff _).mp display)).elim
  | some argv => rw [action.displayed argv display]

/-- Actions of one kind with one vector carry out one operation, up to the
source URI of an upload. -/
theorem Action.withoutUri_eq {a b : Action} (kinds : a.kind = b.kind)
    (vectors : a.command.argv = b.command.argv) :
    a.operation.withoutUri = b.operation.withoutUri := by
  apply Operation.withoutUri_eq_of_displayArgv kinds
  by_cases execution : a.kind = .execute
  · rw [(Operation.displayArgv_eq_none_iff _).mpr execution,
      (Operation.displayArgv_eq_none_iff _).mpr (kinds.symm.trans execution)]
  · rw [a.displayArgv_eq_some execution, b.displayArgv_eq_some (fun execute => execution (kinds.trans execute)), vectors]

/-- **Approval identity.** The bytes hashed for two actions under two intents
agree exactly when the intents, the kinds, the vectors and the operations do,
save for the source URI of an upload; an action and its copy with another
source URI therefore have one digest. -/
theorem approval_identity_injective (a b : Action) (i j : CommandIntent) :
    (actionPreimage a i = actionPreimage b j ↔
      i = j ∧ a.kind = b.kind ∧ a.command.argv = b.command.argv ∧
        a.operation.withoutUri = b.operation.withoutUri) ∧
    (a.command = b.command → a.operation.withoutUri = b.operation.withoutUri →
      ∀ sha256, digestAction sha256 a i = digestAction sha256 b i) := by
  have kind_withoutUri : ∀ operation : Operation, operation.withoutUri.kind = operation.kind := by
    intro operation
    cases operation <;> rfl
  constructor
  · constructor
    · intro same
      obtain ⟨kinds, vectors, intents⟩ := digestParts_inj same
      exact ⟨intents, kinds, vectors, Action.withoutUri_eq kinds vectors⟩
    · rintro ⟨rfl, kinds, vectors, -⟩
      simp only [actionPreimage, digestParts, kinds, vectors]
  · intro commands operations sha256
    have kinds : a.kind = b.kind := by
      rw [Action.kind, Action.kind, ← kind_withoutUri, operations, kind_withoutUri]
    simp only [digestAction, actionPreimage, kinds, commands]

end McpSsh
