import McpSsh.Command
import McpSsh.Lib.Shell

/-!
# The wire form of a command

RFC 4254's exec request carries one string, which the target's login shell
parses. `to_wire` quotes every argument, and what the shell reads back is the
argument vector: in bytes, since that is what crosses.
-/

namespace McpSsh

/-- `shell_quote`. -/
def shellQuote (arg : String) : String :=
  (arg.toList.foldl (fun quoted ch =>
    if ch = '\'' then quoted ++ "'\\''" else quoted.push ch) "'").push '\''

/-- `Command::to_wire`. -/
def Command.toWire (command : Command) : String :=
  " ".intercalate (command.argv.map shellQuote)

/-- What the shell quotes in one character is what the source does. -/
theorem quoted_utf8EncodeChar (ch : Char) :
    (String.utf8EncodeChar ch).flatMap (fun byte =>
        if byte = 0x27 then [0x27, 0x5C, 0x27, 0x27] else [byte]) =
      if ch = '\'' then asBytes "'\\''" else String.utf8EncodeChar ch := by
  by_cases quote : ch = '\''
  · subst quote
    decide
  · rw [if_neg quote]
    have plain : ∀ byte ∈ String.utf8EncodeChar ch, byte ≠ 0x27 := by
      rintro byte member rfl
      obtain ⟨-, same⟩ := utf8EncodeChar_of_ascii member (by decide)
      exact quote (Char.ext (UInt32.toNat_inj.mp same))
    calc (String.utf8EncodeChar ch).flatMap _
        = (String.utf8EncodeChar ch).flatMap (fun byte => [byte]) :=
          List.flatMap_congr fun byte member => if_neg (plain byte member)
      _ = String.utf8EncodeChar ch := by simp

theorem asBytes_shellQuote (arg : String) :
    asBytes (shellQuote arg) = Shell.singleQuote (asBytes arg) := by
  have loop : ∀ (chars : List Char) (quoted : String),
      asBytes (chars.foldl (fun quoted ch =>
          if ch = '\'' then quoted ++ "'\\''" else quoted.push ch) quoted) =
        asBytes quoted ++ (chars.flatMap String.utf8EncodeChar).flatMap (fun byte =>
          if byte = 0x27 then [0x27, 0x5C, 0x27, 0x27] else [byte]) := by
    intro chars
    induction chars with
    | nil => simp
    | cons ch chars ih =>
      intro quoted
      rw [List.foldl_cons, ih, List.flatMap_cons, List.flatMap_append, quoted_utf8EncodeChar]
      by_cases quote : ch = '\''
      · simp [quote]
      · simp [quote, asBytes_push]
  rw [shellQuote, asBytes_push, loop, ← asBytes_eq_flatMap]
  rfl

theorem asBytes_toWire (command : Command) :
    asBytes command.toWire = Shell.line (command.argv.map asBytes) := by
  unfold Command.toWire
  induction command.argv with
  | nil => rfl
  | cons arg rest ih =>
    cases rest with
    | nil => simp [Shell.line, asBytes_shellQuote, List.intercalate]
    | cons next rest =>
      simp only [List.map_cons, String.intercalate_cons_cons, asBytes_append] at ih ⊢
      rw [ih, asBytes_shellQuote, Shell.line_cons_cons, List.append_assoc]
      rfl

/-- What is accepted leaves room for the worst that quoting can do to it. -/
theorem Command.toWire_size_le (command : Command) :
    command.toWire.utf8ByteSize ≤ maxWireBytes := by
  have total := command.total_le
  have count := command.length_le
  have quoted := Shell.line_length_le (command.argv.map asBytes)
  have bytes : ((command.argv.map asBytes).map List.length).sum = argvBytes command.argv := by
    simp [argvBytes, Function.comp_def]
  rw [← asBytes_toWire, asBytes_length, bytes, List.length_map] at quoted
  simp only [maxBytes, maxWireBytes, maxArgs] at *
  omega

/-- No NUL stands in the wire text, so all of it reaches the shell. -/
theorem Command.received_toWire (command : Command) :
    Shell.received (asBytes command.toWire) = asBytes command.toWire := by
  apply Shell.received_of_notMem
  rw [asBytes_toWire]
  intro nul
  rcases Shell.mem_line nul with ⟨text, among, inside⟩ | plain
  · obtain ⟨arg, member, rfl⟩ := List.mem_map.mp among
    rw [asBytes_eq_flatMap] at inside
    obtain ⟨ch, inArg, encoded⟩ := List.mem_flatMap.mp inside
    obtain ⟨-, zero⟩ := utf8EncodeChar_of_ascii encoded (by decide)
    have isNul : ch = '\x00' := Char.ext (UInt32.toNat_inj.mp zero)
    exact command.nul_notMem member (isNul ▸ inArg)
  · simp at plain

/-- The target's shell reads an accepted command back as its argument vector:
one word for each argument, with every byte of it quoted, so that no word is
anything but its text, and no operator or comment between them. The text it
reads is never longer than one argument of an `execve` may be. -/
theorem Command.toWire_read {argv : List String} {command : Command}
    (built : Command.new argv = .ok command) :
    ∃ words : List Shell.Word,
      Shell.tokens (Shell.received (asBytes command.toWire)) = some (words.map .word) ∧
        words.map Shell.Word.text = argv.map asBytes ∧
        (∀ word ∈ words, word.Hard ∧ word.Inert) ∧
        command.toWire.utf8ByteSize ≤ maxWireBytes := by
  refine ⟨(command.argv.map asBytes).map Shell.quotedWord, ?_, ?_, ?_, command.toWire_size_le⟩
  · rw [command.received_toWire, asBytes_toWire, Shell.tokens_line, List.map_map, List.map_map,
      List.map_map]
    rfl
  · rw [← Command.new_argv built, List.map_map]
    simp [Function.comp_def]
  · intro word member
    obtain ⟨text, -, rfl⟩ := List.mem_map.mp member
    have hard := Shell.quotedWord_hard text
    exact ⟨hard, hard.inert rfl⟩

/-- An argument with a quote in it, an empty one, and one that would be a
command of its own. -/
theorem Command.toWire_read_sample :
    ∃ words : List Shell.Word,
      Shell.tokens (Shell.received (asBytes
        (⟨["printf", "it's", "", "; id"], by decide⟩ : Command).toWire)) = some (words.map .word) ∧
        words.map Shell.Word.text = ["printf", "it's", "", "; id"].map asBytes ∧
        (∀ word ∈ words, word.Hard ∧ word.Inert) ∧
        (⟨["printf", "it's", "", "; id"], by decide⟩ : Command).toWire.utf8ByteSize ≤
          maxWireBytes :=
  Command.toWire_read (by rfl)

end McpSsh
