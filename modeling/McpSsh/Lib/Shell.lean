import Mathlib.Data.List.TakeWhile
import Mathlib.Algebra.GroupWithZero.Nat

/-!
# How a POSIX shell reads a line

Token recognition and quote removal over bytes: a shell is handed a line, cuts
it into words, operators and comments, and only then looks at the words. Each
byte of a word is kept beside the quoting that stood around it, because that
is what decides everything the shell does next. Expansion, globbing, reserved
words and assignments are stated as conditions on a word so marked; what they
would expand to is not, since a word that is `Hard` meets none of them.
-/

namespace Shell

/-- What protects a byte of a word. -/
inductive Quoting
  | bare
  | double
  | single
  | escaped
  deriving DecidableEq, Repr

structure Piece where
  byte : UInt8
  quoting : Quoting
  deriving DecidableEq, Repr

/-- A word, and whether a quoting character stood anywhere in it: an empty pair
of quotes leaves no piece to show for it. -/
structure Word where
  quoted : Bool
  pieces : List Piece
  deriving DecidableEq, Repr

inductive Token
  | word (word : Word)
  | operator (byte : UInt8)
  | comment (text : List UInt8)
  deriving DecidableEq, Repr

/-- Space and tab. -/
def blanks : List UInt8 := [0x20, 0x09]

/-- Newline and `& ( ) ; < > |`: each byte of an operator is its own token. -/
def operators : List UInt8 := [0x0A, 0x26, 0x28, 0x29, 0x3B, 0x3C, 0x3E, 0x7C]

/-- What a backslash protects between double quotes: `$`, backquote, the double
quote and itself. -/
def doubleEscapes : List UInt8 := [0x24, 0x60, 0x22, 0x5C]

/-- No byte read yet. -/
def Word.start : Word := ⟨false, []⟩

def Word.push (word : Word) (byte : UInt8) (quoting : Quoting) : Word :=
  { word with pieces := word.pieces ++ [⟨byte, quoting⟩] }

/-- A quoting character was read. -/
def Word.quote (word : Word) : Word := { word with quoted := true }

/-- Quote removal. -/
def Word.text (word : Word) : List UInt8 := word.pieces.map (·.byte)

/-- Where the reader stands. -/
inductive Mode
  | between
  | comment (text : List UInt8)
  | word (word : Word)
  | single (word : Word)
  | double (word : Word)
  | doubleEscape (word : Word)
  | escape (begun : Option Word)
  deriving DecidableEq, Repr

/-- A byte that belongs to a word, outside of quotes. -/
def Word.read (word : Word) (byte : UInt8) : Mode :=
  if byte = 0x27 then .single word.quote
  else if byte = 0x22 then .double word.quote
  else .word (word.push byte .bare)

/-- One byte: the tokens it completes, and where it leaves the reader. -/
def Mode.step : Mode → UInt8 → List Token × Mode
  | .between, byte =>
    if byte ∈ blanks then ([], .between)
    else if byte ∈ operators then ([.operator byte], .between)
    else if byte = 0x23 then ([], .comment [])
    else if byte = 0x5C then ([], .escape none)
    else ([], Word.start.read byte)
  | .comment text, byte =>
    if byte = 0x0A then ([.comment text, .operator byte], .between)
    else ([], .comment (text ++ [byte]))
  | .word part, byte =>
    if byte ∈ blanks then ([.word part], .between)
    else if byte ∈ operators then ([.word part, .operator byte], .between)
    else if byte = 0x5C then ([], .escape (some part))
    else ([], part.read byte)
  | .single part, byte =>
    if byte = 0x27 then ([], .word part) else ([], .single (part.push byte .single))
  | .double part, byte =>
    if byte = 0x22 then ([], .word part)
    else if byte = 0x5C then ([], .doubleEscape part)
    else ([], .double (part.push byte .double))
  | .doubleEscape part, byte =>
    if byte = 0x0A then ([], .double part)
    else if byte ∈ doubleEscapes then ([], .double (part.push byte .escaped))
    else ([], .double ((part.push 0x5C .double).push byte .double))
  | .escape begun, byte =>
    -- A backslash and a newline are taken out as if they had not been there.
    if byte = 0x0A then ([], begun.elim .between .word)
    else ([], .word ((begun.getD .start).quote.push byte .escaped))

/-- What the end of the line completes, unless it stands inside a quotation. -/
def Mode.finish : Mode → Option (List Token)
  | .between => some []
  | .comment text => some [.comment text]
  | .word part => some [.word part]
  | .single _ | .double _ | .doubleEscape _ | .escape _ => none

def Mode.run : Mode → List UInt8 → List Token × Mode
  | mode, [] => ([], mode)
  | mode, byte :: rest =>
    ((mode.step byte).1 ++ ((mode.step byte).2.run rest).1, ((mode.step byte).2.run rest).2)

/-- The tokens of a line, unless it ends inside a quotation. -/
def tokens (line : List UInt8) : Option (List Token) :=
  (Mode.between.run line).2.finish.map ((Mode.between.run line).1 ++ ·)

/-- A line arrives as a C string, so it ends at its first NUL. -/
def received (line : List UInt8) : List UInt8 :=
  line.takeWhile (· ≠ 0)

theorem received_of_notMem {line : List UInt8} (absent : 0 ∉ line) : received line = line := by
  apply List.takeWhile_eq_self_iff.mpr
  intro byte member
  have differs : byte ≠ 0 := fun here => absent (here ▸ member)
  simpa using differs

/-! ## What a shell does with a word -/

/-- The words that are syntax where a command may begin, when nothing in them
is quoted: `! { } case do done elif else esac fi for if in then until while`. -/
def reservedWords : List (List UInt8) :=
  ["!", "\x7b", "\x7d", "case", "do", "done", "elif", "else", "esac", "fi", "for", "if", "in", "then",
    "until", "while"].map (fun name => name.toList.map (fun c => UInt8.ofNat c.toNat))

def Word.Reserved (word : Word) : Prop := word.quoted = false ∧ word.text ∈ reservedWords

/-- A bare name in front of a bare `=`. -/
def Word.Assigns (word : Word) : Prop :=
  ∃ name rest, word.pieces = name ++ ⟨0x3D, .bare⟩ :: rest ∧ ∀ piece ∈ name, piece.quoting = .bare

/-- `$` and backquote expand bare and between double quotes; `~` and `{` only
bare. -/
def Word.Expands (word : Word) : Prop :=
  ∃ piece ∈ word.pieces,
    (piece.byte ∈ [0x24, 0x60] ∧ piece.quoting ∈ [Quoting.bare, .double]) ∨
      (piece.byte ∈ [0x7E, 0x7B] ∧ piece.quoting = .bare)

/-- A bare `*`, `?` or `[`. -/
def Word.Globs (word : Word) : Prop :=
  ∃ piece ∈ word.pieces, piece.byte ∈ [0x2A, 0x3F, 0x5B] ∧ piece.quoting = .bare

/-- The shell takes the word as its text and does nothing else with it. Having
been quoted, it is no alias either. -/
structure Word.Inert (word : Word) : Prop where
  quoted : word.quoted = true
  reserved : ¬ word.Reserved
  assigns : ¬ word.Assigns
  expands : ¬ word.Expands
  globs : ¬ word.Globs

/-- Every byte stands between single quotes or behind a backslash. -/
def Word.Hard (word : Word) : Prop :=
  ∀ piece ∈ word.pieces, piece.quoting = .single ∨ piece.quoting = .escaped

theorem Word.Hard.not_bare {word : Word} (hard : word.Hard) {piece : Piece}
    (member : piece ∈ word.pieces) : piece.quoting ≠ .bare ∧ piece.quoting ≠ .double := by
  rcases hard piece member with single | escaped
  · simp [single]
  · simp [escaped]

/-- Nothing a shell does with bare or double-quoted bytes is left to do. -/
theorem Word.Hard.inert {word : Word} (hard : word.Hard) (quoted : word.quoted = true) :
    word.Inert where
  quoted := quoted
  reserved := fun ⟨unquoted, _⟩ => by simp [quoted] at unquoted
  assigns := by
    rintro ⟨name, rest, pieces, -⟩
    have member : (⟨0x3D, .bare⟩ : Piece) ∈ word.pieces := by simp [pieces]
    exact (hard.not_bare member).1 rfl
  expands := by
    rintro ⟨piece, member, ⟨-, open'⟩ | ⟨-, bare⟩⟩
    · have := hard.not_bare member
      simp_all
    · exact (hard.not_bare member).1 bare
  globs := fun ⟨piece, member, _, bare⟩ => (hard.not_bare member).1 bare

/-! ## Reading a line part by part -/

variable {mode : Mode} {word : Word}

@[simp] theorem Mode.run_nil : mode.run [] = ([], mode) := rfl

theorem Mode.run_cons (byte : UInt8) (rest : List UInt8) :
    mode.run (byte :: rest) =
      ((mode.step byte).1 ++ ((mode.step byte).2.run rest).1, ((mode.step byte).2.run rest).2) :=
  rfl

theorem Mode.run_append (first rest : List UInt8) :
    mode.run (first ++ rest) =
      ((mode.run first).1 ++ ((mode.run first).2.run rest).1,
        ((mode.run first).2.run rest).2) := by
  induction first generalizing mode with
  | nil => simp
  | cons byte first ih => simp [Mode.run_cons, ih]

/-! ## Single quotes -/

/-- A text between single quotes; a single quote in it closes the quotation,
is escaped, and opens the next. -/
def singleQuote (text : List UInt8) : List UInt8 :=
  0x27 :: text.flatMap (fun byte => if byte = 0x27 then [0x27, 0x5C, 0x27, 0x27] else [byte]) ++
    [0x27]

/-- What reading a text so quoted adds to a word. -/
def quotedPieces (text : List UInt8) : List Piece :=
  text.map (fun byte => ⟨byte, if byte = 0x27 then .escaped else .single⟩)

/-- The word that a quoted text is read as. -/
def quotedWord (text : List UInt8) : Word := ⟨true, quotedPieces text⟩

@[simp] theorem quotedWord_text (text : List UInt8) : (quotedWord text).text = text := by
  simp [quotedWord, quotedPieces, Word.text, Function.comp_def]

theorem quotedWord_hard (text : List UInt8) : (quotedWord text).Hard := by
  intro piece member
  obtain ⟨byte, -, rfl⟩ := List.mem_map.mp member
  by_cases quote : byte = 0x27 <;> simp [quote]

/-- The length of a quoted text: two quotes, and three more bytes for every
quote inside. -/
theorem singleQuote_length (text : List UInt8) :
    (singleQuote text).length = text.length + 3 * text.count 0x27 + 2 := by
  have inside : (text.flatMap (fun byte =>
      if byte = 0x27 then [0x27, 0x5C, 0x27, 0x27] else [byte])).length =
        text.length + 3 * text.count 0x27 := by
    induction text with
    | nil => rfl
    | cons byte text ih =>
      rw [List.flatMap_cons, List.length_append, ih, List.count_cons]
      by_cases quote : byte = 0x27
      · simp [quote]; omega
      · simp [quote]; omega
  simp only [singleQuote, List.cons_append, List.length_cons, List.length_append, inside,
    List.length_nil]

/-- Inside the quotation, the text is read into the word byte by byte. -/
theorem Mode.run_quotation (quoted : word.quoted = true) (text : List UInt8) :
    (Mode.single word).run (text.flatMap (fun byte =>
      if byte = 0x27 then [0x27, 0x5C, 0x27, 0x27] else [byte])) =
        ([], .single ⟨true, word.pieces ++ quotedPieces text⟩) := by
  induction text generalizing word with
  | nil => cases word; simp_all [quotedPieces]
  | cons byte text ih =>
    rw [List.flatMap_cons, Mode.run_append]
    by_cases quote : byte = 0x27
    · -- The quotation is left and entered again around the escaped quote.
      have step : (Mode.single word).run [0x27, 0x5C, 0x27, 0x27] =
          ([], .single (word.push 0x27 .escaped)) := by
        cases word
        simp_all [Mode.run, Mode.step, Word.read, Word.push, Word.quote, blanks, operators]
      rw [if_pos quote, step, ih (by simpa [Word.push] using quoted)]
      simp [quotedPieces, Word.push, quote]
    · have step : (Mode.single word).run [byte] = ([], .single (word.push byte .single)) := by
        simp [Mode.run, Mode.step, quote]
      rw [if_neg quote, step, ih (by simpa [Word.push] using quoted)]
      simp [quotedPieces, Word.push, quote]

/-- Between words, a quoted text begins the word it stands for. -/
theorem Mode.run_singleQuote (text : List UInt8) :
    Mode.between.run (singleQuote text) = ([], .word (quotedWord text)) := by
  rw [singleQuote, List.cons_append, Mode.run_cons]
  have begin' : Mode.between.step 0x27 = ([], .single Word.start.quote) := by decide
  rw [begin', Mode.run_append, Mode.run_quotation rfl]
  simp [Mode.run, Mode.step, Word.start, Word.quote, quotedWord]

/-- Quoted texts with a space between them: the words of a line. -/
def line (texts : List (List UInt8)) : List UInt8 :=
  List.intercalate [0x20] (texts.map singleQuote)

theorem line_cons_cons (text next : List UInt8) (rest : List (List UInt8)) :
    line (text :: next :: rest) = singleQuote text ++ 0x20 :: line (next :: rest) := by
  simp [line, List.intercalate]

/-- Quoting makes at most four bytes of one, and each word costs two quotes and
a space on top. -/
theorem line_length_le (texts : List (List UInt8)) :
    (line texts).length ≤ 4 * (texts.map List.length).sum + 3 * texts.length := by
  induction texts with
  | nil => simp [line]
  | cons text rest ih =>
    have quotes : text.count 0x27 ≤ text.length := List.count_le_length
    cases rest with
    | nil =>
      simp [line, List.intercalate, singleQuote_length]
      omega
    | cons next rest =>
      rw [line_cons_cons, List.length_append, singleQuote_length, List.length_cons]
      simp only [List.map_cons, List.sum_cons, List.length_cons] at ih ⊢
      omega

/-- Nothing is in the line but what is in the texts, and quotes, backslashes
and spaces. -/
theorem mem_line {texts : List (List UInt8)} {byte : UInt8} (member : byte ∈ line texts) :
    (∃ text ∈ texts, byte ∈ text) ∨ byte ∈ [0x27, 0x5C, 0x20] := by
  induction texts with
  | nil => simp [line] at member
  | cons text rest ih =>
    have inQuote : byte ∈ singleQuote text → byte ∈ text ∨ byte ∈ [0x27, 0x5C, 0x20] := by
      intro inside
      simp only [singleQuote, List.mem_append, List.mem_cons, List.mem_flatMap] at inside
      grind
    cases rest with
    | nil =>
      have only : line [text] = singleQuote text := by simp [line, List.intercalate]
      rcases inQuote (only ▸ member) with inside | other
      · exact .inl ⟨text, by simp, inside⟩
      · exact .inr other
    | cons next rest =>
      rw [line_cons_cons, List.mem_append, List.mem_cons] at member
      rcases member with first | rfl | later
      · rcases inQuote first with inside | other
        · exact .inl ⟨text, by simp, inside⟩
        · exact .inr other
      · simp
      · rcases ih later with ⟨other, among, inside⟩ | plain
        · exact .inl ⟨other, List.mem_cons_of_mem _ among, inside⟩
        · exact .inr plain

/-- The shell reads back exactly the texts, one word for each. -/
theorem tokens_line (texts : List (List UInt8)) :
    tokens (line texts) = some (texts.map (fun text => .word (quotedWord text))) := by
  induction texts with
  | nil => rfl
  | cons text rest ih =>
    cases rest with
    | nil => simp [line, tokens, Mode.run_singleQuote, Mode.finish, List.intercalate]
    | cons next rest =>
      have blank : (Mode.word (quotedWord text)).step 0x20 =
          ([.word (quotedWord text)], .between) := by
        simp [Mode.step, blanks]
      unfold tokens at ih ⊢
      obtain ⟨last, finished, tokens⟩ := Option.map_eq_some_iff.mp ih
      rw [line_cons_cons, Mode.run_append, Mode.run_singleQuote]
      simp only [Mode.run_cons, blank, finished, List.nil_append, Option.map_some]
      rw [List.append_assoc, tokens]
      rfl

end Shell
