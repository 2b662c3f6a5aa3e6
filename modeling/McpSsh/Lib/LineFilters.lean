import McpSsh.Lib.Json
import Mathlib.Data.List.Infix

/-!
# Line filters

The part of a log query that picks lines by their text. `|=` and a quoted word
keeps the lines the word is found in; `|~` and a quoted pattern keeps those a
match of it is found in. A pattern without repetition matches finitely many
words, and is read as them. Of some filters in a row all have to keep a line.
-/

namespace LineFilters

abbrev Word := List Char

/-! ## Literals -/

/-- An escape after its backslash, of those that name one character. -/
def readEscape : List Char → Option (Char × List Char)
  | [] => none
  | c :: rest =>
    if c = '"' ∨ c = '\\' then some (c, rest)
    else if c = 'a' then some (Char.ofNat 7, rest)
    else if c = 'b' then some (Char.ofNat 8, rest)
    else if c = 't' then some (Char.ofNat 9, rest)
    else if c = 'n' then some (Char.ofNat 10, rest)
    else if c = 'v' then some (Char.ofNat 11, rest)
    else if c = 'f' then some (Char.ofNat 12, rest)
    else if c = 'r' then some (Char.ofNat 13, rest)
    else if c = 'u' then
      (Json.readHex rest).bind fun (unit, rest) =>
        if unit.isValidChar then some (Char.ofNat unit, rest) else none
    else none

/-- A literal after its first quote. -/
def readLiteral : Nat → List Char → Option (Word × List Char)
  | 0, _ => none
  | _, [] => none
  | fuel + 1, c :: rest =>
    if c = '"' then some ([], rest)
    else if c = '\\' then do
      let (c, rest) ← readEscape rest
      let (word, rest) ← readLiteral fuel rest
      return (c :: word, rest)
    else if c = '\n' then none
    else do
      let (word, rest) ← readLiteral fuel rest
      return (c :: word, rest)

/-! ## Patterns -/

/-- Whether a character stands for itself in a pattern. -/
def isPlain (c : Char) : Bool :=
  c ∉ ['\\', '|', '(', ')', '[', ']', '{', '.', '*', '+', '?', '^', '$']

/-- A character after a backslash, which is not one that makes a class of it. -/
def readMark : List Char → Option (Char × List Char)
  | [] => none
  | c :: rest => if c.isAlphanum then none else some (c, rest)

/-- The end of a group. -/
def readClose : List Char → Option (List Char)
  | ')' :: rest => some rest
  | _ => none

mutual

/-- The words of what stands before the end of a choice. -/
def readBranch : Nat → List Char → Option (List Word × List Char)
  | 0, _ => none
  | _ + 1, [] => some ([[]], [])
  | fuel + 1, c :: rest =>
    if c = '|' ∨ c = ')' then some ([[]], c :: rest)
    else if c = '(' then do
      let (inner, rest) ← readChoices fuel rest
      let rest ← readClose rest
      let (later, rest) ← readBranch fuel rest
      return (inner.flatMap fun word => later.map (word ++ ·), rest)
    else if c = '\\' then do
      let (mark, rest) ← readMark rest
      let (later, rest) ← readBranch fuel rest
      return (later.map (mark :: ·), rest)
    else if isPlain c then do
      let (later, rest) ← readBranch fuel rest
      return (later.map (c :: ·), rest)
    else none

/-- The words of choices. -/
def readChoices : Nat → List Char → Option (List Word × List Char)
  | 0, _ => none
  | fuel + 1, text => do
    let (first, rest) ← readBranch fuel text
    match rest with
    | '|' :: rest => do
      let (others, rest) ← readChoices fuel rest
      return (first ++ others, rest)
    | _ => return (first, rest)

end

/-- The words a pattern matches. -/
def readPattern (pattern : List Char) : Option (List Word) := do
  let (words, rest) ← readChoices (2 * pattern.length + 2) pattern
  if rest = [] then some words else none

/-! ## Filters -/

/-- The words of each filter in a row. -/
def readFilters : Nat → List Char → Option (List (List Word))
  | 0, _ => none
  | _ + 1, [] => some []
  | fuel + 1, ' ' :: '|' :: '=' :: ' ' :: '"' :: rest => do
    let (word, rest) ← readLiteral (rest.length + 1) rest
    let filters ← readFilters fuel rest
    return [word] :: filters
  | fuel + 1, ' ' :: '|' :: '~' :: ' ' :: '"' :: rest => do
    let (pattern, rest) ← readLiteral (rest.length + 1) rest
    let words ← readPattern pattern
    let filters ← readFilters fuel rest
    return words :: filters
  | _ + 1, _ => none

/-- Whether every filter of a query keeps a line. A query that cannot be read
keeps nothing. -/
def selects (query line : String) : Bool :=
  (readFilters (query.toList.length + 1) query.toList).any fun filters =>
    filters.all fun words => words.any fun word => decide (word <:+: line.toList)

/-! ## Literals read back -/

/-- A string of JSON is written as a literal is. -/
theorem escapeChar_cases (c : Char) :
    (c ≠ '"' ∧ c ≠ '\\' ∧ c ≠ '\n' ∧ Json.escapeChar c = [c]) ∨
      ∃ body, Json.escapeChar c = '\\' :: body ∧
        ∀ rest, readEscape (body ++ rest) = some (c, rest) := by
  have small {n : Nat} (valid : n < 0x20) (is : c.toNat = n) : c = Char.ofNat n := by
    rw [← is, Char.ofNat_toNat]
  unfold Json.escapeChar
  split
  case isTrue quote => exact .inr ⟨_, rfl, fun rest => by rw [quote]; rfl⟩
  case isFalse unquoted =>
  split
  case isTrue slash => exact .inr ⟨_, rfl, fun rest => by rw [slash]; rfl⟩
  case isFalse unslashed =>
  split
  case isTrue is => exact .inr ⟨_, rfl, fun rest => by rw [small (by decide) is]; rfl⟩
  case isFalse =>
  split
  case isTrue is => exact .inr ⟨_, rfl, fun rest => by rw [small (by decide) is]; rfl⟩
  case isFalse =>
  split
  case isTrue is => exact .inr ⟨_, rfl, fun rest => by rw [small (by decide) is]; rfl⟩
  case isFalse other =>
  split
  case isTrue is => exact .inr ⟨_, rfl, fun rest => by rw [small (by decide) is]; rfl⟩
  case isFalse =>
  split
  case isTrue is => exact .inr ⟨_, rfl, fun rest => by rw [small (by decide) is]; rfl⟩
  case isFalse =>
  split
  case isTrue low =>
    refine .inr ⟨_, rfl, fun rest => ?_⟩
    have zero : Json.hexValue '0' = some 0 := by decide
    have first := Json.hexValue_digitChar (c.toNat / 16) (by omega)
    have second := Json.hexValue_digitChar (c.toNat % 16) (by omega)
    have is : c.toNat / 16 * 16 + c.toNat % 16 = c.toNat := Nat.div_add_mod' _ _
    have valid : c.toNat.isValidChar := .inl (by omega)
    simp [readEscape, Json.readHex, zero, first, second, is, valid]
  case isFalse high =>
    refine .inl ⟨unquoted, unslashed, ?_, rfl⟩
    rintro rfl
    exact other rfl

/-- What was written of a text reads back, up to the closing quote. -/
theorem readLiteral_escape (text rest : List Char) {fuel : Nat} (enough : text.length < fuel) :
    readLiteral fuel (Json.escape text ++ '"' :: rest) = some (text, rest) := by
  induction text generalizing fuel with
  | nil =>
    obtain ⟨fuel, rfl⟩ := Nat.exists_eq_add_one_of_ne_zero (Nat.ne_zero_of_lt enough)
    rfl
  | cons c text ih =>
    obtain ⟨fuel, rfl⟩ := Nat.exists_eq_add_one_of_ne_zero (Nat.ne_zero_of_lt enough)
    have reads := ih (Nat.lt_of_succ_lt_succ enough)
    rw [Json.escape_cons]
    rcases escapeChar_cases c with ⟨unquoted, unslashed, unbroken, is⟩ | ⟨body, is, escaped⟩
    · rw [is]
      simp only [List.cons_append, List.nil_append, readLiteral, if_neg unquoted, if_neg unslashed,
        if_neg unbroken, reads]
      rfl
    · rw [is]
      simp only [List.cons_append, List.append_assoc, readLiteral, Char.reduceEq, if_false, if_true,
        escaped, Option.bind_eq_bind, Option.bind_some, reads]
      rfl

/-! ## Patterns read back -/

/-- What the front of a text is read as, whatever it is read with. -/
structure Branch (text : List Char) (words : List Word) (rest : List Char) : Prop where
  shorter : rest.length ≤ text.length
  reads : ∀ fuel, 2 * text.length < fuel → readBranch fuel text = some (words, rest)

structure Choices (text : List Char) (words : List Word) (rest : List Char) : Prop where
  shorter : rest.length ≤ text.length
  reads : ∀ fuel, 2 * text.length + 1 < fuel → readChoices fuel text = some (words, rest)

variable {text inner rest tail : List Char} {words others : List Word} {c : Char}

theorem Branch.end' : Branch [] [[]] [] where
  shorter := Nat.le_refl _
  reads := by
    intro fuel enough
    obtain ⟨fuel, rfl⟩ := Nat.exists_eq_add_one_of_ne_zero (Nat.ne_zero_of_lt enough)
    rfl

theorem Branch.stop (stops : c = '|' ∨ c = ')') (rest : List Char) :
    Branch (c :: rest) [[]] (c :: rest) where
  shorter := Nat.le_refl _
  reads := by
    intro fuel enough
    obtain ⟨fuel, rfl⟩ := Nat.exists_eq_add_one_of_ne_zero (Nat.ne_zero_of_lt enough)
    rw [readBranch, if_pos stops]

theorem Branch.plain (plain : isPlain c = true) (branch : Branch rest words tail) :
    Branch (c :: rest) (words.map (c :: ·)) tail where
  shorter := Nat.le_succ_of_le branch.shorter
  reads := by
    intro fuel enough
    obtain ⟨fuel, rfl⟩ := Nat.exists_eq_add_one_of_ne_zero (Nat.ne_zero_of_lt enough)
    rw [List.length_cons] at enough
    have reads := branch.reads fuel (by omega)
    have other : c ≠ '|' ∧ c ≠ ')' ∧ c ≠ '(' ∧ c ≠ '\\' := by
      refine ⟨?_, ?_, ?_, ?_⟩ <;> (rintro rfl; exact absurd plain (by decide))
    rw [readBranch, if_neg (by simp [other]), if_neg other.2.2.1, if_neg other.2.2.2, if_pos plain,
      reads]
    rfl

theorem Branch.quoted (mark : c.isAlphanum = false) (branch : Branch rest words tail) :
    Branch ('\\' :: c :: rest) (words.map (c :: ·)) tail where
  shorter := Nat.le_succ_of_le (Nat.le_succ_of_le branch.shorter)
  reads := by
    intro fuel enough
    obtain ⟨fuel, rfl⟩ := Nat.exists_eq_add_one_of_ne_zero (Nat.ne_zero_of_lt enough)
    rw [List.length_cons, List.length_cons] at enough
    have reads := branch.reads fuel (by omega)
    have marks : readMark (c :: rest) = some (c, rest) := by rw [readMark, mark]; rfl
    rw [readBranch, if_neg (by decide), if_neg (by decide), if_pos rfl, marks]
    simp only [Option.bind_eq_bind, Option.bind_some, reads]
    rfl

theorem Choices.group (choices : Choices inner words (')' :: rest)) (branch : Branch rest others tail) :
    Branch ('(' :: inner) (words.flatMap fun word => others.map (word ++ ·)) tail where
  shorter := by
    have shorter := choices.shorter
    have shorter' := branch.shorter
    rw [List.length_cons] at shorter ⊢
    omega
  reads := by
    intro fuel enough
    obtain ⟨fuel, rfl⟩ := Nat.exists_eq_add_one_of_ne_zero (Nat.ne_zero_of_lt enough)
    have shorter := choices.shorter
    rw [List.length_cons] at enough shorter
    have first := choices.reads fuel (by omega)
    have later := branch.reads fuel (by omega)
    rw [readBranch, if_neg (by decide), if_pos rfl, first]
    simp only [Option.bind_eq_bind, Option.bind_some, readClose, later]
    rfl

/-- A word without special characters. -/
theorem Branch.word {word : Word} (plain : ∀ c ∈ word, isPlain c = true)
    (branch : Branch rest words tail) : Branch (word ++ rest) (words.map (word ++ ·)) tail := by
  induction word with
  | nil =>
    simp only [List.nil_append, List.map_id']
    exact branch
  | cons c word ih =>
    obtain ⟨first, later⟩ := List.forall_mem_cons.mp plain
    have branch' := (ih later).plain first
    rw [List.map_map] at branch'
    exact branch'

theorem Choices.one (branch : Branch text words rest) (last : rest.head? ≠ some '|') :
    Choices text words rest where
  shorter := branch.shorter
  reads := by
    intro fuel enough
    obtain ⟨fuel, rfl⟩ := Nat.exists_eq_add_one_of_ne_zero (Nat.ne_zero_of_lt enough)
    rw [readChoices, branch.reads fuel (by omega)]
    simp only [Option.bind_eq_bind, Option.bind_some]
    split
    · exact absurd rfl last
    · rfl

theorem Choices.more (branch : Branch text words ('|' :: rest)) (choices : Choices rest others tail) :
    Choices text (words ++ others) tail where
  shorter := by
    have shorter := branch.shorter
    have shorter' := choices.shorter
    rw [List.length_cons] at shorter
    omega
  reads := by
    intro fuel enough
    obtain ⟨fuel, rfl⟩ := Nat.exists_eq_add_one_of_ne_zero (Nat.ne_zero_of_lt enough)
    have shorter := branch.shorter
    rw [List.length_cons] at shorter
    rw [readChoices, branch.reads fuel (by omega)]
    simp only [Option.bind_eq_bind, Option.bind_some, choices.reads fuel (by omega)]
    rfl

/-- Words with bars between them, in a group. -/
theorem Choices.joined (plain : ∀ word ∈ words, ∀ c ∈ word, isPlain c = true) (some' : words ≠ [])
    (rest : List Char) :
    Choices (List.intercalate ['|'] words ++ ')' :: rest) words (')' :: rest) := by
  induction words with
  | nil => exact absurd rfl some'
  | cons first more ih =>
    obtain ⟨own, others⟩ := List.forall_mem_cons.mp plain
    cases more with
    | nil =>
      have branch := (Branch.stop (.inr rfl) rest).word own
      simp only [List.map_cons, List.append_nil, List.map_nil] at branch
      simp only [List.intercalate_singleton]
      exact .one branch (by simp)
    | cons second more =>
      have branch := (Branch.stop (.inl rfl)
        (List.intercalate ['|'] (second :: more) ++ ')' :: rest)).word own
      simp only [List.map_cons, List.append_nil, List.map_nil] at branch
      have joined : List.intercalate ['|'] (first :: second :: more) ++ ')' :: rest =
          first ++ '|' :: (List.intercalate ['|'] (second :: more) ++ ')' :: rest) := by
        rw [List.intercalate_cons_cons]
        simp
      rw [joined]
      exact .more branch (ih others (List.cons_ne_nil _ _))

theorem Choices.pattern (choices : Choices text words []) : readPattern text = some words := by
  unfold readPattern
  rw [choices.reads _ (by omega)]
  rfl

/-! ## Filters read back -/

/-- What a query that begins with some text asks for. -/
def Reads (query : List Char) (filters : List (List Word)) : Prop :=
  ∀ rest more, (∀ fuel, rest.length < fuel → readFilters fuel rest = some more) →
    ∀ fuel, (query ++ rest).length < fuel → readFilters fuel (query ++ rest) = some (filters ++ more)

theorem Reads.append {query query' : List Char} {filters filters' : List (List Word)}
    (first : Reads query filters) (second : Reads query' filters') :
    Reads (query ++ query') (filters ++ filters') := by
  intro rest more reads
  rw [List.append_assoc, List.append_assoc]
  exact first _ _ (second rest more reads)

/-- A filter for a word. -/
theorem Reads.contains (word : Word) :
    Reads (" |= \"".toList ++ (Json.escape word ++ ['"'])) [[word]] := by
  intro rest more reads fuel enough
  obtain ⟨fuel, rfl⟩ := Nat.exists_eq_add_one_of_ne_zero (Nat.ne_zero_of_lt enough)
  have long := Json.length_le_escape word
  have literal : readLiteral ((Json.escape word ++ '"' :: rest).length + 1)
      (Json.escape word ++ '"' :: rest) = some (word, rest) :=
    readLiteral_escape word rest (by rw [List.length_append]; omega)
  have later := reads fuel (by
    simp only [List.length_append, List.length_cons] at enough
    omega)
  have split : " |= \"".toList ++ (Json.escape word ++ ['"']) ++ rest =
      ' ' :: '|' :: '=' :: ' ' :: '"' :: (Json.escape word ++ '"' :: rest) := by simp
  rw [split, readFilters, literal]
  simp only [Option.bind_eq_bind, Option.bind_some, later]
  rfl

/-- A filter for a pattern. -/
theorem Reads.finds {pattern : List Char} {words : List Word}
    (read : readPattern pattern = some words) :
    Reads (" |~ \"".toList ++ (Json.escape pattern ++ ['"'])) [words] := by
  intro rest more reads fuel enough
  obtain ⟨fuel, rfl⟩ := Nat.exists_eq_add_one_of_ne_zero (Nat.ne_zero_of_lt enough)
  have long := Json.length_le_escape pattern
  have literal : readLiteral ((Json.escape pattern ++ '"' :: rest).length + 1)
      (Json.escape pattern ++ '"' :: rest) = some (pattern, rest) :=
    readLiteral_escape pattern rest (by rw [List.length_append]; omega)
  have later := reads fuel (by
    simp only [List.length_append, List.length_cons] at enough
    omega)
  have split : " |~ \"".toList ++ (Json.escape pattern ++ ['"']) ++ rest =
      ' ' :: '|' :: '~' :: ' ' :: '"' :: (Json.escape pattern ++ '"' :: rest) := by simp
  rw [split, readFilters, literal]
  simp only [Option.bind_eq_bind, Option.bind_some, read, later]
  rfl

/-- A query keeps the lines each of its filters finds a word in. -/
theorem Reads.selects {query : String} {filters : List (List Word)}
    (reads : Reads query.toList filters) (line : String) :
    selects query line = true ↔ ∀ words ∈ filters, ∃ word ∈ words, word <:+: line.toList := by
  have nothing : ∀ fuel, ([] : List Char).length < fuel → readFilters fuel [] = some [] := by
    intro fuel enough
    obtain ⟨fuel, rfl⟩ := Nat.exists_eq_add_one_of_ne_zero (Nat.ne_zero_of_lt enough)
    rfl
  have parsed := reads [] [] nothing (query.toList.length + 1) (by simp)
  rw [List.append_nil, List.append_nil] at parsed
  simp only [LineFilters.selects, parsed, Option.any_some, List.all_eq_true, List.any_eq_true,
    decide_eq_true_eq]

end LineFilters
