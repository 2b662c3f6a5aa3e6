import Mathlib.Algebra.GroupWithZero.Nat
import Mathlib.Data.List.Basic
import Mathlib.Data.List.Chain
import Mathlib.Data.List.Dedup

/-!
# JSON

Values whose numbers are natural numbers, written compactly and read back
(`parse_text`). The text is the texts of tokens, so reading is done twice: once
from characters to tokens and once from tokens to a value.
-/

/-- A value. An object's members stand in the order of the text. -/
inductive Json
  | null
  | bool (value : Bool)
  | num (value : Nat)
  | str (value : String)
  | arr (items : List Json)
  | obj (members : List (String × Json))

namespace Json

/-! ## Writing -/

/-- What a text is made of. -/
inductive Token
  | openObject
  | closeObject
  | openArray
  | closeArray
  | comma
  | colon
  | null
  | bool (value : Bool)
  | num (value : Nat)
  | str (value : String)
  deriving DecidableEq

/-- What is written of one character of a string. -/
def escapeChar (c : Char) : List Char :=
  if c = '"' then ['\\', '"']
  else if c = '\\' then ['\\', '\\']
  else if c.toNat = 8 then ['\\', 'b']
  else if c.toNat = 9 then ['\\', 't']
  else if c.toNat = 10 then ['\\', 'n']
  else if c.toNat = 12 then ['\\', 'f']
  else if c.toNat = 13 then ['\\', 'r']
  else if c.toNat < 0x20 then
    ['\\', 'u', '0', '0', Nat.digitChar (c.toNat / 16), Nat.digitChar (c.toNat % 16)]
  else [c]

/-- What is written of a string between its quotes. -/
def escape (text : List Char) : List Char := text.flatMap escapeChar

def Token.text : Token → List Char
  | .openObject => ['{']
  | .closeObject => ['}']
  | .openArray => ['[']
  | .closeArray => [']']
  | .comma => [',']
  | .colon => [':']
  | .null => ['n', 'u', 'l', 'l']
  | .bool true => ['t', 'r', 'u', 'e']
  | .bool false => ['f', 'a', 'l', 's', 'e']
  | .num value => Nat.toDigits 10 value
  | .str value => '"' :: (escape value.toList ++ ['"'])

mutual

def tokens : Json → List Token
  | null => [.null]
  | bool value => [.bool value]
  | num value => [.num value]
  | str value => [.str value]
  | arr [] => [.openArray, .closeArray]
  | arr (item :: items) => .openArray :: (item.tokens ++ moreItems items)
  | obj [] => [.openObject, .closeObject]
  | obj ((key, value) :: members) =>
    .openObject :: .str key :: .colon :: (value.tokens ++ moreMembers members)

/-- What follows an item. -/
def moreItems : List Json → List Token
  | [] => [.closeArray]
  | item :: items => .comma :: (item.tokens ++ moreItems items)

/-- What follows a member. -/
def moreMembers : List (String × Json) → List Token
  | [] => [.closeObject]
  | (key, value) :: members =>
    .comma :: .str key :: .colon :: (value.tokens ++ moreMembers members)

end

/-- The compact text of a value. -/
def text (json : Json) : List Char := json.tokens.flatMap Token.text

/-! ## Reading -/

/-- A hexadecimal digit's value. -/
def hexValue (c : Char) : Option Nat :=
  if c.isDigit then some (c.toNat - 48)
  else if 'a' ≤ c ∧ c ≤ 'f' then some (c.toNat - 87)
  else if 'A' ≤ c ∧ c ≤ 'F' then some (c.toNat - 55)
  else none

def readHex : List Char → Option (Nat × List Char)
  | a :: b :: c :: d :: rest => do
    let a ← hexValue a
    let b ← hexValue b
    let c ← hexValue c
    let d ← hexValue d
    return (((a * 16 + b) * 16 + c) * 16 + d, rest)
  | _ => none

/-- The rest of an escape that names a code unit. The first half of a surrogate
pair needs the second. -/
def readUnit (text : List Char) : Option (Char × List Char) := do
  let (unit, rest) ← readHex text
  if 0xD800 ≤ unit ∧ unit < 0xDC00 then
    match rest with
    | '\\' :: 'u' :: rest => do
      let (low, rest) ← readHex rest
      if 0xDC00 ≤ low ∧ low < 0xE000 then
        return (Char.ofNat (0x10000 + (unit - 0xD800) * 0x400 + (low - 0xDC00)), rest)
      else none
    | _ => none
  else if 0xDC00 ≤ unit ∧ unit < 0xE000 then none
  else return (Char.ofNat unit, rest)

/-- What stands after a backslash. -/
def readEscape : List Char → Option (Char × List Char)
  | [] => none
  | c :: rest =>
    if c = '"' ∨ c = '\\' ∨ c = '/' then some (c, rest)
    else if c = 'b' then some (Char.ofNat 8, rest)
    else if c = 't' then some (Char.ofNat 9, rest)
    else if c = 'n' then some (Char.ofNat 10, rest)
    else if c = 'f' then some (Char.ofNat 12, rest)
    else if c = 'r' then some (Char.ofNat 13, rest)
    else if c = 'u' then readUnit rest
    else none

/-- A string after its first quote. -/
def readString : Nat → List Char → Option (List Char × List Char)
  | 0, _ => none
  | _, [] => none
  | fuel + 1, c :: rest =>
    if c = '"' then some ([], rest)
    else if c = '\\' then do
      let (c, rest) ← readEscape rest
      let (chars, rest) ← readString fuel rest
      return (c :: chars, rest)
    else if c.toNat < 0x20 then none
    else do
      let (chars, rest) ← readString fuel rest
      return (c :: chars, rest)

/-- A number. More than one digit do not begin with a zero. -/
def readNumber (text : List Char) : Option (Nat × List Char) :=
  let digits := text.takeWhile Char.isDigit
  if digits = [] ∨ digits.head? = some '0' ∧ 1 < digits.length then none
  else some (Nat.ofDigitChars 10 digits 0, text.dropWhile Char.isDigit)

def readToken : List Char → Option (Token × List Char)
  | '{' :: rest => some (.openObject, rest)
  | '}' :: rest => some (.closeObject, rest)
  | '[' :: rest => some (.openArray, rest)
  | ']' :: rest => some (.closeArray, rest)
  | ',' :: rest => some (.comma, rest)
  | ':' :: rest => some (.colon, rest)
  | 'n' :: 'u' :: 'l' :: 'l' :: rest => some (.null, rest)
  | 't' :: 'r' :: 'u' :: 'e' :: rest => some (.bool true, rest)
  | 'f' :: 'a' :: 'l' :: 's' :: 'e' :: rest => some (.bool false, rest)
  | '"' :: rest => (readString (rest.length + 1) rest).map fun (chars, rest) =>
      (.str (String.ofList chars), rest)
  | text => (readNumber text).map fun (value, rest) => (.num value, rest)

def isSpace (c : Char) : Bool := c = ' ' || c = '\n' || c = '\t' || c = '\r'

/-- All tokens of a text. -/
def lex : Nat → List Char → Option (List Token)
  | 0, _ => none
  | _, [] => some []
  | fuel + 1, c :: rest =>
    if isSpace c then lex fuel rest
    else do
      let (token, rest) ← readToken (c :: rest)
      let tokens ← lex fuel rest
      return token :: tokens

mutual

def readValue : Nat → List Token → Option (Json × List Token)
  | 0, _ => none
  | _ + 1, .null :: rest => some (null, rest)
  | _ + 1, .bool value :: rest => some (bool value, rest)
  | _ + 1, .num value :: rest => some (num value, rest)
  | _ + 1, .str value :: rest => some (str value, rest)
  | _ + 1, .openArray :: .closeArray :: rest => some (arr [], rest)
  | fuel + 1, .openArray :: rest => do
    let (item, rest) ← readValue fuel rest
    let (items, rest) ← readItems fuel rest
    return (arr (item :: items), rest)
  | _ + 1, .openObject :: .closeObject :: rest => some (obj [], rest)
  | fuel + 1, .openObject :: .str key :: .colon :: rest => do
    let (value, rest) ← readValue fuel rest
    let (members, rest) ← readMembers fuel rest
    return (obj ((key, value) :: members), rest)
  | _, _ => none

/-- What follows an item. -/
def readItems : Nat → List Token → Option (List Json × List Token)
  | 0, _ => none
  | _ + 1, .closeArray :: rest => some ([], rest)
  | fuel + 1, .comma :: rest => do
    let (item, rest) ← readValue fuel rest
    let (items, rest) ← readItems fuel rest
    return (item :: items, rest)
  | _, _ => none

/-- What follows a member. -/
def readMembers : Nat → List Token → Option (List (String × Json) × List Token)
  | 0, _ => none
  | _ + 1, .closeObject :: rest => some ([], rest)
  | fuel + 1, .comma :: .str key :: .colon :: rest => do
    let (value, rest) ← readValue fuel rest
    let (members, rest) ← readMembers fuel rest
    return ((key, value) :: members, rest)
  | _, _ => none

end

/-- The value a text is, if it is one. -/
def parse (text : List Char) : Option Json := do
  let tokens ← lex (text.length + 1) text
  let (json, rest) ← readValue tokens.length tokens
  if rest = [] then return json else none

/-! ## Strings read back -/

theorem hexValue_digitChar : ∀ digit < 16, hexValue (Nat.digitChar digit) = some digit := by decide

/-- A control character is named by its code. -/
theorem readUnit_control {n : Nat} (low : n < 0x20) (rest : List Char) :
    readUnit ('0' :: '0' :: Nat.digitChar (n / 16) :: Nat.digitChar (n % 16) :: rest) =
      some (Char.ofNat n, rest) := by
  have zero : hexValue '0' = some 0 := by decide
  have first := hexValue_digitChar (n / 16) (by omega)
  have second := hexValue_digitChar (n % 16) (by omega)
  have is : ((0 * 16 + 0) * 16 + n / 16) * 16 + n % 16 = n := by omega
  simp only [readUnit, readHex, zero, first, second, Option.bind_eq_bind, Option.bind_some,
    Option.pure_def, is]
  rw [if_neg (by omega), if_neg (by omega)]

/-- What is written of a character: the character, or an escape that names it. -/
theorem escapeChar_cases (c : Char) :
    (c ≠ '"' ∧ c ≠ '\\' ∧ 0x20 ≤ c.toNat ∧ escapeChar c = [c]) ∨
      ∃ body, escapeChar c = '\\' :: body ∧ (∀ rest, readEscape (body ++ rest) = some (c, rest)) ∧
        (c ≠ '"' → '"' ∉ body) ∧ (c = '"' → body = ['"']) := by
  have small {n : Nat} (valid : n < 0x20) (is : c.toNat = n) : c = Char.ofNat n := by
    rw [← is, Char.ofNat_toNat]
  unfold escapeChar
  split
  case isTrue quote => exact .inr ⟨_, rfl, fun rest => by rw [quote]; rfl, by simp [quote], fun _ => rfl⟩
  case isFalse unquoted =>
  split
  case isTrue slash => exact .inr ⟨_, rfl, fun rest => by rw [slash]; rfl, by simp, by simp [slash]⟩
  case isFalse unslashed =>
  split
  case isTrue is => exact .inr ⟨_, rfl, fun rest => by rw [small (by decide) is]; rfl, by simp,
    fun quote => absurd quote unquoted⟩
  case isFalse =>
  split
  case isTrue is => exact .inr ⟨_, rfl, fun rest => by rw [small (by decide) is]; rfl, by simp,
    fun quote => absurd quote unquoted⟩
  case isFalse =>
  split
  case isTrue is => exact .inr ⟨_, rfl, fun rest => by rw [small (by decide) is]; rfl, by simp,
    fun quote => absurd quote unquoted⟩
  case isFalse =>
  split
  case isTrue is => exact .inr ⟨_, rfl, fun rest => by rw [small (by decide) is]; rfl, by simp,
    fun quote => absurd quote unquoted⟩
  case isFalse =>
  split
  case isTrue is => exact .inr ⟨_, rfl, fun rest => by rw [small (by decide) is]; rfl, by simp,
    fun quote => absurd quote unquoted⟩
  case isFalse =>
  split
  case isTrue low =>
    have unquoted' : ∀ digit < 16, '"' ≠ Nat.digitChar digit := by decide
    have first := unquoted' (c.toNat / 16) (by omega)
    have second := unquoted' (c.toNat % 16) (by omega)
    refine .inr ⟨_, rfl, fun rest => ?_, fun _ => by simp [first, second],
      fun quote => absurd quote unquoted⟩
    have reads := readUnit_control low rest
    rw [Char.ofNat_toNat] at reads
    exact reads
  case isFalse high => exact .inl ⟨unquoted, unslashed, Nat.le_of_not_lt high, rfl⟩

/-- A character that has no need of an escape. -/
theorem escapeChar_plain {c : Char} (unquoted : c ≠ '"') (unslashed : c ≠ '\\')
    (high : 0x20 ≤ c.toNat) : escapeChar c = [c] := by
  unfold escapeChar
  rw [if_neg unquoted, if_neg unslashed, if_neg (by omega), if_neg (by omega), if_neg (by omega),
    if_neg (by omega), if_neg (by omega), if_neg (by omega)]

theorem escape_cons (c : Char) (text : List Char) :
    escape (c :: text) = escapeChar c ++ escape text := List.flatMap_cons

theorem length_le_escape (text : List Char) : text.length ≤ (escape text).length := by
  induction text with
  | nil => exact Nat.le_refl _
  | cons c text ih =>
    have some' : escapeChar c ≠ [] := by
      rcases escapeChar_cases c with ⟨-, -, -, is⟩ | ⟨_, is, -⟩ <;> rw [is] <;>
        exact List.cons_ne_nil _ _
    have one := List.length_pos_iff.mpr some'
    rw [escape_cons, List.length_append, List.length_cons]
    omega

/-- What is written between quotes reads back, up to the closing one. -/
theorem readString_escape (text rest : List Char) {fuel : Nat} (enough : text.length < fuel) :
    readString fuel (escape text ++ '"' :: rest) = some (text, rest) := by
  induction text generalizing fuel with
  | nil =>
    obtain ⟨fuel, rfl⟩ := Nat.exists_eq_add_one_of_ne_zero (Nat.ne_zero_of_lt enough)
    rfl
  | cons c text ih =>
    obtain ⟨fuel, rfl⟩ := Nat.exists_eq_add_one_of_ne_zero (Nat.ne_zero_of_lt enough)
    have reads := ih (Nat.lt_of_succ_lt_succ enough)
    rw [escape_cons]
    rcases escapeChar_cases c with ⟨unquoted, unslashed, high, is⟩ | ⟨body, is, escaped, -, -⟩
    · rw [is]
      simp only [List.cons_append, List.nil_append, readString, if_neg unquoted, if_neg unslashed,
        if_neg (Nat.not_lt.mpr high), reads]
      rfl
    · rw [is]
      simp only [List.cons_append, List.append_assoc, readString, Char.reduceEq, if_false, if_true,
        escaped, Option.bind_eq_bind, Option.bind_some, reads]
      rfl

/-- A written string ends at its closing quote, and shows what it was. -/
theorem escape_cancel {text other rest rest' : List Char}
    (same : escape text ++ '"' :: rest = escape other ++ '"' :: rest') :
    text = other ∧ rest = rest' := by
  have enough : text.length < text.length + other.length + 1 := by omega
  have reads := readString_escape text rest enough
  rw [same, readString_escape other rest' (by omega)] at reads
  cases reads
  exact ⟨rfl, rfl⟩

/-- A quote within a written string is an escaped one. -/
theorem quote_of_escape {text front back : List Char} (split : escape text = front ++ '"' :: back) :
    ∃ before after, text = before ++ '"' :: after ∧ front = escape before ++ ['\\'] ∧
      back = escape after := by
  induction text generalizing front with
  | nil => exact absurd split.symm (List.append_ne_nil_of_right_ne_nil _ (List.cons_ne_nil _ _))
  | cons c text ih =>
    rw [escape_cons] at split
    rcases List.append_eq_append_iff.mp split with ⟨middle, rfl, later⟩ | ⟨middle, here, later⟩
    · obtain ⟨before, after, rfl, rfl, rfl⟩ := ih later
      exact ⟨c :: before, after, rfl, by rw [escape_cons, List.append_assoc], rfl⟩
    · cases middle with
      | nil =>
        obtain ⟨before, after, rfl, none', rfl⟩ := @ih [] later.symm
        exact absurd none'.symm (List.append_ne_nil_of_right_ne_nil _ (List.cons_ne_nil _ _))
      | cons first middle =>
        obtain ⟨rfl, rfl⟩ := List.cons.inj later
        rcases escapeChar_cases c with ⟨unquoted, -, -, is⟩ | ⟨body, is, -, other, own⟩
        · rw [is] at here
          have listed : '"' ∈ [c] := here ▸ List.mem_append_right front List.mem_cons_self
          exact absurd (List.mem_singleton.mp listed).symm unquoted
        · rw [is] at here
          cases front with
          | nil => cases here
          | cons slash front =>
            rw [List.cons_append] at here
            obtain ⟨lead, inside⟩ := List.cons.inj here
            by_cases quote : c = '"'
            · rw [own quote] at inside
              rcases List.singleton_eq_append_iff.mp inside with ⟨rfl, last⟩ | ⟨-, none'⟩
              · obtain rfl : middle = [] := (List.cons.inj last).2
                rw [← lead, quote]
                exact ⟨[], text, rfl, rfl, rfl⟩
              · cases none'
            · exact absurd (inside ▸ List.mem_append_right front List.mem_cons_self) (other quote)

/-! ## Tokens read back -/

/-- Whether a token ends a value. -/
def Token.ends : Token → Bool
  | .closeObject | .closeArray | .null | .bool _ | .num _ | .str _ => true
  | _ => false

/-- Whether a token can stand after a value or a key. -/
def Token.separates : Token → Bool
  | .comma | .colon | .closeObject | .closeArray => true
  | _ => false

/-- How tokens of one value stand side by side: a separator follows what ends a
value, and only a key that is allowed precedes a colon. -/
structure Token.Beside (keys : String → Prop) (token next : Token) : Prop where
  separated : token.ends = true → next.separates = true
  keyed : next = .colon → ∃ key, token = .str key ∧ keys key

theorem Token.text_ne_nil (token : Token) : token.text ≠ [] := by
  cases token with
  | bool value => cases value <;> exact List.cons_ne_nil _ _
  | num value => exact Nat.toDigits_ne_nil
  | _ => exact List.cons_ne_nil _ _

/-- A separator is one character, which is no digit and no quote. -/
theorem Token.separates_text {token : Token} (separates : token.separates = true) :
    ∃ c, token.text = [c] ∧ c.isDigit = false ∧ (c = ',' ∨ c = ':' ∨ c = '}' ∨ c = ']') := by
  cases token with
  | comma | colon | closeObject | closeArray => exact ⟨_, rfl, by decide, by simp⟩
  | _ => cases separates

theorem isDigit_toDigits (n : Nat) : ∀ c ∈ Nat.toDigits 10 n, c.isDigit = true :=
  fun _ listed => Nat.isDigit_of_mem_toDigits (by decide) (by decide) listed

/-- More than one digit do not begin with a zero. -/
theorem toDigits_head {n : Nat} (long : 1 < (Nat.toDigits 10 n).length) :
    (Nat.toDigits 10 n).head? ≠ some '0' := by
  induction n using Nat.strong_induction_on with
  | _ n ih =>
    have big : 10 ≤ n := by
      by_contra small
      rw [Nat.toDigits_of_lt_base (by omega)] at long
      exact absurd long (by simp)
    rw [Nat.toDigits_of_base_le (by decide) big] at long ⊢
    rw [List.head?_append_of_ne_nil _ Nat.toDigits_ne_nil]
    by_cases more : 1 < (Nat.toDigits 10 (n / 10)).length
    · exact ih (n / 10) (by omega) more
    · have one : n / 10 < 10 := by
        by_contra big'
        apply more
        rw [Nat.toDigits_of_base_le (by decide) (Nat.le_of_not_lt big'), List.length_append,
          List.length_singleton]
        have some' := List.length_pos_iff.mpr (Nat.toDigits_ne_nil (b := 10) (n := n / 10 / 10))
        omega
      rw [Nat.toDigits_of_lt_base one]
      have positive : 0 < n / 10 := by omega
      generalize n / 10 = digit at one positive
      revert positive
      revert digit
      decide

theorem readNumber_toDigits (n : Nat) {rest : List Char}
    (stops : ∀ c ∈ rest.head?, c.isDigit = false) :
    readNumber (Nat.toDigits 10 n ++ rest) = some (n, rest) := by
  have takes : (Nat.toDigits 10 n ++ rest).takeWhile Char.isDigit = Nat.toDigits 10 n := by
    rw [List.takeWhile_append_of_pos (isDigit_toDigits n)]
    cases rest with
    | nil => simp
    | cons c rest => simp [stops c rfl]
  have drops : (Nat.toDigits 10 n ++ rest).dropWhile Char.isDigit = rest := by
    rw [List.dropWhile_append_of_pos (isDigit_toDigits n)]
    cases rest with
    | nil => rfl
    | cons c rest => simp [stops c rfl]
  unfold readNumber
  rw [takes, drops]
  dsimp only
  rw [Nat.ofDigitChars_toDigits (by decide) (by decide), if_neg]
  rintro (none' | ⟨zero, long⟩)
  · exact Nat.toDigits_ne_nil none'
  · exact toDigits_head long zero

theorem readToken_digit {c : Char} (digit : c.isDigit = true) (rest : List Char) :
    readToken (c :: rest) =
      (readNumber (c :: rest)).map fun (value, rest) => (.num value, rest) := by
  unfold readToken
  split <;> first
    | rfl
    | (rename_i same
       obtain ⟨rfl, -⟩ := List.cons.inj same
       cases digit)

/-- A token reads back, unless it is a number and digits follow. -/
theorem readToken_text (token : Token) {rest : List Char}
    (stops : token.ends = true → ∀ c ∈ rest.head?, c.isDigit = false) :
    readToken (token.text ++ rest) = some (token, rest) := by
  cases token with
  | bool value => cases value <;> rfl
  | num value =>
    have reads := readNumber_toDigits value (stops rfl)
    have digits := isDigit_toDigits value
    show readToken (Nat.toDigits 10 value ++ rest) = _
    cases is : Nat.toDigits 10 value with
    | nil => exact absurd is Nat.toDigits_ne_nil
    | cons c more =>
      rw [is] at reads digits
      rw [List.cons_append] at reads ⊢
      rw [readToken_digit (digits c List.mem_cons_self), reads]
      rfl
  | str value =>
    have enough := length_le_escape value.toList
    have fits : value.toList.length < (escape value.toList ++ '"' :: rest).length + 1 := by
      rw [List.length_append]
      omega
    have reads := readString_escape value.toList rest fits
    show readToken ('"' :: (escape value.toList ++ ['"']) ++ rest) = _
    rw [List.cons_append, List.append_assoc, List.cons_append, List.nil_append, readToken, reads,
      Option.map_some]
    dsimp only
    rw [String.ofList_toList]
  | _ => rfl

theorem isSpace_text (token : Token) : ∀ c ∈ token.text.head?, isSpace c = false := by
  cases token with
  | bool value =>
    intro c first
    cases value <;> (cases first; decide)
  | num value =>
    intro c first
    have digit := isDigit_toDigits value c (List.mem_of_mem_head? first)
    by_contra space
    simp only [isSpace, Bool.or_eq_true, decide_eq_true_eq, Bool.not_eq_false] at space
    rcases space with ((rfl | rfl) | rfl) | rfl <;> cases digit
  | _ =>
    intro c first
    cases first
    decide

/-- Tokens that stand side by side as in a value read back. -/
theorem lex_text {keys : String → Prop} {tokens : List Token}
    (beside : tokens.IsChain (Token.Beside keys)) {fuel : Nat} (enough : tokens.length < fuel) :
    lex fuel (tokens.flatMap Token.text) = some tokens := by
  induction tokens generalizing fuel with
  | nil =>
    obtain ⟨fuel, rfl⟩ := Nat.exists_eq_add_one_of_ne_zero (Nat.ne_zero_of_lt enough)
    rfl
  | cons token tokens ih =>
    obtain ⟨fuel, rfl⟩ := Nat.exists_eq_add_one_of_ne_zero (Nat.ne_zero_of_lt enough)
    have fits : tokens.length < fuel := Nat.lt_of_succ_lt_succ enough
    have reads := ih beside.tail fits
    have stops : token.ends = true →
        ∀ c ∈ (tokens.flatMap Token.text).head?, c.isDigit = false := by
      intro ends c first
      cases tokens with
      | nil => cases first
      | cons next tokens =>
        obtain ⟨mark, text, plain, -⟩ :=
          Token.separates_text ((List.isChain_cons_cons.mp beside).1.separated ends)
        rw [List.flatMap_cons, text] at first
        cases first
        exact plain
    have back := readToken_text token stops
    have space := isSpace_text token
    rw [List.flatMap_cons]
    cases is : token.text with
    | nil => exact absurd is token.text_ne_nil
    | cons c more =>
      rw [is] at back space
      rw [List.cons_append] at back ⊢
      rw [lex, if_neg (by rw [space c rfl]; decide), back]
      simp only [Option.bind_eq_bind, Option.bind_some, reads]
      rfl

/-! ## Values read back -/

/-- Induction on a value, with one case for all items and one for all members. -/
@[elab_as_elim]
theorem cases_all {motive : Json → Prop} (null : motive .null) (bool : ∀ value, motive (.bool value))
    (num : ∀ value, motive (.num value)) (str : ∀ value, motive (.str value))
    (arr : ∀ items, (∀ item ∈ items, motive item) → motive (.arr items))
    (obj : ∀ members : List (String × Json), (∀ member ∈ members, motive member.2) →
      motive (.obj members)) (json : Json) : motive json :=
  @Json.rec motive (fun items => ∀ item ∈ items, motive item)
    (fun members => ∀ member ∈ members, motive member.2) (fun member => motive member.2)
    null bool num str arr obj
    (fun _ listed => absurd listed List.not_mem_nil)
    (fun _ _ head tail => List.forall_mem_cons.mpr ⟨head, tail⟩)
    (fun _ listed => absurd listed List.not_mem_nil)
    (fun _ _ head tail => List.forall_mem_cons.mpr ⟨head, tail⟩)
    (fun _ _ value => value) json

mutual

/-- The members of all objects there are in a value. -/
def pairs : Json → List (String × Json)
  | arr items => itemPairs items
  | obj members => memberPairs members
  | _ => []

def itemPairs : List Json → List (String × Json)
  | [] => []
  | item :: items => item.pairs ++ itemPairs items

def memberPairs : List (String × Json) → List (String × Json)
  | [] => []
  | (key, value) :: members => (key, value) :: (value.pairs ++ memberPairs members)

end

@[simp] theorem pairs_null : null.pairs = [] := rfl

@[simp] theorem pairs_bool (value : Bool) : (bool value).pairs = [] := rfl

@[simp] theorem pairs_num (value : Nat) : (num value).pairs = [] := rfl

@[simp] theorem pairs_str (value : String) : (str value).pairs = [] := rfl

theorem mem_pairs_arr {items : List Json} {pair : String × Json} :
    pair ∈ (arr items).pairs ↔ ∃ item ∈ items, pair ∈ item.pairs := by
  rw [pairs]
  induction items with
  | nil => simp [itemPairs]
  | cons item items ih =>
    rw [itemPairs, List.mem_append, ih]
    simp only [List.mem_cons, exists_eq_or_imp]

theorem mem_pairs_obj {members : List (String × Json)} {pair : String × Json} :
    pair ∈ (obj members).pairs ↔ pair ∈ members ∨ ∃ member ∈ members, pair ∈ member.2.pairs := by
  rw [pairs]
  induction members with
  | nil => simp [memberPairs]
  | cons member members ih =>
    rw [memberPairs, List.mem_cons, List.mem_append, ih]
    simp only [List.mem_cons, exists_eq_or_imp]
    tauto

/-- Every key in a value is allowed. -/
def Keyed (keys : String → Prop) (json : Json) : Prop := ∀ member ∈ json.pairs, keys member.1

@[simp] theorem keyed_null (keys : String → Prop) : null.Keyed keys :=
  fun _ listed => absurd listed List.not_mem_nil

@[simp] theorem keyed_bool (keys : String → Prop) (value : Bool) : (bool value).Keyed keys :=
  fun _ listed => absurd listed List.not_mem_nil

@[simp] theorem keyed_num (keys : String → Prop) (value : Nat) : (num value).Keyed keys :=
  fun _ listed => absurd listed List.not_mem_nil

@[simp] theorem keyed_str (keys : String → Prop) (value : String) : (str value).Keyed keys :=
  fun _ listed => absurd listed List.not_mem_nil

@[simp] theorem keyed_arr {keys : String → Prop} {items : List Json} :
    (arr items).Keyed keys ↔ ∀ item ∈ items, item.Keyed keys := by
  unfold Keyed
  simp only [mem_pairs_arr]
  exact ⟨fun all item among pair listed => all pair ⟨item, among, listed⟩,
    fun all pair ⟨item, among, listed⟩ => all item among pair listed⟩

@[simp] theorem keyed_obj {keys : String → Prop} {members : List (String × Json)} :
    (obj members).Keyed keys ↔ ∀ member ∈ members, keys member.1 ∧ member.2.Keyed keys := by
  unfold Keyed
  simp only [mem_pairs_obj]
  constructor
  · exact fun all member among =>
      ⟨all member (.inl among), fun pair listed => all pair (.inr ⟨member, among, listed⟩)⟩
  · rintro all pair (among | ⟨member, among, listed⟩)
    · exact (all pair among).1
    · exact (all member among).2 pair listed

theorem Token.Beside.colon {keys : String → Prop} {key : String} (allowed : keys key) :
    Token.Beside keys (.str key) .colon := ⟨fun _ => rfl, fun _ => ⟨key, rfl, allowed⟩⟩

/-- What does not end a value may stand before anything but a colon. -/
theorem Token.Beside.open {keys : String → Prop} {token next : Token} (opens : token.ends = false)
    (other : next ≠ .colon) : Token.Beside keys token next :=
  ⟨fun ends => absurd (opens.symm.trans ends) (by decide), fun colon => absurd colon other⟩

/-- Anything but a colon may stand before a separator that is none. -/
theorem Token.Beside.close {keys : String → Prop} {token next : Token}
    (separates : next.separates = true) (other : next ≠ .colon) : Token.Beside keys token next :=
  ⟨fun _ => separates, fun colon => absurd colon other⟩

/-- The first token of a value. -/
def first : Json → Token
  | null => .null
  | bool value => .bool value
  | num value => .num value
  | str value => .str value
  | arr _ => .openArray
  | obj _ => .openObject

theorem tokens_first (json : Json) : ∃ more, json.tokens = json.first :: more := by
  cases json with
  | arr items => cases items <;> exact ⟨_, rfl⟩
  | obj members =>
    cases members with
    | nil => exact ⟨_, rfl⟩
    | cons member members => exact ⟨_, rfl⟩
  | _ => exact ⟨_, rfl⟩

theorem first_separates (json : Json) : json.first.separates = false := by cases json <;> rfl

theorem first_ne_colon (json : Json) : json.first ≠ .colon := by
  intro colon
  have separates := json.first_separates
  rw [colon] at separates
  cases separates

/-- What may follow a value. -/
def Closes (keys : String → Prop) (rest : List Token) : Prop :=
  rest.IsChain (Token.Beside keys) ∧
    ∀ next ∈ rest.head?, next.separates = true ∧ next ≠ .colon

theorem Closes.cons {keys : String → Prop} {rest : List Token} {token : Token}
    (separates : token.separates = true) (other : token ≠ .colon)
    (chain : (token :: rest).IsChain (Token.Beside keys)) : Closes keys (token :: rest) :=
  ⟨chain, fun _ is => by cases is; exact ⟨separates, other⟩⟩

theorem Closes.closed {keys : String → Prop} {rest : List Token} (closes : Closes keys rest)
    (token : Token) : (token :: rest).IsChain (Token.Beside keys) := by
  rw [List.isChain_cons]
  exact ⟨fun next is => .close (closes.2 next is).1 (closes.2 next is).2, closes.1⟩

variable {keys : String → Prop}

theorem opened (json : Json) {token : Token} {rest : List Token} (opens : token.ends = false)
    (chain : (json.tokens ++ rest).IsChain (Token.Beside keys)) :
    (token :: (json.tokens ++ rest)).IsChain (Token.Beside keys) := by
  obtain ⟨more, is⟩ := json.tokens_first
  rw [is, List.cons_append] at chain ⊢
  exact List.isChain_cons_cons.mpr ⟨.open opens json.first_ne_colon, chain⟩

theorem member_beside {key : String} {value : Json} {token : Token} {rest : List Token}
    (allowed : keys key) (opens : token.ends = false)
    (chain : (value.tokens ++ rest).IsChain (Token.Beside keys)) :
    (token :: .str key :: .colon :: (value.tokens ++ rest)).IsChain (Token.Beside keys) :=
  List.isChain_cons_cons.mpr ⟨.open opens (by simp),
    List.isChain_cons_cons.mpr ⟨.colon allowed, value.opened rfl chain⟩⟩

theorem moreItems_closes {items : List Json} {rest : List Token}
    (allowed : ∀ member ∈ itemPairs items, keys member.1)
    (each : ∀ item ∈ items, item.Keyed keys → ∀ rest, Closes keys rest →
      (item.tokens ++ rest).IsChain (Token.Beside keys))
    (closes : Closes keys rest) : Closes keys (moreItems items ++ rest) := by
  induction items with
  | nil => exact .cons rfl (by decide) (closes.closed _)
  | cons item items ih =>
    obtain ⟨here, later⟩ := List.forall_mem_cons.mp each
    obtain ⟨own, others⟩ := List.forall_mem_append.mp allowed
    rw [moreItems, List.cons_append, List.append_assoc]
    exact .cons rfl (by decide) (item.opened rfl (here own _ (ih others later)))

theorem moreMembers_closes {members : List (String × Json)} {rest : List Token}
    (allowed : ∀ member ∈ memberPairs members, keys member.1)
    (each : ∀ member ∈ members, member.2.Keyed keys → ∀ rest, Closes keys rest →
      (member.2.tokens ++ rest).IsChain (Token.Beside keys))
    (closes : Closes keys rest) : Closes keys (moreMembers members ++ rest) := by
  induction members with
  | nil => exact .cons rfl (by decide) (closes.closed _)
  | cons member members ih =>
    obtain ⟨key, value⟩ := member
    obtain ⟨here, later⟩ := List.forall_mem_cons.mp each
    obtain ⟨own, rest'⟩ := List.forall_mem_cons.mp allowed
    obtain ⟨inner, others⟩ := List.forall_mem_append.mp rest'
    rw [moreMembers]
    simp only [List.cons_append, List.append_assoc]
    exact .cons rfl (by decide) (member_beside own rfl (here inner _ (ih others later)))

/-- A value's tokens stand side by side as they should. -/
theorem beside (json : Json) : json.Keyed keys → ∀ rest, Closes keys rest →
    (json.tokens ++ rest).IsChain (Token.Beside keys) := by
  induction json using cases_all with
  | null | bool | num | str => exact fun _ rest closes => closes.closed _
  | arr items ih =>
    intro allowed rest closes
    cases items with
    | nil => exact List.isChain_cons_cons.mpr ⟨.open rfl (by decide), closes.closed _⟩
    | cons item items =>
      obtain ⟨here, later⟩ := List.forall_mem_cons.mp ih
      obtain ⟨own, others⟩ := List.forall_mem_append.mp allowed
      rw [tokens, List.cons_append, List.append_assoc]
      exact item.opened rfl (here own _ (moreItems_closes others later closes))
  | obj members ih =>
    intro allowed rest closes
    cases members with
    | nil => exact List.isChain_cons_cons.mpr ⟨.open rfl (by decide), closes.closed _⟩
    | cons member members =>
      obtain ⟨key, value⟩ := member
      obtain ⟨here, later⟩ := List.forall_mem_cons.mp ih
      obtain ⟨own, rest'⟩ := List.forall_mem_cons.mp allowed
      obtain ⟨inner, others⟩ := List.forall_mem_append.mp rest'
      rw [tokens]
      simp only [List.cons_append, List.append_assoc]
      exact member_beside own rfl (here inner _ (moreMembers_closes others later closes))

theorem readItems_more {items : List Json} {rest : List Token} {fuel : Nat}
    (each : ∀ item ∈ items, ∀ (fuel : Nat) (rest : List Token), item.tokens.length ≤ fuel →
      readValue fuel (item.tokens ++ rest) = some (item, rest))
    (enough : (moreItems items).length ≤ fuel) :
    readItems fuel (moreItems items ++ rest) = some (items, rest) := by
  induction items generalizing fuel with
  | nil =>
    obtain ⟨fuel, rfl⟩ := Nat.exists_eq_add_of_le' enough
    rfl
  | cons item items ih =>
    obtain ⟨here, later⟩ := List.forall_mem_cons.mp each
    rw [moreItems, List.length_cons, List.length_append] at enough
    obtain ⟨fuel, rfl⟩ := Nat.exists_eq_add_one_of_ne_zero (Nat.ne_zero_of_lt enough)
    have fits : (moreItems items).length ≤ fuel := by omega
    rw [moreItems, List.cons_append, List.append_assoc, readItems, here fuel _ (by omega)]
    simp only [Option.bind_eq_bind, Option.bind_some, ih later fits]
    rfl

theorem readMembers_more {members : List (String × Json)} {rest : List Token} {fuel : Nat}
    (each : ∀ member ∈ members, ∀ (fuel : Nat) (rest : List Token),
      member.2.tokens.length ≤ fuel →
        readValue fuel (member.2.tokens ++ rest) = some (member.2, rest))
    (enough : (moreMembers members).length ≤ fuel) :
    readMembers fuel (moreMembers members ++ rest) = some (members, rest) := by
  induction members generalizing fuel with
  | nil =>
    obtain ⟨fuel, rfl⟩ := Nat.exists_eq_add_of_le' enough
    rfl
  | cons member members ih =>
    obtain ⟨key, value⟩ := member
    obtain ⟨here, later⟩ := List.forall_mem_cons.mp each
    rw [moreMembers] at enough ⊢
    simp only [List.length_cons, List.length_append] at enough
    obtain ⟨fuel, rfl⟩ := Nat.exists_eq_add_one_of_ne_zero (Nat.ne_zero_of_lt enough)
    have fits : (moreMembers members).length ≤ fuel := by omega
    simp only [List.cons_append, List.append_assoc, readMembers]
    rw [here fuel _ (by dsimp only; omega)]
    simp only [Option.bind_eq_bind, Option.bind_some, ih later fits]
    rfl

/-- A value's tokens read back. -/
theorem readValue_tokens (json : Json) : ∀ (fuel : Nat) (rest : List Token),
    json.tokens.length ≤ fuel → readValue fuel (json.tokens ++ rest) = some (json, rest) := by
  induction json using cases_all with
  | null | bool | num | str =>
    intro fuel rest enough
    obtain ⟨fuel, rfl⟩ := Nat.exists_eq_add_of_le' enough
    rfl
  | arr items ih =>
    intro fuel rest enough
    cases items with
    | nil =>
      obtain ⟨fuel, rfl⟩ := Nat.exists_eq_add_of_le' (show 1 ≤ fuel from Nat.le_of_succ_le enough)
      rfl
    | cons item items =>
      obtain ⟨here, later⟩ := List.forall_mem_cons.mp ih
      rw [tokens] at enough ⊢
      rw [List.length_cons, List.length_append] at enough
      obtain ⟨fuel, rfl⟩ := Nat.exists_eq_add_one_of_ne_zero (Nat.ne_zero_of_lt enough)
      rw [List.cons_append, List.append_assoc]
      have reads := here fuel (moreItems items ++ rest) (by omega)
      obtain ⟨more, is⟩ := item.tokens_first
      have separates := item.first_separates
      rw [is, List.cons_append] at reads ⊢
      have fits : (moreItems items).length ≤ fuel := by omega
      rw [readValue, reads]
      · simp only [Option.bind_eq_bind, Option.bind_some, readItems_more later fits]
        rfl
      · intro other same
        rw [(List.cons.inj same).1] at separates
        cases separates
  | obj members ih =>
    intro fuel rest enough
    cases members with
    | nil =>
      obtain ⟨fuel, rfl⟩ := Nat.exists_eq_add_of_le' (show 1 ≤ fuel from Nat.le_of_succ_le enough)
      rfl
    | cons member members =>
      obtain ⟨key, value⟩ := member
      obtain ⟨here, later⟩ := List.forall_mem_cons.mp ih
      rw [tokens] at enough ⊢
      simp only [List.length_cons, List.length_append] at enough
      obtain ⟨fuel, rfl⟩ := Nat.exists_eq_add_one_of_ne_zero (Nat.ne_zero_of_lt enough)
      have fits : (moreMembers members).length ≤ fuel := by omega
      simp only [List.cons_append, List.append_assoc, readValue]
      rw [here fuel _ (by dsimp only; omega)]
      simp only [Option.bind_eq_bind, Option.bind_some, readMembers_more later fits]
      rfl

/-- There are no more tokens than characters. -/
theorem length_tokens_le (tokens : List Token) :
    tokens.length ≤ (tokens.flatMap Token.text).length := by
  induction tokens with
  | nil => exact Nat.le_refl _
  | cons token tokens ih =>
    have one := List.length_pos_iff.mpr token.text_ne_nil
    rw [List.flatMap_cons, List.length_append, List.length_cons]
    omega

/-- How the tokens of a whole value stand. -/
theorem tokens_beside {json : Json} (allowed : json.Keyed keys) :
    json.tokens.IsChain (Token.Beside keys) := by
  have chain := json.beside allowed [] ⟨.nil, fun _ none' => absurd none' (by simp)⟩
  rw [List.append_nil] at chain
  exact chain

/-- **Round trip.** What is written reads back. -/
theorem parse_text (json : Json) : parse json.text = some json := by
  have keyed : json.Keyed (fun _ => True) := fun _ _ => trivial
  have fits : json.tokens.length < json.text.length + 1 :=
    Nat.lt_succ_of_le (length_tokens_le json.tokens)
  have lexed := lex_text (tokens_beside keyed) fits
  have reads := json.readValue_tokens json.tokens.length [] (Nat.le_refl _)
  rw [List.append_nil] at reads
  unfold parse
  rw [show lex (json.text.length + 1) json.text = some json.tokens from lexed]
  simp only [Option.bind_eq_bind, Option.bind_some, reads, if_true]
  rfl

theorem text_inj {json other : Json} (same : json.text = other.text) : json = other := by
  have reads := parse_text json
  rw [same, parse_text] at reads
  exact (Option.some.inj reads).symm

/-! ## What a text is written with -/

/-- What is checked of all holds of each. -/
theorem forall_of_all {α : Type} {holds : α → Prop} [DecidablePred holds] {list : List α}
    (all : list.all (holds ·) = true) : ∀ value ∈ list, holds value :=
  fun value listed => of_decide_eq_true (List.all_eq_true.mp all value listed)

theorem escapeChar_printable (c : Char) : ∀ d ∈ escapeChar c, 0x20 ≤ d.toNat := by
  have digits : ∀ digit < 16, 0x20 ≤ (Nat.digitChar digit).toNat := by decide
  unfold escapeChar
  split
  · exact forall_of_all (by decide)
  split
  · exact forall_of_all (by decide)
  split
  · exact forall_of_all (by decide)
  split
  · exact forall_of_all (by decide)
  split
  · exact forall_of_all (by decide)
  split
  · exact forall_of_all (by decide)
  split
  · exact forall_of_all (by decide)
  split
  · simp only [List.mem_cons, List.not_mem_nil, or_false]
    intro d listed
    rcases listed with rfl | rfl | rfl | rfl | rfl | rfl
    · decide
    · decide
    · decide
    · decide
    · exact digits _ (by omega)
    · exact digits _ (by omega)
  · intro d listed
    cases List.mem_singleton.mp listed
    omega

theorem Token.text_printable (token : Token) : ∀ c ∈ token.text, 0x20 ≤ c.toNat := by
  cases token with
  | bool value => cases value <;> exact forall_of_all (by decide)
  | num value =>
    intro c listed
    have digit := isDigit_toDigits value c listed
    simp only [Char.isDigit, Bool.and_eq_true, decide_eq_true_eq] at digit
    exact Nat.le_trans (by decide) digit.1
  | str value =>
    intro c listed
    simp only [Token.text, List.mem_cons, List.mem_append, List.not_mem_nil, or_false] at listed
    rcases listed with rfl | inside | rfl
    · decide
    · obtain ⟨d, -, inside⟩ := List.mem_flatMap.mp inside
      exact escapeChar_printable d c inside
    · decide
  | _ => exact forall_of_all (by decide)

/-- A text has no control character in it, so it is one line. -/
theorem text_printable (json : Json) : ∀ c ∈ json.text, 0x20 ≤ c.toNat := by
  intro c listed
  obtain ⟨token, -, inside⟩ := List.mem_flatMap.mp listed
  exact token.text_printable c inside

/-! ## How long a text is -/

theorem length_escapeChar_le (c : Char) : (escapeChar c).length ≤ 6 := by
  unfold escapeChar
  split_ifs <;> simp

theorem length_escape_le (text : List Char) : (escape text).length ≤ 6 * text.length := by
  induction text with
  | nil => exact Nat.le_refl 0
  | cons c text ih =>
    have one := length_escapeChar_le c
    rw [escape_cons, List.length_append, List.length_cons]
    omega

theorem length_escape_replicate (count : Nat) (c : Char) :
    (escape (List.replicate count c)).length = count * (escapeChar c).length := by
  induction count with
  | zero => rw [List.replicate_zero, Nat.zero_mul, escape, List.flatMap_nil, List.length_nil]
  | succ count ih =>
    rw [List.replicate_succ, escape_cons, List.length_append, ih, Nat.succ_mul, Nat.add_comm]

theorem length_text_str (value : String) :
    (str value).text.length = (escape value.toList).length + 2 := by
  simp [text, tokens, Token.text]

theorem length_moreItems (items : List Json) :
    ((moreItems items).flatMap Token.text).length = (items.map (·.text.length + 1)).sum + 1 := by
  induction items with
  | nil => rfl
  | cons item items ih =>
    rw [moreItems, List.flatMap_cons, List.flatMap_append, List.length_append, List.length_append,
      ih, List.map_cons, List.sum_cons]
    simp only [Token.text, List.length_singleton, text]
    omega

/-- The text of an array: its items' texts, what is between them and the brackets. -/
theorem length_text_arr (items : List Json) :
    (arr items).text.length = max 2 ((items.map (·.text.length + 1)).sum + 1) := by
  cases items with
  | nil => rfl
  | cons item items =>
    have rest := length_moreItems items
    unfold text at rest ⊢
    rw [tokens, List.flatMap_cons, List.flatMap_append, List.length_append, List.length_append,
      rest, List.map_cons, List.sum_cons]
    simp only [Token.text, List.length_singleton]
    omega

theorem length_moreMembers (members : List (String × Json)) :
    ((moreMembers members).flatMap Token.text).length =
      (members.map fun member => (escape member.1.toList).length + member.2.text.length + 4).sum +
        1 := by
  induction members with
  | nil => rfl
  | cons member members ih =>
    rw [moreMembers, List.flatMap_cons, List.flatMap_cons, List.flatMap_cons, List.flatMap_append,
      List.map_cons, List.sum_cons]
    simp only [List.length_append, ih, Token.text, List.length_cons, List.length_nil, text]
    omega

/-- The text of an object that is not empty: its members' keys and texts, what is
between them and the brackets. -/
theorem length_text_obj (member : String × Json) (members : List (String × Json)) :
    (obj (member :: members)).text.length =
      ((member :: members).map fun member =>
        (escape member.1.toList).length + member.2.text.length + 4).sum + 1 := by
  have rest := length_moreMembers members
  unfold text at rest ⊢
  rw [tokens, List.flatMap_cons, List.flatMap_cons, List.flatMap_cons, List.flatMap_append,
    List.map_cons, List.sum_cons]
  simp only [List.length_append, rest, Token.text, List.length_cons, List.length_nil]
  omega

/-! ## Objects as maps -/

/-- The value of a key: the last that is written for it. -/
def get : List (String × Json) → String → Option Json
  | [], _ => none
  | (own, value) :: members, key => (get members key).or (if own = key then some value else none)

/-- The keys of an object, each once. -/
def keyNames (members : List (String × Json)) : List String := (members.map Prod.fst).dedup

/-- What a derived reader finds of a struct's fields: an object's members, none of
them another's, or as many items as there are fields. -/
def fieldsOf (names : List String) : Json → Option (List (Option Json))
  | .obj members =>
    if (keyNames members).all (· ∈ names) then some (names.map (get members)) else none
  | .arr items => if items.length = names.length then some (items.map some) else none
  | _ => none

/-- Which of these an enumeration's value names: by itself, or as the only key
of an object. -/
def variantOf (names : List String) : Json → Option String
  | .str name => if name ∈ names then some name else none
  | .obj [(name, .null)] => if name ∈ names then some name else none
  | _ => none

theorem keyNames_of_nodup {members : List (String × Json)} (distinct : (members.map Prod.fst).Nodup) :
    keyNames members = members.map Prod.fst := List.dedup_eq_self.mpr distinct

theorem fieldsOf_obj {names : List String} {members : List (String × Json)}
    (listed : ∀ member ∈ members, member.1 ∈ names) :
    fieldsOf names (.obj members) = some (names.map (get members)) := by
  unfold fieldsOf
  refine if_pos (List.all_eq_true.mpr fun key member => ?_)
  obtain ⟨own, found, rfl⟩ := List.mem_map.mp (List.mem_dedup.mp member)
  exact decide_eq_true (listed own found)

end Json
