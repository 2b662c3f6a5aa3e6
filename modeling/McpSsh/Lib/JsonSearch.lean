import McpSsh.Lib.Json

/-!
# Searching JSON text

A quote in written text is where a string begins, where one ends, or an escaped
quote within a string (`Token.quote_cases`). So a member of an object is found by
searching for the text of its key and of how its value begins, wherever in the
value it stands and whatever the strings in it say (`needle_iff`), as long as no
key has a quote in it.
-/

namespace Json

/-! ## Where a quote stands -/

/-- A symbol of a whole is a symbol of some part. -/
theorem split_flatMap {α β : Type} {write : α → List β} {symbols : List α} {front back : List β}
    {c : β} (split : symbols.flatMap write = front ++ c :: back) :
    ∃ before a after left right, symbols = before ++ a :: after ∧ write a = left ++ c :: right ∧
      back = right ++ after.flatMap write := by
  induction symbols generalizing front with
  | nil => exact absurd split.symm (List.append_ne_nil_of_right_ne_nil _ (List.cons_ne_nil _ _))
  | cons a symbols ih =>
    have onward {rest : List β} (later : symbols.flatMap write = rest ++ c :: back) :
        ∃ before b after left right, a :: symbols = before ++ b :: after ∧
          write b = left ++ c :: right ∧ back = right ++ after.flatMap write := by
      obtain ⟨before, b, after, left, right, rfl, is⟩ := ih later
      exact ⟨a :: before, b, after, left, right, rfl, is⟩
    rw [List.flatMap_cons] at split
    rcases List.append_eq_append_iff.mp split with ⟨middle, -, later⟩ | ⟨middle, here, later⟩
    · exact onward later
    · cases middle with
      | nil => exact @onward [] later.symm
      | cons own middle =>
        rw [List.cons_append] at later
        obtain ⟨rfl, rfl⟩ := List.cons.inj later
        exact ⟨[], a, symbols, front, middle, rfl, here, rfl⟩

/-- Only strings are written with quotes. -/
theorem Token.quote_mem {token : Token} (listed : '"' ∈ token.text) : ∃ value, token = .str value := by
  cases token with
  | str value => exact ⟨value, rfl⟩
  | bool value => cases value <;> exact absurd listed (by decide)
  | num value => exact absurd (isDigit_toDigits value _ listed) (by decide)
  | _ => exact absurd listed (by decide)

/-- A quote begins a string, ends one, or is an escaped one within a string. -/
theorem Token.quote_cases {tokens : List Token} {front back : List Char}
    (split : tokens.flatMap text = front ++ '"' :: back) :
    ∃ before value after, tokens = before ++ .str value :: after ∧
      (back = escape value.toList ++ '"' :: after.flatMap text ∨
        back = after.flatMap text ∨
        ∃ start more, value.toList = start ++ '"' :: more ∧
          back = escape more ++ '"' :: after.flatMap text) := by
  obtain ⟨before, token, after, left, right, rfl, here, rfl⟩ := split_flatMap split
  obtain ⟨value, rfl⟩ := quote_mem (here ▸ List.mem_append_right left List.mem_cons_self)
  refine ⟨before, value, after, rfl, ?_⟩
  rw [text] at here
  cases left with
  | nil =>
    obtain ⟨-, rfl⟩ := List.cons.inj here
    exact .inl (by simp)
  | cons quote left =>
    rw [List.cons_append] at here
    rcases List.append_eq_append_iff.mp (List.cons.inj here).2 with
      ⟨middle, -, last⟩ | ⟨middle, inside, last⟩
    · rcases List.singleton_eq_append_iff.mp last with ⟨rfl, last⟩ | ⟨rfl, last⟩
      · obtain rfl : [] = right := (List.cons.inj last).2
        exact .inr (.inl rfl)
      · cases last
    · cases middle with
      | nil =>
        obtain rfl : right = [] := (List.cons.inj last).2
        exact .inr (.inl rfl)
      | cons first middle =>
        rw [List.cons_append] at last
        obtain ⟨rfl, rfl⟩ := List.cons.inj last
        obtain ⟨start, more, is, -, rfl⟩ := quote_of_escape inside
        exact .inr (.inr ⟨start, more, is, by simp⟩)

/-! ## Searching for a member -/

/-- The text of a key, and of how what follows it begins. -/
def needle (key : String) (lead : List Char) : List Char :=
  Token.text (.str key) ++ (Token.text .colon ++ lead)

/-- Whether a text can be searched for as a key: it begins like no separator. -/
def Searchable (key : String) : Prop := ∃ c more, key.toList = c :: more ∧ c.isAlpha = true

/-- Keys without quotes. -/
def Quiet (key : String) : Prop := '"' ∉ key.toList

theorem isAlpha_iff (c : Char) : c.isAlpha = true ↔
    65 ≤ c.toNat ∧ c.toNat ≤ 90 ∨ 97 ≤ c.toNat ∧ c.toNat ≤ 122 := by
  have code : c.val.toNat = c.toNat := rfl
  change (decide (c.val ≥ 'A'.val ∧ c.val ≤ 'Z'.val) ||
    (decide (c.val ≥ 'a'.val) && decide (c.val ≤ 'z'.val))) = true ↔ _
  simp [UInt32.le_iff_toNat_le, code]

theorem escapeChar_alpha {c : Char} (letter : c.isAlpha = true) : escapeChar c = [c] := by
  have bound : 65 ≤ c.toNat ∧ c.toNat ≠ 92 := by
    have letters := (isAlpha_iff c).mp letter
    omega
  refine escapeChar_plain ?_ ?_ (by omega)
  · rintro rfl
    exact absurd bound.1 (by decide)
  · rintro rfl
    exact bound.2 rfl

/-- Only a colon is written as one. -/
theorem Token.colon_of_text {token : Token} {more : List Char} (starts : token.text = ':' :: more) :
    token = .colon ∧ more = [] := by
  cases token with
  | colon => exact ⟨rfl, (List.cons.inj starts).2.symm⟩
  | bool value => cases value <;> cases starts
  | num value =>
    have digits : Nat.toDigits 10 value = ':' :: more := starts
    exact absurd (isDigit_toDigits value ':' (digits ▸ List.mem_cons_self)) (by decide)
  | _ => cases starts

/-- Where a colon is read, one is written. -/
theorem colon_of_flatMap {tokens : List Token} {rest : List Char}
    (starts : tokens.flatMap Token.text = ':' :: rest) :
    ∃ more, tokens = .colon :: more ∧ more.flatMap Token.text = rest := by
  cases tokens with
  | nil => cases starts
  | cons token tokens =>
    rw [List.flatMap_cons] at starts
    cases is : token.text with
    | nil => exact absurd is token.text_ne_nil
    | cons c more =>
      rw [is, List.cons_append] at starts
      obtain ⟨rfl, same⟩ := List.cons.inj starts
      obtain ⟨rfl, rfl⟩ := Token.colon_of_text is
      exact ⟨tokens, rfl, same⟩

/-- A key is found where one stands. -/
theorem needle_tokens {tokens : List Token} {key : String} {lead : List Char}
    (beside : tokens.IsChain (Token.Beside Quiet)) (searchable : Searchable key) :
    needle key lead <:+: tokens.flatMap Token.text ↔
      ∃ before after, tokens = before ++ .str key :: .colon :: after ∧
        lead <+: after.flatMap Token.text := by
  constructor
  · intro ⟨front, back, found⟩
    have split : tokens.flatMap Token.text =
        front ++ '"' :: (escape key.toList ++ '"' :: ':' :: (lead ++ back)) := by
      rw [← found]
      simp [needle, Token.text]
    obtain ⟨before, value, after, rfl, cases'⟩ := Token.quote_cases split
    have chain := (List.isChain_append.mp beside).2.1
    rcases cases' with opening | closing | ⟨start, rest, inside, within⟩
    · obtain ⟨same, colon⟩ := escape_cancel opening
      obtain ⟨after, rfl, leads⟩ := colon_of_flatMap colon.symm
      refine ⟨before, after, ?_, back, leads.symm⟩
      rw [String.toList_injective same]
    · -- The quote ends a string, but no separator is a letter.
      obtain ⟨c, more, is, letter⟩ := searchable
      rw [is, escape_cons, escapeChar_alpha letter] at closing
      cases after with
      | nil => cases closing
      | cons next after =>
        obtain ⟨mark, text, -, marks⟩ :=
          Token.separates_text ((List.isChain_cons_cons.mp chain).1.separated rfl)
        rw [List.flatMap_cons, text] at closing
        obtain ⟨rfl, -⟩ := List.cons.inj closing
        rcases marks with rfl | rfl | rfl | rfl <;> cases letter
    · -- The quote is within a string, which then ends before a colon.
      obtain ⟨-, colon⟩ := escape_cancel within
      obtain ⟨after, rfl, -⟩ := colon_of_flatMap colon.symm
      obtain ⟨own, same, quiet⟩ := (List.isChain_cons_cons.mp chain).1.keyed rfl
      cases same
      rw [Quiet, inside] at quiet
      exact absurd (List.mem_append_right start List.mem_cons_self) quiet
  · intro given
    obtain ⟨before, after, rfl, back, leads⟩ := given
    refine ⟨before.flatMap Token.text, back, ?_⟩
    rw [List.flatMap_append, List.flatMap_cons, List.flatMap_cons, ← leads]
    simp [needle]

/-! ## Members -/

/-- What follows a member's value. -/
def Follows (rest : List Token) : Prop :=
  ∃ mark more, rest = mark :: more ∧ (mark = .comma ∨ mark = .closeObject)

theorem moreMembers_follows (members : List (String × Json)) (rest : List Token) :
    Follows (moreMembers members ++ rest) := by
  cases members with
  | nil => exact ⟨.closeObject, rest, rfl, .inr rfl⟩
  | cons member members => exact ⟨.comma, _, rfl, .inl rfl⟩

theorem Follows.head {rest : List Token} (follows : Follows rest) : rest.head? ≠ some .colon := by
  obtain ⟨mark, more, rfl, rfl | rfl⟩ := follows <;> simp

theorem moreItems_head (items : List Json) (rest : List Token) :
    (moreItems items ++ rest).head? ≠ some .colon := by
  cases items <;> simp [moreItems]

/-- A key in front of a colon. -/
def KeyAt (key : String) (after tokens : List Token) : Prop :=
  ∃ before, tokens = before ++ .str key :: .colon :: after

theorem KeyAt.tail {key : String} {after tokens : List Token} {token : Token}
    (here : KeyAt key after (token :: tokens)) (other : tokens.head? ≠ some .colon) :
    KeyAt key after tokens := by
  obtain ⟨before, split⟩ := here
  cases before with
  | nil =>
    obtain ⟨-, rfl⟩ := List.cons.inj split
    exact absurd rfl other
  | cons _ before => exact ⟨before, (List.cons.inj split).2⟩

theorem KeyAt.append {key : String} {after tokens : List Token} (here : KeyAt key after tokens)
    (front : List Token) : KeyAt key after (front ++ tokens) := by
  obtain ⟨before, rfl⟩ := here
  exact ⟨front ++ before, (List.append_assoc _ _ _).symm⟩

theorem first_head (json : Json) (rest : List Token) :
    (json.tokens ++ rest).head? ≠ some .colon := by
  obtain ⟨more, is⟩ := json.tokens_first
  rw [is, List.cons_append, List.head?_cons]
  exact fun same => json.first_ne_colon (Option.some.inj same)

/-- Where a key stands in what is written of members, and of what follows. -/
inductive Found (members : List (String × Json)) (key : String) (after rest : List Token) : Prop
  | inside (value : Json) (more : List Token) (member : (key, value) ∈ members)
    (is : after = value.tokens ++ more) (follows : Follows more)
  | later (there : KeyAt key after rest)

theorem Found.mono {members others : List (String × Json)} {key : String} {after rest : List Token}
    (found : Found members key after rest) (sub : members ⊆ others) :
    Found others key after rest := by
  cases found with
  | inside value more member is follows => exact .inside value more (sub member) is follows
  | later there => exact .later there

section
variable {key : String} {after : List Token}

theorem found_items {items : List Json} {rest : List Token}
    (each : ∀ item ∈ items, ∀ rest, rest.head? ≠ some .colon → KeyAt key after (item.tokens ++ rest) →
      Found item.pairs key after rest)
    (other : rest.head? ≠ some .colon) (here : KeyAt key after (moreItems items ++ rest)) :
    Found (itemPairs items) key after rest := by
  induction items with
  | nil => exact .later (here.tail other)
  | cons item items ih =>
    obtain ⟨own, others⟩ := List.forall_mem_cons.mp each
    rw [moreItems, List.cons_append, List.append_assoc] at here
    cases own _ (moreItems_head items rest) (here.tail (item.first_head _)) with
    | inside value more member is follows =>
      exact .inside value more (List.mem_append_left _ member) is follows
    | later there => exact (ih others there).mono (List.subset_append_right _ _)

theorem found_member {own : String} {value : Json} {rest : List Token} {token : Token}
    (each : ∀ rest, rest.head? ≠ some .colon → KeyAt key after (value.tokens ++ rest) →
      Found value.pairs key after rest)
    (follows : Follows rest)
    (here : KeyAt key after (token :: .str own :: .colon :: (value.tokens ++ rest))) :
    Found ((own, value) :: value.pairs) key after rest := by
  obtain ⟨before, split⟩ := here.tail (by simp)
  cases before with
  | nil =>
    obtain ⟨same, colon⟩ := List.cons.inj split
    cases same
    exact .inside value rest List.mem_cons_self (List.cons.inj colon).2.symm follows
  | cons _ before =>
    have there : KeyAt key after (.colon :: (value.tokens ++ rest)) :=
      ⟨before, (List.cons.inj split).2⟩
    exact (each rest follows.head (there.tail (value.first_head _))).mono (List.subset_cons_self _ _)

theorem found_members {members : List (String × Json)} {rest : List Token}
    (each : ∀ member ∈ members, ∀ rest, rest.head? ≠ some .colon →
      KeyAt key after (member.2.tokens ++ rest) → Found member.2.pairs key after rest)
    (other : rest.head? ≠ some .colon) (here : KeyAt key after (moreMembers members ++ rest)) :
    Found (memberPairs members) key after rest := by
  induction members with
  | nil => exact .later (here.tail other)
  | cons member members ih =>
    obtain ⟨own, value⟩ := member
    obtain ⟨first, others⟩ := List.forall_mem_cons.mp each
    rw [moreMembers] at here
    simp only [List.cons_append, List.append_assoc] at here
    cases found_member first (moreMembers_follows members rest) here with
    | inside value more member is follows =>
      exact .inside value more (List.mem_append_left _ member) is follows
    | later there => exact (ih others there).mono (List.subset_append_right ((own, value) :: _) _)

/-- A key in front of a colon is that of a member. -/
theorem found (json : Json) : ∀ rest, rest.head? ≠ some .colon →
    KeyAt key after (json.tokens ++ rest) → Found json.pairs key after rest := by
  induction json using cases_all with
  | null | bool | num | str => exact fun rest other here => .later (here.tail other)
  | arr items ih =>
    intro rest other here
    cases items with
    | nil => exact .later ((here.tail (by simp)).tail other)
    | cons item items =>
      obtain ⟨own, others⟩ := List.forall_mem_cons.mp ih
      rw [tokens, List.cons_append, List.append_assoc] at here
      cases own _ (moreItems_head items rest) (here.tail (item.first_head _)) with
      | inside value more member is follows =>
        exact .inside value more (List.mem_append_left _ member) is follows
      | later there =>
        exact (found_items others other there).mono (List.subset_append_right _ _)
  | obj members ih =>
    intro rest other here
    cases members with
    | nil => exact .later ((here.tail (by simp)).tail other)
    | cons member members =>
      obtain ⟨own, value⟩ := member
      obtain ⟨first, others⟩ := List.forall_mem_cons.mp ih
      rw [tokens] at here
      simp only [List.cons_append, List.append_assoc] at here
      cases found_member first (moreMembers_follows members rest) here with
      | inside value more member is follows =>
        exact .inside value more (List.mem_append_left _ member) is follows
      | later there =>
        exact (found_members others other there).mono
          (List.subset_append_right ((own, value) :: _) _)

/-- A member stands somewhere: its key, a colon, its value and what follows a
member's value. -/
def Stands (tokens : List Token) (key : String) (value : Json) : Prop :=
  ∃ more, Follows more ∧ KeyAt key (value.tokens ++ more) tokens

theorem Stands.append {tokens : List Token} {value : Json} (stands : Stands tokens key value)
    (front : List Token) : Stands (front ++ tokens) key value := by
  obtain ⟨more, follows, here⟩ := stands
  exact ⟨more, follows, here.append front⟩

theorem Stands.cons {tokens : List Token} {value : Json} (stands : Stands tokens key value)
    (token : Token) : Stands (token :: tokens) key value := stands.append [token]

theorem stands_items {items : List Json} {value : Json} {rest : List Token}
    (each : ∀ item ∈ items, (key, value) ∈ item.pairs → ∀ rest,
      Stands (item.tokens ++ rest) key value)
    (member : (key, value) ∈ itemPairs items) : Stands (moreItems items ++ rest) key value := by
  induction items with
  | nil => exact absurd member List.not_mem_nil
  | cons item items ih =>
    obtain ⟨own, others⟩ := List.forall_mem_cons.mp each
    rw [moreItems, List.cons_append, List.append_assoc]
    rcases List.mem_append.mp member with here | later
    · exact (own here _).cons _
    · exact ((ih others later).append item.tokens).cons _

theorem stands_member {own : String} {value inner : Json} {rest : List Token} {token : Token}
    (each : (key, inner) ∈ value.pairs → ∀ rest, Stands (value.tokens ++ rest) key inner)
    (follows : Follows rest) (member : (key, inner) ∈ (own, value) :: value.pairs) :
    Stands (token :: .str own :: .colon :: (value.tokens ++ rest)) key inner := by
  rcases List.mem_cons.mp member with same | within
  · cases same
    exact ⟨rest, follows, [token], rfl⟩
  · exact (each within rest).append [token, .str own, .colon]

theorem stands_members {members : List (String × Json)} {value : Json} {rest : List Token}
    (each : ∀ member ∈ members, (key, value) ∈ member.2.pairs → ∀ rest,
      Stands (member.2.tokens ++ rest) key value)
    (member : (key, value) ∈ memberPairs members) :
    Stands (moreMembers members ++ rest) key value := by
  induction members with
  | nil => exact absurd member List.not_mem_nil
  | cons first members ih =>
    obtain ⟨own, inner⟩ := first
    obtain ⟨here, others⟩ := List.forall_mem_cons.mp each
    rw [moreMembers]
    simp only [List.cons_append, List.append_assoc]
    rcases List.mem_append.mp (show (key, value) ∈ ((own, inner) :: inner.pairs) ++ memberPairs members
      from member) with within | later
    · exact stands_member here (moreMembers_follows members rest) within
    · exact (ih others later).append (.comma :: .str own :: .colon :: inner.tokens)

/-- A member stands where its object is written. -/
theorem stands (json : Json) {value : Json} : (key, value) ∈ json.pairs →
    ∀ rest, Stands (json.tokens ++ rest) key value := by
  induction json using cases_all with
  | null | bool | num | str => exact fun member => absurd member List.not_mem_nil
  | arr items ih =>
    intro member rest
    cases items with
    | nil => exact absurd member List.not_mem_nil
    | cons item items =>
      obtain ⟨own, others⟩ := List.forall_mem_cons.mp ih
      rw [tokens, List.cons_append, List.append_assoc]
      rcases List.mem_append.mp member with here | later
      · exact (own here _).cons _
      · exact ((stands_items others later).append item.tokens).cons _
  | obj members ih =>
    intro member rest
    cases members with
    | nil => exact absurd member List.not_mem_nil
    | cons first members =>
      obtain ⟨own, inner⟩ := first
      obtain ⟨here, others⟩ := List.forall_mem_cons.mp ih
      rw [tokens]
      simp only [List.cons_append, List.append_assoc]
      rcases List.mem_append.mp
        (show (key, value) ∈ ((own, inner) :: inner.pairs) ++ memberPairs members from member) with
        within | later
      · exact stands_member here (moreMembers_follows members rest) within
      · exact (stands_members others later).append (.openObject :: .str own :: .colon :: inner.tokens)

end

/-- Leads that tell the values wanted from all others, whatever follows them. -/
def Tells (leads : List (List Char)) (wanted : Json → Prop) : Prop :=
  ∀ value more, Follows more →
    ((∃ lead ∈ leads, lead <+: (value.tokens ++ more).flatMap Token.text) ↔ wanted value)

/-- **Searching.** The text of a key and of how a value begins is found in the
text of a value exactly if some member, at any depth, has that key and such a
value. -/
theorem search_iff {json : Json} {key : String} {leads : List (List Char)} {wanted : Json → Prop}
    (quiet : json.Keyed Quiet) (searchable : Searchable key) (tells : Tells leads wanted) :
    (∃ lead ∈ leads, needle key lead <:+: json.text) ↔
      ∃ value, (key, value) ∈ json.pairs ∧ wanted value := by
  have chain := tokens_beside quiet
  constructor
  · intro given
    obtain ⟨lead, listed, searched⟩ := given
    obtain ⟨before, after, split, leads'⟩ := (needle_tokens chain searchable).mp searched
    have here : KeyAt key after (json.tokens ++ []) := ⟨before, by rw [List.append_nil, split]⟩
    cases found json [] (by simp) here with
    | inside value more member is follows =>
      exact ⟨value, member, (tells value more follows).mp ⟨lead, listed, is ▸ leads'⟩⟩
    | later there =>
      obtain ⟨before, none'⟩ := there
      exact absurd none'.symm (List.append_ne_nil_of_right_ne_nil _ (List.cons_ne_nil _ _))
  · intro given
    obtain ⟨value, member, wants⟩ := given
    obtain ⟨more, follows, before, split⟩ := stands json member []
    rw [List.append_nil] at split
    obtain ⟨lead, listed, leads'⟩ := (tells value more follows).mpr wants
    exact ⟨lead, listed, (needle_tokens chain searchable).mpr ⟨before, _, split, leads'⟩⟩

/-- How the text of a value begins. -/
theorem first_text {value : Json} {more : List Token} {c : Char} {rest : List Char}
    (leads : c :: rest <+: (value.tokens ++ more).flatMap Token.text) :
    ∃ chars, value.first.text = c :: chars := by
  obtain ⟨back, same⟩ := leads
  obtain ⟨tokens, is⟩ := value.tokens_first
  rw [is, List.cons_append, List.cons_append, List.flatMap_cons] at same
  cases written : value.first.text with
  | nil => exact absurd written value.first.text_ne_nil
  | cons own chars =>
    rw [written, List.cons_append] at same
    obtain ⟨rfl, -⟩ := List.cons.inj same
    exact ⟨chars, rfl⟩

theorem tells_str (text : String) : Tells [Token.text (.str text)] (· = .str text) := by
  intro value more follows
  constructor
  · intro given
    obtain ⟨lead, listed, leads⟩ := given
    rw [List.mem_singleton.mp listed] at leads
    obtain ⟨chars, begins⟩ := first_text leads
    obtain ⟨own, quoted⟩ := Token.quote_mem (begins ▸ List.mem_cons_self)
    cases value with
    | str other =>
      obtain ⟨back, same⟩ := leads
      have inner : escape text.toList ++ '"' :: back =
          escape other.toList ++ '"' :: more.flatMap Token.text := by
        simpa [tokens, Token.text] using same
      rw [String.toList_injective (escape_cancel inner).1]
    | _ => cases quoted
  · rintro rfl
    refine ⟨_, List.mem_singleton_self _, more.flatMap Token.text, ?_⟩
    rw [tokens, List.cons_append, List.nil_append, List.flatMap_cons]

theorem tells_obj : Tells [['{']] (fun value => ∃ members, value = .obj members) := by
  intro value more follows
  constructor
  · intro given
    obtain ⟨lead, listed, leads⟩ := given
    rw [List.mem_singleton.mp listed] at leads
    obtain ⟨chars, begins⟩ := first_text leads
    cases value with
    | obj members => exact ⟨members, rfl⟩
    | bool own => cases own <;> cases begins
    | num own =>
      have digits : Nat.toDigits 10 own = '{' :: chars := begins
      exact absurd (isDigit_toDigits own '{' (digits ▸ List.mem_cons_self)) (by decide)
    | _ => cases begins
  · intro given
    obtain ⟨members, rfl⟩ := given
    obtain ⟨tokens, is⟩ := (Json.obj members).tokens_first
    refine ⟨_, List.mem_singleton_self _, (tokens ++ more).flatMap Token.text, ?_⟩
    rw [is]
    rfl

/-- What may stand after a number is no digit. -/
theorem Follows.stops {more : List Token} (follows : Follows more) :
    ∃ mark rest, more.flatMap Token.text = mark :: rest ∧ (mark = ',' ∨ mark = '}') := by
  obtain ⟨mark, more, rfl, rfl | rfl⟩ := follows
  · exact ⟨',', _, rfl, .inl rfl⟩
  · exact ⟨'}', _, rfl, .inr rfl⟩

end Json
