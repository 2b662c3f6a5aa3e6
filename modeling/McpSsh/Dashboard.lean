import McpSsh.Approval.Request
import McpSsh.Lib.Escape
import McpSsh.SessionSnapshots

/-!
# What an approver is shown

`visible` of `dashboard.rs`, which every text an agent had a hand in goes
through, and the view of a waiting request that is made with it. A character is
shown as itself only where it looks like nothing else; every other one, and the
backslash, is shown as its code point in hex.
-/

namespace McpSsh

/-- `char::is_ascii_graphic`. -/
def isAsciiGraphic (c : Char) : Bool := 0x21 ≤ c.toNat && c.toNat ≤ 0x7E

/-- What `visible` writes of one character. -/
def visibleChar (c : Char) : List Char :=
  if (isAsciiGraphic c && c ≠ '\\') || c = ' ' then [c]
  else ['\\', 'u', '{'] ++ Nat.toDigits 16 c.toNat ++ ['}']

/-- `visible`. -/
def visible (text : String) : String := String.ofList (text.toList.flatMap visibleChar)

/-- `visible_output`. -/
def visibleOutput (text : String) : String :=
  let lines := (text.toList.splitOn '\n').map fun line => (visible (String.ofList line)).toList
  String.ofList (['\n'].intercalate lines)

/-- `access_class_name`. -/
def accessClassName : AccessClass → String
  | .readOnly => "read_only"
  | .privileged => "privileged"

/-- `RequestId::as_str`. -/
def RequestId.asStr (id : RequestId) : String := String.ofList (spell 32 id.draw)

/-- One waiting request, as the page shows it. -/
structure Pending where
  operation : String
  id : String
  session : String
  principal : String
  host : String
  role : String
  purpose : String
  accessClass : String
  agentIntent : String
  why : String
  command : List String
  deriving DecidableEq

/-- `Pending::from`. -/
def Pending.from (asked : Asked) : Pending where
  operation := asked.operation.asStr
  id := asked.id.asStr
  session := asked.session.asStr
  principal := asked.principal.name
  host := asked.host.name
  role := asked.role.name
  purpose := visible asked.purpose.text
  accessClass := accessClassName asked.accessClass
  agentIntent := visible asked.agentIntent.text
  why := visible asked.why
  command := asked.command.map visible

/-! ## Code points in hex -/

/-- The digits a code point is shown in. -/
def hexDigits : List Char :=
  ['0', '1', '2', '3', '4', '5', '6', '7', '8', '9', 'a', 'b', 'c', 'd', 'e', 'f']

theorem digitChar_hex : ∀ digit < 16, digit.digitChar ∈ hexDigits := by decide

theorem digitChar_inj : ∀ a < 16, ∀ b < 16, a.digitChar = b.digitChar → a = b := by decide

theorem toDigits_hex (n : Nat) : ∀ digit ∈ Nat.toDigits 16 n, digit ∈ hexDigits := by
  induction n using Nat.strong_induction_on with
  | _ n ih =>
    intro digit listed
    rcases Nat.lt_or_ge n 16 with small | large
    · rw [Nat.toDigits_of_lt_base small, List.mem_singleton] at listed
      rw [listed]
      exact digitChar_hex n small
    · rw [Nat.toDigits_of_base_le (by decide) large] at listed
      rcases List.mem_append.mp listed with front | last
      · exact ih (n / 16) (by omega) digit front
      · rw [List.mem_singleton.mp last]
        exact digitChar_hex _ (Nat.mod_lt n (by decide))

/-- A number is determined by its digits. -/
theorem toDigits_inj {a b : Nat} (same : Nat.toDigits 16 a = Nat.toDigits 16 b) : a = b := by
  have length_one {n : Nat} (large : 16 ≤ n) : 1 < (Nat.toDigits 16 n).length := by
    rw [Nat.toDigits_of_base_le (by decide) large, List.length_append, List.length_singleton]
    exact Nat.lt_add_of_pos_left Nat.length_toDigits_pos
  induction a using Nat.strong_induction_on generalizing b with
  | _ a ih =>
    have lengths := congrArg List.length same
    rcases Nat.lt_or_ge a 16 with small | large
    · rcases Nat.lt_or_ge b 16 with small' | large'
      · rw [Nat.toDigits_of_lt_base small, Nat.toDigits_of_lt_base small'] at same
        exact digitChar_inj a small b small' (List.cons.inj same).1
      · have more := length_one large'
        rw [Nat.toDigits_of_lt_base small, List.length_singleton] at lengths
        omega
    · rcases Nat.lt_or_ge b 16 with small' | large'
      · have more := length_one large
        rw [Nat.toDigits_of_lt_base small', List.length_singleton] at lengths
        omega
      · rw [Nat.toDigits_of_base_le (by decide) large,
          Nat.toDigits_of_base_le (by decide) large'] at same
        obtain ⟨front, last⟩ := List.append_inj' same rfl
        have high : a / 16 = b / 16 := ih (a / 16) (by omega) front
        have low := digitChar_inj _ (Nat.mod_lt a (by decide)) _ (Nat.mod_lt b (by decide))
          (List.cons.inj last).1
        omega

/-! ## Escapes -/

/-- Text as `visible` writes it. -/
def shown : Escape Char where
  plain c := (isAsciiGraphic c && c ≠ '\\') || c = ' '
  start := '\\'
  lead := ['u', '{']
  body c := Nat.toDigits 16 c.toNat
  stop := '}'
  marked := by decide
  only c := by
    intro listed
    rcases List.mem_append.mp listed with listed | listed
    · rcases List.mem_append.mp listed with listed | listed
      · exact absurd listed (by decide)
      · exact absurd (toDigits_hex _ _ listed) (by decide)
    · exact absurd listed (by decide)
  closed c listed := absurd (toDigits_hex _ _ listed) (by decide)
  faithful a b same := Char.toNat_inj.mp (toDigits_inj same)

/-- Text as `visible_output` writes it: the same, but that a line feed is shown
as itself. -/
def shownOutput : Escape Char where
  plain c := shown.plain c || c = '\n'
  start := shown.start
  lead := shown.lead
  body := shown.body
  stop := shown.stop
  marked := by decide
  only := shown.only
  closed := shown.closed
  faithful := shown.faithful

theorem visible_toList (text : String) : (visible text).toList = shown.text text.toList :=
  String.toList_ofList

theorem visibleOutput_toList (text : String) :
    (visibleOutput text).toList = shownOutput.text text.toList := by
  have lines (line : List Char) : (visible (String.ofList line)).toList = line.flatMap shown.write := by
    rw [visible_toList, String.toList_ofList]
    rfl
  unfold visibleOutput
  simp only [lines, String.toList_ofList]
  rw [List.intercalate_flatMap_splitOn]
  unfold Escape.text
  congr 1
  funext c
  by_cases feed : c = '\n'
  · rw [if_pos feed, feed]
    rfl
  · have same : shownOutput.plain c = shown.plain c := by
      change (shown.plain c || decide (c = '\n')) = shown.plain c
      rw [decide_eq_false feed, Bool.or_false]
    rw [if_neg feed]
    unfold Escape.write
    rw [same]
    rfl

/-- An escape is made of what can be seen. -/
theorem graphic_of_escape {escape : Char} {c : Char}
    (listed : escape ∈ shown.start :: (shown.lead ++ shown.body c ++ [shown.stop])) :
    isAsciiGraphic escape = true := by
  have digits : hexDigits.all isAsciiGraphic = true := rfl
  rcases List.mem_cons.mp listed with rfl | listed
  · rfl
  rcases List.mem_append.mp listed with listed | listed
  · rcases List.mem_append.mp listed with listed | listed
    · have lead : shown.lead.all isAsciiGraphic = true := rfl
      exact List.all_eq_true.mp lead escape listed
    · exact List.all_eq_true.mp digits escape (toDigits_hex _ _ listed)
  · rw [List.mem_singleton.mp listed]
    rfl

theorem graphic_of_plain {c : Char} (plain : shown.plain c = true) :
    isAsciiGraphic c = true ∨ c = ' ' := by
  rcases Bool.or_eq_true_iff.mp plain with graphic | space
  · exact .inl (Bool.and_eq_true_iff.mp graphic).1
  · exact .inr (of_decide_eq_true space)

/-- A backslash in a text is the start of a complete escape there. -/
def BackslashesEscape (text : String) : Prop :=
  ∀ front back, text.toList = front ++ '\\' :: back →
    ∃ digits rest, digits ≠ [] ∧ (∀ digit ∈ digits, digit ∈ hexDigits) ∧
      back = 'u' :: '{' :: (digits ++ '}' :: rest)

/-- Wherever escapes are those of `shown`, a backslash starts one. -/
theorem escapes_of_text {escape : Escape Char} (start : escape.start = shown.start)
    (lead : escape.lead = shown.lead) (body : escape.body = shown.body)
    (stop : escape.stop = shown.stop) {text : String} {symbols : List Char}
    (written : text.toList = escape.text symbols) : BackslashesEscape text := by
  intro front back split
  have starts : escape.text symbols = front ++ escape.start :: back := by
    rw [start]
    exact written.symm.trans split
  obtain ⟨c, rest, -, rfl⟩ := Escape.start_of_text starts
  refine ⟨Nat.toDigits 16 c.toNat, rest, Nat.toDigits_ne_nil, toDigits_hex _, ?_⟩
  rw [lead, body, stop]
  rfl

/-- **What is shown.** `visible` writes printable ASCII and blanks, with every
backslash the start of a complete escape, and two texts that look alike are the
same; `visible_output` adds line feeds and nothing else; so two requests whose
arguments look alike, one by one, are requests for one argument vector. -/
theorem visible_faithful :
    (∀ text : String, (∀ c ∈ (visible text).toList, isAsciiGraphic c = true ∨ c = ' ') ∧
      BackslashesEscape (visible text)) ∧
    (∀ a b : String, visible a = visible b → a = b) ∧
    (∀ text : String,
      (∀ c ∈ (visibleOutput text).toList, isAsciiGraphic c = true ∨ c = ' ' ∨ c = '\n') ∧
      BackslashesEscape (visibleOutput text)) ∧
    (∀ a b : String, visibleOutput a = visibleOutput b → a = b) ∧
    ∀ first second : Asked, (Pending.from first).command = (Pending.from second).command →
      first.command = second.command := by
  have faithful (a b : String) (same : visible a = visible b) : a = b := by
    have texts := congrArg String.toList same
    rw [visible_toList, visible_toList] at texts
    exact String.toList_inj.mp (Escape.text_inj texts)
  refine ⟨?_, faithful, ?_, ?_, ?_⟩
  · intro text
    refine ⟨?_, escapes_of_text rfl rfl rfl rfl (visible_toList text)⟩
    intro c listed
    rw [visible_toList] at listed
    rcases Escape.mem_text listed with plain | ⟨symbol, -, escape⟩
    · exact graphic_of_plain plain
    · exact .inl (graphic_of_escape escape)
  · intro text
    refine ⟨?_, @escapes_of_text shownOutput rfl rfl rfl rfl _ _ (visibleOutput_toList text)⟩
    intro c listed
    rw [visibleOutput_toList] at listed
    rcases Escape.mem_text listed with plain | ⟨symbol, -, escape⟩
    · rcases Bool.or_eq_true_iff.mp plain with plain | feed
      · rcases graphic_of_plain plain with graphic | space
        · exact .inl graphic
        · exact .inr (.inl space)
      · exact .inr (.inr (of_decide_eq_true feed))
    · exact .inl (graphic_of_escape escape)
  · intro a b same
    have texts := congrArg String.toList same
    rw [visibleOutput_toList, visibleOutput_toList] at texts
    exact String.toList_inj.mp (Escape.text_inj texts)
  · intro first second same
    exact List.map_injective_iff.mpr (fun a b => faithful a b) same

/-- An override of the reading order and the text that spells its escape are
shown apart. -/
theorem Sample.visible_sample :
    visible "ls \u202e" = "ls \\u\x7b202e\x7d" ∧
      visible "ls \\u\x7b202e\x7d" = "ls \\u\x7b5c\x7du\x7b202e\x7d" ∧
      BackslashesEscape (visible "ls \u202e") ∧
      visible "ls \u202e" ≠ visible "ls \\u\x7b202e\x7d" := by
  obtain ⟨shape, faithful, -⟩ := visible_faithful
  refine ⟨by decide +kernel, by decide +kernel, (shape "ls \u202e").2, ?_⟩
  intro same
  exact absurd (faithful _ _ same) (by decide)

end McpSsh
