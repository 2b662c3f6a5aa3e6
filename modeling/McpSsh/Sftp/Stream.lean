import McpSsh.Lib.Source

/-!
# Bounded SFTP frames

`BoundedSftpStream`: a transparent stream that looks at the header of each
inbound frame before the decoder does, which allocates what a header declares
as soon as it sees it. Nothing of a frame that declares too much is exposed.
-/

namespace McpSsh.Sftp

/-- `MAX_SFTP_FRAME_BYTES`. -/
def maxSftpFrameBytes : Nat := (1 <<< 20) + (64 <<< 10)

/-- The most that is read of a body at a time. -/
def bodyBytes : Nat := 32 <<< 10

inductive ErrorKind
  | unexpectedEof
  | invalidData
  deriving DecidableEq, Repr

/-- An error of the inner stream, or one of this stream's own. -/
inductive StreamError
  | inner
  | io (kind : ErrorKind) (message : String)
  deriving DecidableEq, Repr

namespace StreamError

/-- `BoundedSftpStream::invalid_frame`. -/
def invalidFrame : StreamError :=
  .io .invalidData "SFTP response exceeds the operation frame limit"

def incompleteHeader (kind : ErrorKind) : StreamError := .io kind "incomplete SFTP frame header"

def incompleteBody : StreamError := .io .unexpectedEof "incomplete SFTP frame body"

end StreamError

/-- `u32::from_be_bytes`. -/
def fromBeBytes (header : List UInt8) : Nat :=
  header.foldl (fun sum byte => sum * 256 + byte.toNat) 0

/-- `header` holds the `header_read` bytes that have been read of it. -/
structure BoundedSftpStream where
  inner : Source UInt8
  header : List UInt8
  headerExposed : Nat
  bodyRemaining : Nat
  rejected : Bool

/-- `Poll<io::Result<()>>`, with what was put into the output. -/
inductive Answer
  | pending
  | error (source : StreamError)
  | ok (exposed : List UInt8)
  deriving DecidableEq, Repr

namespace BoundedSftpStream

def new (inner : Source UInt8) : BoundedSftpStream := ⟨inner, [], 0, 0, false⟩

/-- The loop that completes the header, with the number of passes it has left:
each that goes on has read a byte. Without an answer, the header is complete. -/
def fill (stream : BoundedSftpStream) : Nat → Option Answer × BoundedSftpStream
  | 0 => (none, stream)
  | passes + 1 =>
    if stream.header.length < 4 then
      match stream.inner.poll (4 - stream.header.length) with
      | (.pending, inner) => (some .pending, { stream with inner })
      | (.failed, inner) => (some (.error .inner), { stream with inner })
      | (.piece [], inner) =>
        (some (.error (.incompleteHeader
          (if stream.header.length = 0 then .unexpectedEof else .invalidData))),
          { stream with inner })
      | (.piece read, inner) =>
        fill { stream with inner, header := stream.header ++ read } passes
    else (none, stream)

/-- A frame that was exposed whole makes room for the next one's header. -/
def turn (stream : BoundedSftpStream) : BoundedSftpStream :=
  if stream.headerExposed = 4 ∧ stream.bodyRemaining = 0 then
    { stream with header := [], headerExposed := 0 }
  else stream

/-- What of a complete header the output has room for. -/
def exposeHeader (stream : BoundedSftpStream) (room : Nat) : Answer × BoundedSftpStream :=
  let amount := min room (4 - stream.headerExposed)
  (.ok ((stream.header.drop stream.headerExposed).take amount),
    { stream with headerExposed := stream.headerExposed + amount })

/-- A read of the body. -/
def exposeBody (stream : BoundedSftpStream) (room : Nat) : Answer × BoundedSftpStream :=
  match stream.inner.poll (min (min room stream.bodyRemaining) bodyBytes) with
  | (.pending, inner) => (.pending, { stream with inner })
  | (.failed, inner) => (.error .inner, { stream with inner })
  | (.piece [], inner) => (.error .incompleteBody, { stream with inner })
  | (.piece read, inner) =>
    (.ok read, { stream with inner, bodyRemaining := stream.bodyRemaining - read.length })

/-- A read once the header is complete. -/
def expose (stream : BoundedSftpStream) (room : Nat) : Answer × BoundedSftpStream :=
  if stream.headerExposed = 0 then
    if maxSftpFrameBytes < fromBeBytes stream.header then
      (.error .invalidFrame, { stream with rejected := true })
    else
      exposeHeader { stream with bodyRemaining := fromBeBytes stream.header } room
  else if stream.headerExposed < 4 then exposeHeader stream room
  else exposeBody stream room

/-- `poll_read`, with room for so many bytes in the output. -/
def pollRead (stream : BoundedSftpStream) (room : Nat) : Answer × BoundedSftpStream :=
  if stream.rejected then (.error .invalidFrame, stream)
  else if room = 0 then (.ok [], stream)
  else
    match stream.turn.fill 4 with
    | (some answer, stream) => (answer, stream)
    | (none, stream) => stream.expose room

/-- Reads with the rooms that a caller offers one after the other. -/
def reads (stream : BoundedSftpStream) : List Nat → List Answer × BoundedSftpStream
  | [] => ([], stream)
  | room :: rooms =>
    let (answer, stream) := stream.pollRead room
    let (answers, stream) := stream.reads rooms
    (answer :: answers, stream)

end BoundedSftpStream

/-- The bytes an answer exposes. -/
def Answer.exposed : Answer → List UInt8
  | .ok exposed => exposed
  | .pending | .error _ => []

def exposed (answers : List Answer) : List UInt8 := answers.flatMap Answer.exposed

/-! ## What may be exposed -/

/-- The bytes that may be exposed of what a peer sends, where so many are still
to come of a frame whose header was accepted: all up to the first frame that
declares too much, or that has not even its header. -/
def exposable : Nat → List UInt8 → List UInt8
  | _ + 1, [] => []
  | owed + 1, byte :: bytes => byte :: exposable owed bytes
  | 0, a :: b :: c :: d :: bytes =>
    if maxSftpFrameBytes < fromBeBytes [a, b, c, d] then []
    else a :: b :: c :: d :: exposable (fromBeBytes [a, b, c, d]) bytes
  | 0, _ => []

/-- A frame that the operation accepts: a header and the body it declares. -/
structure IsFrame (frame : List UInt8) : Prop where
  length : frame.length = 4 + fromBeBytes (frame.take 4)
  bounded : fromBeBytes (frame.take 4) ≤ maxSftpFrameBytes

/-- The beginning of one, or nothing. -/
def Unfinished (rest : List UInt8) : Prop :=
  rest.length < 4 ∨
    (rest.length < 4 + fromBeBytes (rest.take 4) ∧ fromBeBytes (rest.take 4) ≤ maxSftpFrameBytes)

/-- A frame that declares more than that. -/
def Oversized (rest : List UInt8) : Prop :=
  4 ≤ rest.length ∧ maxSftpFrameBytes < fromBeBytes (rest.take 4)

section

variable {owed : Nat} {bytes rest frame : List UInt8} {frames : List (List UInt8)}

theorem exposable_owed (due : bytes.length ≤ owed) (rest : List UInt8) :
    exposable owed (bytes ++ rest) = bytes ++ exposable (owed - bytes.length) rest := by
  induction bytes generalizing owed with
  | nil => rfl
  | cons byte bytes ih =>
    rw [List.length_cons] at due
    obtain ⟨owed, rfl⟩ : ∃ rest, owed = rest + 1 := ⟨owed - 1, by omega⟩
    rw [List.cons_append, exposable, ih (by omega), List.length_cons, Nat.add_sub_add_right,
      List.cons_append]

/-- A header of four bytes, at the start of a frame. -/
theorem exposable_header {header : List UInt8} (whole : header.length = 4) (bytes : List UInt8) :
    exposable 0 (header ++ bytes) =
      if maxSftpFrameBytes < fromBeBytes header then []
      else header ++ exposable (fromBeBytes header) bytes := by
  obtain ⟨a, b, c, d, rfl⟩ : ∃ a b c d, header = [a, b, c, d] :=
    List.length_eq_four.mp whole
  rfl

theorem exposable_short (short : bytes.length < 4) : exposable 0 bytes = [] := by
  match bytes, short with
  | [], _ => rfl
  | [_], _ => rfl
  | [_, _], _ => rfl
  | [_, _, _], _ => rfl

theorem exposable_frame (whole : IsFrame frame) (rest : List UInt8) :
    exposable 0 (frame ++ rest) = frame ++ exposable 0 rest := by
  have header : (frame.take 4).length = 4 := by
    rw [List.length_take, whole.length]
    omega
  have body : (frame.drop 4).length = fromBeBytes (frame.take 4) := by
    rw [List.length_drop, whole.length]
    omega
  calc exposable 0 (frame ++ rest)
      = exposable 0 (frame.take 4 ++ (frame.drop 4 ++ rest)) := by
        rw [← List.append_assoc, List.take_append_drop]
    _ = frame.take 4 ++ exposable (fromBeBytes (frame.take 4)) (frame.drop 4 ++ rest) := by
        rw [exposable_header header, if_neg (Nat.not_lt.mpr whole.bounded)]
    _ = frame.take 4 ++ (frame.drop 4 ++ exposable 0 rest) := by
        rw [exposable_owed (Nat.le_of_eq body), body, Nat.sub_self]
    _ = frame ++ exposable 0 rest := by
        rw [← List.append_assoc, List.take_append_drop]

theorem exposable_frames (whole : ∀ frame ∈ frames, IsFrame frame) (rest : List UInt8) :
    exposable 0 (frames.flatten ++ rest) = frames.flatten ++ exposable 0 rest := by
  induction frames with
  | nil => rfl
  | cons frame frames ih =>
    rw [List.flatten_cons, List.append_assoc, exposable_frame (whole _ List.mem_cons_self),
      ih fun _ listed => whole _ (List.mem_cons_of_mem _ listed), List.append_assoc]

theorem exposable_oversized (large : Oversized rest) : exposable 0 rest = [] := by
  have header : (rest.take 4).length = 4 := List.length_take_of_le large.1
  rw [← List.take_append_drop 4 rest, exposable_header header, if_pos large.2]

theorem exposable_nil (owed : Nat) : exposable owed [] = [] := by
  cases owed <;> rfl

theorem exposable_all (due : bytes.length ≤ owed) : exposable owed bytes = bytes := by
  have all := exposable_owed due []
  rwa [exposable_nil, List.append_nil] at all

theorem exposable_unfinished (unfinished : Unfinished rest) :
    exposable 0 rest = if 4 ≤ rest.length then rest else [] := by
  split
  case isFalse short => exact exposable_short (Nat.lt_of_not_le short)
  case isTrue begun =>
    rcases unfinished with short | ⟨short, fits⟩
    · omega
    · have header : (rest.take 4).length = 4 := List.length_take_of_le begun
      have body : (rest.drop 4).length ≤ fromBeBytes (rest.take 4) := by
        rw [List.length_drop]
        omega
      have split := exposable_header header (rest.drop 4)
      rwa [List.take_append_drop, if_neg (Nat.not_lt.mpr fits), exposable_all body,
        List.take_append_drop] at split

/-- Whatever a peer sends is frames, and then the beginning of one or one that
declares too much. -/
theorem exists_frames (bytes : List UInt8) :
    ∃ (frames : List (List UInt8)) (rest : List UInt8), bytes = frames.flatten ++ rest ∧
      (∀ frame ∈ frames, IsFrame frame) ∧ (Unfinished rest ∨ Oversized rest) := by
  induction length : bytes.length using Nat.strongRecOn generalizing bytes with
  | ind _ ih =>
    by_cases short : bytes.length < 4
    · exact ⟨[], bytes, rfl, fun _ listed => absurd listed List.not_mem_nil, .inl (.inl short)⟩
    by_cases large : maxSftpFrameBytes < fromBeBytes (bytes.take 4)
    · exact ⟨[], bytes, rfl, fun _ listed => absurd listed List.not_mem_nil,
        .inr ⟨Nat.le_of_not_lt short, large⟩⟩
    by_cases cut : bytes.length < 4 + fromBeBytes (bytes.take 4)
    · exact ⟨[], bytes, rfl, fun _ listed => absurd listed List.not_mem_nil,
        .inl (.inr ⟨cut, Nat.le_of_not_lt large⟩)⟩
    · let size := 4 + fromBeBytes (bytes.take 4)
      have fits : size ≤ bytes.length := Nat.le_of_not_lt cut
      obtain ⟨frames, rest, tail, whole, last⟩ :=
        ih (bytes.drop size).length (by rw [List.length_drop]; omega) (bytes.drop size) rfl
      refine ⟨bytes.take size :: frames, rest, ?_, ?_, last⟩
      · rw [List.flatten_cons, List.append_assoc, ← tail, List.take_append_drop]
      · intro frame listed
        rcases List.mem_cons.mp listed with rfl | listed
        · have header : (bytes.take size).take 4 = bytes.take 4 := by
            rw [List.take_take]
            congr 1
            omega
          constructor
          case length => rw [header, List.length_take_of_le fits]
          case bounded =>
            rw [header]
            exact Nat.le_of_not_lt large
        · exact whole frame listed

end

/-! ## One read -/

namespace BoundedSftpStream

variable {stream after : BoundedSftpStream} {room passes : Nat} {answer : Answer}

/-- What of the header was read and not exposed. -/
def held (stream : BoundedSftpStream) : List UInt8 := stream.header.drop stream.headerExposed

/-- What was not exposed of everything the peer sends. -/
def left (stream : BoundedSftpStream) : List UInt8 := stream.held ++ stream.inner.rest

/-- How much is to come of a frame whose header was accepted. -/
def owed (stream : BoundedSftpStream) : Nat :=
  if stream.headerExposed = 0 then 0 else 4 - stream.headerExposed + stream.bodyRemaining

/-- What may be exposed of what is left. -/
def due (stream : BoundedSftpStream) : List UInt8 := exposable stream.owed stream.left

/-- Between two reads: a header is exposed once it is complete, and one that is
complete and not exposed was rejected. -/
structure Sound (stream : BoundedSftpStream) : Prop where
  header : stream.header.length ≤ 4
  exposed : stream.headerExposed ≤ 4
  whole : 0 < stream.headerExposed → stream.header.length = 4
  waiting : stream.headerExposed = 0 → stream.rejected = false → stream.header.length < 4
  rejected : stream.rejected = true → stream.due = []

theorem sound_new (inner : Source UInt8) : (new inner).Sound where
  header := Nat.zero_le 4
  exposed := Nat.zero_le 4
  whole := nofun
  waiting _ _ := Nat.zero_lt_succ 3
  rejected := nofun

theorem turn_header (sound : stream.Sound) :
    stream.turn.left = stream.left ∧ stream.turn.due = stream.due ∧ stream.turn.Sound := by
  unfold turn
  split
  case isFalse => exact ⟨rfl, rfl, sound⟩
  case isTrue done =>
    have whole := sound.whole (by omega)
    have left : ({ stream with header := [], headerExposed := 0 } : BoundedSftpStream).left =
        stream.left := by
      unfold left held
      rw [done.1, ← whole, List.drop_length]
      rfl
    have due : ({ stream with header := [], headerExposed := 0 } : BoundedSftpStream).due =
        stream.due := by
      unfold due owed
      rw [left, if_pos rfl, done.1, done.2]
      rfl
    refine ⟨left, due, ?_⟩
    constructor
    case header => exact Nat.zero_le 4
    case exposed => exact Nat.zero_le 4
    case whole => exact nofun
    case waiting => exact fun _ _ => Nat.zero_lt_succ 3
    case rejected => exact fun rejected => due ▸ sound.rejected rejected

/-- What comes of completing a header: nothing but the header and the inner
stream changes, no byte is lost, and the header is complete or an answer says
why it is not. -/
structure Filled (stream : BoundedSftpStream) (answer : Option Answer)
    (after : BoundedSftpStream) : Prop where
  same : after = { stream with inner := after.inner, header := after.header }
  bytes : after.header ++ after.inner.rest = stream.header ++ stream.inner.rest
  outcome :
    (answer = none ∧ after.header.length = 4) ∨
    ((answer = some .pending ∨ answer = some (.error .inner)) ∧ after.header.length < 4) ∨
    ∃ kind, answer = some (.error (.incompleteHeader kind)) ∧ after.header.length < 4 ∧
      after.inner.rest = []

theorem fill_cases (short : stream.header.length ≤ 4) (enough : 4 ≤ stream.header.length + passes) :
    Filled stream (stream.fill passes).1 (stream.fill passes).2 := by
  induction passes generalizing stream with
  | zero => exact ⟨rfl, rfl, .inl ⟨rfl, Nat.le_antisymm short enough⟩⟩
  | succ passes ih =>
    rw [fill]
    split
    case isFalse complete => exact ⟨rfl, rfl, .inl ⟨rfl, Nat.le_antisymm short (Nat.le_of_not_lt complete)⟩⟩
    case isTrue lacking =>
      rcases stream.inner.poll_cases (4 - stream.header.length) with
        ⟨-, polled⟩ | ⟨-, polled⟩ | ⟨read, rest, polled, same, fits, ended⟩
      · rw [polled]
        exact ⟨rfl, rfl, .inr (.inl ⟨.inl rfl, lacking⟩)⟩
      · rw [polled]
        exact ⟨rfl, rfl, .inr (.inl ⟨.inr rfl, lacking⟩)⟩
      · rw [polled]
        cases read with
        | nil =>
          refine ⟨rfl, ?_, .inr (.inr ⟨_, rfl, lacking, ?_⟩)⟩
          · rw [same]
            rfl
          · have none := ended (by omega) rfl
            rw [none] at same
            exact (List.append_eq_nil_iff.mp same.symm).2
        | cons byte read =>
          rw [List.length_cons] at fits
          have rest' := @ih { stream with
            inner := stream.inner.next rest, header := stream.header ++ byte :: read }
            (by rw [List.length_append, List.length_cons]; omega)
            (by rw [List.length_append, List.length_cons]; omega)
          refine ⟨rest'.same, rest'.bytes.trans ?_, rest'.outcome⟩
          rw [same, List.append_assoc]
          rfl

/-- A header that is being exposed is complete, and nothing is read of it. -/
theorem fill_complete (complete : stream.header.length = 4) (passes : Nat) :
    stream.fill passes = (none, stream) := by
  cases passes with
  | zero => rfl
  | succ passes => rw [fill, if_neg (by omega)]

/-- Everything a read with room can come to. -/
inductive Polls (stream : BoundedSftpStream) : Answer → BoundedSftpStream → Prop
  | waits {said next} : said = .pending ∨ said = .error .inner →
    next.left = stream.left → next.due = stream.due →
    (Oversized stream.left → stream.due = [] → next.header.length < 4) →
    next.rejected = false → next.Sound → Polls stream said next
  | ends {said next} :
    (∃ kind, said = .error (.incompleteHeader kind)) ∨ said = .error .incompleteBody →
    next.left = stream.left → next.due = [] → stream.due = [] → ¬ Oversized stream.left →
    next.rejected = false → next.Sound → Polls stream said next
  | rejects {next} : next.left = stream.left → Oversized stream.left → stream.due = [] →
    next.rejected = true → next.Sound → Polls stream (.error .invalidFrame) next
  | exposes {next got} : got ≠ [] → stream.left = got ++ next.left →
    stream.due = got ++ next.due → next.rejected = false → next.Sound →
    Polls stream (.ok got) next

theorem not_oversized_nil : ¬ Oversized [] := fun large => absurd large.1 (by decide)

/-- Part of a header that was accepted. -/
theorem exposeHeader_polls {before : BoundedSftpStream} (roomy : 0 < room)
    (whole : stream.header.length = 4) (part : stream.headerExposed < 4)
    (going : stream.rejected = false) (left : before.left = stream.left)
    (due : before.due =
      exposable (4 - stream.headerExposed + stream.bodyRemaining) stream.left) :
    Polls before (stream.exposeHeader room).1 (stream.exposeHeader room).2 := by
  let amount := min room (4 - stream.headerExposed)
  have some' : 0 < amount := by omega
  have got : ((stream.header.drop stream.headerExposed).take amount).length = amount := by
    rw [List.length_take, List.length_drop, whole]
    omega
  have split : stream.left =
      (stream.header.drop stream.headerExposed).take amount ++
        (stream.exposeHeader room).2.left := by
    change stream.header.drop stream.headerExposed ++ stream.inner.rest =
      _ ++ (stream.header.drop (stream.headerExposed + amount) ++ stream.inner.rest)
    rw [← List.append_assoc, ← List.drop_drop, List.take_append_drop]
  have owed : (stream.exposeHeader room).2.owed =
      4 - stream.headerExposed + stream.bodyRemaining - amount := by
    change (if stream.headerExposed + amount = 0 then 0
      else 4 - (stream.headerExposed + amount) + stream.bodyRemaining) = _
    rw [if_neg (by omega)]
    omega
  apply Polls.exposes
  · intro empty
    have none : ((stream.header.drop stream.headerExposed).take amount).length = 0 :=
      congrArg List.length empty
    omega
  · rw [left]
    exact split
  · have rest := @exposable_owed (4 - stream.headerExposed + stream.bodyRemaining)
      ((stream.header.drop stream.headerExposed).take amount) (by rw [got]; omega)
      (stream.exposeHeader room).2.left
    rw [← split, got, ← owed] at rest
    exact due.trans rest
  · exact going
  · constructor
    case header => exact Nat.le_of_eq whole
    case exposed =>
      change stream.headerExposed + amount ≤ 4
      omega
    case whole => exact fun _ => whole
    case waiting =>
      intro unexposed
      change stream.headerExposed + amount = 0 at unexposed
      omega
    case rejected => exact fun rejected => absurd (going.symm.trans rejected) Bool.false_ne_true

/-- A read of a body that is not complete. -/
theorem exposeBody_polls (roomy : 0 < room) (sound : stream.Sound)
    (going : stream.rejected = false) (header : stream.headerExposed = 4)
    (body : stream.bodyRemaining ≠ 0) :
    Polls stream (stream.exposeBody room).1 (stream.exposeBody room).2 := by
  have whole : stream.header.length = 4 := sound.whole (by omega)
  have held (inner : Source UInt8) (remaining : Nat) :
      ({ stream with inner, bodyRemaining := remaining } : BoundedSftpStream).left =
        inner.rest := by
    unfold left BoundedSftpStream.held
    rw [header, ← whole, List.drop_length]
    rfl
  have owed (inner : Source UInt8) (remaining : Nat) :
      ({ stream with inner, bodyRemaining := remaining } : BoundedSftpStream).due =
        exposable remaining inner.rest := by
    unfold due
    rw [held]
    unfold BoundedSftpStream.owed
    rw [if_neg (by rw [header]; decide), header, Nat.sub_self, Nat.zero_add]
  have sound' (inner : Source UInt8) (remaining : Nat) :
      ({ stream with inner, bodyRemaining := remaining } : BoundedSftpStream).Sound :=
    ⟨sound.header, sound.exposed, sound.whole,
      fun unexposed => absurd (header.symm.trans unexposed) (by decide),
      fun rejected => absurd (going.symm.trans rejected) Bool.false_ne_true⟩
  have left' : stream.left = stream.inner.rest := held stream.inner stream.bodyRemaining
  have due' : stream.due = exposable stream.bodyRemaining stream.inner.rest :=
    owed stream.inner stream.bodyRemaining
  have waits (said : Answer) (kind : said = .pending ∨ said = .error .inner) :
      Polls stream said { stream with inner := stream.inner.next stream.inner.rest } := by
    refine .waits kind ?_ ?_ ?_ going (sound' _ stream.bodyRemaining)
    · exact (held _ stream.bodyRemaining).trans left'.symm
    · exact (owed _ stream.bodyRemaining).trans due'.symm
    · intro large none
      rw [due'] at none
      rw [left'] at large
      obtain ⟨remaining, some'⟩ := Nat.exists_eq_succ_of_ne_zero body
      rw [some'] at none
      cases rest : stream.inner.rest with
      | nil => exact absurd (rest ▸ large) not_oversized_nil
      | cons byte rest' =>
        rw [rest, exposable] at none
        cases none
  unfold exposeBody
  rcases stream.inner.poll_cases (min (min room stream.bodyRemaining) bodyBytes) with
    ⟨-, polled⟩ | ⟨-, polled⟩ | ⟨read, rest, polled, same, fits, ended⟩
  · rw [polled]
    exact waits _ (.inl rfl)
  · rw [polled]
    exact waits _ (.inr rfl)
  · rw [polled]
    cases read with
    | nil =>
      have done : stream.inner.rest = [] := ended (by unfold bodyBytes; omega) rfl
      have over' : rest = [] := (List.append_eq_nil_iff.mp (same.symm.trans done)).2
      refine .ends (.inr rfl) ?_ ?_ ?_ ?_ going (sound' _ stream.bodyRemaining)
      · exact (held _ stream.bodyRemaining).trans (same.symm.trans left'.symm)
      · refine (owed _ stream.bodyRemaining).trans ?_
        rw [over']
        exact exposable_nil _
      · rw [due', done, exposable_nil]
      · rw [left', done]
        exact not_oversized_nil
    | cons byte read =>
      have next := held (stream.inner.next rest) (stream.bodyRemaining - (byte :: read).length)
      have rest' := owed (stream.inner.next rest) (stream.bodyRemaining - (byte :: read).length)
      refine .exposes (List.cons_ne_nil _ _) ?_ ?_ going (sound' _ _)
      · exact left'.trans (same.trans (congrArg (byte :: read ++ ·) next.symm))
      · refine due'.trans (Eq.trans ?_ (congrArg (byte :: read ++ ·) rest'.symm))
        rw [same]
        exact exposable_owed (by omega) rest

/-- A header that was completed just now. -/
theorem expose_polls (roomy : 0 < room) (fresh : stream.headerExposed = 0)
    (whole : stream.header.length = 4) (going : stream.rejected = false)
    {before : BoundedSftpStream} (left : before.left = stream.left)
    (due : before.due = exposable 0 stream.left) :
    Polls before (stream.expose room).1 (stream.expose room).2 := by
  have bytes : stream.left = stream.header ++ stream.inner.rest := by
    unfold BoundedSftpStream.left held
    rw [fresh, List.drop_zero]
  rw [bytes, exposable_header whole] at due
  rw [expose, if_pos fresh]
  split
  case isTrue large =>
    rw [if_pos large] at due
    have oversized : Oversized stream.left := by
      constructor
      · rw [bytes, List.length_append]
        omega
      · rwa [bytes, ← whole, List.take_left]
    refine .rejects left.symm (left ▸ oversized) due rfl ?_
    constructor
    case header => exact Nat.le_of_eq whole
    case exposed =>
      change stream.headerExposed ≤ 4
      omega
    case whole =>
      intro exposed
      exact whole
    case waiting => exact fun _ going => Bool.noConfusion going
    case rejected =>
      intro _
      change exposable (if stream.headerExposed = 0 then 0 else _) stream.left = []
      rw [if_pos fresh, bytes, exposable_header whole, if_pos large]
  case isFalse fits =>
    rw [if_neg fits] at due
    apply exposeHeader_polls roomy
    · exact whole
    · exact fresh ▸ Nat.zero_lt_succ 3
    · exact going
    · exact left
    · change before.due = exposable (4 - stream.headerExposed + fromBeBytes stream.header)
        stream.left
      rw [due, bytes, fresh, exposable_owed (by omega), whole, Nat.sub_zero, Nat.add_sub_cancel_left]

/-- Only what is left and due says what a read can come to. -/
theorem Polls.of_same {before : BoundedSftpStream} (polls : Polls stream answer after)
    (left : before.left = stream.left) (due : before.due = stream.due) :
    Polls before answer after := by
  cases polls with
  | waits kind left' due' short going sound =>
    exact .waits kind (left'.trans left.symm) (due'.trans due.symm)
      (by rw [left, due]; exact short) going sound
  | ends kind left' over' none fits going sound =>
    exact .ends kind (left'.trans left.symm) over' (due.trans none) (by rw [left]; exact fits) going
      sound
  | rejects left' large none rejected sound =>
    exact .rejects (left'.trans left.symm) (by rw [left]; exact large) (due.trans none) rejected
      sound
  | exposes some' left' due' going sound =>
    exact .exposes some' (left.trans left') (due.trans due') going sound

theorem turn_rejected (stream : BoundedSftpStream) : stream.turn.rejected = stream.rejected := by
  unfold turn
  split <;> rfl

theorem turn_body (whole : stream.turn.headerExposed = 4) : stream.turn.bodyRemaining ≠ 0 := by
  unfold turn at whole ⊢
  split at whole
  case isTrue => exact absurd (show (0 : Nat) = 4 from whole) (by decide)
  case isFalse part =>
    rw [if_neg part]
    exact fun none => part ⟨whole, none⟩

/-- A read at the start of a frame. -/
theorem fill_polls (roomy : 0 < room) (sound : stream.Sound) (going : stream.rejected = false)
    (fresh : stream.headerExposed = 0) :
    Polls stream
      (match stream.fill 4 with
        | (some answer, stream) => (answer, stream)
        | (none, stream) => stream.expose room).1
      (match stream.fill 4 with
        | (some answer, stream) => (answer, stream)
        | (none, stream) => stream.expose room).2 := by
  have filled := @fill_cases stream 4 sound.header (by omega)
  generalize stream.fill 4 = came at filled
  obtain ⟨answer, after⟩ := came
  obtain ⟨same, bytes, outcome⟩ := filled
  dsimp only at same bytes outcome
  have fresh' : after.headerExposed = 0 := by rw [same]; exact fresh
  have going' : after.rejected = false := by rw [same]; exact going
  have left : after.left = stream.left := by
    unfold BoundedSftpStream.left held
    rw [fresh, fresh', List.drop_zero, List.drop_zero, bytes]
  have due : stream.due = exposable 0 after.left := by
    unfold BoundedSftpStream.due owed
    rw [if_pos fresh, left]
  have due' : after.due = stream.due := by
    rw [due]
    unfold BoundedSftpStream.due owed
    rw [if_pos fresh']
  have sound' (short : after.header.length < 4) : after.Sound :=
    ⟨Nat.le_of_lt short, fresh' ▸ Nat.zero_le 4, fun exposed => by omega, fun _ _ => short,
      fun rejected => absurd (going'.symm.trans rejected) Bool.false_ne_true⟩
  rcases outcome with ⟨rfl, whole⟩ | ⟨kind, short⟩ | ⟨kind, rfl, short, done⟩
  · exact expose_polls roomy fresh' whole going' left.symm due
  · rcases kind with rfl | rfl
    · exact .waits (.inl rfl) left due' (fun _ _ => short) going' (sound' short)
    · exact .waits (.inr rfl) left due' (fun _ _ => short) going' (sound' short)
  · have all : after.left = after.header := by
      unfold BoundedSftpStream.left held
      rw [fresh', List.drop_zero, done, List.append_nil]
    have none : stream.due = [] := by rw [due, all, exposable_short short]
    refine .ends (.inl ⟨kind, rfl⟩) left (due'.trans none) none ?_ going' (sound' short)
    · rw [← left, all]
      exact fun large => absurd large.1 (Nat.not_le_of_lt short)

/-- **One read.** What a read with room can come to. -/
theorem pollRead_polls (roomy : 0 < room) (sound : stream.Sound)
    (going : stream.rejected = false) :
    Polls stream (stream.pollRead room).1 (stream.pollRead room).2 := by
  obtain ⟨left, due, turned⟩ := turn_header sound
  have going' : stream.turn.rejected = false := stream.turn_rejected.trans going
  unfold pollRead
  rw [if_neg (Bool.eq_false_iff.mp going), if_neg (Nat.ne_of_gt roomy)]
  by_cases fresh : stream.turn.headerExposed = 0
  · exact (fill_polls roomy turned going' fresh).of_same left.symm due.symm
  · have whole := turned.whole (Nat.pos_of_ne_zero fresh)
    have exposed := turned.exposed
    rw [fill_complete whole]
    change Polls stream (stream.turn.expose room).1 (stream.turn.expose room).2
    rw [expose, if_neg fresh]
    by_cases part : stream.turn.headerExposed < 4
    · rw [if_pos part]
      refine (exposeHeader_polls roomy whole part going' rfl ?_).of_same left.symm due.symm
      unfold BoundedSftpStream.due owed
      rw [if_neg fresh]
    · rw [if_neg part]
      have all : stream.turn.headerExposed = 4 := by omega
      exact (exposeBody_polls roomy turned going' all (turn_body all)).of_same left.symm due.symm

/-! ## Any number of reads -/

/-- What some reads have exposed, and what they left. -/
structure Exposed (stream : BoundedSftpStream) (answers : List Answer)
    (after : BoundedSftpStream) : Prop where
  left : stream.left = exposed answers ++ after.left
  due : stream.due = exposed answers ++ after.due
  sound : after.Sound

theorem pollRead_rejected (rejected : stream.rejected = true) (room : Nat) :
    stream.pollRead room = (.error .invalidFrame, stream) := by
  rw [pollRead, if_pos rejected]

theorem pollRead_none (going : stream.rejected = false) :
    stream.pollRead 0 = (.ok [], stream) := by
  rw [pollRead, if_neg (Bool.eq_false_iff.mp going), if_pos rfl]

/-- A read, with room or without. -/
theorem pollRead_exposed (sound : stream.Sound) (room : Nat) :
    Exposed stream [(stream.pollRead room).1] (stream.pollRead room).2 := by
  cases going : stream.rejected with
  | true =>
    rw [pollRead_rejected going]
    exact ⟨rfl, rfl, sound⟩
  | false =>
    rcases Nat.eq_zero_or_pos room with rfl | roomy
    · rw [pollRead_none going]
      exact ⟨rfl, rfl, sound⟩
    · have polls := pollRead_polls roomy sound going
      generalize stream.pollRead room = came at polls
      obtain ⟨answer, after⟩ := came
      cases polls with
      | waits kind left due short going' sound' =>
        rcases kind with rfl | rfl
        · exact ⟨left.symm, due.symm, sound'⟩
        · exact ⟨left.symm, due.symm, sound'⟩
      | ends kind left over' none fits going' sound' =>
        have silent : exposed [answer] = [] := by
          rcases kind with ⟨kind, rfl⟩ | rfl <;> rfl
        exact ⟨by rw [silent]; exact left.symm, by rw [silent, none, over']; rfl, sound'⟩
      | rejects left large none rejected sound' =>
        exact ⟨left.symm, none.trans (sound'.rejected rejected).symm, sound'⟩
      | exposes some' left due going' sound' =>
        exact ⟨by simpa [exposed, Answer.exposed] using left,
          by simpa [exposed, Answer.exposed] using due, sound'⟩

theorem reads_cons (stream : BoundedSftpStream) (room : Nat) (rooms : List Nat) :
    stream.reads (room :: rooms) =
      ((stream.pollRead room).1 :: ((stream.pollRead room).2.reads rooms).1,
        ((stream.pollRead room).2.reads rooms).2) := rfl

theorem reads_exposed (sound : stream.Sound) (rooms : List Nat) :
    Exposed stream (stream.reads rooms).1 (stream.reads rooms).2 := by
  induction rooms generalizing stream with
  | nil => exact ⟨rfl, rfl, sound⟩
  | cons room rooms ih =>
    have first := pollRead_exposed sound room
    have later := ih first.sound
    rw [reads_cons]
    constructor
    case left =>
      rw [first.left, later.left]
      simp [exposed, List.append_assoc]
    case due =>
      rw [first.due, later.due]
      simp [exposed, List.append_assoc]
    case sound => exact later.sound

/-- After a frame was rejected every read fails. -/
theorem reads_rejected (rejected : stream.rejected = true) (rooms : List Nat) :
    ∀ answer ∈ (stream.reads rooms).1, answer = .error .invalidFrame := by
  induction rooms with
  | nil => exact fun _ listed => absurd listed List.not_mem_nil
  | cons room rooms ih =>
    rw [reads_cons, pollRead_rejected rejected]
    intro answer listed
    rcases List.mem_cons.mp listed with rfl | listed
    · rfl
    · exact ih answer listed

theorem inner_ne_invalid : StreamError.inner ≠ .invalidFrame := nofun

theorem incomplete_ne_invalid (kind : ErrorKind) :
    StreamError.incompleteHeader kind ≠ .invalidFrame := by
  cases kind <;> decide

/-- A read that does not find such a frame goes on. -/
theorem pollRead_going (sound : stream.Sound) (going : stream.rejected = false)
    (found : (stream.pollRead room).1 ≠ .error .invalidFrame) :
    (stream.pollRead room).2.rejected = false := by
  rcases Nat.eq_zero_or_pos room with rfl | roomy
  · rw [pollRead_none going]
    exact going
  · have polls := pollRead_polls roomy sound going
    generalize stream.pollRead room = came at polls found
    obtain ⟨answer, after⟩ := came
    cases polls with
    | waits kind left due short going' sound' => exact going'
    | ends kind left over' none fits going' sound' => exact going'
    | rejects left large none rejected sound' => exact absurd rfl found
    | exposes some' left due going' sound' => exact going'

/-- A read that does finds it at the start of what is left. -/
theorem pollRead_invalid (sound : stream.Sound) (going : stream.rejected = false)
    (found : (stream.pollRead room).1 = .error .invalidFrame) :
    Oversized stream.left ∧ stream.due = [] ∧ (stream.pollRead room).2.rejected = true := by
  rcases Nat.eq_zero_or_pos room with rfl | roomy
  · rw [pollRead_none going] at found
    cases found
  · have polls := pollRead_polls roomy sound going
    generalize stream.pollRead room = came at polls found
    obtain ⟨answer, after⟩ := came
    dsimp only at found
    subst found
    cases polls with
    | waits kind left due short going' sound' =>
      rcases kind with kind | kind
      · cases kind
      · exact absurd (Answer.error.inj kind).symm inner_ne_invalid
    | ends kind left over' none fits going' sound' =>
      rcases kind with ⟨kind, same⟩ | same
      · exact absurd (Answer.error.inj same).symm (incomplete_ne_invalid kind)
      · exact absurd (Answer.error.inj same) (by decide)
    | rejects left large none rejected sound' => exact ⟨large, none, rejected⟩

/-- When a read first finds a frame that declares too much, everything before
that frame has been exposed. -/
theorem reads_invalid {rooms : List Nat} {earlier later : List Answer} (sound : stream.Sound)
    (going : stream.rejected = false)
    (split : (stream.reads rooms).1 = earlier ++ .error .invalidFrame :: later)
    (first : .error .invalidFrame ∉ earlier) :
    (∃ rest, stream.left = stream.due ++ rest ∧ Oversized rest) ∧
      (stream.reads rooms).2.due = [] := by
  induction rooms generalizing stream earlier with
  | nil => cases earlier <;> cases split
  | cons room rooms ih =>
    have read := pollRead_exposed sound room
    rw [reads_cons] at split ⊢
    cases earlier with
    | nil =>
      obtain ⟨large, none, rejected⟩ := pollRead_invalid sound going (List.cons.inj split).1
      rw [none]
      refine ⟨⟨_, rfl, large⟩, ?_⟩
      have later := (reads_exposed read.sound rooms).due
      rw [read.sound.rejected rejected] at later
      exact (List.append_eq_nil_iff.mp later.symm).2
    | cons answer earlier =>
      obtain ⟨found, rest⟩ := List.cons.inj split
      rw [List.mem_cons, not_or] at first
      obtain ⟨⟨tail, left, large⟩, none⟩ := ih read.sound
        (pollRead_going sound going (found ▸ Ne.symm first.1)) rest first.2
      refine ⟨⟨tail, ?_, large⟩, none⟩
      rw [read.left, read.due, left, List.append_assoc]

/-- And every later read fails. -/
theorem reads_later {rooms : List Nat} {earlier later : List Answer} (sound : stream.Sound)
    (split : (stream.reads rooms).1 = earlier ++ .error .invalidFrame :: later) :
    ∀ answer ∈ later, answer = .error .invalidFrame := by
  induction rooms generalizing stream earlier with
  | nil => cases earlier <;> cases split
  | cons room rooms ih =>
    rw [reads_cons] at split
    cases earlier with
    | nil =>
      obtain ⟨found, rest⟩ := List.cons.inj split
      rw [← rest]
      cases going : stream.rejected with
      | true =>
        rw [pollRead_rejected going]
        exact reads_rejected going rooms
      | false => exact reads_rejected (pollRead_invalid sound going found).2.2 rooms
    | cons answer earlier =>
      exact ih (pollRead_exposed sound room).sound (List.cons.inj split).2

/-- An answer that says the inner stream has ended. -/
def Ends (answer : Answer) : Prop :=
  (∃ kind, answer = .error (.incompleteHeader kind)) ∨ answer = .error .incompleteBody

/-- A read that finds it has nothing to expose any more. -/
theorem pollRead_ends (sound : stream.Sound) (ends : Ends (stream.pollRead room).1) :
    (stream.pollRead room).2.due = [] := by
  cases going : stream.rejected with
  | true =>
    rw [pollRead_rejected going]
    exact sound.rejected going
  | false =>
    rcases Nat.eq_zero_or_pos room with rfl | roomy
    · rw [pollRead_none going] at ends
      rcases ends with ⟨kind, same⟩ | same <;> cases same
    · have polls := pollRead_polls roomy sound going
      generalize stream.pollRead room = came at polls ends
      obtain ⟨answer, after⟩ := came
      cases polls with
      | waits kind left due short going' sound' =>
        rcases kind with rfl | rfl
        · rcases ends with ⟨kind, same⟩ | same <;> cases same
        · rcases ends with ⟨kind, same⟩ | same <;> cases same
      | ends kind left over' none fits going' sound' => exact over'
      | rejects left large none rejected sound' => exact sound'.rejected rejected
      | exposes some' left due going' sound' =>
        rcases ends with ⟨kind, same⟩ | same <;> cases same

/-- When a read finds the end, everything that may be exposed has been. -/
theorem reads_ends {rooms : List Nat} (sound : stream.Sound)
    (ended : ∃ answer ∈ (stream.reads rooms).1, Ends answer) :
    (stream.reads rooms).2.due = [] := by
  induction rooms generalizing stream with
  | nil =>
    obtain ⟨answer, listed, -⟩ := ended
    exact absurd listed List.not_mem_nil
  | cons room rooms ih =>
    rw [reads_cons] at ended ⊢
    have read := pollRead_exposed sound room
    obtain ⟨answer, listed, ends⟩ := ended
    rcases List.mem_cons.mp listed with rfl | listed
    · have later := (reads_exposed read.sound rooms).due
      rw [pollRead_ends sound ends] at later
      exact (List.append_eq_nil_iff.mp later.symm).2
    · exact ih read.sound ⟨answer, listed, ends⟩

/-- The end is not found before a frame that declares too much. -/
theorem pollRead_ends_fits (sound : stream.Sound) (ends : Ends (stream.pollRead room).1) :
    stream.due = [] ∧ ¬ Oversized stream.left := by
  cases going : stream.rejected with
  | true =>
    rw [pollRead_rejected going] at ends
    rcases ends with ⟨kind, same⟩ | same
    · exact absurd (Answer.error.inj same).symm (incomplete_ne_invalid kind)
    · exact absurd (Answer.error.inj same) (by decide)
  | false =>
    rcases Nat.eq_zero_or_pos room with rfl | roomy
    · rw [pollRead_none going] at ends
      rcases ends with ⟨kind, same⟩ | same <;> cases same
    · have polls := pollRead_polls roomy sound going
      generalize stream.pollRead room = came at polls ends
      obtain ⟨answer, after⟩ := came
      cases polls with
      | waits kind left due short going' sound' =>
        rcases kind with rfl | rfl
        · rcases ends with ⟨kind, same⟩ | same <;> cases same
        · rcases ends with ⟨kind, same⟩ | same <;> cases same
      | ends kind left over' none fits going' sound' => exact ⟨none, fits⟩
      | rejects left large none rejected sound' =>
        rcases ends with ⟨kind, same⟩ | same
        · exact absurd (Answer.error.inj same).symm (incomplete_ne_invalid kind)
        · exact absurd (Answer.error.inj same) (by decide)
      | exposes some' left due going' sound' =>
        rcases ends with ⟨kind, same⟩ | same <;> cases same

theorem reads_ends_fits {rooms : List Nat} (sound : stream.Sound)
    (ended : ∃ answer ∈ (stream.reads rooms).1, Ends answer) :
    ∃ rest, stream.left = stream.due ++ rest ∧ ¬ Oversized rest := by
  induction rooms generalizing stream with
  | nil =>
    obtain ⟨answer, listed, -⟩ := ended
    exact absurd listed List.not_mem_nil
  | cons room rooms ih =>
    rw [reads_cons] at ended
    have read := pollRead_exposed sound room
    obtain ⟨answer, listed, ends⟩ := ended
    rcases List.mem_cons.mp listed with rfl | listed
    · obtain ⟨none, fits⟩ := pollRead_ends_fits sound ends
      exact ⟨stream.left, by rw [none]; rfl, fits⟩
    · obtain ⟨rest, left, fits⟩ := ih read.sound ⟨answer, listed, ends⟩
      exact ⟨rest, by rw [read.left, read.due, left, List.append_assoc], fits⟩

/-- With room, a read that succeeds exposes something. -/
theorem pollRead_ne_nil (sound : stream.Sound) (roomy : 0 < room) :
    (stream.pollRead room).1 ≠ .ok [] := by
  cases going : stream.rejected with
  | true =>
    rw [pollRead_rejected going]
    exact nofun
  | false =>
    have polls := pollRead_polls roomy sound going
    generalize stream.pollRead room = came at polls
    obtain ⟨answer, after⟩ := came
    cases polls with
    | waits kind left due short going' sound' => rcases kind with rfl | rfl <;> exact nofun
    | ends kind left over' none fits going' sound' =>
      rcases kind with ⟨kind, rfl⟩ | rfl <;> exact nofun
    | rejects left large none rejected sound' => exact nofun
    | exposes some' left due going' sound' => exact fun same => some' (Answer.ok.inj same)

/-- What a read with room comes to: it exposes something, or in this read the
inner stream had nothing, failed or was at its end, or a frame declared too
much. -/
inductive Brings (stream : BoundedSftpStream) : Answer → BoundedSftpStream → Prop
  | got {bytes next} : bytes ≠ [] → Brings stream (.ok bytes) next
  | pending {next} : stream.inner.Took next.inner .pending → Brings stream .pending next
  | failed {next} : stream.inner.Took next.inner .fails → Brings stream (.error .inner) next
  | ended {said next} : Ends said → next.inner.rest = [] → Brings stream said next
  | refused {next} : next.rejected = true → Brings stream (.error .invalidFrame) next

/-- Only the inner stream says what a read has brought. -/
theorem Brings.of_inner {before : BoundedSftpStream} (brings : Brings stream answer after)
    (same : before.inner = stream.inner) : Brings before answer after := by
  cases brings with
  | got some' => exact .got some'
  | pending took => exact .pending (same ▸ took)
  | failed took => exact .failed (same ▸ took)
  | ended ends none => exact .ended ends none
  | refused rejected => exact .refused rejected

/-- A poll that handed over a piece, and what the polls after it brought. -/
theorem Brings.of_next {before : BoundedSftpStream} {rest : List UInt8}
    (brings : Brings stream answer after) (next : stream.inner = before.inner.next rest) :
    Brings before answer after := by
  cases brings with
  | got some' => exact .got some'
  | pending took => exact .pending (next ▸ took).later
  | failed took => exact .failed (next ▸ took).later
  | ended ends none => exact .ended ends none
  | refused rejected => exact .refused rejected

theorem fill_brings (passes : Nat) (stream : BoundedSftpStream)
    (short : (stream.fill passes).1 = some answer) :
    Brings stream answer (stream.fill passes).2 := by
  induction passes generalizing stream with
  | zero => cases short
  | succ passes ih =>
    rw [fill] at short ⊢
    split at short
    case isFalse => cases short
    case isTrue lacking =>
      rw [if_pos lacking]
      rcases stream.inner.poll_cases (4 - stream.header.length) with
        ⟨turn, polled⟩ | ⟨turn, polled⟩ | ⟨read, rest, polled, same, fits, ended⟩
      · rw [polled] at short ⊢
        cases short
        exact .pending (.here turn)
      · rw [polled] at short ⊢
        cases short
        exact .failed (.here turn)
      · rw [polled] at short ⊢
        cases read with
        | nil =>
          cases short
          have none := ended (by omega) rfl
          rw [none] at same
          exact .ended (.inl ⟨_, rfl⟩) (List.append_eq_nil_iff.mp same.symm).2
        | cons byte read => exact (ih _ short).of_next rfl

theorem exposeBody_brings (roomy : 0 < room) (body : stream.bodyRemaining ≠ 0) :
    Brings stream (stream.exposeBody room).1 (stream.exposeBody room).2 := by
  unfold exposeBody
  rcases stream.inner.poll_cases (min (min room stream.bodyRemaining) bodyBytes) with
    ⟨turn, polled⟩ | ⟨turn, polled⟩ | ⟨read, rest, polled, same, fits, ended⟩
  · rw [polled]
    exact .pending (.here turn)
  · rw [polled]
    exact .failed (.here turn)
  · rw [polled]
    cases read with
    | nil =>
      have none := ended (by unfold bodyBytes; omega) rfl
      rw [none] at same
      exact .ended (.inr rfl) (List.append_eq_nil_iff.mp same.symm).2
    | cons byte read => exact .got (List.cons_ne_nil _ _)

theorem turn_inner (stream : BoundedSftpStream) : stream.turn.inner = stream.inner := by
  unfold turn
  split <;> rfl

/-- **Progress.** A read with room exposes something, unless the inner stream
itself had nothing, failed or ended, or the frame declares too much. -/
theorem pollRead_brings (sound : stream.Sound) (roomy : 0 < room) :
    Brings stream (stream.pollRead room).1 (stream.pollRead room).2 := by
  cases going : stream.rejected with
  | true =>
    rw [pollRead_rejected going]
    exact .refused going
  | false =>
    have some' := pollRead_ne_nil sound roomy
    obtain ⟨-, -, turned⟩ := turn_header sound
    unfold pollRead at some' ⊢
    rw [if_neg (Bool.eq_false_iff.mp going), if_neg (Nat.ne_of_gt roomy)] at some' ⊢
    by_cases fresh : stream.turn.headerExposed = 0
    · have same := (@fill_cases stream.turn 4 turned.header (by omega)).same
      have short (answer : Answer) := @fill_brings answer 4 stream.turn
      generalize stream.turn.fill 4 = came at some' same short
      obtain ⟨said, after⟩ := came
      dsimp only at same
      cases said with
      | some answer => exact (short answer rfl).of_inner stream.turn_inner.symm
      | none =>
        have fresh' : after.headerExposed = 0 := by
          rw [same]
          exact fresh
        dsimp only at some' ⊢
        rw [expose, if_pos fresh'] at some' ⊢
        split at some'
        case isTrue large =>
          rw [if_pos large]
          exact .refused rfl
        case isFalse fits =>
          rw [if_neg fits]
          exact .got fun none => some' (congrArg Answer.ok none)
    · rw [fill_complete (turned.whole (Nat.pos_of_ne_zero fresh))] at some' ⊢
      dsimp only at some' ⊢
      rw [expose, if_neg fresh] at some' ⊢
      by_cases part : stream.turn.headerExposed < 4
      · rw [if_pos part] at some' ⊢
        exact .got fun none => some' (congrArg Answer.ok none)
      · have exposed := turned.exposed
        rw [if_neg part]
        have all : stream.turn.headerExposed = 4 := by omega
        exact (exposeBody_brings roomy (turn_body all)).of_inner stream.turn_inner.symm

/-- An answer that does not come from an inner stream that had nothing or
failed. -/
def Productive (answer : Answer) : Prop := answer ≠ .pending ∧ answer ≠ .error .inner

instance : DecidablePred Productive := fun answer =>
  inferInstanceAs (Decidable (answer ≠ .pending ∧ answer ≠ .error .inner))

/-- Until the end is found, each productive read exposes at least a byte. -/
theorem reads_productive {rooms : List Nat} (sound : stream.Sound)
    (roomy : ∀ room ∈ rooms, 0 < room)
    (accepted : .error .invalidFrame ∉ (stream.reads rooms).1) :
    (∃ answer ∈ (stream.reads rooms).1, Ends answer) ∨
      (stream.reads rooms).1.countP (Productive ·) ≤ (exposed (stream.reads rooms).1).length := by
  induction rooms generalizing stream with
  | nil => exact .inr (Nat.le_refl 0)
  | cons room rooms ih =>
    have brings := pollRead_brings sound (roomy room List.mem_cons_self)
    have sound' := (pollRead_exposed sound room).sound
    rw [reads_cons] at accepted ⊢
    rw [List.mem_cons, not_or] at accepted
    rcases ih sound' (fun _ listed => roomy _ (List.mem_cons_of_mem _ listed)) accepted.2 with
      ⟨answer, listed, ends⟩ | enough
    · exact .inl ⟨answer, List.mem_cons_of_mem _ listed, ends⟩
    · generalize stream.pollRead room = came at brings accepted enough
      obtain ⟨answer, after⟩ := came
      rw [exposed, List.flatMap_cons, List.length_append, List.countP_cons]
      cases brings with
      | got some' =>
        have one := List.length_pos_of_ne_nil some'
        rw [exposed] at enough
        right
        rw [if_pos (decide_eq_true ⟨nofun, nofun⟩), Nat.add_comm]
        exact Nat.add_le_add one enough
      | pending took => exact .inr (Nat.le_add_left_of_le enough)
      | failed took => exact .inr (Nat.le_add_left_of_le enough)
      | ended ends none => exact .inl ⟨answer, List.mem_cons_self, ends⟩
      | refused rejected => exact absurd rfl accepted.1

/-- At a frame that declares too much, a read fails, or its header has not
arrived yet. -/
theorem pollRead_oversized (sound : stream.Sound) (roomy : 0 < room) (none : stream.due = [])
    (large : Oversized stream.left) :
    (stream.pollRead room).1 = .error .invalidFrame ∨
      (((stream.pollRead room).1 = .pending ∨ (stream.pollRead room).1 = .error .inner) ∧
        (stream.pollRead room).2.header.length < 4) := by
  cases going : stream.rejected with
  | true => exact .inl (congrArg Prod.fst (pollRead_rejected going room))
  | false =>
    have polls := pollRead_polls roomy sound going
    generalize stream.pollRead room = came at polls
    obtain ⟨answer, after⟩ := came
    cases polls with
    | waits kind left due short going' sound' => exact .inr ⟨kind, short large none⟩
    | ends kind left over' none fits going' sound' => exact absurd large fits
    | rejects left large none rejected sound' => exact .inl rfl
    | exposes some' left due going' sound' =>
      rw [due] at none
      exact absurd (List.append_eq_nil_iff.mp none).1 some'

theorem reads_append (stream : BoundedSftpStream) (rooms : List Nat) (room : Nat) :
    (stream.reads (rooms ++ [room])).1 =
      (stream.reads rooms).1 ++ [((stream.reads rooms).2.pollRead room).1] := by
  induction rooms generalizing stream with
  | nil => rfl
  | cons first rooms ih =>
    rw [List.cons_append, reads_cons, reads_cons, ih]
    rfl

/-! ## Frames, and what comes behind them -/

section
variable {frames : List (List UInt8)} {rest : List UInt8} {turns : Nat → Source.Turn}
variable {rooms : List Nat} {answers : List Answer}

theorem new_left : (new ⟨frames.flatten ++ rest, turns⟩).left = frames.flatten ++ rest := rfl

theorem new_due (whole : ∀ frame ∈ frames, IsFrame frame) :
    (new ⟨frames.flatten ++ rest, turns⟩).due = frames.flatten ++ exposable 0 rest :=
  exposable_frames whole rest

theorem new_reads (whole : ∀ frame ∈ frames, IsFrame frame)
    (read : (new ⟨frames.flatten ++ rest, turns⟩).reads rooms = (answers, stream)) :
    frames.flatten ++ rest = exposed answers ++ stream.left ∧
      frames.flatten ++ exposable 0 rest = exposed answers ++ stream.due ∧ stream.Sound := by
  have came := reads_exposed (sound_new ⟨frames.flatten ++ rest, turns⟩) rooms
  rw [read] at came
  obtain ⟨left, due, sound⟩ := came
  rw [new_left] at left
  rw [new_due whole] at due
  exact ⟨left, due, sound⟩

/-- While every frame is one the operation accepts, no read fails for a frame. -/
theorem reads_accepted (whole : ∀ frame ∈ frames, IsFrame frame) (unfinished : Unfinished rest)
    (rooms : List Nat) :
    .error .invalidFrame ∉ ((new ⟨frames.flatten ++ rest, turns⟩).reads rooms).1 := by
  intro listed
  obtain ⟨earlier, later, split, first⟩ := List.eq_append_cons_of_mem listed
  obtain ⟨⟨tail, same, large⟩, -⟩ := reads_invalid (sound_new _) rfl split first
  rw [new_left, new_due whole, exposable_unfinished unfinished, List.append_assoc] at same
  have tail' := List.append_cancel_left same
  split at tail'
  case isTrue =>
    have none : tail = [] := by simpa using tail'
    exact not_oversized_nil (none ▸ large)
  case isFalse short =>
    rw [List.nil_append] at tail'
    exact short (tail' ▸ large.1)

/-- Where the end is found, all that can be exposed has been. -/
theorem reads_whole (whole : ∀ frame ∈ frames, IsFrame frame)
    (read : (new ⟨frames.flatten ++ rest, turns⟩).reads rooms = (answers, stream))
    (ended : ∃ answer ∈ answers, Ends answer) :
    exposed answers = frames.flatten ++ exposable 0 rest := by
  have none := @reads_ends _ rooms (sound_new ⟨frames.flatten ++ rest, turns⟩)
    (by rw [read]; exact ended)
  rw [read] at none
  rw [(new_reads whole read).2.1, none, List.append_nil]

/-- It is found by as many productive reads as there are bytes, and one more. -/
theorem reads_enough (whole : ∀ frame ∈ frames, IsFrame frame)
    (read : (new ⟨frames.flatten ++ rest, turns⟩).reads rooms = (answers, stream))
    (accepted : .error .invalidFrame ∉ answers) (roomy : ∀ room ∈ rooms, 0 < room)
    (enough : (frames.flatten ++ exposable 0 rest).length < answers.countP (Productive ·)) :
    ∃ answer ∈ answers, Ends answer := by
  have came := reads_productive (sound_new ⟨frames.flatten ++ rest, turns⟩) roomy
    (by rw [read]; exact accepted)
  rw [read] at came
  refine came.resolve_right fun few => ?_
  rw [(new_reads whole read).2.1, List.length_append] at enough
  exact absurd few (Nat.not_le_of_lt (Nat.lt_of_le_of_lt (Nat.le_add_right _ _) enough))

/-- No end is found at a frame that declares too much. -/
theorem reads_endless (whole : ∀ frame ∈ frames, IsFrame frame) (large : Oversized rest)
    (read : (new ⟨frames.flatten ++ rest, turns⟩).reads rooms = (answers, stream)) :
    ¬ ∃ answer ∈ answers, Ends answer := by
  intro ended
  obtain ⟨tail, same, fits⟩ := @reads_ends_fits _ rooms (sound_new ⟨frames.flatten ++ rest, turns⟩)
    (by rw [read]; exact ended)
  rw [new_left, new_due whole, exposable_oversized large, List.append_nil] at same
  exact fits (List.append_cancel_left same ▸ large)

/-- Once a read has failed there, all before it has been exposed. -/
theorem reads_refused (whole : ∀ frame ∈ frames, IsFrame frame) (large : Oversized rest)
    (read : (new ⟨frames.flatten ++ rest, turns⟩).reads rooms = (answers, stream))
    (refused : .error .invalidFrame ∈ answers) : exposed answers = frames.flatten := by
  obtain ⟨earlier, later, split, first⟩ := List.eq_append_cons_of_mem refused
  have none := (reads_invalid (sound_new _) rfl ((congrArg Prod.fst read).trans split) first).2
  have due := (new_reads whole read).2.1
  rw [read] at none
  rw [exposable_oversized large, none, List.append_nil, List.append_nil] at due
  exact due.symm

end

/-- **Transparent and bounding.** What a peer sends is frames, and then the
beginning of one or one that declares too much. However it arrives and whatever
room a caller offers, what is read out and what is left are the bytes in their
order; a read with room exposes something unless the inner stream had nothing,
failed or ended; productive reads come to all the bytes; the end is found where
they end; and of a frame that declares too much nothing is read out, and once
its header has arrived every read fails. -/
theorem transparent :
    (∀ bytes : List UInt8, ∃ (frames : List (List UInt8)) (rest : List UInt8),
      bytes = frames.flatten ++ rest ∧ (∀ frame ∈ frames, IsFrame frame) ∧
        (Unfinished rest ∨ Oversized rest)) ∧
    ∀ (frames : List (List UInt8)) (rest : List UInt8) (turns : Nat → Source.Turn)
      (rooms : List Nat) (answers : List Answer) (stream : BoundedSftpStream),
      (∀ frame ∈ frames, IsFrame frame) →
      (new ⟨frames.flatten ++ rest, turns⟩).reads rooms = (answers, stream) →
      frames.flatten ++ rest = exposed answers ++ stream.left ∧
      (∀ room, 0 < room → (stream.pollRead room).1 ≠ .ok [] ∧
        Brings stream (stream.pollRead room).1 (stream.pollRead room).2) ∧
      (Unfinished rest →
        .error .invalidFrame ∉ answers ∧
        ((∃ answer ∈ answers, Ends answer) →
          exposed answers = frames.flatten ++ if 4 ≤ rest.length then rest else []) ∧
        ((∀ room ∈ rooms, 0 < room) →
          (frames.flatten ++ rest).length < answers.countP (Productive ·) →
          exposed answers = frames.flatten ++ if 4 ≤ rest.length then rest else []) ∧
        ∀ room, (stream.pollRead room).1 ≠ .error .invalidFrame) ∧
      (Oversized rest →
        exposed answers <+: frames.flatten ∧
        (∀ earlier later, answers = earlier ++ .error .invalidFrame :: later →
          exposed answers = frames.flatten ∧ ∀ answer ∈ later, answer = .error .invalidFrame) ∧
        ((∀ room ∈ rooms, 0 < room) → frames.flatten.length < answers.countP (Productive ·) →
          .error .invalidFrame ∈ answers) ∧
        (exposed answers = frames.flatten → ∀ room, 0 < room →
          (stream.pollRead room).1 = .error .invalidFrame ∨
          (((stream.pollRead room).1 = .pending ∨ (stream.pollRead room).1 = .error .inner) ∧
            (stream.pollRead room).2.header.length < 4))) := by
  refine ⟨exists_frames, ?_⟩
  intro frames rest turns rooms answers stream whole read
  obtain ⟨left, due, sound⟩ := new_reads whole read
  refine ⟨left, fun room roomy => ⟨pollRead_ne_nil sound roomy, pollRead_brings sound roomy⟩,
    ?_, ?_⟩
  · intro unfinished
    have accepted : .error .invalidFrame ∉ answers := by
      have none := @reads_accepted _ _ turns whole unfinished rooms
      rwa [read] at none
    have all (ended : ∃ answer ∈ answers, Ends answer) :
        exposed answers = frames.flatten ++ if 4 ≤ rest.length then rest else [] := by
      rw [reads_whole whole read ended, exposable_unfinished unfinished]
    refine ⟨accepted, all, ?_, ?_⟩
    · intro roomy enough
      refine all (reads_enough whole read accepted roomy (Nat.lt_of_le_of_lt ?_ enough))
      rw [List.length_append, List.length_append, exposable_unfinished unfinished]
      refine Nat.add_le_add_left ?_ _
      split
      · exact Nat.le_refl _
      · exact Nat.zero_le _
    · intro room
      have none := @reads_accepted _ _ turns whole unfinished (rooms ++ [room])
      rw [reads_append, read] at none
      exact fun found => none (List.mem_append_right _ (found ▸ List.mem_singleton_self _))
  · intro large
    rw [exposable_oversized large, List.append_nil] at due
    refine ⟨⟨stream.due, due.symm⟩, ?_, ?_, ?_⟩
    · intro earlier later split
      refine ⟨reads_refused whole large read ?_,
        reads_later (sound_new _) ((congrArg Prod.fst read).trans split)⟩
      rw [split]
      exact List.mem_append_right _ List.mem_cons_self
    · intro roomy enough
      by_contra accepted
      refine reads_endless whole large read (reads_enough whole read accepted roomy ?_)
      rwa [exposable_oversized large, List.append_nil]
    · intro all room roomy
      rw [all] at left due
      apply pollRead_oversized sound roomy (List.append_right_eq_self.mp due.symm)
      rw [← List.append_cancel_left left]
      exact large

end BoundedSftpStream

namespace Sample

/-- A frame of one byte, whose header comes in two pieces, and the header of one
that is too large. -/
def frame : List UInt8 := [0, 0, 0, 1, 7]

def large : List UInt8 := [255, 255, 255, 255, 9]

def inner : Source UInt8 := ⟨[frame].flatten ++ large, fun _ => .gives 1⟩

/-- Two bytes at a time, the small frame is read out; then reading fails. -/
theorem transparent_sample :
    (((BoundedSftpStream.new inner).reads [2, 2, 2]).1 =
      [.ok [0, 0], .ok [0, 1], .ok [7]]) ∧
    let stream := ((BoundedSftpStream.new inner).reads [2, 2, 2]).2
    (stream.pollRead 2).1 = .error .invalidFrame := by
  have read : ((BoundedSftpStream.new inner).reads [2, 2, 2]).1 =
      [.ok [0, 0], .ok [0, 1], .ok [7]] := by decide +kernel
  have whole : ∀ listed ∈ [frame], IsFrame listed := by
    intro listed only
    rw [List.mem_singleton.mp only]
    exact ⟨by decide, by decide⟩
  obtain ⟨-, -, -, bounding⟩ := BoundedSftpStream.transparent.2 [frame] large
    (fun _ => .gives 1) [2, 2, 2] _ _ whole rfl
  obtain ⟨-, -, -, fails⟩ := bounding ⟨by decide, by decide⟩
  refine ⟨read, (fails ?_ 2 (by decide)).resolve_right ?_⟩
  · change exposed ((BoundedSftpStream.new inner).reads [2, 2, 2]).1 = _
    rw [read]
    rfl
  · change ¬ (_ ∧ ((((BoundedSftpStream.new inner).reads [2, 2, 2]).2.pollRead 2).2.header.length < 4))
    decide +kernel

end Sample

end McpSsh.Sftp
