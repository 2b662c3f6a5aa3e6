import McpSsh.Lib.Positional
import McpSsh.Runs.Outcome

/-!
# Disk snapshots

`disk.rs`: an anonymous file that a stream is received into, and the readers
that replay it. The stream comes in fragments, the disk may write and read less
than it was asked to, and each reader is asked for as much as its caller has
room for.
-/

namespace McpSsh.Disk

/-- `CHUNK`. -/
def chunk : Nat := 256 * 1024

/-- A stream that does not fail: what is left of it, and how large its next
fragments are. -/
structure Fragments where
  rest : List UInt8
  more : Nat → Nat

/-- `AsyncReadExt::read`, with some room. No bytes are the end. -/
def Fragments.read (stream : Fragments) (room : Nat) : List UInt8 × Fragments :=
  let length := min (stream.more 0 + 1) room
  (stream.rest.take length, ⟨stream.rest.drop length, (stream.more <| · + 1)⟩)

/-- `FileExt::write_all_at`: writes of which each may be short. Each pass that
goes on has written a byte. -/
def writeAllAt (content : List UInt8) (offset : Nat) :
    (passes : Nat) → List UInt8 → (short : Nat → Nat) → List UInt8
  | 0, _, _ => content
  | _ + 1, [], _ => content
  | passes + 1, byte :: data, short =>
    let length := min (short 0 + 1) (byte :: data).length
    writeAllAt (Positional.writeAt 0 content offset ((byte :: data).take length))
      (offset + length) passes ((byte :: data).drop length) (short <| · + 1)

/-- A file that has been received. -/
structure Snapshot (δ : Type) where
  disk : List UInt8
  size : Nat
  digest : δ
  deriving DecidableEq

/-- The inner loop of `receive`, which fills the buffer. Each pass that goes on
has read a byte. -/
def fill (limit : UInt64) (size : Nat) :
    (passes : Nat) → List UInt8 → Fragments → Except Failure (List UInt8 × Fragments)
  | 0, filled, stream => .ok (filled, stream)
  | passes + 1, filled, stream =>
    if filled.length < chunk then
      match stream.read (chunk - filled.length) with
      | ([], stream) => .ok (filled, stream)
      | (read, stream) =>
        if size + (filled ++ read).length ≤ limit.toNat then
          fill limit size passes (filled ++ read) stream
        else .error .tooLarge
    else .ok (filled, stream)

/-- The outer loop. `hashed` is what the digest was updated with; each pass that
goes on has moved the size towards the limit. -/
def receiveFrom {δ : Type} (sha256 : List UInt8 → δ) (limit : UInt64) :
    (passes : Nat) → (disk : List UInt8) → (size : Nat) → (hashed : List UInt8) →
      (shorts : Nat → Nat → Nat) → Fragments → Except Failure (Snapshot δ)
  | 0, _, _, _, _, _ => .error .tooLarge
  | passes + 1, disk, size, hashed, shorts, stream =>
    match fill limit size chunk [] stream with
    | .error cause => .error cause
    | .ok ([], _) => .ok ⟨disk, size, sha256 hashed⟩
    | .ok (filled, stream) =>
      let disk := writeAllAt disk size filled.length filled (shorts 0)
      if filled.length < chunk then
        .ok ⟨disk, size + filled.length, sha256 (hashed ++ filled)⟩
      else
        receiveFrom sha256 limit passes disk (size + filled.length) (hashed ++ filled)
          (shorts <| · + 1) stream

/-- `receive`, into a file that was just allocated. -/
def receive {δ : Type} (sha256 : List UInt8 → δ) (limit : UInt64) (shorts : Nat → Nat → Nat)
    (stream : Fragments) : Except Failure (Snapshot δ) :=
  receiveFrom sha256 limit (limit.toNat + 1) [] 0 [] shorts stream

/-! ## Readers -/

/-- A reader of a snapshot: where its stream is, and what it has of it that was
not read yet. -/
structure Reader where
  offset : Nat
  ready : List UInt8
  deriving DecidableEq

/-- `Snapshot::reader`. -/
def Reader.new : Reader := ⟨0, []⟩

/-- A read with some room, for which the disk reads `more + 1` bytes if it is
asked; `none` is an error. -/
def Reader.read {δ : Type} (snapshot : Snapshot δ) (reader : Reader) (room more : Nat) :
    Option (List UInt8) × Reader :=
  if room = 0 then (some [], reader)
  else if reader.ready ≠ [] then
    (some (reader.ready.take room), { reader with ready := reader.ready.drop room })
  else if snapshot.size ≤ reader.offset then (some [], reader)
  else
    let bytes := (snapshot.disk.drop reader.offset).take (min (more + 1) chunk)
    if bytes = [] then (none, reader)
    else (some (bytes.take room), ⟨reader.offset + bytes.length, bytes.drop room⟩)

/-- A reader that was opened, with what it has handed over, whether it has said
that this is all, and whether it has failed. -/
structure Opened where
  reader : Reader
  delivered : List UInt8
  ended : Bool
  failed : Bool
  deriving DecidableEq

/-- A reader is opened, or one that was opened before is read from. -/
inductive Move
  | opens
  | reads (index room more : Nat)
  deriving DecidableEq

def Opened.read {δ : Type} (snapshot : Snapshot δ) (room more : Nat) (opened : Opened) : Opened :=
  match opened.reader.read snapshot room more with
  | (none, reader) => { opened with reader, failed := true }
  | (some bytes, reader) =>
    { opened with
      reader
      delivered := opened.delivered ++ bytes
      ended := opened.ended || (room ≠ 0 && bytes = []) }

/-- All readers of a snapshot, in the order in which they were opened. -/
def move {δ : Type} (snapshot : Snapshot δ) (readers : List Opened) : Move → List Opened
  | .opens => readers ++ [⟨.new, [], false, false⟩]
  | .reads index room more => readers.modify index (Opened.read snapshot room more)

def run {δ : Type} (snapshot : Snapshot δ) (moves : List Move) : List Opened :=
  moves.foldl (move snapshot) []

/-! ## Receiving -/

theorem chunk_pos : 0 < chunk := by decide

section

variable {limit : UInt64} {size passes : Nat}

/-- However short the writes are, all of it is appended. -/
theorem writeAllAt_end (content data : List UInt8) (short : Nat → Nat)
    (enough : data.length ≤ passes) :
    writeAllAt content content.length passes data short = content ++ data := by
  induction passes generalizing content data short with
  | zero =>
    have none : data = [] := List.length_eq_zero_iff.mp (Nat.le_zero.mp enough)
    rw [none, List.append_nil]
    rfl
  | succ passes ih =>
    cases data with
    | nil => exact (List.append_nil content).symm
    | cons byte data =>
      rw [writeAllAt]
      rw [List.length_cons] at enough
      have length : ((byte :: data).take (min (short 0 + 1) (byte :: data).length)).length =
          min (short 0 + 1) (byte :: data).length := by
        rw [List.length_take]
        omega
      have rest := ih (content ++ (byte :: data).take (min (short 0 + 1) (byte :: data).length))
        ((byte :: data).drop (min (short 0 + 1) (byte :: data).length)) (short <| · + 1)
        (by rw [List.length_drop, List.length_cons]; omega)
      rw [List.length_append, length, List.append_assoc, List.take_append_drop] at rest
      rw [Positional.writeAt_end]
      exact rest

/-- A read hands over the beginning of what is left, some of it if there is any. -/
theorem Fragments.read_eq (stream : Fragments) (room : Nat) (roomy : 0 < room) :
    ∃ read after, stream.read room = (read, after) ∧ stream.rest = read ++ after.rest ∧
      read.length ≤ room ∧ (read = [] → stream.rest = []) := by
  refine ⟨_, _, rfl, (List.take_append_drop _ _).symm, ?_, ?_⟩
  · rw [List.length_take]
    omega
  · intro empty
    rcases List.take_eq_nil_iff.mp empty with none | done
    · omega
    · exact done

/-- What fills the buffer is what comes next, as far as there is room. -/
theorem fill_eq (filled : List UInt8) (stream : Fragments)
    (enough : chunk ≤ filled.length + passes) (full : filled.length ≤ chunk)
    (fits : size + filled.length ≤ limit.toNat) :
    (size + filled.length + (stream.rest.take (chunk - filled.length)).length ≤ limit.toNat →
      ∃ after, fill limit size passes filled stream =
          .ok (filled ++ stream.rest.take (chunk - filled.length), after) ∧
        after.rest = stream.rest.drop (chunk - filled.length)) ∧
    (limit.toNat < size + filled.length + (stream.rest.take (chunk - filled.length)).length →
      fill limit size passes filled stream = .error .tooLarge) := by
  induction passes generalizing filled stream with
  | zero =>
    have none : chunk - filled.length = 0 := by omega
    rw [none, List.take_zero, List.append_nil, List.length_nil]
    exact ⟨fun _ => ⟨stream, rfl, rfl⟩, fun large => by omega⟩
  | succ passes ih =>
    by_cases lacking : filled.length < chunk
    · obtain ⟨read, after, reads, split, short, ended⟩ :=
        stream.read_eq (chunk - filled.length) (by omega)
      rw [fill, if_pos lacking, reads, split]
      cases read with
      | nil =>
        have nothing := ended rfl
        rw [split, List.nil_append] at nothing
        rw [List.nil_append, nothing, List.take_nil, List.drop_nil, List.append_nil]
        exact ⟨fun _ => ⟨after, rfl, nothing⟩, fun large => by rw [List.length_nil] at large; omega⟩
      | cons byte read =>
        have more : (filled ++ byte :: read).length = filled.length + (byte :: read).length :=
          List.length_append
        have some' : 0 < (byte :: read).length := Nat.zero_lt_succ _
        have want : (byte :: read ++ after.rest).take (chunk - filled.length) =
            byte :: read ++ after.rest.take (chunk - (filled ++ byte :: read).length) := by
          rw [List.take_append, List.take_of_length_le short, more, Nat.sub_sub]
        have left : (byte :: read ++ after.rest).drop (chunk - filled.length) =
            after.rest.drop (chunk - (filled ++ byte :: read).length) := by
          rw [List.drop_append, List.drop_eq_nil_of_le short, List.nil_append, more, Nat.sub_sub]
        rw [want, left, @List.length_append _ (byte :: read), ← List.append_assoc]
        dsimp only
        split
        case isTrue fits' =>
          obtain ⟨accepts, refuses⟩ := ih (filled ++ byte :: read) after
            (by omega) (by omega) fits'
          exact ⟨fun fits => accepts (by omega), fun large => refuses (by omega)⟩
        case isFalse large =>
          rw [more] at large
          exact ⟨fun fits => by omega, fun _ => rfl⟩
    · have none : chunk - filled.length = 0 := by omega
      rw [none, List.take_zero, List.append_nil, List.length_nil, fill, if_neg lacking]
      exact ⟨fun _ => ⟨stream, rfl, rfl⟩, fun large => by omega⟩

variable {δ : Type} {sha256 : List UInt8 → δ}

/-- Batch by batch, the file holds what was received, or it was too much. -/
theorem receiveFrom_eq (passes : Nat) (hashed : List UInt8) (shorts : Nat → Nat → Nat)
    (stream : Fragments) (enough : limit.toNat < hashed.length + passes) (fits : hashed.length ≤ limit.toNat) :
    (hashed.length + stream.rest.length ≤ limit.toNat →
      receiveFrom sha256 limit passes hashed hashed.length hashed shorts stream =
        .ok ⟨hashed ++ stream.rest, (hashed ++ stream.rest).length,
          sha256 (hashed ++ stream.rest)⟩) ∧
    (limit.toNat < hashed.length + stream.rest.length →
      receiveFrom sha256 limit passes hashed hashed.length hashed shorts stream =
        .error .tooLarge) := by
  induction passes generalizing hashed shorts stream with
  | zero => omega
  | succ passes ih =>
    obtain ⟨accepts, refuses⟩ := @fill_eq limit hashed.length chunk [] stream (by omega)
      (Nat.zero_le _) fits
    rw [List.length_nil, Nat.sub_zero, Nat.add_zero, List.nil_append] at accepts
    rw [List.length_nil, Nat.sub_zero, Nat.add_zero] at refuses
    have taken : (stream.rest.take chunk).length ≤ stream.rest.length := by
      rw [List.length_take]
      omega
    have whole := List.take_append_drop chunk stream.rest
    have total := congrArg List.length whole
    rw [List.length_append] at total
    rw [receiveFrom]
    by_cases room : hashed.length + (stream.rest.take chunk).length ≤ limit.toNat
    · obtain ⟨after, filled, left⟩ := accepts room
      rw [filled]
      rw [← left] at whole total
      generalize batch : stream.rest.take chunk = read at whole total room taken
      cases read with
      | nil =>
        have none : stream.rest = [] := by
          rcases List.take_eq_nil_iff.mp batch with impossible | none
          · exact absurd impossible (Nat.ne_of_gt chunk_pos)
          · exact none
        rw [none, List.append_nil, List.length_nil]
        exact ⟨fun _ => rfl, fun large => by omega⟩
      | cons byte read =>
        have written := writeAllAt_end hashed (byte :: read) (shorts 0) (Nat.le_refl _)
        dsimp only
        rw [written]
        split
        case isTrue last =>
          have short : (stream.rest.take chunk).length < chunk := batch ▸ last
          have all : stream.rest.take chunk = stream.rest := by
            apply List.take_of_length_le
            rw [List.length_take] at short
            omega
          rw [batch] at all
          rw [← all, List.length_append]
          exact ⟨fun _ => rfl, fun large => by omega⟩
        case isFalse full =>
          have some' : 0 < (byte :: read).length := Nat.zero_lt_succ _
          obtain ⟨accepts, refuses⟩ := ih (hashed ++ byte :: read) (shorts <| · + 1)
            after (by rw [List.length_append]; omega)
            (by rw [List.length_append]; omega)
          rw [List.length_append] at accepts refuses
          rw [List.append_assoc, whole, List.length_append] at accepts
          rw [List.length_append]
          exact ⟨fun fits => accepts (by omega), fun large => refuses (by omega)⟩
    · rw [refuses (Nat.lt_of_not_le room)]
      exact ⟨fun fits => by omega, fun _ => rfl⟩

end

/-! ## Replaying -/

section

variable {δ : Type} {snapshot : Snapshot δ} {reader : Reader} {opened : Opened}

/-- A snapshot whose size is that of its file. -/
def Snapshot.Whole (snapshot : Snapshot δ) : Prop := snapshot.size = snapshot.disk.length

/-- What a reader has handed over and what it holds is the file up to where its
stream is; it has not failed, and it has ended only where the file does. -/
structure Replays (snapshot : Snapshot δ) (opened : Opened) : Prop where
  within : opened.reader.offset ≤ snapshot.disk.length
  bytes : opened.delivered ++ opened.reader.ready = snapshot.disk.take opened.reader.offset
  sound : opened.failed = false
  ended : opened.ended = true → opened.delivered = snapshot.disk

theorem replays_new : Replays snapshot ⟨.new, [], false, false⟩ where
  within := Nat.zero_le _
  bytes := rfl
  sound := rfl
  ended := nofun

/-- A reader that holds something, or whose stream has not come to the end, has
not ended. -/
theorem Replays.going (replays : Replays snapshot opened)
    (more : opened.reader.ready ≠ [] ∨ opened.reader.offset < snapshot.disk.length) :
    opened.ended = false := by
  by_contra ended
  have all := congrArg List.length replays.bytes
  rw [replays.ended (by simpa using ended), List.length_append, List.length_take] at all
  have within := replays.within
  rcases more with some' | early
  · have := List.length_pos_iff.mpr some'
    omega
  · omega

/-- What was handed over was not nothing, so the reader has not ended. -/
theorem not_over {ended : Bool} {room : Nat} {bytes : List UInt8} (going : ended = false)
    (roomy : room ≠ 0) (some' : bytes ≠ []) :
    (ended || (room ≠ 0 && bytes.take room = [])) = false := by
  have none : bytes.take room ≠ [] := by
    intro empty
    rcases List.take_eq_nil_iff.mp empty with none | none
    · exact roomy none
    · exact some' none
  rw [going, Bool.false_or, decide_eq_false none, Bool.and_false]

/-- A read that hands over something that was read before. -/
theorem Replays.ready (replays : Replays snapshot opened) (some' : opened.reader.ready ≠ [])
    {room : Nat} (roomy : room ≠ 0) :
    Replays snapshot
      { opened with
        reader := { opened.reader with ready := opened.reader.ready.drop room }
        delivered := opened.delivered ++ opened.reader.ready.take room
        ended := opened.ended || (room ≠ 0 && opened.reader.ready.take room = []) } where
  within := replays.within
  bytes := by
    rw [List.append_assoc, List.take_append_drop]
    exact replays.bytes
  sound := replays.sound
  ended claimed :=
    nomatch claimed.symm.trans (not_over (replays.going (.inl some')) roomy some')

/-- A read at the end. -/
theorem Replays.last (replays : Replays snapshot opened) (none : opened.reader.ready = [])
    (over' : snapshot.disk.length ≤ opened.reader.offset) (claimed : Bool) :
    Replays snapshot { opened with delivered := opened.delivered ++ [], ended := claimed } where
  within := replays.within
  bytes := by
    rw [List.append_nil]
    exact replays.bytes
  sound := replays.sound
  ended _ := by
    have bytes := replays.bytes
    rw [none, List.append_nil, List.take_of_length_le over'] at bytes
    exact (List.append_nil _).trans bytes

/-- A read for which the disk was asked. -/
theorem Replays.fresh (replays : Replays snapshot opened) (none : opened.reader.ready = [])
    {length room : Nat} (some' : (snapshot.disk.drop opened.reader.offset).take length ≠ [])
    (roomy : room ≠ 0) :
    Replays snapshot
      { opened with
        reader :=
          ⟨opened.reader.offset + ((snapshot.disk.drop opened.reader.offset).take length).length,
            ((snapshot.disk.drop opened.reader.offset).take length).drop room⟩
        delivered :=
          opened.delivered ++ ((snapshot.disk.drop opened.reader.offset).take length).take room
        ended := opened.ended ||
          (room ≠ 0 && ((snapshot.disk.drop opened.reader.offset).take length).take room = []) } where
  within := by
    have within := replays.within
    change opened.reader.offset + _ ≤ _
    rw [List.length_take, List.length_drop]
    omega
  bytes := by
    have bytes := replays.bytes
    rw [none, List.append_nil] at bytes
    rw [List.append_assoc, List.take_append_drop, bytes, List.take_add]
    congr 1
    rw [List.length_take, List.take_eq_take_iff]
    omega
  sound := replays.sound
  ended claimed := by
    have early : opened.reader.offset < snapshot.disk.length := by
      by_contra late
      apply some'
      rw [List.drop_eq_nil_of_le (Nat.le_of_not_lt late), List.take_nil]
    exact nomatch claimed.symm.trans (not_over (replays.going (.inr early)) roomy some')

theorem Replays.read (whole : snapshot.Whole) (replays : Replays snapshot opened)
    (room more : Nat) : Replays snapshot (opened.read snapshot room more) := by
  unfold Opened.read Reader.read
  by_cases roomy : room = 0
  · subst roomy
    refine ⟨replays.within, ?_, replays.sound, ?_⟩
    · exact (congrArg (· ++ _) (List.append_nil _)).trans replays.bytes
    · intro claimed
      exact (List.append_nil _).trans (replays.ended ((Bool.or_false _).symm.trans claimed))
  · rw [if_neg roomy]
    by_cases none : opened.reader.ready = []
    · rw [if_neg (not_not_intro none)]
      by_cases over' : snapshot.size ≤ opened.reader.offset
      · rw [if_pos over']
        rw [whole] at over'
        exact replays.last none over' _
      · rw [if_neg over']
        rw [whole] at over'
        have some' : (snapshot.disk.drop opened.reader.offset).take (min (more + 1) chunk) ≠ [] := by
          intro empty
          have length := congrArg List.length empty
          have pos := chunk_pos
          rw [List.length_take, List.length_drop, List.length_nil] at length
          omega
        dsimp only
        rw [if_neg some']
        exact replays.fresh none some' roomy
    · rw [if_pos none]
      exact replays.ready none roomy

/-- A read with some room hands over something or says that this was all. -/
theorem Replays.progress (whole : snapshot.Whole) (replays : Replays snapshot opened)
    {room : Nat} (roomy : room ≠ 0) (more : Nat) :
    (opened.read snapshot room more).ended = true ∨
      opened.delivered.length < (opened.read snapshot room more).delivered.length := by
  have sound := (replays.read whole room more).sound
  unfold Opened.read at sound ⊢
  rcases reads : opened.reader.read snapshot room more with ⟨bytes, reader⟩
  rw [reads] at sound
  cases bytes with
  | none => exact nomatch sound
  | some bytes =>
    cases bytes with
    | nil => exact .inl (by simp [roomy])
    | cons byte bytes =>
      refine .inr ?_
      rw [List.length_append, List.length_cons]
      omega

/-- Readers do not disturb each other: whatever is done with any of them, each
replays the file. -/
theorem run_replays (whole : snapshot.Whole) (moves : List Move) :
    ∀ opened ∈ run snapshot moves, Replays snapshot opened := by
  induction moves using List.reverseRecOn with
  | nil => exact fun _ listed => absurd listed List.not_mem_nil
  | append_singleton moves last ih =>
    unfold run at ih ⊢
    rw [List.foldl_append]
    generalize moves.foldl (move snapshot) [] = readers at ih
    change ∀ opened ∈ move snapshot readers last, _
    intro opened listed
    cases last with
    | opens =>
      rcases List.mem_append.mp listed with listed | listed
      · exact ih opened listed
      · rw [List.mem_singleton.mp listed]
        exact replays_new
    | reads index room more =>
      obtain ⟨position, listed⟩ := List.mem_iff_getElem?.mp listed
      rw [move, List.getElem?_modify] at listed
      obtain ⟨old, found, rfl⟩ := Option.map_eq_some_iff.mp listed
      have replays := ih old (List.mem_of_getElem? found)
      split
      · exact replays.read whole room more
      · exact replays

end

/-- **Snapshots.** Receiving refuses a stream exactly if it is longer than the
limit; else what is recorded is the length, the digest and the bytes of all its
fragments, and every reader, however they are interleaved, replays exactly
those from the start. -/
theorem snapshot_faithful {δ : Type} (sha256 : List UInt8 → δ) (bytes : List UInt8)
    (fragments : Nat → Nat) (shorts : Nat → Nat → Nat) (limit : UInt64) :
    (receive sha256 limit shorts ⟨bytes, fragments⟩ = .error .tooLarge ↔
      limit.toNat < bytes.length) ∧
    (bytes.length ≤ limit.toNat → ∃ snapshot,
      receive sha256 limit shorts ⟨bytes, fragments⟩ = .ok snapshot ∧
      snapshot.size = bytes.length ∧ snapshot.digest = sha256 bytes ∧ snapshot.disk = bytes ∧
      ∀ moves, ∀ opened ∈ run snapshot moves,
        opened.failed = false ∧ opened.delivered <+: bytes ∧
        (opened.ended = true → opened.delivered = bytes) ∧
        ∀ room more, room ≠ 0 → (opened.read snapshot room more).ended = true ∨
          opened.delivered.length < (opened.read snapshot room more).delivered.length) := by
  obtain ⟨accepts, refuses⟩ := @receiveFrom_eq limit δ sha256 (limit.toNat + 1) [] shorts
    ⟨bytes, fragments⟩ (by rw [List.length_nil]; omega) (Nat.zero_le _)
  rw [List.length_nil, Nat.zero_add, List.nil_append] at accepts
  rw [List.length_nil, Nat.zero_add] at refuses
  constructor
  · constructor
    · intro refused
      by_contra fits
      exact nomatch refused.symm.trans (accepts (Nat.le_of_not_lt fits))
    · exact refuses
  · intro fits
    refine ⟨_, accepts fits, rfl, rfl, rfl, ?_⟩
    intro moves opened listed
    have whole : (⟨bytes, bytes.length, sha256 bytes⟩ : Snapshot δ).Whole := rfl
    have replays := run_replays whole moves opened listed
    refine ⟨replays.sound, ?_, replays.ended, ?_⟩
    · exact (List.prefix_append _ _).trans (replays.bytes ▸ List.take_prefix _ _)
    · intro room more roomy
      exact replays.progress whole roomy more

/-- Three bytes, one by one, with a limit that is one short and with one that
is enough. -/
theorem Sample.snapshot_faithful_sample :
    receive List.length 2 (fun _ _ => 0) ⟨[7, 8, 9], fun _ => 0⟩ = .error .tooLarge ∧
    ∃ snapshot, receive List.length 3 (fun _ _ => 0) ⟨[7, 8, 9], fun _ => 0⟩ = .ok snapshot ∧
      snapshot.digest = 3 ∧
      ∀ moves, ∀ opened ∈ run snapshot moves, opened.delivered <+: [7, 8, 9] := by
  obtain ⟨refuses, -⟩ := snapshot_faithful List.length [7, 8, 9] (fun _ => 0) (fun _ _ => 0) 2
  obtain ⟨-, accepts⟩ := snapshot_faithful List.length [7, 8, 9] (fun _ => 0) (fun _ _ => 0) 3
  obtain ⟨snapshot, received, -, digest, -, replays⟩ := accepts (by decide)
  refine ⟨refuses.mpr (by decide), snapshot, received, digest, ?_⟩
  intro moves opened listed
  obtain ⟨-, front, -⟩ := replays moves opened listed
  exact front

end McpSsh.Disk
