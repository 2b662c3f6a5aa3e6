import McpSsh.Download.Delivery

/-!
# The window makes no difference

A consumer that reads to the end is handed what the sequential reader delivers,
whatever the window and whatever the order in which replies come in. What that
is follows from the peer: the file up to the limit, unless a read fails.
-/

namespace McpSsh.Download

variable {peer : Peer} {chunkBytes window limit : Nat} {reader : Reader}
  {left : List UInt8 × Option IoError}

/-! ## Reading on -/

/-- What a consumer was handed is the first part of what the sequential reader
delivers, and all of it once the consumer stopped. -/
structure Follows (peer : Peer) (chunkBytes window limit : Nat) (reading : Reading) : Prop where
  bounded : Bounded chunkBytes window limit reading.reader
  within : ∀ read ∈ reading.reads, read.1 + read.2 ≤ limit ∧ 0 < read.2
  stopped : ∀ fate, reading.ended = some fate →
    sequential peer chunkBytes limit 0 = (reading.delivered, fate)
  going : reading.ended = none → ∃ left : List UInt8 × Option IoError,
    Remains peer chunkBytes limit reading.reader left ∧
      sequential peer chunkBytes limit 0 = (reading.delivered ++ left.1, left.2)

variable {reading : Reading}

theorem Follows.start (bounded : Bounded chunkBytes window limit reader)
    (fresh : reader.eof = false) (empty : reader.requests = []) (next : reader.next = 0)
    (none' : reader.current = []) :
    Follows peer chunkBytes window limit (Reading.start reader) where
  bounded := bounded
  within := fun _ out => absurd out List.not_mem_nil
  stopped := fun _ ended => by cases ended
  going := fun _ => by
    refine ⟨sequential peer chunkBytes limit 0, ?_, by simp [Reading.start]⟩
    simp only [Remains, Reading.start, fresh, Bool.false_eq_true, if_false]
    exact ⟨0, by rw [empty]; exact next.symm, by simp [none']⟩

theorem Follows.poll (follows : Follows peer chunkBytes window limit reading)
    (some' : 0 < window) (small : limit ≤ maxOffset) (call : Call) :
    Follows peer chunkBytes window limit (reading.poll peer call) := by
  unfold Reading.poll
  split
  · exact follows
  · rename_i open'
    have going : reading.ended = none := by simpa using open'
    obtain ⟨left, remains, whole⟩ := follows.going going
    obtain ⟨bounded, within, agrees⟩ :=
      poll_spec follows.bounded some' small remains call.room call.arrived
    have reads : ∀ read ∈ reading.reads ++ (reading.reader.poll peer call.room call.arrived).2.1,
        read.1 + read.2 ≤ limit ∧ 0 < read.2 := fun read out =>
      (List.mem_append.mp out).elim (follows.within read) (within read)
    generalize reading.reader.poll peer call.room call.arrived = polled at bounded agrees reads ⊢
    obtain ⟨answer, out, after⟩ := polled
    cases answer with
    | pending =>
      exact ⟨bounded, reads, fun fate ended => by simp [going] at ended,
        fun _ => ⟨left, agrees, whole⟩⟩
    | ready bytes =>
      obtain ⟨rest, split, after', done⟩ := agrees
      refine ⟨bounded, reads, fun fate ended => ?_, fun _ => ⟨rest, after', ?_⟩⟩
      · simp only at ended
        split_ifs at ended with empty
        cases ended
        rw [whole, done empty.2 empty.1, empty.1]
      · rw [whole, split, List.append_assoc]
    | failed error =>
      have done : left = ([], some error) := agrees
      refine ⟨bounded, reads, fun fate ended => ?_, fun none' => by cases none'⟩
      cases ended
      rw [whole, done, List.append_nil]

theorem Follows.run (follows : Follows peer chunkBytes window limit reading)
    (some' : 0 < window) (small : limit ≤ maxOffset) (calls : List Call) :
    Follows peer chunkBytes window limit (reading.run peer calls) := by
  induction calls generalizing reading with
  | nil => exact follows
  | cons call calls ih => exact ih (follows.poll some' small call)

/-! ## Reading comes to an end -/

/-- A call that gives the reader something to do: room, and a further reply to
the oldest request. -/
def Call.Productive (call : Call) : Prop := 0 < call.room ∧ 0 < call.arrived 0

theorem missing_le (bounded : Bounded chunkBytes window limit reader)
    (remains : Remains peer chunkBytes limit reader left) :
    missing chunkBytes reader ≤ chunkBytes := by
  unfold missing
  split
  · rename_i size chunk rest front
    cases eof : reader.eof with
    | true =>
      rw [bounded.shut eof] at front
      cases front
    | false =>
      obtain ⟨base, tiled, -⟩ : ∃ base,
          Tiled peer chunkBytes limit reader.next base reader.requests ∧ _ := by
        simpa [Remains, eof] using remains
      rw [front] at tiled
      obtain ⟨sized, -, ⟨-, same, -⟩, -⟩ := tiled
      simp only at sized same
      unfold Chunk.remaining
      omega
  · exact le_rfl

/-- A request that waits on has less to wait for. -/
theorem Request.waits {request : Request} {offset arrived : Nat} {next : Chunk}
    (reads : request.Reads peer offset) (some' : 0 < arrived)
    (waits : (request.poll peer arrived).1.state = .pending next) :
    ∃ chunk, request.state = .pending chunk ∧ next.remaining < chunk.remaining := by
  obtain ⟨size, state⟩ := request
  cases state with
  | done result => cases waits
  | pending chunk =>
    obtain ⟨-, -, part, -⟩ := reads
    obtain ⟨-, same, more, short⟩ := Chunk.poll_pending part waits
    refine ⟨chunk, rfl, ?_⟩
    unfold Chunk.remaining
    omega

/-- With a further reply in, a poll that comes back empty-handed has gathered
more of the oldest chunk. -/
theorem poll_progress (bounded : Bounded chunkBytes window limit reader)
    (small : limit ≤ maxOffset) (remains : Remains peer chunkBytes limit reader left) {room : Nat}
    {arrived : Nat → Nat} (some' : 0 < arrived 0)
    (pending : (reader.poll peer room arrived).1 = .pending) :
    missing chunkBytes (reader.poll peer room arrived).2.2 < missing chunkBytes reader := by
  by_cases full : room = 0
  · simp [Reader.poll, full] at pending
  by_cases more : reader.current ≠ []
  · simp [Reader.poll, full, more, Reader.deliver] at pending
  rw [ne_eq, not_not] at more
  cases eof : reader.eof with
  | true => simp [Reader.poll, full, more, eof] at pending
  | false =>
    obtain ⟨base, tiled, -⟩ : ∃ base,
        Tiled peer chunkBytes limit reader.next base reader.requests ∧ _ := by
      simpa [Remains, eof] using remains
    have fits : reader.requests.length ≤ window := by
      simpa [bounded.going eof] using bounded.room
    obtain ⟨filled, fills, -, tiled', -, -, -, added, longer, fresh⟩ :=
      fill_spec bounded small tiled
        (show reader.requests.length + (window - reader.requests.length) ≤ window by omega) eof
    have polled : reader.poll peer room arrived = filled.advance peer room arrived := by
      simp only [Reader.poll, full, more, eof, bounded.windows, fills, if_false, ne_eq,
        not_true_eq_false, Bool.false_eq_true]
    rw [polled] at pending ⊢
    cases requests : filled.requests with
    | nil => simp [Reader.advance, requests, pollAll] at pending
    | cons front rest =>
      rw [requests] at tiled' longer
      simp only [Reader.advance, requests, pollAll] at pending ⊢
      cases state : (front.poll peer (arrived 0)).1.state with
      | done result =>
        cases result <;> simp [Reader.settle, state, Reader.deliver] at pending
      | pending next =>
        obtain ⟨chunk, was, less⟩ := Request.waits tiled'.2.2.1 some' state
        have now : missing chunkBytes (filled.settle room (front.poll peer (arrived 0)).1
            (pollAll peer (fun i => arrived (i + 1)) rest).1).2 = next.remaining := by
          simp only [Reader.settle, state, missing]
          generalize (front.poll peer (arrived 0)).1 = polledFront at state
          obtain ⟨size, _⟩ := polledFront
          simp only at state
          subst state
          rfl
        rw [now]
        refine less.trans_le ?_
        -- The oldest request was the oldest before, or has just been made.
        cases before : reader.requests with
        | nil =>
          rw [before, List.nil_append] at longer
          obtain ⟨offset, size, made, small'⟩ := fresh front (longer ▸ List.mem_cons_self)
          rw [made] at was
          cases was
          simpa [missing, before, Chunk.remaining, Chunk.start] using small'
        | cons oldest others =>
          rw [before, List.cons_append] at longer
          obtain ⟨rfl, -⟩ := List.cons.inj longer
          obtain ⟨size, _⟩ := front
          simp only at was
          subst was
          simp [missing, before]

/-- How many productive calls a consumer may still need, when so much is left
to deliver. -/
def owed (chunkBytes : Nat) (reader : Reader) (left : List UInt8 × Option IoError) : Nat :=
  left.1.length * (chunkBytes + 1) + missing chunkBytes reader

/-- A productive call ends the reading or leaves less to do. -/
theorem Follows.productive (follows : Follows peer chunkBytes window limit reading)
    (some' : 0 < window) (small : limit ≤ maxOffset) {call : Call} (productive : call.Productive)
    (going : (reading.poll peer call).ended = none) {left : List UInt8 × Option IoError}
    (remains : Remains peer chunkBytes limit reading.reader left) :
    ∃ rest, Remains peer chunkBytes limit (reading.poll peer call).reader rest ∧
      owed chunkBytes (reading.poll peer call).reader rest <
        owed chunkBytes reading.reader left := by
  unfold Reading.poll at going ⊢
  split at going
  · rename_i ended
    simp [going] at ended
  rename_i open'
  rw [if_neg open']
  obtain ⟨bounded, -, agrees⟩ :=
    poll_spec follows.bounded some' small remains call.room call.arrived
  have progress : (reading.reader.poll peer call.room call.arrived).1 = .pending →
      missing chunkBytes (reading.reader.poll peer call.room call.arrived).2.2 <
        missing chunkBytes reading.reader :=
    poll_progress follows.bounded small remains productive.2
  generalize reading.reader.poll peer call.room call.arrived = polled at *
  obtain ⟨answer, out, after⟩ := polled
  cases answer with
  | pending => exact ⟨left, agrees, Nat.add_lt_add_left (progress rfl) _⟩
  | ready bytes =>
    obtain ⟨rest, split, after', -⟩ := agrees
    refine ⟨rest, after', ?_⟩
    have some'' : bytes ≠ [] := by
      rintro rfl
      simp [productive.1] at going
    have positive := List.length_pos_iff.mpr some''
    have few := missing_le bounded after'
    have length : left.1.length = bytes.length + rest.1.length := by rw [split, List.length_append]
    simp only [owed, length, Nat.add_mul]
    nlinarith
  | failed error => simp at going

theorem Follows.ends (follows : Follows peer chunkBytes window limit reading)
    (some' : 0 < window) (small : limit ≤ maxOffset) {calls : List Call}
    (productive : ∀ call ∈ calls, call.Productive) {left : List UInt8 × Option IoError}
    (remains : Remains peer chunkBytes limit reading.reader left)
    (long : owed chunkBytes reading.reader left < calls.length) :
    (reading.run peer calls).ended.isSome := by
  induction calls generalizing reading left with
  | nil => cases long
  | cons call calls ih =>
    have follows' := follows.poll some' small call
    cases going : (reading.poll peer call).ended with
    | some fate =>
      have stays : ∀ (calls : List Call) (reading : Reading), reading.ended = some fate →
          (reading.run peer calls).ended = some fate := by
        intro calls
        induction calls with
        | nil => exact fun _ ended => ended
        | cons call calls ih =>
          intro reading ended
          exact ih _ (by simp [Reading.poll, ended])
      rw [show reading.run peer (call :: calls) = (reading.poll peer call).run peer calls from rfl,
        stays calls _ going]
      rfl
    | none =>
      obtain ⟨rest, remains', less⟩ := follows.productive some' small
        (productive call List.mem_cons_self) going remains
      refine ih follows' (fun other member => productive other (List.mem_cons_of_mem _ member))
        remains' ?_
      simp only [List.length_cons] at long
      omega

/-! ## What the peer serves -/

/-- Data is what stands there in the file, and its end is where it says. -/
def Serves (peer : Peer) (file : List UInt8) : Prop :=
  ∀ offset length,
    match peer offset length with
    | .data bytes => bytes.length ≤ length → bytes <+: file.drop offset
    | .eof => file.length ≤ offset
    | .failed => True

/-- A reply that fails the read it answers: no data, or more than was asked
for, are no answer. -/
def Reply.Fails (length : Nat) : Reply → Prop
  | .data bytes => bytes = [] ∨ length < bytes.length
  | .eof => False
  | .failed => True

/-- No read below the limit fails. -/
def Unfailing (peer : Peer) (limit : Nat) : Prop :=
  ∀ offset length, 0 < length → offset + length ≤ limit → ¬ (peer offset length).Fails length

variable {file : List UInt8}

/-- What stands in the file from an offset on, gathered in two parts. -/
theorem gathered_append {offset : Nat} {bytes data : List UInt8}
    (gathered : bytes = (file.drop offset).take bytes.length)
    (further : data <+: file.drop (offset + bytes.length)) :
    bytes ++ data = (file.drop offset).take (bytes ++ data).length := by
  rw [List.length_append, List.take_add, ← gathered, List.drop_drop]
  exact congrArg _ (List.prefix_iff_eq_take.mp further)

/-- What a chunk has gathered is what stands in the file. -/
theorem Chunk.poll_serves (serves : Serves peer file) {chunk : Chunk} {arrived : Nat}
    {bytes : List UInt8} (part : chunk.bytes.length < chunk.size)
    (gathered : chunk.bytes = (file.drop chunk.offset).take chunk.bytes.length)
    (done : (chunk.poll peer arrived).1 = .done (.ok bytes)) :
    bytes = (file.drop chunk.offset).take chunk.size := by
  induction arrived generalizing chunk with
  | zero =>
    by_cases far : maxOffset < chunk.position
    · simp [Chunk.poll_far far] at done
    · simp [Chunk.poll_zero far] at done
  | succ arrived ih =>
    by_cases far : maxOffset < chunk.position
    · simp [Chunk.poll_far far] at done
    rw [Chunk.poll_succ far] at done
    have served := serves chunk.position chunk.remaining
    cases reply : peer chunk.position chunk.remaining with
    | failed => simp [reply, Chunk.answer] at done
    | eof =>
      simp only [reply, Chunk.answer, Progress.done.injEq, Except.ok.injEq] at done
      rw [reply] at served
      subst done
      have whole : (file.drop chunk.offset).length ≤ chunk.bytes.length := by
        simp only [Chunk.position, List.length_drop] at served ⊢
        omega
      rw [gathered, List.take_of_length_le whole, List.take_of_length_le (whole.trans part.le)]
    | data data =>
      simp only [reply, Chunk.answer] at done served
      split at done
      · rename_i settled answered
        split at answered
        · cases answered
          cases done
        · rename_i good
          split at answered
          · cases answered
          · rename_i full
            cases answered
            cases done
            simp only [Bool.or_eq_true, decide_eq_true_eq, not_or, not_lt] at good
            have all := gathered_append gathered (served good.2)
            have length : (chunk.bytes ++ data).length = chunk.size := by
              have fits := good.2
              simp only [Chunk.remaining, List.length_append] at fits full ⊢
              omega
            rw [all, length]
      · rename_i next answered
        split at answered
        · cases answered
        · rename_i good
          split at answered
          · rename_i short
            cases answered
            simp only [Bool.or_eq_true, decide_eq_true_eq, not_or, not_lt] at good
            exact @ih { chunk with bytes := chunk.bytes ++ data, waiting := false } short
              (gathered_append gathered (served good.2)) done
          · cases answered

theorem Chunk.poll_unfailing (unfailing : Unfailing peer limit) {chunk : Chunk} {arrived : Nat}
    {error : IoError} (part : chunk.bytes.length < chunk.size)
    (inside : chunk.offset + chunk.size ≤ limit) (small : limit ≤ maxOffset) :
    (chunk.poll peer arrived).1 ≠ .done (.error error) := by
  have near : ¬ maxOffset < chunk.position := by
    unfold Chunk.position
    omega
  induction arrived generalizing chunk with
  | zero => simp [Chunk.poll_zero near]
  | succ arrived ih =>
    rw [Chunk.poll_succ near]
    have fine := unfailing chunk.position chunk.remaining
      (by unfold Chunk.remaining; omega) (by unfold Chunk.position Chunk.remaining; omega)
    cases answered : chunk.answer (peer chunk.position chunk.remaining) with
    | pending next =>
      obtain ⟨offset, size, -, short⟩ := Chunk.answer_pending answered
      refine ih short (by omega) ?_
      unfold Chunk.position
      omega
    | done result =>
      rintro ⟨⟩
      cases reply : peer chunk.position chunk.remaining with
      | failed => exact fine (by simp [reply, Reply.Fails])
      | eof => simp [reply, Chunk.answer] at answered
      | data data =>
        rw [reply] at fine answered
        simp only [Reply.Fails, not_or, not_lt] at fine
        simp [Chunk.answer, fine.1, not_lt.mpr fine.2] at answered
        split at answered <;> cases answered

theorem outcome_serves (serves : Serves peer file) {offset size : Nat} {bytes : List UInt8}
    (some' : 0 < size) (read : outcome peer offset size = .ok bytes) :
    bytes = (file.drop offset).take size := by
  obtain ⟨result, done⟩ : ∃ result, ((Chunk.start offset size).poll peer size).1 = .done result :=
    Chunk.poll_done some' le_rfl
  rw [← outcome_of_done some' done] at read
  subst read
  exact Chunk.poll_serves serves (show (Chunk.start offset size).bytes.length < size from some')
    rfl done

theorem outcome_unfailing (unfailing : Unfailing peer limit) (small : limit ≤ maxOffset)
    {offset size : Nat} (some' : 0 < size) (inside : offset + size ≤ limit) (error : IoError) :
    outcome peer offset size ≠ .error error := by
  obtain ⟨result, done⟩ : ∃ result, ((Chunk.start offset size).poll peer size).1 = .done result :=
    Chunk.poll_done some' le_rfl
  rw [← outcome_of_done some' done]
  rintro rfl
  exact Chunk.poll_unfailing unfailing
    (show (Chunk.start offset size).bytes.length < size from some') inside small done

/-- The sequential reader delivers what stands in the file, and all of it up to
the limit unless a read fails. -/
theorem sequential_serves (serves : Serves peer file) (some' : 0 < chunkBytes) (offset : Nat) :
    (sequential peer chunkBytes limit offset).1 <+: (file.drop offset).take (limit - offset) ∧
      ((sequential peer chunkBytes limit offset).2 = none →
        (sequential peer chunkBytes limit offset).1 =
          (file.drop offset).take (limit - offset)) := by
  generalize left : limit - offset = room
  induction room using Nat.strong_induction_on generalizing offset with
  | h room ih =>
    subst left
    by_cases none' : min chunkBytes (limit - offset) = 0
    · rw [sequential_end none', show limit - offset = 0 by omega]
      simp
    have positive : 0 < min chunkBytes (limit - offset) := by omega
    cases read : outcome peer offset (min chunkBytes (limit - offset)) with
    | error error =>
      rw [sequential_error positive read]
      exact ⟨List.nil_prefix, fun ended => by cases ended⟩
    | ok bytes =>
      have stands := outcome_serves serves positive read
      by_cases short : bytes.length < min chunkBytes (limit - offset)
      · rw [sequential_short read short]
        have whole : (file.drop offset).length ≤ min chunkBytes (limit - offset) := by
          rw [stands, List.length_take] at short
          omega
        have all : bytes = (file.drop offset).take (limit - offset) := by
          rw [stands, List.take_of_length_le whole,
            List.take_of_length_le (whole.trans (min_le_right _ _))]
        exact ⟨all ▸ List.prefix_rfl, fun _ => all⟩
      · rw [sequential_full positive read short]
        obtain ⟨first, whole⟩ := ih (limit - (offset + min chunkBytes (limit - offset)))
          (by omega) (offset + min chunkBytes (limit - offset)) rfl
        have split : (file.drop offset).take (limit - offset) =
            bytes ++ (file.drop (offset + min chunkBytes (limit - offset))).take
              (limit - (offset + min chunkBytes (limit - offset))) := by
          rw [stands, ← List.drop_drop, ← List.take_add]
          congr 1
          omega
        rw [split]
        exact ⟨(List.prefix_append_right_inj _).mpr first, fun ended => by rw [whole ended]⟩

theorem sequential_unfailing (unfailing : Unfailing peer limit) (small : limit ≤ maxOffset)
    (offset : Nat) : (sequential peer chunkBytes limit offset).2 = none := by
  generalize left : limit - offset = room
  induction room using Nat.strong_induction_on generalizing offset with
  | h room ih =>
    subst left
    by_cases none' : min chunkBytes (limit - offset) = 0
    · rw [sequential_end none']
    have positive : 0 < min chunkBytes (limit - offset) := by omega
    cases read : outcome peer offset (min chunkBytes (limit - offset)) with
    | error error =>
      exact absurd read (outcome_unfailing unfailing small positive (by omega) error)
    | ok bytes =>
      by_cases short : bytes.length < min chunkBytes (limit - offset)
      · rw [sequential_short read short]
      · rw [sequential_full positive read short]
        exact ih _ (by omega) _ rfl

/-! ## Any window -/

/-- What holds of a consumer of a reader with a window, at any moment.

* No more reads are out than the window allows, those of dropped requests
  included.
* Every read starts and ends before the limit.
* What was delivered is the first part of the file, and once the consumer
  stopped it is the file up to the limit, unless some read fails.
* It is a part of what a reader with a window of one delivers to its end, and
  once both have stopped they were handed the same and ended the same. -/
structure Pipelined (peer : Peer) (chunkBytes window : Nat) (limit : UInt64)
    (reading : Reading) : Prop where
  outstanding : (reading.reader.requests ++ reading.reader.dropped).countP Request.outstanding ≤
    window
  within : ∀ read ∈ reading.reads, read.1 < limit.toNat ∧ read.1 + read.2 ≤ limit.toNat
  content : ∀ file, Serves peer file → reading.delivered <+: file.take limit.toNat ∧
    (Unfailing peer limit.toNat → ∀ fate, reading.ended = some fate →
      fate = none ∧ reading.delivered = file.take limit.toNat)
  alone : ∀ single, Reader.new chunkBytes 1 = .ok single → ∀ calls : List Call,
    ((Reading.start (single.bounded limit)).run peer calls).ended.isSome →
      reading.delivered <+: ((Reading.start (single.bounded limit)).run peer calls).delivered ∧
        (reading.ended.isSome →
          reading.delivered = ((Reading.start (single.bounded limit)).run peer calls).delivered ∧
            reading.ended = ((Reading.start (single.bounded limit)).run peer calls).ended)

theorem Reader.new_eq (built : Reader.new chunkBytes window = .ok reader) :
    0 < chunkBytes ∧ 0 < window ∧
      reader = ⟨chunkBytes, window, 0, maxOffset, [], [], false, []⟩ := by
  unfold Reader.new at built
  split at built
  · cases built
  · rename_i good
    cases built
    exact ⟨by omega, by omega, rfl⟩

theorem UInt64.toNat_le_maxOffset (limit : UInt64) : limit.toNat ≤ maxOffset := by
  have bound := limit.toNat_lt
  unfold maxOffset
  omega

/-- A consumer of a new reader follows the sequential one. -/
theorem Reader.follows (built : Reader.new chunkBytes window = .ok reader) (limit : UInt64)
    (peer : Peer) (calls : List Call) :
    Follows peer chunkBytes window limit.toNat
      ((Reading.start (reader.bounded limit)).run peer calls) := by
  obtain ⟨-, some', rfl⟩ := Reader.new_eq built
  refine Follows.run ?_ some' (UInt64.toNat_le_maxOffset limit) calls
  refine Follows.start ⟨rfl, rfl, rfl, Nat.zero_le _, fun _ => rfl, fun _ => rfl⟩ rfl rfl rfl rfl

/-- What a consumer was handed so far is what a consumer that stopped was handed
first. -/
theorem Follows.source_prefix (follows : Follows peer chunkBytes window limit reading) :
    reading.delivered <+: (sequential peer chunkBytes limit 0).1 := by
  cases ended : reading.ended with
  | some fate =>
    have whole := follows.stopped fate ended
    exact ⟨[], by rw [whole, List.append_nil]⟩
  | none =>
    obtain ⟨left, -, whole⟩ := follows.going ended
    rw [whole]
    exact List.prefix_append _ _

/-- Whatever replies come in, in any order, the reader with a window delivers
what the sequential one does; and it comes to an end if only its consumer has
room and the oldest request is answered further each time. -/
theorem Reader.pipelined {chunkBytes window : Nat} {reader : Reader}
    (built : Reader.new chunkBytes window = .ok reader) (limit : UInt64) (peer : Peer)
    (calls : List Call) :
    Pipelined peer chunkBytes window limit
        ((Reading.start (reader.bounded limit)).run peer calls) ∧
      ((∀ call ∈ calls, call.Productive) →
        ((sequential peer chunkBytes limit.toNat 0).1.length + 1) * (chunkBytes + 1) ≤
          calls.length →
        ((Reading.start (reader.bounded limit)).run peer calls).ended.isSome) := by
  have follows := Reader.follows built limit peer calls
  have small := UInt64.toNat_le_maxOffset limit
  obtain ⟨chunked, windowed, fresh⟩ := Reader.new_eq built
  constructor
  · constructor
    case outstanding =>
      refine List.countP_le_length.trans ?_
      rw [List.length_append]
      exact follows.bounded.room
    case within =>
      intro read out
      have := follows.within read out
      omega
    case content =>
      intro file serves
      obtain ⟨first, whole⟩ := sequential_serves serves chunked 0
      rw [List.drop_zero, Nat.sub_zero] at first whole
      refine ⟨follows.source_prefix.trans first, fun unfailing fate ended => ?_⟩
      have stopped := follows.stopped fate ended
      have fine : (sequential peer chunkBytes limit.toNat 0).2 = none :=
        sequential_unfailing unfailing small 0
      rw [stopped] at fine whole
      exact ⟨fine, whole fine⟩
    case alone =>
      intro single built' calls' stopped
      have follows' := Reader.follows built' limit peer calls'
      obtain ⟨fate', ended'⟩ := Option.isSome_iff_exists.mp stopped
      have all := follows'.stopped fate' ended'
      refine ⟨?_, fun stopped => ?_⟩
      · have first := follows.source_prefix
        rwa [all] at first
      · obtain ⟨fate, ended⟩ := Option.isSome_iff_exists.mp stopped
        have one := (follows.stopped fate ended).symm.trans all
        obtain ⟨same, rfl⟩ := Prod.mk.inj one
        exact ⟨same, ended.trans ended'.symm⟩
  · intro productive long
    have begins := Reader.follows built limit peer []
    subst fresh
    have remains : Remains peer chunkBytes limit.toNat
        (Reader.bounded ⟨chunkBytes, window, 0, maxOffset, [], [], false, []⟩ limit)
        (sequential peer chunkBytes limit.toNat 0) := ⟨0, rfl, rfl⟩
    refine begins.ends windowed small productive remains (lt_of_lt_of_le ?_ long)
    rw [Nat.add_mul, Nat.one_mul]
    exact Nat.lt_succ_self _

/-- Three bytes, asked for two at a time by a reader that has two requests out,
and answered a byte at a time. -/
theorem Reader.pipelined_sample :
    let peer : Peer := fun offset _ => if offset < 3 then .data [UInt8.ofNat offset] else .eof
    let calls : List Call := List.replicate 15 ⟨8, fun _ => 1⟩
    Pipelined peer 2 2 100
        ((Reading.start (Reader.bounded ⟨2, 2, 0, maxOffset, [], [], false, []⟩ 100)).run peer
          calls) ∧
      ((∀ call ∈ calls, call.Productive) →
        ((sequential peer 2 (100 : UInt64).toNat 0).1.length + 1) * (2 + 1) ≤ calls.length →
        ((Reading.start (Reader.bounded ⟨2, 2, 0, maxOffset, [], [], false, []⟩ 100)).run peer
          calls).ended.isSome) :=
  Reader.pipelined (show Reader.new 2 2 = _ by rfl) 100 _ _

example :
    let peer : Peer := fun offset _ => if offset < 3 then .data [UInt8.ofNat offset] else .eof
    let reading := (Reading.start (Reader.bounded ⟨2, 2, 0, maxOffset, [], [], false, []⟩ 100)).run
      peer (List.replicate 15 ⟨8, fun _ => 1⟩)
    reading.delivered = [0, 1, 2] ∧ reading.ended = some none := by decide

end McpSsh.Download
