import McpSsh.Download.Reader
import Mathlib.Tactic.Linarith

/-!
# What a download delivers

A reader that asks for one chunk after the other delivers `sequential`. The
reader with a window delivers the same: its queue tiles the file from the chunk
that is delivered next, and each request in it is on its way to what
`read_chunk` comes to alone.
-/

namespace McpSsh.Download

variable {peer : Peer}

/-! ## One chunk -/

namespace Chunk

variable {chunk next : Chunk}

theorem poll_far (far : maxOffset < chunk.position) (arrived : Nat) :
    chunk.poll peer arrived = (.done (.error .offsetOverflow), []) := by
  rw [poll.eq_def, if_pos far]

theorem poll_zero (near : ¬ maxOffset < chunk.position) :
    chunk.poll peer 0 = (.pending { chunk with waiting := true }, chunk.asks) := by
  rw [poll.eq_def, if_neg near]

theorem poll_succ (near : ¬ maxOffset < chunk.position) (arrived : Nat) :
    chunk.poll peer (arrived + 1) =
      match chunk.answer (peer chunk.position chunk.remaining) with
      | .done result => (.done result, chunk.asks)
      | .pending next =>
        ((next.poll peer arrived).1, chunk.asks ++ (next.poll peer arrived).2) := by
  rw [poll.eq_def]
  exact if_neg near

/-- Whether its read is out makes no difference to what a chunk comes to. -/
theorem poll_waiting (waiting : Bool) (arrived : Nat) :
    (({ chunk with waiting } : Chunk).poll peer arrived).1 = (chunk.poll peer arrived).1 := by
  by_cases far : maxOffset < chunk.position
  · rw [poll_far far, poll_far (show maxOffset < ({ chunk with waiting } : Chunk).position from far)]
  · have far' : ¬ maxOffset < ({ chunk with waiting } : Chunk).position := far
    cases arrived with
    | zero => rw [poll_zero far, poll_zero far']
    | succ arrived =>
      have same : ∀ reply, ({ chunk with waiting } : Chunk).answer reply = chunk.answer reply :=
        fun reply => by cases reply <;> rfl
      rw [poll_succ far, poll_succ far', same]
      change (match chunk.answer (peer chunk.position chunk.remaining) with
        | .done result => _
        | .pending next => _ : Progress × List Read).1 = _
      cases chunk.answer (peer chunk.position chunk.remaining) <;> rfl

/-- Replies may come in over several polls. -/
theorem poll_add (first more : Nat) :
    (chunk.poll peer (first + more)).1 =
      match (chunk.poll peer first).1 with
      | .pending next => (next.poll peer more).1
      | .done result => .done result := by
  by_cases far : maxOffset < chunk.position
  · simp only [poll_far far]
  · induction first generalizing chunk with
    | zero =>
      rw [Nat.zero_add, poll_zero far]
      exact (poll_waiting true more).symm
    | succ first ih =>
      rw [Nat.succ_add, poll_succ far, poll_succ far]
      cases chunk.answer (peer chunk.position chunk.remaining) with
      | done result => rfl
      | pending next =>
        by_cases far' : maxOffset < next.position
        · simp only [poll_far far']
        · exact ih far'

/-- A chunk that goes on has gathered more, and not everything. -/
theorem answer_pending {reply : Reply} (answered : chunk.answer reply = .pending next) :
    next.offset = chunk.offset ∧ next.size = chunk.size ∧
      chunk.bytes.length < next.bytes.length ∧ next.bytes.length < next.size := by
  cases reply with
  | data data =>
    simp only [answer] at answered
    split at answered
    · cases answered
    · rename_i good
      split at answered
      · rename_i short
        cases answered
        have some' : 0 < data.length := by
          rw [List.length_pos_iff]
          rintro rfl
          simp at good
        simp only [List.length_append] at short
        refine ⟨rfl, rfl, ?_, by simpa using short⟩
        simp only [List.length_append]
        omega
      · cases answered
  | eof => cases answered
  | failed => cases answered

theorem poll_pending {arrived : Nat} (part : chunk.bytes.length < chunk.size)
    (polled : (chunk.poll peer arrived).1 = .pending next) :
    next.offset = chunk.offset ∧ next.size = chunk.size ∧
      chunk.bytes.length + arrived ≤ next.bytes.length ∧ next.bytes.length < next.size := by
  induction arrived generalizing chunk with
  | zero =>
    by_cases far : maxOffset < chunk.position
    · rw [poll_far far] at polled
      cases polled
    · rw [poll_zero far] at polled
      cases polled
      exact ⟨rfl, rfl, le_rfl, part⟩
  | succ arrived ih =>
    by_cases far : maxOffset < chunk.position
    · rw [poll_far far] at polled
      cases polled
    · rw [poll_succ far] at polled
      cases answered : chunk.answer (peer chunk.position chunk.remaining) with
      | done result =>
        rw [answered] at polled
        cases polled
      | pending further =>
        rw [answered] at polled
        obtain ⟨offset, size, more, short⟩ := answer_pending answered
        obtain ⟨offset', size', more', short'⟩ := ih short polled
        exact ⟨offset'.trans offset, size'.trans size, by omega, short'⟩

/-- As many replies as bytes are missing settle a chunk. -/
theorem poll_done {arrived : Nat} (part : chunk.bytes.length < chunk.size)
    (enough : chunk.remaining ≤ arrived) :
    ∃ result, (chunk.poll peer arrived).1 = .done result := by
  cases polled : (chunk.poll peer arrived).1 with
  | done result => exact ⟨result, rfl⟩
  | pending next =>
    obtain ⟨-, size, more, short⟩ := poll_pending part polled
    unfold remaining at enough
    omega

/-- However many replies it takes, a chunk comes to one result. -/
theorem poll_unique {first second : Nat} {a b : Except IoError (List UInt8)}
    (left : (chunk.poll peer first).1 = .done a) (right : (chunk.poll peer second).1 = .done b) :
    a = b := by
  have later : ∀ {n m : Nat} {a b : Except IoError (List UInt8)}, n ≤ m →
      (chunk.poll peer n).1 = .done a → (chunk.poll peer m).1 = .done b → a = b := by
    intro n m a b le atN atM
    obtain ⟨more, rfl⟩ := Nat.exists_eq_add_of_le le
    rw [poll_add, atN] at atM
    cases atM
    rfl
  rcases Nat.le_total first second with le | le
  · exact later le left right
  · exact (later le right left).symm

/-- Every read of a chunk ends where the chunk does. -/
theorem asks_reads (part : chunk.bytes.length < chunk.size) {read : Read}
    (out : read ∈ chunk.asks) : read.1 + read.2 = chunk.offset + chunk.size ∧ 0 < read.2 := by
  unfold asks at out
  split at out
  · cases out
  · rw [List.mem_singleton] at out
    subst out
    simp only [position, remaining]
    omega

theorem poll_reads {arrived : Nat} (part : chunk.bytes.length < chunk.size) {read : Read}
    (out : read ∈ (chunk.poll peer arrived).2) :
    read.1 + read.2 = chunk.offset + chunk.size ∧ 0 < read.2 := by
  induction arrived generalizing chunk with
  | zero =>
    by_cases far : maxOffset < chunk.position
    · rw [poll_far far] at out
      cases out
    · rw [poll_zero far] at out
      exact asks_reads part out
  | succ arrived ih =>
    by_cases far : maxOffset < chunk.position
    · rw [poll_far far] at out
      cases out
    · rw [poll_succ far] at out
      cases answered : chunk.answer (peer chunk.position chunk.remaining) with
      | done result =>
        rw [answered] at out
        exact asks_reads part out
      | pending further =>
        rw [answered] at out
        obtain ⟨offset, size, -, short⟩ := answer_pending answered
        rcases List.mem_append.mp out with mine | later
        · exact asks_reads part mine
        · rw [← offset, ← size]
          exact ih short later

end Chunk

/-- What `read_chunk` comes to. -/
def outcome (peer : Peer) (offset size : Nat) : Except IoError (List UInt8) :=
  match ((Chunk.start offset size).poll peer size).1 with
  | .done result => result
  | .pending chunk => .ok chunk.bytes

theorem outcome_of_done {offset size arrived : Nat} {result : Except IoError (List UInt8)}
    (some' : 0 < size)
    (done : ((Chunk.start offset size).poll peer arrived).1 = .done result) :
    result = outcome peer offset size := by
  obtain ⟨other, settled⟩ : ∃ other, ((Chunk.start offset size).poll peer size).1 = .done other :=
    Chunk.poll_done some' le_rfl
  rw [outcome, settled]
  exact Chunk.poll_unique done settled

/-- What one chunk after the other delivers from an offset on, and the error it
ends with, if any. -/
def sequential (peer : Peer) (chunkBytes limit offset : Nat) : List UInt8 × Option IoError :=
  if min chunkBytes (limit - offset) = 0 then ([], none)
  else
    match outcome peer offset (min chunkBytes (limit - offset)) with
    | .error error => ([], some error)
    | .ok bytes =>
      if bytes.length < min chunkBytes (limit - offset) then (bytes, none)
      else
        let rest := sequential peer chunkBytes limit (offset + min chunkBytes (limit - offset))
        (bytes ++ rest.1, rest.2)
termination_by limit - offset
decreasing_by omega

section
variable {chunkBytes limit offset : Nat} {bytes : List UInt8}

theorem sequential_end (none' : min chunkBytes (limit - offset) = 0) :
    sequential peer chunkBytes limit offset = ([], none) := by
  rw [sequential, if_pos none']

theorem sequential_error {error : IoError} (some' : 0 < min chunkBytes (limit - offset))
    (failed : outcome peer offset (min chunkBytes (limit - offset)) = .error error) :
    sequential peer chunkBytes limit offset = ([], some error) := by
  rw [sequential, if_neg (by omega), failed]

theorem sequential_short (read : outcome peer offset (min chunkBytes (limit - offset)) = .ok bytes)
    (short : bytes.length < min chunkBytes (limit - offset)) :
    sequential peer chunkBytes limit offset = (bytes, none) := by
  rw [sequential, if_neg (by omega), read]
  exact if_pos short

theorem sequential_full (some' : 0 < min chunkBytes (limit - offset))
    (read : outcome peer offset (min chunkBytes (limit - offset)) = .ok bytes)
    (full : ¬ bytes.length < min chunkBytes (limit - offset)) :
    sequential peer chunkBytes limit offset =
      (bytes ++ (sequential peer chunkBytes limit
          (offset + min chunkBytes (limit - offset))).1,
        (sequential peer chunkBytes limit (offset + min chunkBytes (limit - offset))).2) := by
  rw [sequential, if_neg (by omega), read]
  exact if_neg full

end

/-! ## The queue -/

/-- A request on its way to what `read_chunk` comes to alone. -/
def Request.Reads (peer : Peer) (offset : Nat) (request : Request) : Prop :=
  match request.state with
  | .done result => result = outcome peer offset request.size
  | .pending chunk =>
    chunk.offset = offset ∧ chunk.size = request.size ∧ chunk.bytes.length < chunk.size ∧
      ∀ arrived result, (chunk.poll peer arrived).1 = .done result →
        result = outcome peer offset request.size

/-- Requests that follow one another from an offset up to `next`, each as large
as its place allows. -/
def Tiled (peer : Peer) (chunkBytes limit next : Nat) : Nat → List Request → Prop
  | base, [] => base = next
  | base, request :: rest =>
    request.size = min chunkBytes (limit - base) ∧ 0 < request.size ∧ request.Reads peer base ∧
      Tiled peer chunkBytes limit next (base + request.size) rest

variable {chunkBytes limit : Nat}

theorem Request.Reads.start {offset size : Nat} (some' : 0 < size) :
    Request.Reads peer offset ⟨size, .pending (Chunk.start offset size)⟩ :=
  ⟨rfl, rfl, some', fun _ _ done => outcome_of_done some' done⟩

/-- A request that is polled is still on its way. -/
theorem Request.Reads.poll {offset : Nat} {request : Request} (reads : request.Reads peer offset)
    (arrived : Nat) : (request.poll peer arrived).1.Reads peer offset := by
  obtain ⟨size, state⟩ := request
  cases state with
  | done result => exact reads
  | pending chunk =>
    obtain ⟨sameOffset, sameSize, part, comes⟩ := reads
    simp only [Request.poll, Request.Reads]
    cases polled : (chunk.poll peer arrived).1 with
    | done result => exact comes arrived result polled
    | pending next =>
      obtain ⟨offset', size', -, short⟩ := Chunk.poll_pending part polled
      refine ⟨offset'.trans sameOffset, size'.trans sameSize, short, fun more result done => ?_⟩
      apply comes (arrived + more)
      rw [Chunk.poll_add, polled]
      exact done

@[simp] theorem Request.poll_size (request : Request) (arrived : Nat) :
    (request.poll peer arrived).1.size = request.size := by
  obtain ⟨size, state⟩ := request
  cases state <;> rfl

theorem Request.Reads.reads {offset arrived : Nat} {request : Request}
    (reads : request.Reads peer offset) {read : Read}
    (out : read ∈ (request.poll peer arrived).2) :
    read.1 + read.2 = offset + request.size ∧ 0 < read.2 := by
  obtain ⟨size, state⟩ := request
  cases state with
  | done result => cases out
  | pending chunk =>
    obtain ⟨rfl, rfl, part, -⟩ := reads
    exact Chunk.poll_reads part out

theorem Tiled.append {base size : Nat} {next : Nat} {requests : List Request}
    (tiled : Tiled peer chunkBytes limit next base requests)
    (sized : size = min chunkBytes (limit - next)) (some' : 0 < size) :
    Tiled peer chunkBytes limit (next + size) base
      (requests ++ [⟨size, .pending (Chunk.start next size)⟩]) := by
  induction requests generalizing base with
  | nil =>
    obtain rfl : base = next := tiled
    exact ⟨sized, some', Request.Reads.start some', rfl⟩
  | cons request rest ih =>
    obtain ⟨sized', some'', reads, rest'⟩ := tiled
    exact ⟨sized', some'', reads, ih rest'⟩

/-- Polling the queue leaves it laid out as it was, and no read of it goes past
the limit. -/
theorem Tiled.pollAll {base next : Nat} {requests : List Request}
    (tiled : Tiled peer chunkBytes limit next base requests) (arrived : Nat → Nat) :
    Tiled peer chunkBytes limit next base (pollAll peer arrived requests).1 ∧
      (pollAll peer arrived requests).1.length = requests.length ∧
      ∀ read ∈ (pollAll peer arrived requests).2, read.1 + read.2 ≤ limit ∧ 0 < read.2 := by
  induction requests generalizing base arrived with
  | nil => exact ⟨tiled, rfl, fun _ out => absurd out List.not_mem_nil⟩
  | cons request rest ih =>
    obtain ⟨sized, some', reads, rest'⟩ := tiled
    obtain ⟨tiled', length, within⟩ := ih rest' fun i => arrived (i + 1)
    refine ⟨⟨by simpa using sized, by simpa using some', reads.poll _, by simpa using tiled'⟩,
      by simp [Download.pollAll, length], fun read out => ?_⟩
    rcases List.mem_append.mp out with mine | later
    · obtain ⟨ends, some''⟩ := reads.reads mine
      exact ⟨by omega, some''⟩
    · exact within read later

/-! ## The reader -/

/-- A reader of these bounds, with no more requests than its window, and none
once it has seen the end. -/
structure Bounded (chunkBytes window limit : Nat) (reader : Reader) : Prop where
  chunks : reader.chunkBytes = chunkBytes
  windows : reader.window = window
  limits : reader.limit = limit
  room : reader.requests.length + reader.dropped.length ≤ window
  going : reader.eof = false → reader.dropped = []
  shut : reader.eof = true → reader.requests = []

/-- What a reader still has to deliver, and the error that comes after it. -/
def Remains (peer : Peer) (chunkBytes limit : Nat) (reader : Reader)
    (left : List UInt8 × Option IoError) : Prop :=
  if reader.eof then left = (reader.current, none)
  else ∃ base, Tiled peer chunkBytes limit reader.next base reader.requests ∧
    left = (reader.current ++ (sequential peer chunkBytes limit base).1,
      (sequential peer chunkBytes limit base).2)

/-- What is missing from the chunk delivered next. -/
def missing (chunkBytes : Nat) (reader : Reader) : Nat :=
  match reader.requests with
  | ⟨_, .pending chunk⟩ :: _ => chunk.remaining
  | _ => chunkBytes

variable {window : Nat} {reader : Reader}

/-- Filling the queue goes on from its end, and stops for want of room or of
bytes. -/
theorem fill_spec {turns base : Nat} (bounded : Bounded chunkBytes window limit reader)
    (small : limit ≤ maxOffset)
    (tiled : Tiled peer chunkBytes limit reader.next base reader.requests)
    (room : reader.requests.length + turns ≤ window) (going : reader.eof = false) :
    ∃ after, reader.fill turns = (none, after) ∧ Bounded chunkBytes window limit after ∧
      Tiled peer chunkBytes limit after.next base after.requests ∧
      after.current = reader.current ∧ after.eof = false ∧
      (after.requests = [] → turns = 0 ∨ min chunkBytes (limit - after.next) = 0) ∧
      ∃ added, after.requests = reader.requests ++ added ∧ ∀ request ∈ added,
        ∃ offset size, request = ⟨size, .pending (Chunk.start offset size)⟩ ∧
          size ≤ chunkBytes := by
  induction turns generalizing reader with
  | zero =>
    exact ⟨reader, rfl, bounded, tiled, rfl, going, fun _ => .inl rfl, [], by simp, by simp⟩
  | succ turns ih =>
    have sized : reader.sizeAt reader.next = min chunkBytes (limit - reader.next) := by
      rw [Reader.sizeAt, bounded.chunks, bounded.limits]
    by_cases none' : reader.sizeAt reader.next = 0
    · exact ⟨reader, by simp [Reader.fill, none'], bounded, tiled, rfl, going,
        fun _ => .inr (sized ▸ none'), [], by simp, by simp⟩
    · have near : ¬ maxOffset < reader.next + reader.sizeAt reader.next := by omega
      have dropped := bounded.going going
      let longer : Reader := { reader with
        next := reader.next + reader.sizeAt reader.next
        requests := reader.requests ++ [⟨reader.sizeAt reader.next,
          .pending (Chunk.start reader.next (reader.sizeAt reader.next))⟩] }
      have length : longer.requests.length = reader.requests.length + 1 := by simp [longer]
      have bounded' : Bounded chunkBytes window limit longer :=
        ⟨bounded.chunks, bounded.windows, bounded.limits, by
          rw [length, show longer.dropped = [] from dropped, List.length_nil]
          omega, bounded.going, fun shut => by simp [longer, going] at shut⟩
      obtain ⟨after, filled, bounded'', tiled', current, going', -, added, more, fresh⟩ :=
        ih bounded' (tiled.append sized (by omega)) (by omega) going
      refine ⟨after, by simp [Reader.fill, none', near, filled, longer], bounded'', tiled', current,
        going', fun empty => ?_, ⟨reader.sizeAt reader.next,
          .pending (Chunk.start reader.next (reader.sizeAt reader.next))⟩ :: added,
        by simp [more, longer], fun request member => ?_⟩
      · simp [more, longer] at empty
      · rcases List.mem_cons.mp member with rfl | later
        · exact ⟨reader.next, reader.sizeAt reader.next, rfl, by omega⟩
        · exact fresh request later

/-- What a poll comes back with agrees with what was left. -/
def Agrees (peer : Peer) (chunkBytes limit room : Nat) (left : List UInt8 × Option IoError)
    (after : Reader) : Polled → Prop
  | .pending => Remains peer chunkBytes limit after left
  | .ready bytes => ∃ rest, left = (bytes ++ rest.1, rest.2) ∧
      Remains peer chunkBytes limit after rest ∧ (0 < room → bytes = [] → left = ([], none))
  | .failed error => left = ([], some error)

variable {left : List UInt8 × Option IoError}

theorem deliver_spec (remains : Remains peer chunkBytes limit reader left) (room : Nat) :
    ∃ rest, left = (reader.current.take room ++ rest.1, rest.2) ∧
      Remains peer chunkBytes limit (reader.deliver room).2 rest := by
  unfold Remains at remains ⊢
  cases eof : reader.eof with
  | true =>
    rw [eof, if_pos rfl] at remains
    refine ⟨(reader.current.drop room, none), by simp [remains], ?_⟩
    simp [Reader.deliver, eof]
  | false =>
    rw [eof, if_neg Bool.false_ne_true] at remains
    obtain ⟨base, tiled, rfl⟩ := remains
    refine ⟨(reader.current.drop room ++ (sequential peer chunkBytes limit base).1,
      (sequential peer chunkBytes limit base).2), ?_, ?_⟩
    · simp only [← List.append_assoc, List.take_append_drop]
    · simp only [Reader.deliver, eof, Bool.false_eq_true, if_false]
      exact ⟨base, tiled, rfl⟩

/-- Delivering from the oldest request is going on as the sequential reader
would. -/
theorem settle_spec {base room : Nat} {front : Request} {rest : List Request}
    (bounded : Bounded chunkBytes window limit reader) (going : reader.eof = false)
    (empty : reader.current = []) (some' : 0 < room) (length : rest.length < window)
    (tiled : Tiled peer chunkBytes limit reader.next base (front :: rest)) :
    Bounded chunkBytes window limit (reader.settle room front rest).2 ∧
      Agrees peer chunkBytes limit room (sequential peer chunkBytes limit base)
        (reader.settle room front rest).2 (reader.settle room front rest).1 := by
  have dropped := bounded.going going
  have kept : ∀ {requests : List Request}, requests.length ≤ window →
      Bounded chunkBytes window limit { reader with requests } := fun fits =>
    ⟨bounded.chunks, bounded.windows, bounded.limits, by simpa [dropped] using fits,
      bounded.going, fun shut => by simp [going] at shut⟩
  have cleared : Bounded chunkBytes window limit (reader.clear rest) :=
    ⟨bounded.chunks, bounded.windows, bounded.limits, by simpa [Reader.clear] using length.le,
      fun open' => by simp [Reader.clear] at open', fun _ => rfl⟩
  have taken : ∀ {bytes : List UInt8}, bytes.take room = [] → bytes = [] := by
    intro bytes none'
    simpa [some'.ne'] using none'
  obtain ⟨sized, positive, reads, tiled'⟩ := tiled
  obtain ⟨size, state⟩ := front
  obtain rfl : size = min chunkBytes (limit - base) := sized
  cases state with
  | pending chunk =>
    refine ⟨kept length, ?_⟩
    simp only [Reader.settle, Agrees, Remains, going, Bool.false_eq_true, if_false]
    exact ⟨base, ⟨rfl, positive, reads, tiled'⟩, by simp [empty]⟩
  | done result =>
    have comes : result = outcome peer base (min chunkBytes (limit - base)) := reads
    cases result with
    | error error =>
      exact ⟨cleared, sequential_error positive comes.symm⟩
    | ok bytes =>
      by_cases short : bytes.length < min chunkBytes (limit - base)
      · have remains : Remains peer chunkBytes limit
            { reader.clear rest with current := bytes } (bytes, none) := by
          simp [Remains, Reader.clear]
        simp only [Reader.settle, short, if_true, sequential_short comes.symm short]
        obtain ⟨left, whole, after⟩ := deliver_spec remains room
        refine ⟨⟨cleared.chunks, cleared.windows, cleared.limits, cleared.room, cleared.going,
          cleared.shut⟩, left, whole, after, fun _ none' => ?_⟩
        rw [show bytes = [] from taken none']
      · have remains : Remains peer chunkBytes limit
            { reader with requests := rest, current := bytes }
            (bytes ++ (sequential peer chunkBytes limit
              (base + min chunkBytes (limit - base))).1,
              (sequential peer chunkBytes limit (base + min chunkBytes (limit - base))).2) := by
          simp only [Remains, going, Bool.false_eq_true, if_false]
          exact ⟨_, tiled', rfl⟩
        simp only [Reader.settle, short, if_false, sequential_full positive comes.symm short]
        have fits := kept length.le
        obtain ⟨left, whole, after⟩ := deliver_spec remains room
        refine ⟨⟨fits.chunks, fits.windows, fits.limits, fits.room, fits.going, fits.shut⟩,
          left, whole, after, fun _ none' => ?_⟩
        rw [show bytes = [] from taken none'] at short
        exact (short positive).elim

/-- Every poll goes on as the sequential reader would, and asks for nothing
past the limit. -/
theorem poll_spec (bounded : Bounded chunkBytes window limit reader) (some' : 0 < window)
    (small : limit ≤ maxOffset) (remains : Remains peer chunkBytes limit reader left)
    (room : Nat) (arrived : Nat → Nat) :
    Bounded chunkBytes window limit (reader.poll peer room arrived).2.2 ∧
      (∀ read ∈ (reader.poll peer room arrived).2.1, read.1 + read.2 ≤ limit ∧ 0 < read.2) ∧
      Agrees peer chunkBytes limit room left (reader.poll peer room arrived).2.2
        (reader.poll peer room arrived).1 := by
  have nothing : ∀ read ∈ ([] : List Read), read.1 + read.2 ≤ limit ∧ 0 < read.2 := by simp
  by_cases full : room = 0
  · have polled : reader.poll peer room arrived = (.ready [], [], reader) := by
      simp [Reader.poll, full]
    rw [polled]
    exact ⟨bounded, nothing, left, rfl, remains, fun some'' => by omega⟩
  by_cases more : reader.current ≠ []
  · have polled : reader.poll peer room arrived =
        ((reader.deliver room).1, [], (reader.deliver room).2) := by
      simp [Reader.poll, full, more]
    rw [polled]
    obtain ⟨rest, whole, after⟩ := deliver_spec remains room
    refine ⟨⟨bounded.chunks, bounded.windows, bounded.limits, bounded.room, bounded.going,
      bounded.shut⟩, nothing, rest, whole, after, fun _ none' => ?_⟩
    exact absurd (by simpa [full] using none') more
  rw [ne_eq, not_not] at more
  cases eof : reader.eof with
  | true =>
    have polled : reader.poll peer room arrived = (.ready [], [], reader) := by
      simp [Reader.poll, full, more, eof]
    have done : left = ([], none) := by simpa [Remains, eof, more] using remains
    rw [polled]
    exact ⟨bounded, nothing, left, rfl, remains, fun _ _ => done⟩
  | false =>
    obtain ⟨base, tiled, rfl⟩ : ∃ base,
        Tiled peer chunkBytes limit reader.next base reader.requests ∧
          left = sequential peer chunkBytes limit base := by
      simpa [Remains, eof, more] using remains
    have dropped := bounded.going eof
    have fits : reader.requests.length ≤ window := by simpa [dropped] using bounded.room
    obtain ⟨filled, fills, bounded', tiled', current, going, empty, added, longer, -⟩ :=
      fill_spec bounded small tiled
        (show reader.requests.length + (window - reader.requests.length) ≤ window by omega) eof
    obtain ⟨polledTiled, length, within⟩ := tiled'.pollAll arrived
    have dropped' := bounded'.going going
    have fits' : filled.requests.length ≤ window := by simpa [dropped'] using bounded'.room
    have polled : reader.poll peer room arrived = filled.advance peer room arrived := by
      simp only [Reader.poll, full, more, eof, bounded.windows, fills, if_false, ne_eq,
        not_true_eq_false, Bool.false_eq_true]
    rw [polled, Reader.advance]
    generalize pollAll peer arrived filled.requests = all at polledTiled length within ⊢
    obtain ⟨requests, reads⟩ := all
    cases requests with
    | nil =>
      have none' : filled.requests = [] := List.length_eq_zero_iff.mp length.symm
      have done : sequential peer chunkBytes limit base = ([], none) := by
        obtain rfl : base = filled.next := polledTiled
        rcases empty none' with turns | size
        · have none'' : reader.requests = [] := by
            rw [none'] at longer
            exact (List.append_eq_nil_iff.mp longer.symm).1
          rw [none'', List.length_nil] at turns
          omega
        · exact sequential_end size
      rw [done]
      refine ⟨⟨bounded'.chunks, bounded'.windows, bounded'.limits, bounded'.room,
        fun open' => by simp at open', fun _ => none'⟩, nothing, ([], none), rfl, ?_, fun _ _ => rfl⟩
      simp [Remains, current.trans more]
    | cons front rest =>
      obtain ⟨bounded'', agrees⟩ := settle_spec bounded' going (current.trans more)
        (Nat.pos_of_ne_zero full) (by simp only [List.length_cons] at length; omega) polledTiled
      exact ⟨bounded'', within, agrees⟩

end McpSsh.Download
