import Mathlib.Data.List.Basic
import Mathlib.Algebra.Group.Nat.Defs

/-!
# The download reader

`files/download.rs`: ordered, bounded reads over the SFTP request interface,
with several requests in flight. The peer is a function of what it is asked. A
poll is given the number of replies that have come in by then for each request
in the queue, so any order and any timing of the replies is some sequence of
polls.
-/

namespace McpSsh.Download

/-- `CHUNK_BYTES`. -/
def chunkBytesMax : Nat := 64 * 1024

/-- `DownloadWindow::MAX_REQUESTS`. -/
def maxRequests : Nat := 64

/-- The largest offset a `u64` can name. -/
def maxOffset : Nat := 2 ^ 64 - 1

inductive ErrorKind
  | invalidInput
  | invalidData
  | other
  deriving DecidableEq, Repr

structure IoError where
  kind : ErrorKind
  message : String
  deriving DecidableEq, Repr

def IoError.invalidBudget : IoError := ⟨.invalidInput, "invalid SFTP read budget"⟩

def IoError.offsetOverflow : IoError := ⟨.invalidData, "SFTP offset overflow"⟩

def IoError.invalidLength : IoError := ⟨.invalidData, "invalid SFTP data length"⟩

def IoError.readFailed : IoError := ⟨.other, "SFTP read failed"⟩

/-- What the peer answers a read with: data, the end-of-file status, or any
other status or failure. -/
inductive Reply
  | data (bytes : List UInt8)
  | eof
  | failed
  deriving DecidableEq, Repr

/-- What the peer answers a read of so many bytes at an offset with. -/
abbrev Peer := Nat → Nat → Reply

/-- A read on the wire: its offset and length. -/
abbrev Read := Nat × Nat

/-- `read_chunk` while it runs: what it has gathered, and whether its next read
is on the wire already. -/
structure Chunk where
  offset : Nat
  size : Nat
  bytes : List UInt8
  waiting : Bool
  deriving DecidableEq, Repr

inductive Progress
  | pending (chunk : Chunk)
  | done (result : Except IoError (List UInt8))

namespace Chunk

def start (offset size : Nat) : Chunk := ⟨offset, size, [], false⟩

def position (chunk : Chunk) : Nat := chunk.offset + chunk.bytes.length

def remaining (chunk : Chunk) : Nat := chunk.size - chunk.bytes.length

/-- One turn of the loop in `read_chunk`, once its read is answered. -/
def answer (chunk : Chunk) : Reply → Progress
  | .data data =>
    if data.isEmpty || chunk.remaining < data.length then .done (.error .invalidLength)
    else if (chunk.bytes ++ data).length < chunk.size then
      .pending { chunk with bytes := chunk.bytes ++ data, waiting := false }
    else .done (.ok (chunk.bytes ++ data))
  | .eof => .done (.ok chunk.bytes)
  | .failed => .done (.error .readFailed)

/-- The read that goes out next, unless it is out already. -/
def asks (chunk : Chunk) : List Read :=
  if chunk.waiting then [] else [(chunk.position, chunk.remaining)]

/-- Polls the future when so many further replies to it have come in, and tells
which reads it puts on the wire. -/
def poll (peer : Peer) (arrived : Nat) (chunk : Chunk) : Progress × List Read :=
  if maxOffset < chunk.position then (.done (.error .offsetOverflow), [])
  else
    match arrived with
    | 0 => (.pending { chunk with waiting := true }, chunk.asks)
    | arrived + 1 =>
      match chunk.answer (peer chunk.position chunk.remaining) with
      | .done result => (.done result, chunk.asks)
      | .pending next => ((poll peer arrived next).1, chunk.asks ++ (poll peer arrived next).2)

end Chunk

/-- A request in the queue. The source has its future until that is done, and
its result from then on. -/
structure Request where
  size : Nat
  state : Progress

def Request.poll (peer : Peer) (arrived : Nat) (request : Request) : Request × List Read :=
  match request.state with
  | .done _ => (request, [])
  | .pending chunk =>
    ({ request with state := (chunk.poll peer arrived).1 }, (chunk.poll peer arrived).2)

/-- Whether the peer has a read of this request to answer. -/
def Request.outstanding (request : Request) : Bool :=
  match request.state with
  | .pending chunk => chunk.waiting
  | .done _ => false

/-- Polls every request, so that later offsets can cross the wire before the
first reply. -/
def pollAll (peer : Peer) : (Nat → Nat) → List Request → List Request × List Read
  | _, [] => ([], [])
  | arrived, request :: rest =>
    let first := request.poll peer (arrived 0)
    let others := pollAll peer (fun i => arrived (i + 1)) rest
    (first.1 :: others.1, first.2 ++ others.2)

/-- The reader. `current` is what is left of the chunk being delivered;
`dropped` is not in the source, and keeps the requests that `clear` dropped,
since the peer may still have their reads to answer. -/
structure Reader where
  chunkBytes : Nat
  window : Nat
  next : Nat
  limit : Nat
  requests : List Request
  current : List UInt8
  eof : Bool
  dropped : List Request

/-- What `poll_read` comes back with. -/
inductive Polled
  | pending
  | ready (bytes : List UInt8)
  | failed (error : IoError)
  deriving DecidableEq, Repr

namespace Reader

/-- `Reader::new`. -/
def new (chunkBytes window : Nat) : Except IoError Reader :=
  if chunkBytes = 0 ∨ chunkBytesMax < chunkBytes ∨ window = 0 ∨ maxRequests < window then
    .error .invalidBudget
  else .ok ⟨chunkBytes, window, 0, maxOffset, [], [], false, []⟩

/-- `Reader::bounded`. -/
def bounded (reader : Reader) (bytes : UInt64) : Reader := { reader with limit := bytes.toNat }

/-- How much the request at an offset asks for. -/
def sizeAt (reader : Reader) (offset : Nat) : Nat :=
  min reader.chunkBytes (reader.limit - offset)

/-- Fills the queue: so many turns of the loop are left. -/
def fill : Nat → Reader → Option IoError × Reader
  | 0, reader => (none, reader)
  | turns + 1, reader =>
    let offset := reader.next
    let size := reader.sizeAt offset
    if size = 0 then (none, reader)
    else if maxOffset < offset + size then (some .offsetOverflow, reader)
    else fill turns { reader with
      next := offset + size
      requests := reader.requests ++ [⟨size, .pending (Chunk.start offset size)⟩] }

/-- `Cursor::poll_read`. -/
def deliver (reader : Reader) (room : Nat) : Polled × Reader :=
  (.ready (reader.current.take room), { reader with current := reader.current.drop room })

/-- Nothing more will be asked for. -/
def clear (reader : Reader) (rest : List Request) : Reader :=
  { reader with eof := true, requests := [], dropped := rest }

/-- Delivery consumes only the oldest request, once that is done. -/
def settle (reader : Reader) (room : Nat) (front : Request) (rest : List Request) :
    Polled × Reader :=
  match front.state with
  | .pending _ => (.pending, { reader with requests := front :: rest })
  | .done (.ok bytes) =>
    let left := if bytes.length < front.size then reader.clear rest
      else { reader with requests := rest }
    { left with current := bytes }.deliver room
  | .done (.error error) => (.failed error, reader.clear rest)

/-- Polls what is in the queue, and delivers from its front. -/
def advance (peer : Peer) (room : Nat) (arrived : Nat → Nat) (reader : Reader) :
    Polled × List Read × Reader :=
  match pollAll peer arrived reader.requests with
  | ([], _) => (.ready [], [], { reader with eof := true })
  | (front :: rest, reads) =>
    ((reader.settle room front rest).1, reads, (reader.settle room front rest).2)

/-- `poll_read` into so much room, and the reads it puts on the wire. -/
def poll (peer : Peer) (room : Nat) (arrived : Nat → Nat) (reader : Reader) :
    Polled × List Read × Reader :=
  if room = 0 then (.ready [], [], reader)
  else if reader.current ≠ [] then
    ((reader.deliver room).1, [], (reader.deliver room).2)
  else if reader.eof then (.ready [], [], reader)
  else
    match reader.fill (reader.window - reader.requests.length) with
    | (some error, reader) => (.failed error, [], reader)
    | (none, reader) => reader.advance peer room arrived

end Reader

/-! ## Reading to the end -/

/-- One call of `poll_read`: the room in its buffer, and the replies that have
come in by then for each request. -/
structure Call where
  room : Nat
  arrived : Nat → Nat

/-- A consumer of the reader: what it was handed, how it ended, and every read
that went out meanwhile. -/
structure Reading where
  reader : Reader
  delivered : List UInt8
  reads : List Read
  ended : Option (Option IoError)

namespace Reading

def start (reader : Reader) : Reading := ⟨reader, [], [], none⟩

/-- A consumer stops at an error, and at an empty read into room it had. -/
def poll (peer : Peer) (reading : Reading) (call : Call) : Reading :=
  if reading.ended.isSome then reading
  else
    match reading.reader.poll peer call.room call.arrived with
    | (.pending, reads, reader) => { reading with reader, reads := reading.reads ++ reads }
    | (.ready bytes, reads, reader) =>
      { reader
        delivered := reading.delivered ++ bytes
        reads := reading.reads ++ reads
        ended := if bytes = [] ∧ 0 < call.room then some none else none }
    | (.failed error, reads, reader) =>
      { reading with reader, reads := reading.reads ++ reads, ended := some (some error) }

def run (peer : Peer) (reading : Reading) (calls : List Call) : Reading :=
  calls.foldl (poll peer) reading

end Reading

end McpSsh.Download
