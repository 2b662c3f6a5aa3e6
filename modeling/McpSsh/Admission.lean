import Mathlib.Data.List.Basic
import Mathlib.Logic.Relation

/-!
# Admission of control requests

`request_limits.rs`: what stands in front of the control route. A request holds
one permit from before its body is read until its response has been sent or
dropped, and one that polls holds a second, scarcer one once its body is known.

Requests come, go on, time out and are dropped in any order.
-/

namespace McpSsh.Admission

/-- `Limits`, but for the time a body may take. -/
structure Limits where
  inFlight : Nat
  pollsInFlight : Nat
  bodyBytes : Nat

/-- `Limits::default`. -/
def Limits.default : Limits := ⟨64, 32, 256 * 1024⟩

/-- What a body says it calls: the method, and the name in its parameters. -/
structure Call where
  method : String
  name : Option String

/-- How `serde_json` reads a body as a call, if it can. -/
abbrev Reads : Type := List UInt8 → Option Call

/-- `is_poll`. -/
def isPoll (reads : Reads) (body : List UInt8) : Bool :=
  (reads body).any (fun call => call.method = "tools/call" && call.name.any (· = "ssh_poll"))

inductive Refusal
  | capacity
  | unreadable
  | tooLarge
  | timedOut
  | polls
  deriving DecidableEq, Repr

def Refusal.status : Refusal → Nat
  | .capacity => 503
  | .unreadable => 400
  | .tooLarge => 413
  | .timedOut => 408
  | .polls => 503

def Refusal.message : Refusal → String
  | .capacity => "MCP request capacity reached"
  | .unreadable => "MCP request body was refused"
  | .tooLarge => "MCP request body was refused"
  | .timedOut => "MCP request body timed out"
  | .polls => "MCP polling capacity reached"

/-- Status and text together tell the client which refusal it is. -/
theorem Refusal.tells {first second : Refusal} (status : first.status = second.status)
    (message : first.message = second.message) : first = second := by
  cases first <;> cases second <;>
    first | rfl | exact absurd status (by decide) | exact absurd message (by decide)

/-! ## Bodies -/

/-- One turn of the loop of `collect`: the next chunk, or that it failed. -/
def take (limit : Nat) (bytes : List UInt8) : Option (List UInt8) → Except Refusal (List UInt8)
  | none => .error .unreadable
  | some chunk => if bytes.length + chunk.length ≤ limit then .ok (bytes ++ chunk) else .error .tooLarge

theorem take_error {limit : Nat} {bytes : List UInt8} {part : Option (List UInt8)} {refusal : Refusal}
    (unread : refusal ≠ .unreadable) (large : refusal ≠ .tooLarge) :
    take limit bytes part ≠ .error refusal := by
  intro took
  cases part with
  | none =>
    cases took
    exact unread rfl
  | some chunk =>
    simp only [take] at took
    split at took
    · cases took
    · cases took
      exact large rfl

/-- `collect`. -/
def collect (limit : Nat) (bytes : List UInt8) :
    List (Option (List UInt8)) → Except Refusal (List UInt8)
  | [] => .ok bytes
  | chunk :: chunks => (take limit bytes chunk).bind (collect limit · chunks)

theorem collect_append (limit : Nat) (bytes : List UInt8) (first rest : List (Option (List UInt8))) :
    collect limit bytes (first ++ rest) = (collect limit bytes first).bind (collect limit · rest) := by
  induction first generalizing bytes with
  | nil => rfl
  | cons chunk chunks ih =>
    rw [List.cons_append, collect, collect]
    cases take limit bytes chunk with
    | error error => rfl
    | ok bytes => exact ih bytes

/-- A body is what was sent of it, whole, if that was all sent well and is not
too long. -/
theorem collect_ok {limit : Nat} {bytes body : List UInt8} {chunks : List (Option (List UInt8))}
    (room : bytes.length ≤ limit) : collect limit bytes chunks = .ok body ↔
      ∃ parts : List (List UInt8), chunks = parts.map some ∧ body = bytes ++ parts.flatten ∧
        body.length ≤ limit := by
  induction chunks generalizing bytes with
  | nil =>
    constructor
    · intro is
      cases is
      exact ⟨[], rfl, (List.append_nil _).symm, room⟩
    · intro ⟨parts, none', is, _⟩
      rw [is, List.map_eq_nil_iff.mp none'.symm, List.flatten_nil, List.append_nil]
      rfl
  | cons chunk chunks ih =>
    cases chunk with
    | none =>
      constructor
      · intro is
        cases is
      · intro ⟨parts, same, _⟩
        cases parts <;> cases same
    | some chunk =>
      rw [collect, take]
      split
      · rename_i fits
        refine (ih (by rwa [List.length_append])).trans ⟨?_, ?_⟩
        · intro ⟨parts, same, is, le⟩
          subst same
          exact ⟨chunk :: parts, rfl, by rw [is, List.flatten_cons, List.append_assoc], le⟩
        · intro ⟨parts, same, is, le⟩
          cases parts with
          | nil => cases same
          | cons part parts =>
            cases same
            exact ⟨parts, rfl, by rw [is, List.flatten_cons, List.append_assoc], le⟩
      · rename_i long
        constructor
        · intro is
          cases is
        · intro ⟨parts, same, is, le⟩
          cases parts with
          | nil => cases same
          | cons part parts =>
            cases same
            rw [is, List.flatten_cons, List.length_append, List.length_append] at le
            omega

/-! ## Requests -/

/-- How a request ended. -/
inductive Ending
  | refused (refusal : Refusal)
  | answered
  | dropped
  deriving DecidableEq, Repr

/-- Where a request is: its body is read, its handler runs, or what the handler
answered is sent. -/
inductive Phase
  | reading (bytes : List UInt8)
  | running (body : List UInt8) (poll : Bool)
  | sending (body : List UInt8) (poll : Bool)
  | ended (ending : Ending)
  deriving DecidableEq, Repr

/-- A request and what has come of its body. -/
structure Request where
  chunks : List (Option (List UInt8))
  phase : Phase
  deriving DecidableEq, Repr

/-- Whether a request holds a permit of the capacity. -/
def Request.inFlight (request : Request) : Bool :=
  match request.phase with
  | .ended _ => false
  | _ => true

/-- Whether it holds one of the permits to poll. -/
def Request.polls (request : Request) : Bool :=
  match request.phase with
  | .running _ poll => poll
  | .sending _ poll => poll
  | _ => false

/-- Whether it was turned away for want of a permit. -/
def Request.turnedAway (request : Request) : Bool :=
  request.phase = .ended (.refused .capacity) || request.phase = .ended (.refused .polls)

theorem Request.turnedAway_iff (chunks : List (Option (List UInt8))) (refusal : Refusal) :
    (⟨chunks, .ended (.refused refusal)⟩ : Request).turnedAway = true ↔ refusal.status = 503 := by
  cases refusal with
  | capacity | polls => exact iff_of_true rfl rfl
  | unreadable | tooLarge | timedOut => exact iff_of_false Bool.false_ne_true (by decide)

/-- The permits that are free, how many requests were counted as turned away,
and every request there has been. -/
structure System where
  capacity : Nat
  polls : Nat
  refused : Nat
  requests : List Request

def System.new (limits : Limits) : System := ⟨limits.inFlight, limits.pollsInFlight, 0, []⟩

/-- A request comes, or something happens to one: a chunk of its body or a
failure to read it, the end of its body, its deadline, its handler's answer, the
end of the response, or its connection going away. -/
inductive Move
  | arrive
  | chunk (id : Nat) (part : Option (List UInt8))
  | whole (id : Nat)
  | timeout (id : Nat)
  | respond (id : Nat)
  | finish (id : Nat)
  | drop (id : Nat)

namespace System

/-- A request that goes on. -/
def goOn (system : System) (id : Nat) (request : Request) : System :=
  { system with requests := system.requests.set id request }

/-- A request that is over gives back what it held. -/
def letGo (system : System) (id : Nat) (request : Request) (ending : Ending) : System :=
  { system with
    capacity := system.capacity + 1
    polls := system.polls + request.polls.toNat
    requests := system.requests.set id { request with phase := .ended ending } }

/-- `admit`, one await at a time. -/
def move (limits : Limits) (reads : Reads) (system : System) : Move → Option System
  | .arrive =>
    if 0 < system.capacity then
      some { system with
        capacity := system.capacity - 1
        requests := system.requests ++ [⟨[], .reading []⟩] }
    else
      some { system with
        refused := system.refused + 1
        requests := system.requests ++ [⟨[], .ended (.refused .capacity)⟩] }
  | .chunk id part =>
    match system.requests[id]? with
    | some ⟨chunks, .reading bytes⟩ =>
      match take limits.bodyBytes bytes part with
      | .ok bytes => some (system.goOn id ⟨chunks ++ [part], .reading bytes⟩)
      | .error refusal =>
        some (system.letGo id ⟨chunks ++ [part], .reading bytes⟩ (.refused refusal))
    | _ => none
  | .whole id =>
    match system.requests[id]? with
    | some ⟨chunks, .reading body⟩ =>
      if isPoll reads body then
        if 0 < system.polls then
          some { system.goOn id ⟨chunks, .running body true⟩ with polls := system.polls - 1 }
        else
          some { system.letGo id ⟨chunks, .reading body⟩ (.refused .polls) with
            refused := system.refused + 1 }
      else some (system.goOn id ⟨chunks, .running body false⟩)
    | _ => none
  | .timeout id =>
    match system.requests[id]? with
    | some ⟨chunks, .reading bytes⟩ =>
      some (system.letGo id ⟨chunks, .reading bytes⟩ (.refused .timedOut))
    | _ => none
  | .respond id =>
    match system.requests[id]? with
    | some ⟨chunks, .running body poll⟩ => some (system.goOn id ⟨chunks, .sending body poll⟩)
    | _ => none
  | .finish id =>
    match system.requests[id]? with
    | some ⟨chunks, .sending body poll⟩ =>
      some (system.letGo id ⟨chunks, .sending body poll⟩ .answered)
    | _ => none
  | .drop id =>
    match system.requests[id]? with
    | some request => if request.inFlight then some (system.letGo id request .dropped) else none
    | none => none

/-- What any order of moves can come to. -/
def Reachable (limits : Limits) (reads : Reads) : System → Prop :=
  Relation.ReflTransGen (fun before after => ∃ move, before.move limits reads move = some after)
    (System.new limits)

end System

/-! ## What every move keeps -/

section
variable (limits : Limits) (reads : Reads)

/-- A request's phase is what has come of its body: its handler was given all of
it and nothing else, and it polls if that does. -/
def Request.Ok (request : Request) : Prop :=
  match request.phase with
  | .reading bytes => collect limits.bodyBytes [] request.chunks = .ok bytes
  | .running body poll => collect limits.bodyBytes [] request.chunks = .ok body ∧ poll = isPoll reads body
  | .sending body poll => collect limits.bodyBytes [] request.chunks = .ok body ∧ poll = isPoll reads body
  | .ended (.refused .capacity) => request.chunks = []
  | .ended (.refused .unreadable) => collect limits.bodyBytes [] request.chunks = .error .unreadable
  | .ended (.refused .tooLarge) => collect limits.bodyBytes [] request.chunks = .error .tooLarge
  | .ended (.refused .polls) => ∃ body, collect limits.bodyBytes [] request.chunks = .ok body ∧
      isPoll reads body = true
  | .ended _ => True

/-- Permits are free or held, requests turned away are counted, and every
request is what came of it. -/
structure System.Kept (system : System) : Prop where
  capacity : system.capacity + system.requests.countP (·.inFlight) = limits.inFlight
  polls : system.polls + system.requests.countP (·.polls) = limits.pollsInFlight
  refused : system.refused = system.requests.countP (·.turnedAway)
  ok : ∀ request ∈ system.requests, request.Ok limits reads

end

variable {limits : Limits} {reads : Reads} {system after : System}

theorem System.Kept.new : (System.new limits).Kept limits reads :=
  ⟨rfl, rfl, rfl, fun _ member => by cases member⟩

/-- Replacing one request changes a count by that request alone. -/
theorem countP_set {requests : List Request} {id : Nat} {old : Request} (new : Request)
    (holds : Request → Bool) (found : requests[id]? = some old) :
    (requests.set id new).countP holds + (holds old).toNat = requests.countP holds + (holds new).toNat := by
  obtain ⟨within, is⟩ := List.getElem?_eq_some_iff.mp found
  have has : (holds old).toNat ≤ requests.countP holds := by
    cases kind : holds old with
    | false => exact Nat.zero_le _
    | true => exact List.countP_pos_iff.mpr ⟨old, List.mem_of_getElem? found, kind⟩
  rw [List.countP_set within, is]
  cases old' : holds old <;> cases new' : holds new <;> simp_all

/-- A request that goes on keeps its permits, and takes the second one if it
turns out to poll. -/
theorem System.Kept.goOn (kept : system.Kept limits reads) {id : Nat} {old : Request} (new : Request)
    (found : system.requests[id]? = some old) (flies : old.inFlight = new.inFlight)
    (turned : old.turnedAway = new.turnedAway) (ok : new.Ok limits reads) {polls : Nat}
    (taken : polls + new.polls.toNat = system.polls + old.polls.toNat) :
    ({ system.goOn id new with polls } : System).Kept limits reads where
  capacity := by
    have count := countP_set new (·.inFlight) found
    have capacity := kept.capacity
    simp only [flies] at count
    simp only [System.goOn]
    omega
  polls := by
    have count := countP_set new (·.polls) found
    have free := kept.polls
    simp only [System.goOn]
    omega
  refused := by
    have count := countP_set new (·.turnedAway) found
    have refused := kept.refused
    simp only [turned] at count
    simp only [System.goOn]
    omega
  ok := by
    intro request member
    rcases List.mem_or_eq_of_mem_set member with before | rfl
    · exact kept.ok request before
    · exact ok

@[simp] theorem Request.ended_inFlight (chunks : List (Option (List UInt8))) (ending : Ending) :
    (⟨chunks, .ended ending⟩ : Request).inFlight = false := rfl

@[simp] theorem Request.ended_polls (chunks : List (Option (List UInt8))) (ending : Ending) :
    (⟨chunks, .ended ending⟩ : Request).polls = false := rfl

theorem Request.turnedAway_of_inFlight {request : Request} (flies : request.inFlight = true) :
    request.turnedAway = false := by
  obtain ⟨chunks, phase⟩ := request
  cases phase with
  | ended => cases flies
  | _ => rfl

/-- A request that ends gives back what it held, and is counted if it was turned
away. -/
theorem System.Kept.letGo (kept : system.Kept limits reads) {id : Nat}
    {before : List (Option (List UInt8))} (request : Request) (ending : Ending)
    (found : system.requests[id]? = some ⟨before, request.phase⟩) (flies : request.inFlight = true)
    (ok : (⟨request.chunks, .ended ending⟩ : Request).Ok limits reads) {refused : Nat}
    (counts : refused = system.refused +
      (⟨request.chunks, .ended ending⟩ : Request).turnedAway.toNat) :
    ({ system.letGo id request ending with refused } : System).Kept limits reads where
  capacity := by
    have count := countP_set ⟨request.chunks, .ended ending⟩ (·.inFlight) found
    have capacity := kept.capacity
    have flew : (⟨before, request.phase⟩ : Request).inFlight = true := flies
    simp only [flew, Request.ended_inFlight, Bool.toNat_true, Bool.toNat_false] at count
    simp only [System.letGo]
    omega
  polls := by
    have count := countP_set ⟨request.chunks, .ended ending⟩ (·.polls) found
    have free := kept.polls
    have held : (⟨before, request.phase⟩ : Request).polls = request.polls := rfl
    simp only [held, Request.ended_polls, Bool.toNat_false] at count
    simp only [System.letGo]
    omega
  refused := by
    have count := countP_set ⟨request.chunks, .ended ending⟩ (·.turnedAway) found
    have before' := kept.refused
    have flew : (⟨before, request.phase⟩ : Request).turnedAway = false :=
      Request.turnedAway_of_inFlight flies
    simp only [flew, Bool.toNat_false] at count
    simp only [System.letGo]
    omega
  ok := by
    intro other member
    rcases List.mem_or_eq_of_mem_set member with old | rfl
    · exact kept.ok other old
    · exact ok

/-- A request that comes. -/
theorem System.Kept.arrive (kept : system.Kept limits reads)
    (moved : system.move limits reads .arrive = some after) : after.Kept limits reads := by
  obtain ⟨capacity, polls, refused, ok⟩ := kept
  simp only [System.move] at moved
  split at moved
  · cases moved
    refine ⟨?_, ?_, ?_, fun request member => ?_⟩
    · have one : ([⟨[], .reading []⟩] : List Request).countP (·.inFlight) = 1 := rfl
      rw [List.countP_append, one]
      simp only
      omega
    · rw [List.countP_append]
      exact polls
    · rw [List.countP_append]
      exact refused
    · rcases List.mem_append.mp member with old | new
      · exact ok request old
      · obtain rfl := List.mem_singleton.mp new
        exact rfl
  · cases moved
    refine ⟨?_, ?_, ?_, fun request member => ?_⟩
    · rw [List.countP_append]
      exact capacity
    · rw [List.countP_append]
      exact polls
    · rw [List.countP_append, ← refused]
      rfl
    · rcases List.mem_append.mp member with old | new
      · exact ok request old
      · obtain rfl := List.mem_singleton.mp new
        exact rfl

/-- **Every move keeps the accounts.** -/
theorem System.Kept.move (kept : system.Kept limits reads) {move : Move}
    (moved : system.move limits reads move = some after) : after.Kept limits reads := by
  cases move with
  | arrive => exact kept.arrive moved
  | chunk id part =>
    simp only [System.move] at moved
    split at moved
    · rename_i chunks bytes found
      have so := kept.ok _ (List.mem_of_getElem? found)
      have next : collect limits.bodyBytes [] (chunks ++ [part]) =
          (take limits.bodyBytes bytes part).bind (collect limits.bodyBytes · []) := by
        rw [collect_append, so]
        rfl
      split at moved
      · rename_i bytes' took
        cases moved
        exact kept.goOn ⟨chunks ++ [part], .reading bytes'⟩ found rfl rfl (next.trans (by rw [took]; rfl)) rfl
      · rename_i refusal took
        cases moved
        rw [took] at next
        cases refusal with
        | unreadable => exact kept.letGo ⟨chunks ++ [part], .reading bytes⟩ (.refused .unreadable) found rfl next rfl
        | tooLarge => exact kept.letGo ⟨chunks ++ [part], .reading bytes⟩ (.refused .tooLarge) found rfl next rfl
        | _ => exact absurd took (take_error (by decide) (by decide))
    · cases moved
  | whole id =>
    simp only [System.move] at moved
    split at moved
    · rename_i chunks body found
      have so := kept.ok _ (List.mem_of_getElem? found)
      split at moved
      · rename_i polls
        split at moved
        · cases moved
          refine kept.goOn ⟨chunks, .running body true⟩ found rfl rfl ⟨so, polls.symm⟩ ?_
          simp only [Request.polls, Bool.toNat_true, Bool.toNat_false]
          omega
        · cases moved
          exact kept.letGo ⟨chunks, .reading body⟩ (.refused .polls) found rfl ⟨body, so, polls⟩ rfl
      · rename_i other
        cases moved
        exact kept.goOn ⟨chunks, .running body false⟩ found rfl rfl
          ⟨so, (Bool.eq_false_iff.mpr other).symm⟩ rfl
    · cases moved
  | timeout id =>
    simp only [System.move] at moved
    split at moved
    · rename_i chunks bytes found
      cases moved
      exact kept.letGo ⟨chunks, .reading bytes⟩ (.refused .timedOut) found rfl trivial rfl
    · cases moved
  | respond id =>
    simp only [System.move] at moved
    split at moved
    · rename_i chunks body poll found
      have so := kept.ok _ (List.mem_of_getElem? found)
      cases moved
      exact kept.goOn ⟨chunks, .sending body poll⟩ found rfl rfl so rfl
    · cases moved
  | finish id =>
    simp only [System.move] at moved
    split at moved
    · rename_i chunks body poll found
      cases moved
      exact kept.letGo ⟨chunks, .sending body poll⟩ .answered found rfl trivial rfl
    · cases moved
  | drop id =>
    simp only [System.move] at moved
    split at moved
    · rename_i request found
      split at moved
      · rename_i flies
        cases moved
        exact kept.letGo request .dropped found flies trivial rfl
      · cases moved
    · cases moved

theorem System.Reachable.kept (reached : System.Reachable limits reads system) :
    system.Kept limits reads := by
  induction reached with
  | refl => exact .new
  | tail _ step ih =>
    obtain ⟨move, moved⟩ := step
    exact ih.move moved

/-! ## Admission -/

/-- What a request's handler was given, once it has one. -/
def Request.handed (request : Request) : Option (List UInt8 × Bool) :=
  match request.phase with
  | .running body poll => some (body, poll)
  | .sending body poll => some (body, poll)
  | _ => none

/-- A request in flight polls or does not. -/
theorem countP_others (requests : List Request) :
    requests.countP (·.inFlight) =
      requests.countP (·.polls) + requests.countP (fun request => request.inFlight && !request.polls) := by
  induction requests with
  | nil => rfl
  | cons request rest ih =>
    obtain ⟨chunks, phase⟩ := request
    simp only [List.countP_cons, ih]
    cases phase with
    | ended => simp [Request.inFlight, Request.polls]
    | reading =>
      simp only [Request.inFlight, Request.polls]
      simp
      omega
    | running body poll | sending body poll =>
      simp only [Request.inFlight, Request.polls]
      cases poll <;> simp <;> omega

/-- **What is admitted is accounted for.** However requests come, are read, time
out, answer and are dropped: no more are in flight than may be, and no more
polls; permits not held are free; those turned away for want of one are counted,
and no other refusal is; and a handler is given the whole of what was sent, which
is no longer than a body may be. As long as the requests that do not poll leave
room for every poll there may be, a new one is admitted. -/
theorem admitted (reached : System.Reachable limits reads system) :
    system.capacity + system.requests.countP (·.inFlight) = limits.inFlight ∧
    system.polls + system.requests.countP (·.polls) = limits.pollsInFlight ∧
    system.refused = system.requests.countP (·.turnedAway) ∧
    (∀ request ∈ system.requests, ∀ refusal, request.phase = .ended (.refused refusal) →
      (request.turnedAway = true ↔ refusal.status = 503)) ∧
    (∀ request ∈ system.requests, ∀ body poll, request.handed = some (body, poll) →
      poll = isPoll reads body ∧ body.length ≤ limits.bodyBytes ∧
        ∃ parts : List (List UInt8), request.chunks = parts.map some ∧ body = parts.flatten) ∧
    (system.requests.countP (fun request => request.inFlight && !request.polls) + limits.pollsInFlight <
        limits.inFlight →
      ∃ after, system.move limits reads .arrive = some after ∧
        after.requests = system.requests ++ [⟨[], .reading []⟩]) := by
  have kept := reached.kept
  refine ⟨kept.capacity, kept.polls, kept.refused, fun request _ refusal ended => ?_,
    fun request member body poll handed => ?_, fun room => ?_⟩
  · obtain ⟨chunks, phase⟩ := request
    cases ended
    exact Request.turnedAway_iff chunks refusal
  · have given : collect limits.bodyBytes [] request.chunks = .ok body ∧ poll = isPoll reads body := by
      have ok := kept.ok request member
      obtain ⟨chunks, phase⟩ := request
      cases phase with
      | running | sending =>
        cases handed
        exact ok
      | _ => cases handed
    obtain ⟨parts, same, is, le⟩ := (collect_ok (Nat.zero_le _)).mp given.1
    exact ⟨given.2, le, parts, same, is⟩
  · have held := kept.capacity
    have polls := kept.polls
    rw [countP_others] at held
    have free : 0 < system.capacity := by omega
    exact ⟨_, if_pos free, rfl⟩

/-- Reads a body as a poll if it is one byte long. -/
def Sample.poll : Reads := fun body =>
  if body.length = 1 then some ⟨"tools/call", some "ssh_poll"⟩ else none

/-- One request, which polls, and one whose body could not be read. -/
def Sample.polling : System where
  capacity := 63
  polls := 31
  refused := 0
  requests := [⟨[some [7]], .running [7] true⟩, ⟨[none], .ended (.refused .unreadable)⟩]

/-- While the first does, another is admitted; the other is not counted. -/
theorem admitted_polling :
    Sample.polling.refused = Sample.polling.requests.countP (·.turnedAway) ∧
    ∃ after, Sample.polling.move .default Sample.poll .arrive = some after ∧
      after.requests = Sample.polling.requests ++ [⟨[], .reading []⟩] := by
  have polls : System.Reachable .default Sample.poll
      ⟨63, 31, 0, [⟨[some [7]], .running [7] true⟩]⟩ :=
    .tail (.tail (.tail .refl ⟨.arrive, rfl⟩) ⟨.chunk 0 (some [7]), rfl⟩) ⟨.whole 0, by rfl⟩
  have reached : System.Reachable .default Sample.poll Sample.polling :=
    (polls.tail ⟨.arrive, rfl⟩).tail ⟨.chunk 1 none, rfl⟩
  obtain ⟨-, -, counted, -, -, admits⟩ := admitted reached
  exact ⟨counted, admits (by decide)⟩

end McpSsh.Admission
