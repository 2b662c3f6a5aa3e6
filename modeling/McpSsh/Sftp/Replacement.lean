import McpSsh.Sftp.Staged

/-!
# What a staged replacement leaves

Wherever an upload is cut and whatever the peer answers, the destination is what
it was, or the rename was sent; and by then the stage held the whole input and
was closed. What the run reports says no less than that.
-/

namespace McpSsh.Sftp

open Interleaving

/-- Whether a request is the rename. -/
def Request.renames : Request → Bool
  | .posixRename .. => true
  | _ => false

namespace Staged

section

variable {path stage : RemotePath} {files : String → Option (List UInt8)} {bytes content : List UInt8}
  {world : World} {handle : String} {α : Type}

/-- A rename that was sent when the stage held the whole input and was closed. -/
structure Timely (path stage : RemotePath) (bytes : List UInt8) (sent : Sent) : Prop where
  request : sent.request = .posixRename stage.raw path.raw
  written : sent.before.files stage.raw = some bytes
  closed : sent.before.handles = []

/-- The peer before the stage is created. -/
structure Untouched (files : String → Option (List UInt8)) (bytes : List UInt8) (world : World) :
    Prop where
  same : world.remote.files = files
  closed : world.remote.handles = []
  whole : world.input = bytes
  unsent : ∀ sent ∈ world.sent, sent.request.renames = false
  unflagged : world.replacement = false

/-- The peer while the stage is the upload's own: it was created where there was
nothing, nothing else has changed, and a rename that was sent was refused. -/
structure Staging (path stage : RemotePath) (files : String → Option (List UInt8))
    (bytes content : List UInt8) (world : World) : Prop where
  fresh : files stage.raw = none
  same : world.remote.files = Function.update files stage.raw (some content)
  refused : ∀ sent ∈ world.sent, sent.request.renames = true →
    Timely path stage bytes sent ∧ sent.reply.refuses = true
  unflagged : world.replacement = false

/-- What holds when the upload is over or was cut, with the answer it gave. -/
structure Truthful (path stage : RemotePath) (files : String → Option (List UInt8))
    (bytes : List UInt8) (answer : Option (Except Failure Unit)) (world : World) : Prop where
  kept : ∀ content, files stage.raw = some content → world.remote.files stage.raw = some content
  destination : world.remote.files path.raw = files path.raw ∨
    (∃ sent ∈ world.sent, sent.request.renames = true) ∧ world.remote.files path.raw = some bytes
  timely : ∀ sent ∈ world.sent, sent.request.renames = true → Timely path stage bytes sent
  confirmed : answer = some (.ok ()) →
    ∃ sent ∈ world.sent, sent.request.renames = true ∧ sent.reply = .status .ok
  unknown : (∃ sent ∈ world.sent, sent.request.renames = true ∧ sent.reply.refuses = false) →
    world.replacement = true
  clean : answer = some (.error .unsupportedOperation) → world.remote.files = files

/-! ## Steps -/

theorem ensures_ask {holds : Option α → World → Prop} {request : Request} {next : Reply → Prog α}
    (cut : holds none world)
    (rest : ∀ took reply, world.remote.honours request took reply = true →
      (next reply).Ensures Step.run holds (world.ask request took reply)) :
    (ask request >>= next).Ensures Step.run holds world := by
  refine ⟨cut, ?_⟩
  intro choice answer after moved
  change (if world.remote.honours request choice.took choice.reply then _ else none) = _ at moved
  split at moved
  case isFalse => cases moved
  case isTrue honest =>
    cases moved
    exact rest _ _ honest

theorem ensures_store {holds : Option α → World → Prop} {attempted : Bool} {next : Unit → Prog α}
    (cut : holds none world)
    (rest : (next ()).Ensures Step.run holds { world with replacement := attempted }) :
    (Program.step (Step.store attempted) >>= next).Ensures Step.run holds world := by
  refine ⟨cut, ?_⟩
  intro choice answer after moved
  cases moved
  exact rest

/-- A read brings some of the input, fails, or finds its end. -/
theorem ensures_read {holds : Option α → World → Prop} {room : Nat}
    {next : Option (List UInt8) → Prog α} (cut : holds none world)
    (failed : (next none).Ensures Step.run holds world)
    (rest : ∀ data input, world.input = data ++ input → (0 < room → data = [] → world.input = []) →
      (next (some data)).Ensures Step.run holds { world with input }) :
    (Program.step (Step.read room) >>= next).Ensures Step.run holds world := by
  refine ⟨cut, ?_⟩
  intro choice answer after moved
  change (if choice.fails then _ else _) = _ at moved
  split at moved
  case isTrue =>
    cases moved
    exact failed
  case isFalse =>
    cases moved
    apply rest _ _ (List.take_append_drop _ _).symm
    intro roomy empty
    rcases List.take_eq_nil_iff.mp empty with none | done
    · omega
    · exact done

theorem ensures_pure {holds : Option α → World → Prop} {value : α} (cut : holds none world)
    (done : holds (some value) world) :
    (pure value : Prog α).Ensures Step.run holds world := ⟨cut, done⟩

/-- What is refused was not done. -/
theorem honours_refused {remote : Remote} {request : Request} {took : Bool} {reply : Reply}
    (honest : remote.honours request took reply = true) (refused : reply.refuses = true) :
    took = false := by
  unfold Remote.honours at honest
  rw [refused] at honest
  cases took with
  | true => cases honest
  | false => rfl

/-- What is confirmed was. -/
theorem honours_confirmed {remote : Remote} {request : Request} {took : Bool} {reply : Reply}
    (honest : remote.honours request took reply = true)
    (confirmed : request.confirmed reply = true) : took = true := by
  unfold Remote.honours at honest
  rw [confirmed] at honest
  cases took with
  | true => rfl
  | false => simp at honest

/-- An exclusive creation creates. -/
theorem honours_exclusive {remote : Remote} {name : String} {took : Bool} {reply : Reply}
    (honest : remote.honours (.openExclusive name) took reply = true) (did : took = true) :
    remote.files name = none := by
  unfold Remote.honours at honest
  rw [did] at honest
  simp only [Bool.not_true, Bool.or_false, Bool.or_true, Bool.and_true, Bool.false_or,
    Bool.and_eq_true] at honest
  exact Option.isNone_iff_eq_none.mp honest.2

/-! ## What stays true -/

/-- A request that looks and changes nothing. -/
def Looks (request : Request) : Prop :=
  ∀ (remote : Remote) reply, remote.effect reply request = remote

theorem Untouched.ask (before : Untouched files bytes world) {request : Request} (took : Bool)
    (reply : Reply) (looks : Looks request) (other : request.renames = false) :
    Untouched files bytes (world.ask request took reply) := by
  have remote : (world.ask request took reply).remote = world.remote := by
    unfold World.ask
    cases took with
    | true => exact looks _ _
    | false => rfl
  constructor
  case same => rw [remote, before.same]
  case closed => rw [remote, before.closed]
  case whole => exact before.whole
  case unsent =>
    intro sent listed
    rcases List.mem_cons.mp listed with rfl | listed
    · exact other
    · exact before.unsent sent listed
  case unflagged => exact before.unflagged

/-- As long as nothing was created, any failure is truthful. -/
theorem Untouched.truthful (before : Untouched files bytes world)
    {answer : Option (Except Failure Unit)} (failed : answer ≠ some (.ok ())) :
    Truthful path stage files bytes answer world where
  kept content found := by rw [before.same, found]
  destination := .inl (congrFun before.same _)
  timely sent listed renames :=
    absurd ((before.unsent sent listed).symm.trans renames) Bool.false_ne_true
  confirmed succeeded := absurd succeeded failed
  unknown := by
    rintro ⟨sent, listed, renames, -⟩
    exact absurd ((before.unsent sent listed).symm.trans renames) Bool.false_ne_true
  clean _ := before.same

theorem Staging.truthful (apart : stage.raw ≠ path.raw)
    (staging : Staging path stage files bytes content world)
    {answer : Option (Except Failure Unit)} (failed : answer ≠ some (.ok ()))
    (dirty : answer ≠ some (.error .unsupportedOperation)) :
    Truthful path stage files bytes answer world where
  kept content found := by
    rw [staging.fresh] at found
    cases found
  destination := by
    rw [staging.same, Function.update_of_ne apart.symm]
    exact .inl rfl
  timely sent listed renames := (staging.refused sent listed renames).1
  confirmed succeeded := absurd succeeded failed
  unknown := by
    rintro ⟨sent, listed, renames, answered⟩
    exact absurd (answered.symm.trans (staging.refused sent listed renames).2) Bool.false_ne_true
  clean unsupported := absurd unsupported dirty

/-- A request that was not the rename leaves what was sent of those as it was. -/
theorem Staging.ask_refused (staging : Staging path stage files bytes content world)
    (request : Request) (other : request.renames = false) (took : Bool) (reply : Reply) :
    ∀ sent ∈ (world.ask request took reply).sent, sent.request.renames = true →
      Timely path stage bytes sent ∧ sent.reply.refuses = true := by
  intro sent listed renames
  rcases List.mem_cons.mp listed with rfl | listed
  · exact absurd (other.symm.trans renames) Bool.false_ne_true
  · exact staging.refused sent listed renames

/-! ## The program -/

/-- While the stage is written: what it holds and what is left of the input are
the input, and its handle is the only one. -/
structure Writing (path stage : RemotePath) (files : String → Option (List UInt8))
    (bytes : List UInt8) (handle : String) (content : List UInt8) (world : World) : Prop
    extends Staging path stage files bytes content world where
  sole : world.remote.handles = [(handle, stage.raw)]
  whole : content ++ world.input = bytes

/-- What the copying comes to. -/
def Copied (path stage : RemotePath) (files : String → Option (List UInt8)) (bytes : List UInt8)
    (handle : String) (answer : Option (Except Failure Unit)) (world : World) : Prop :=
  ∃ content, Staging path stage files bytes content world ∧
    (answer = some (.ok ()) →
      content = bytes ∧ world.remote.handles = [(handle, stage.raw)]) ∧
    answer ≠ some (.error .unsupportedOperation) ∧ answer ≠ some (.error .replacementUnknown)

theorem Staging.copied (staging : Staging path stage files bytes content world)
    {answer : Option (Except Failure Unit)} (failed : answer ≠ some (.ok ()))
    (known : answer ≠ some (.error .unsupportedOperation))
    (clear : answer ≠ some (.error .replacementUnknown)) :
    Copied path stage files bytes handle answer world :=
  ⟨content, staging, fun succeeded => absurd succeeded failed, known, clear⟩

theorem ask_taken (world : World) (request : Request) (reply : Reply) :
    (world.ask request true reply).remote = world.remote.effect reply request := rfl

theorem ask_untaken (world : World) (request : Request) (reply : Reply) :
    (world.ask request false reply).remote = world.remote := rfl

/-- What is written at the end of the stage. -/
theorem effect_write {remote : Remote} (data : List UInt8) (reply : Reply)
    (sole : remote.handles = [(handle, stage.raw)])
    (same : remote.files = Function.update files stage.raw (some content)) :
    remote.effect reply (.write handle content.length data) =
      { files := Function.update files stage.raw (some (content ++ data))
        handles := [(handle, stage.raw)] } := by
  unfold Remote.effect
  rw [sole]
  simp only [List.lookup_cons_self, same, Function.update_self, Option.map_some,
    Positional.writeAt_end, Function.update_idem]

/-- A write leaves the stage as it was or longer, whatever is answered. -/
theorem Writing.ask {data input : List UInt8}
    (writing : Writing path stage files bytes handle content world)
    (arrived : world.input = data ++ input) (took : Bool) (reply : Reply) :
    let after := { world with input }.ask (.write handle content.length data) took reply
    (took = true → Writing path stage files bytes handle (content ++ data) after) ∧
      ∃ content, Staging path stage files bytes content after := by
  have refused := writing.toStaging.ask_refused (.write handle content.length data)
    rfl took reply
  cases took with
  | false => exact ⟨nofun, content, writing.fresh, writing.same, refused, writing.unflagged⟩
  | true =>
    have effect := effect_write data reply writing.sole writing.same
    have remote := ask_taken { world with input } (.write handle content.length data) reply
    rw [effect] at remote
    have staging : Staging path stage files bytes (content ++ data)
        ({ world with input }.ask (.write handle content.length data) true reply) :=
      ⟨writing.fresh, by rw [remote], refused, writing.unflagged⟩
    refine ⟨fun _ => ⟨staging, by rw [remote], ?_⟩, _, staging⟩
    rw [← writing.whole, arrived, ← List.append_assoc]
    rfl

theorem copy_ensures {chunkBytes passes : Nat} (roomy : 0 < chunkBytes)
    (writing : Writing path stage files bytes handle content world) :
    (copy handle chunkBytes passes content.length).Ensures Step.run
      (Copied path stage files bytes handle) world := by
  induction passes generalizing content world with
  | zero =>
    exact ensures_pure (writing.copied nofun nofun nofun) (writing.copied nofun nofun nofun)
  | succ passes ih =>
    have cut : Copied path stage files bytes handle none world := writing.copied nofun nofun nofun
    unfold copy
    apply ensures_read cut
    · exact ensures_pure cut (writing.copied nofun nofun nofun)
    · intro data input arrived ended
      have read : Staging path stage files bytes content { world with input } :=
        ⟨writing.fresh, writing.same, writing.refused, writing.unflagged⟩
      cases data with
      | nil =>
        have done : content = bytes := by
          rw [← writing.whole, ended roomy rfl, List.append_nil]
        exact ensures_pure (read.copied nofun nofun nofun)
          ⟨content, read, fun _ => ⟨done, writing.sole⟩, nofun, nofun⟩
      | cons byte data =>
        apply ensures_ask (read.copied nofun nofun nofun)
        intro took reply honest
        obtain ⟨taken, content', staging⟩ := writing.ask arrived took reply
        have failed (cause : Failure) (known : cause ≠ .unsupportedOperation)
            (clear : cause ≠ .replacementUnknown) :
            (pure (.error cause) : Prog (Except Failure Unit)).Ensures Step.run
              (Copied path stage files bytes handle)
              ({ world with input }.ask (.write handle content.length (byte :: data)) took reply) :=
          ensures_pure (staging.copied nofun nofun nofun)
            (staging.copied nofun
              (fun same => known (Except.error.inj (Option.some.inj same)))
              (fun same => clear (Except.error.inj (Option.some.inj same))))
        split
        case h_1 =>
          have did : took = true := honours_confirmed honest rfl
          split
          case isTrue =>
            rw [← List.length_append]
            exact ih (taken did)
          case isFalse => exact failed _ nofun nofun
        case h_2 => exact failed _ nofun nofun

/-- What the renaming comes to. -/
def Moved (path stage : RemotePath) (files : String → Option (List UInt8)) (bytes : List UInt8)
    (answer : Option (Except Failure Unit)) (world : World) : Prop :=
  (Truthful path stage files bytes answer world ∧
      ∀ cause, answer = some (.error cause) → cause = .replacementUnknown) ∨
    ∃ cause content, answer = some (.error cause) ∧ cause ≠ .replacementUnknown ∧
      Staging path stage files bytes content world

theorem Truthful.lost {answer : Option (Except Failure Unit)}
    (truthful : Truthful path stage files bytes answer world) :
    Truthful path stage files bytes none world :=
  ⟨truthful.kept, truthful.destination, truthful.timely, nofun, truthful.unknown, nofun⟩

theorem Moved.cut (truthful : Truthful path stage files bytes none world) :
    Moved path stage files bytes none world := .inl ⟨truthful, nofun⟩

/-- The stage, written and closed. -/
structure Ready (path stage : RemotePath) (files : String → Option (List UInt8))
    (bytes : List UInt8) (world : World) : Prop
    extends Staging path stage files bytes bytes world where
  closed : world.remote.handles = []

/-- The rename was sent, taken or not, and the flag is up. -/
theorem Ready.renamed (apart : stage.raw ≠ path.raw) (ready : Ready path stage files bytes world)
    (took : Bool) (reply : Reply) {answer : Option (Except Failure Unit)}
    (dirty : answer ≠ some (.error .unsupportedOperation))
    (confirmed : answer = some (.ok ()) → reply = .status .ok) :
    Truthful path stage files bytes answer
      ({ world with replacement := true }.ask (.posixRename stage.raw path.raw) took reply) where
  kept content found := by
    rw [ready.fresh] at found
    cases found
  destination := by
    cases took with
    | false =>
      rw [ask_untaken, ready.same, Function.update_of_ne apart.symm]
      exact .inl rfl
    | true =>
      refine .inr ⟨⟨_, List.mem_cons_self, rfl⟩, ?_⟩
      rw [ask_taken, Remote.effect, ready.same, Function.update_self]
      exact Function.update_self _ _ _
  timely sent listed renames := by
    rcases List.mem_cons.mp listed with rfl | listed
    · exact ⟨rfl, by rw [ready.same, Function.update_self], ready.closed⟩
    · exact (ready.refused sent listed renames).1
  confirmed succeeded := ⟨_, List.mem_cons_self, rfl, confirmed succeeded⟩
  unknown _ := rfl
  clean unsupported := absurd unsupported dirty

/-- The flag is up and the rename was not sent. -/
theorem Ready.flagged (apart : stage.raw ≠ path.raw) (ready : Ready path stage files bytes world) :
    Truthful path stage files bytes none { world with replacement := true } where
  kept content found := by
    rw [ready.fresh] at found
    cases found
  destination := by
    rw [ready.same, Function.update_of_ne apart.symm]
    exact .inl rfl
  timely sent listed renames := (ready.refused sent listed renames).1
  confirmed succeeded := nomatch succeeded
  unknown _ := rfl
  clean unsupported := nomatch unsupported

/-- A rename that was refused has left the stage where it was. -/
theorem Ready.declined (ready : Ready path stage files bytes world) {reply : Reply}
    (refuses : reply.refuses = true) :
    Staging path stage files bytes bytes
      { { world with replacement := true }.ask (.posixRename stage.raw path.raw) false reply with
        replacement := false } where
  fresh := ready.fresh
  same := ready.same
  refused sent listed renames := by
    rcases List.mem_cons.mp listed with rfl | listed
    · exact ⟨⟨rfl, by rw [ready.same, Function.update_self], ready.closed⟩, refuses⟩
    · exact ready.refused sent listed renames
  unflagged := rfl

theorem rename_ensures (apart : stage.raw ≠ path.raw) (ready : Ready path stage files bytes world) :
    (rename path stage).Ensures Step.run (Moved path stage files bytes) world := by
  apply ensures_store (.cut (ready.truthful apart nofun nofun))
  apply ensures_ask (.cut (ready.flagged apart))
  intro took reply honest
  have cut : Moved path stage files bytes none
      ({ world with replacement := true }.ask (.posixRename stage.raw path.raw) took reply) :=
    .cut (ready.renamed apart took reply nofun nofun)
  split
  case h_1 => exact ensures_pure cut (.inl ⟨ready.renamed apart took _ nofun fun _ => rfl, nofun⟩)
  case h_2 code other =>
    have refuses : (Reply.status code).refuses = true :=
      decide_eq_true other
    apply ensures_store cut
    have untaken := honours_refused honest refuses
    subst untaken
    have staging := ready.declined refuses
    exact ensures_pure (.cut (staging.truthful apart nofun nofun))
      (.inr ⟨_, _, rfl, nofun, staging⟩)
  case h_3 =>
    refine ensures_pure cut (.inl ⟨ready.renamed apart took _ nofun nofun, ?_⟩)
    intro cause failed
    exact (Except.error.inj (Option.some.inj failed)).symm

/-- A request about the stage's handle moves no file. -/
theorem Staging.close (staging : Staging path stage files bytes content world)
    (sole : world.remote.handles = [(handle, stage.raw)]) (took : Bool) (reply : Reply) :
    Staging path stage files bytes content (world.ask (.close handle) took reply) ∧
      (took = true → (world.ask (.close handle) took reply).remote.handles = []) := by
  have refused := staging.ask_refused (.close handle) rfl took reply
  cases took with
  | false => exact ⟨⟨staging.fresh, staging.same, refused, staging.unflagged⟩, nofun⟩
  | true =>
    refine ⟨⟨staging.fresh, staging.same, refused, staging.unflagged⟩, fun _ => ?_⟩
    rw [ask_taken, Remote.effect, sole]
    simp

theorem write_ensures (apart : stage.raw ≠ path.raw) (chunkBytes : Nat) (packetBytes : Option Nat)
    (writing : Writing path stage files bytes handle [] world) :
    (write path stage handle chunkBytes packetBytes).Ensures Step.run
      (Moved path stage files bytes) world := by
  have cut : Moved path stage files bytes none world :=
    .cut (writing.truthful apart nofun nofun)
  unfold write
  split
  case isTrue => exact ensures_pure cut (.inr ⟨_, _, rfl, nofun, writing.toStaging⟩)
  case isFalse roomy =>
    apply Program.Ensures.bind
    refine (copy_ensures (Nat.pos_of_ne_zero roomy) writing).imp ?_
    rintro answer world ⟨content, staging, all, known, clear⟩
    have cut : Moved path stage files bytes none world := .cut (staging.truthful apart nofun nofun)
    match answer with
    | none => exact cut
    | some (.error cause) =>
      refine ensures_pure cut (.inr ⟨_, _, rfl, ?_, staging⟩)
      rintro rfl
      exact clear rfl
    | some (.ok ()) =>
      obtain ⟨rfl, sole⟩ := all rfl
      apply ensures_ask cut
      intro took reply honest
      obtain ⟨closing, closed⟩ := staging.close sole took reply
      split
      case h_1 =>
        have did : took = true := honours_confirmed honest rfl
        exact rename_ensures apart ⟨closing, closed did⟩
      case h_2 =>
        exact ensures_pure (.cut (closing.truthful apart nofun nofun))
          (.inr ⟨_, _, rfl, nofun, closing⟩)

/-! ## The end of the stage -/

/-- Nothing of the upload is on the peer any more. -/
theorem Staging.removed (staging : Staging path stage files bytes content world)
    (reply : Reply) :
    (world.ask (.remove stage.raw) true reply).remote.files = files := by
  rw [ask_taken, Remote.effect, staging.same, Function.update_idem, ← staging.fresh,
    Function.update_eq_self]

/-- Files that are as they were make any failure truthful. -/
theorem Truthful.restored (same : world.remote.files = files)
    (refused : ∀ sent ∈ world.sent, sent.request.renames = true →
      Timely path stage bytes sent ∧ sent.reply.refuses = true)
    {answer : Option (Except Failure Unit)} (failed : answer ≠ some (.ok ())) :
    Truthful path stage files bytes answer world where
  kept content found := by rw [same, found]
  destination := .inl (congrFun same _)
  timely sent listed renames := (refused sent listed renames).1
  confirmed succeeded := absurd succeeded failed
  unknown := by
    rintro ⟨sent, listed, renames, answered⟩
    exact absurd (answered.symm.trans (refused sent listed renames).2) Bool.false_ne_true
  clean _ := same

theorem cleanup_ensures (apart : stage.raw ≠ path.raw) {cause : Failure}
    (known : cause ≠ .replacementUnknown)
    (staging : Staging path stage files bytes content world) :
    (cleanup stage cause).Ensures Step.run (Truthful path stage files bytes) world := by
  unfold cleanup
  rw [if_neg known]
  apply ensures_ask (staging.truthful apart nofun nofun)
  intro took reply honest
  have refused := staging.ask_refused (.remove stage.raw) rfl took reply
  have either {answer : Option (Except Failure Unit)} (failed : answer ≠ some (.ok ()))
      (dirty : took = true ∨ answer ≠ some (.error .unsupportedOperation)) :
      Truthful path stage files bytes answer (world.ask (.remove stage.raw) took reply) := by
    cases took with
    | true => exact .restored (staging.removed reply) refused failed
    | false =>
      have still : Staging path stage files bytes content
          (world.ask (.remove stage.raw) false reply) :=
        ⟨staging.fresh, staging.same, refused, staging.unflagged⟩
      exact still.truthful apart failed (dirty.resolve_left Bool.false_ne_true)
  split
  case h_1 =>
    have did : took = true := honours_confirmed honest rfl
    exact ensures_pure (either nofun (.inl did)) (either nofun (.inl did))
  case h_2 => exact ensures_pure (either nofun (.inr nofun)) (either nofun (.inr nofun))

theorem failed_ne_unsupported (reply : Reply) : failed reply ≠ .unsupportedOperation := by
  unfold failed
  split <;> exact nofun

theorem replace_ensures (apart : stage.raw ≠ path.raw) (chunkBytes : Nat)
    (packetBytes : Option Nat) (before : Untouched files bytes world) :
    (replace path stage chunkBytes packetBytes).Ensures Step.run
      (Truthful path stage files bytes) world := by
  unfold replace
  apply ensures_ask (before.truthful nofun)
  intro took reply honest
  have refused : ∀ sent ∈ (world.ask (.openExclusive stage.raw) took reply).sent,
      sent.request.renames = true → Timely path stage bytes sent ∧ sent.reply.refuses = true := by
    intro sent listed renames
    rcases List.mem_cons.mp listed with rfl | listed
    · cases renames
    · exact absurd ((before.unsent sent listed).symm.trans renames) Bool.false_ne_true
  have created (did : took = true) : Staging path stage files bytes []
      (world.ask (.openExclusive stage.raw) took reply) := by
    have fresh := honours_exclusive honest did
    subst did
    refine ⟨before.same ▸ fresh, ?_, refused, before.unflagged⟩
    change Function.update world.remote.files stage.raw (some []) = _
    rw [before.same]
  have either {answer : Option (Except Failure Unit)} (failed : answer ≠ some (.ok ()))
      (dirty : answer ≠ some (.error .unsupportedOperation)) :
      Truthful path stage files bytes answer
        (world.ask (.openExclusive stage.raw) took reply) := by
    cases took with
    | true => exact (created rfl).truthful apart failed dirty
    | false =>
      have same : (world.ask (.openExclusive stage.raw) false reply).remote.files = files :=
        before.same
      exact .restored same refused failed
  have clear : some (Except.error (failed reply) : Except Failure Unit) ≠
      some (.error .unsupportedOperation) :=
    fun same => failed_ne_unsupported reply (Except.error.inj (Option.some.inj same))
  cases reply
  case handle handle =>
    have did : took = true := honours_confirmed honest rfl
    have staging := created did
    subst did
    have writing : Writing path stage files bytes handle []
        (world.ask (.openExclusive stage.raw) true (.handle handle)) := by
      refine ⟨staging, ?_, before.whole⟩
      rw [ask_taken, Remote.effect, before.closed]
    apply Program.Ensures.bind
    refine (write_ensures apart chunkBytes packetBytes writing).imp ?_
    intro answer world moved
    match answer with
    | none =>
      rcases moved with ⟨truthful, -⟩ | ⟨cause, content, failed, -⟩
      · exact truthful
      · cases failed
    | some (.ok ()) =>
      rcases moved with ⟨truthful, -⟩ | ⟨cause, content, failed, -⟩
      · exact ensures_pure truthful.lost truthful
      · cases failed
    | some (.error cause) =>
      rcases moved with ⟨truthful, only⟩ | ⟨cause, content, failed, known, staging⟩
      · change (cleanup stage cause).Ensures Step.run (Truthful path stage files bytes) world
        rw [cleanup, if_pos (only cause rfl)]
        exact ensures_pure truthful.lost truthful
      · cases failed
        exact cleanup_ensures apart known staging
  all_goals exact ensures_pure (either nofun nofun) (either nofun clear)

/-! ## Before anything is created -/

/-- A request that changes nothing, and what is made of its answer. -/
theorem ensures_look {request : Request} {next : Reply → Prog α}
    {holds : Option α → World → Prop} (before : Untouched files bytes world)
    (cut : holds none world) (looks : Looks request) (other : request.renames = false)
    (rest : ∀ reply world, Untouched files bytes world → (next reply).Ensures Step.run holds world) :
    (ask request >>= next).Ensures Step.run holds world :=
  ensures_ask cut fun took reply _ => rest reply _ (before.ask took reply looks other)

theorem checked_ensures (name : String) (before : Untouched files bytes world) :
    (checked name).Ensures Step.run (fun _ world => Untouched files bytes world) world := by
  apply ensures_look before before
  · exact fun _ _ => rfl
  · rfl
  · intro reply world before
    split <;> exact ensures_pure before before

theorem limitsOf_ensures (extensions : List (String × String))
    (before : Untouched files bytes world) :
    (limitsOf extensions).Ensures Step.run (fun _ world => Untouched files bytes world) world := by
  unfold limitsOf
  split
  case isFalse => exact ensures_pure before before
  case isTrue =>
    apply ensures_look before before
    · exact fun _ _ => rfl
    · rfl
    · intro reply world before
      split <;> exact ensures_pure before before

theorem Untouched.fails (before : Untouched files bytes world) (cause : Failure) :
    (pure (.error cause) : Prog (Except Failure Unit)).Ensures Step.run
      (Truthful path stage files bytes) world :=
  ensures_pure (before.truthful nofun) (before.truthful nofun)

theorem resolved_ensures (apart : stage.raw ≠ path.raw) (chunkBytes : Nat)
    (packetBytes : Option Nat) (before : Untouched files bytes world) :
    (resolved path stage chunkBytes packetBytes).Ensures Step.run
      (Truthful path stage files bytes) world := by
  apply ensures_look before (before.truthful nofun)
  · exact fun _ _ => rfl
  · rfl
  · intro reply world before
    split
    case h_2 => exact before.fails _
    case h_1 =>
      split
      case isTrue => exact before.fails _
      case isFalse =>
        apply Program.Ensures.bind
        refine (checked_ensures path.raw before).imp ?_
        intro answer world before
        match answer with
        | none => exact before.truthful nofun
        | some (.error cause) => exact before.fails cause
        | some (.ok ()) =>
          apply Program.Ensures.bind
          refine (checked_ensures stage.raw before).imp ?_
          intro answer world before
          match answer with
          | none => exact before.truthful nofun
          | some (.error cause) => exact before.fails cause
          | some (.ok ()) => exact replace_ensures apart chunkBytes packetBytes before

theorem upload_ensures (apart : stage.raw ≠ path.raw) (before : Untouched files bytes world) :
    (upload path stage).Ensures Step.run (Truthful path stage files bytes) world := by
  apply ensures_look before (before.truthful nofun)
  · exact fun _ _ => rfl
  · rfl
  · intro reply world before
    split
    case h_2 => exact before.fails _
    case h_1 =>
      apply ensures_look before (before.truthful nofun)
      · exact fun _ _ => rfl
      · rfl
      · intro reply world before
        split
        case h_2 => exact before.fails _
        case h_1 extensions =>
          split
          case isTrue => exact before.fails _
          case isFalse =>
            apply Program.Ensures.bind
            refine (limitsOf_ensures extensions before).imp ?_
            intro answer world before
            match answer with
            | none => exact before.truthful nofun
            | some (.error cause) => exact before.fails cause
            | some (.ok (chunkBytes, packetBytes)) =>
              exact resolved_ensures apart chunkBytes packetBytes before

end

/-! ## What the run reports -/

/-- Why a worker was dropped. -/
inductive Dropped
  | cancelled
  | timedOut
  | workerStopped
  deriving DecidableEq, Repr

def Dropped.failure : Dropped → Failure
  | .cancelled => .cancelled
  | .timedOut => .timedOut
  | .workerStopped => .workerStopped

/-- `supervise_transfer`: what the worker answered, or why no answer was seen. -/
def supervised (source : FileIdentity) (dropped : Dropped) :
    Option (Except Failure Unit) → Except Failure RunTask.Moved
  | some (.ok ()) => .ok (.uploaded source)
  | some (.error cause) => .error cause
  | none => .error dropped.failure

/-- The state an upload's run is given. -/
def reportedState (outputBytes : Nat) (source : FileIdentity) (dropped : Dropped)
    (seen : Option (Except Failure Unit)) (replacement : Bool) : RunState :=
  (RunTask.settle (RunTask.Record.new outputBytes) true replacement
    (supervised source dropped seen)).state

theorem reportedState_ok {outputBytes : Nat} {source : FileIdentity} {dropped : Dropped}
    {seen : Option (Except Failure Unit)} {replacement : Bool}
    (exited : reportedState outputBytes source dropped seen replacement = .exited 0) :
    seen = some (.ok ()) := by
  match seen with
  | some (.ok ()) => rfl
  | some (.error cause) => cases exited
  | none => cases exited

/-- With the flag up, a failure is reported as unknown. -/
theorem reportedState_flagged (outputBytes : Nat) (source : FileIdentity) (dropped : Dropped)
    (seen : Option (Except Failure Unit)) :
    reportedState outputBytes source dropped seen true = .exited 0 ∨
      reportedState outputBytes source dropped seen true =
        .transferFailed .replacementUnknown true := by
  match seen with
  | some (.ok ()) => exact .inl rfl
  | some (.error cause) => exact .inr rfl
  | none => exact .inr rfl

theorem maybePartial_clean {cause : Failure} (clean : RunTask.maybePartial true cause = false) :
    cause = .unsupportedOperation := by
  simpa [RunTask.maybePartial] using clean

theorem blamed_unsupported {replacement : Bool} {cause : Failure}
    (blamed : RunTask.blamed replacement cause = .unsupportedOperation) :
    cause = .unsupportedOperation := by
  cases replacement with
  | false => exact blamed
  | true => cases blamed

/-- Only an operation that is not supported is reported as certainly clean. -/
theorem reportedState_clean {outputBytes : Nat} {source : FileIdentity} {dropped : Dropped}
    {seen : Option (Except Failure Unit)} {replacement : Bool} {cause : Failure}
    (clean : reportedState outputBytes source dropped seen replacement =
      .transferFailed cause false) :
    seen = some (.error .unsupportedOperation) := by
  match seen with
  | some (.ok ()) => cases clean
  | some (.error cause) =>
    have unsupported := maybePartial_clean (RunState.transferFailed.inj clean).2
    rw [blamed_unsupported unsupported]
  | none =>
    have unsupported := maybePartial_clean (RunState.transferFailed.inj clean).2
    have other : dropped.failure ≠ .unsupportedOperation := by cases dropped <;> exact nofun
    exact absurd (blamed_unsupported unsupported) other

/-- **Staged replacement.** Whatever the peer answers, wherever the upload is cut
and whether or not its answer is seen: what was at the stage's path before stays
there; the destination is what it was, or the rename was sent and it is the
input; the rename is sent only once the stage holds the whole input and is
closed; and the report is true of what was left. -/
theorem replaces {path stage : RemotePath} (valid : Bastion.stagingRefused path true (some stage) = false)
    (files : String → Option (List UInt8)) (bytes : List UInt8) (choices : List Choice)
    (answer : Option (Except Failure Unit)) (world : World)
    (went : (upload path stage).upTo Step.run choices ⟨⟨files, []⟩, bytes, false, []⟩ =
      some (answer, world))
    (seen : Option (Except Failure Unit)) (kept : seen = answer ∨ seen = none)
    (outputBytes : Nat) (source : FileIdentity) (dropped : Dropped) :
    let state := reportedState outputBytes source dropped seen world.replacement
    (∀ content, files stage.raw = some content →
      world.remote.files stage.raw = some content) ∧
    (world.remote.files path.raw = files path.raw ∨
      (∃ sent ∈ world.sent, sent.request.renames = true) ∧
        world.remote.files path.raw = some bytes) ∧
    (∀ sent ∈ world.sent, sent.request.renames = true → Timely path stage bytes sent) ∧
    (state = .exited 0 →
      ∃ sent ∈ world.sent, sent.request.renames = true ∧ sent.reply = .status .ok) ∧
    ((∃ sent ∈ world.sent, sent.request.renames = true ∧ sent.reply.refuses = false) →
      state = .exited 0 ∨ state = .transferFailed .replacementUnknown true) ∧
    (∀ cause, state = .transferFailed cause false → world.remote.files = files) := by
  have apart : stage.raw ≠ path.raw := by
    intro same
    have equal : stage = path := RemotePath.ext_raw same
    rw [equal] at valid
    simp [Bastion.stagingRefused] at valid
  have before : Untouched files bytes ⟨⟨files, []⟩, bytes, false, []⟩ :=
    ⟨rfl, rfl, rfl, fun _ listed => absurd listed List.not_mem_nil, rfl⟩
  have truthful := (upload_ensures apart before).upTo went kept
  refine ⟨truthful.kept, truthful.destination, truthful.timely, ?_, ?_, ?_⟩
  · exact fun exited => truthful.confirmed (reportedState_ok exited)
  · intro unrefused
    rw [truthful.unknown unrefused]
    exact reportedState_flagged outputBytes source dropped seen
  · exact fun cause clean => truthful.clean (reportedState_clean clean)

namespace Sample

def path : RemotePath := ⟨"/d/a", by decide +kernel⟩

def stage : RemotePath := ⟨"/d/s", by decide +kernel⟩

def files : String → Option (List UInt8) := fun name => if name = "/d/a" then some [1] else none

def replies : Reply → Choice := fun reply => ⟨!reply.refuses, reply, 9, false⟩

/-- A peer that does as it is asked. -/
def obliging : List Choice :=
  [.started, .version [(posixRenameExtension, "1")], .name ["/d"], .attrs false,
    .status .noSuchFile, .handle "h", .lost, .status .ok, .lost, .status .ok, .lost,
    .status .ok].map replies

/-- The same, until the answer to the rename is lost. -/
def silent : List Choice := obliging.dropLast ++ [replies .lost]

/-- The destination was replaced and the answer to the rename was lost: the run
reports that it does not know. -/
theorem replaces_sample :
    ∃ answer world,
      (upload path stage).upTo Step.run silent ⟨⟨files, []⟩, [7, 8], false, []⟩ =
        some (answer, world) ∧
      world.remote.files "/d/a" = some [7, 8] ∧
      (reportedState 4 ⟨"mcp:source", 2, "00"⟩ .timedOut answer world.replacement =
        .transferFailed .replacementUnknown true) := by
  have went : ((upload path stage).upTo Step.run silent ⟨⟨files, []⟩, [7, 8], false, []⟩).map
      (fun (answer, world) => (decide (answer = some (.error .replacementUnknown)),
        world.remote.files "/d/a",
        world.sent.any fun sent => sent.request.renames && !sent.reply.refuses)) =
      some (true, some [7, 8], true) := by
    decide +kernel
  obtain ⟨⟨answer, world⟩, ran, shown⟩ := Option.map_eq_some_iff.mp went
  obtain ⟨unknown, shown⟩ := Prod.mk.inj shown
  obtain ⟨replaced, unrefused⟩ := Prod.mk.inj shown
  obtain ⟨sent, listed, kind⟩ := List.any_eq_true.mp unrefused
  obtain ⟨renames, answered⟩ := Bool.and_eq_true_iff.mp kind
  obtain ⟨-, -, -, -, reports, -⟩ := @replaces path stage
    (by decide +kernel) files [7, 8] silent answer world ran answer (.inl rfl) 4
    ⟨"mcp:source", 2, "00"⟩ .timedOut
  refine ⟨answer, world, ran, replaced, (reports ⟨sent, listed, renames, ?_⟩).resolve_left ?_⟩
  · simpa using answered
  · rw [of_decide_eq_true unknown]
    exact fun exited => nomatch reportedState_ok exited

end Sample

end Staged

end McpSsh.Sftp
