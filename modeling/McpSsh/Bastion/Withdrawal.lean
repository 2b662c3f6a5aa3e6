import McpSsh.Bastion.Agreements

/-!
# Whether a withdrawal is final

A standing agreement answers a request and collects it in two steps, and the
second can fail. What it has answered stays collectable when it is withdrawn:
the next ask for that action finds it, without the agreement. Where no request
waits to be collected in an agreement's name when it is withdrawn, nothing is
minted in its name afterwards.
-/

namespace McpSsh.Bastion

open Interleaving
open Approvals (Requests Held)

variable {deployment : Deployment} {tid : Nat} {choice : Choice} {service after : Service}
variable {β : Type} {answer : β} {id : AgreementId}

/-! ## What waits in the name of an agreement -/

/-- A request waits to be collected in the name of an agreement: it stands
approved on the record, and can still be collected or is being collected. -/
def RequestPart.awaits (part : RequestPart) (clock : Nat) (id : AgreementId) : Bool :=
  part.requests.any (fun held =>
    held.state.collectableBy.bind Approver.agreement = some id &&
      (clock < held.redeemBy || part.collecting = some held.asked.id))

def Service.awaits (service : Service) (id : AgreementId) : Bool :=
  service.approvals.awaits service.clock id

theorem RequestPart.awaits_iff {part : RequestPart} {clock : Nat} :
    part.awaits clock id = true ↔ ∃ held ∈ part.requests, ∃ by_, held.state = .approved by_ true ∧
      by_.agreement = some id ∧ (clock < held.redeemBy ∨ part.collecting = some held.asked.id) := by
  simp only [RequestPart.awaits, List.any_eq_true, Bool.and_eq_true, Bool.or_eq_true,
    decide_eq_true_eq, Option.bind_eq_some_iff, Approvals.State.collectableBy_eq_some]
  constructor
  · intro ⟨held, member, ⟨by_, state, named⟩, open'⟩
    exact ⟨held, member, by_, state, named, open'⟩
  · intro ⟨held, member, by_, state, named, open'⟩
    exact ⟨held, member, ⟨by_, state, named⟩, open'⟩

/-- What waits among fewer requests waited before. -/
theorem RequestPart.awaits_fewer {before after : RequestPart} {clock : Nat}
    (awaits : after.awaits clock id = true)
    (fewer : ∀ held ∈ after.requests, ∀ by_, held.state = .approved by_ true →
      held ∈ before.requests)
    (collecting : ∀ held ∈ before.requests, after.collecting = some held.asked.id →
      clock < held.redeemBy ∨ before.collecting = some held.asked.id) : before.awaits clock id = true := by
  obtain ⟨held, member, by_, state, named, open'⟩ := awaits_iff.mp awaits
  have inside := fewer held member by_ state
  exact awaits_iff.mpr ⟨held, inside, by_, state, named,
    open'.elim .inl (collecting held inside)⟩

/-- No withdrawn agreement has a request waiting in its name. -/
def Service.Withdrawn (service : Service) : Prop :=
  ∀ id, Note.withdrew id ∈ service.journal → service.awaits id = false

/-! ## What a step lets wait -/

theorem State.agreedBy_eq_some {state : Approvals.State} {by_ : Approver} :
    state.agreedBy = some by_ ↔ ∃ recorded, state = .approved by_ recorded := by
  unfold Approvals.State.agreedBy
  split <;> simp_all

theorem Requests.mem_spend {requests : Requests} {spent : RequestId} {held : Held} {by_ : Approver}
    (member : held ∈ requests.spend spent) (state : held.state = .approved by_ true) :
    held ∈ requests := by
  obtain ⟨before, inside, rfl⟩ := List.mem_map.mp member
  split at state
  · cases state
  · rename_i other
    rw [if_neg other]
    exact inside

/-- An ask lets nothing new wait. -/
theorem RequestStep.ask_awaits {part : RequestPart} {config : Approvals.Config} {clock draw : Nat}
    {limit : Nat} {owner : Approvals.Owner} {intended : Intended}
    (tidy : part.requests.Tidy limit owner)
    (awaits : ((RequestStep.ask intended).effect config tid clock draw part).part.awaits clock id =
      true) : part.awaits clock id = true := by
  have kept : ∀ held ∈ part.requests.retain clock, held ∈ part.requests :=
    fun held member => List.mem_of_mem_filter member
  have cases' := config.ask_case clock ⟨draw⟩ intended part.requests
  rcases asked : config.ask clock ⟨draw⟩ intended part.requests with ⟨asking, requests⟩
  rw [asked] at cases'
  simp only [RequestStep.effect, asked] at awaits
  cases cases' with
  | @collect held by_ member mine within state =>
    change (RequestPart.mk _ _).awaits clock id = true at awaits
    refine RequestPart.awaits_fewer awaits (fun held member _ _ => kept held member) ?_
    intro other inside same
    have is : held.asked.id = other.asked.id := Option.some.inj same
    rw [← tidy.eq_of_id (kept held member) inside is]
    exact .inl within
  | refused | pending | full =>
    change (RequestPart.mk _ _).awaits clock id = true at awaits
    exact RequestPart.awaits_fewer awaits (fun held member _ _ => kept held member)
      (fun _ _ same => .inr same)
  | raised =>
    change (RequestPart.mk _ _).awaits clock id = true at awaits
    refine RequestPart.awaits_fewer awaits (fun held member by_ state => ?_)
      (fun _ _ same => .inr same)
    rcases List.mem_cons.mp member with rfl | old
    · cases state
    · exact kept held old
  | @lapsed gone =>
    change (RequestPart.mk ((config.raised clock ⟨draw⟩ intended ::
      part.requests.retain clock).filter (·.asked.id ≠ gone.asked.id)) _).awaits clock id = true at awaits
    refine RequestPart.awaits_fewer awaits (fun held member by_ state => ?_)
      (fun _ _ same => .inr same)
    rcases List.mem_cons.mp (List.mem_filter.mp member).1 with rfl | old
    · cases state
    · exact kept held old

/-- An answer is not on the record yet, so nothing waits for it. -/
theorem RequestStep.answer_awaits {part : RequestPart} {config : Approvals.Config}
    {clock draw reading : Nat} {held : Held} {approver : Approver} {agreed : Bool}
    (awaits : ((RequestStep.answer held reading approver agreed).effect config tid clock draw
      part).part.awaits clock id = true) : part.awaits clock id = true := by
  change (RequestPart.mk _ _).awaits clock id = true at awaits
  refine RequestPart.awaits_fewer awaits (fun changed member by_ state => ?_)
    (fun _ _ same => .inr same)
  obtain ⟨before, inside, rfl⟩ := List.mem_map.mp member
  split at state
  · unfold Approvals.Config.answer at state
    split at state <;> cases state
  · rename_i other
    rw [if_neg other]
    exact inside

/-- A mark is made for an agreement that has not been withdrawn. -/
theorem RequestStep.markRecorded_awaits (inv : Inv deployment service) {request : RequestId}
    (guard : (RequestStep.markRecorded request).Guard tid service)
    (withdrew : Note.withdrew id ∈ service.journal)
    (awaits : ((RequestStep.markRecorded request).effect deployment.approvals tid service.clock
      choice.draw service.approvals).part.awaits service.clock id = true) :
    service.awaits id = true := by
  obtain ⟨answer, redeemBy, answered, -, about, speaks⟩ := guard
  obtain ⟨owner, tidy, -⟩ := inv.requests.tidy
  -- Who a request stands approved by under this identifier has not been withdrawn.
  have stands : ∀ held ∈ service.approvals.requests, held.asked.id = request → ∀ by_,
      held.state.agreedBy = some by_ → by_.agreement ≠ some id := by
    intro held member same by_ agreed named
    obtain ⟨recorded, state⟩ := State.agreedBy_eq_some.mp agreed
    obtain ⟨tid', answer', answered', asked, approver, -, -⟩ :=
      (inv.requests.held held member).approved by_ recorded state
    obtain ⟨-, rfl, -⟩ := inv.history.answered_unique answered answered'
      (by rw [about, asked, same])
    obtain ⟨-, agreement, inside, is, -⟩ := speaks id (by rw [approver]; exact named)
    exact inv.standing.stands agreement inside (is ▸ withdrew)
  simp only [RequestStep.effect, Approvals.Requests.markRecorded] at awaits
  split at awaits
  · rename_i by_ found
    change (RequestPart.mk _ _).awaits service.clock id = true at awaits
    obtain ⟨held, member, by', state, named, open'⟩ := RequestPart.awaits_iff.mp awaits
    obtain ⟨before, inside, rfl⟩ := List.mem_map.mp member
    obtain ⟨first, is, agreed⟩ := Option.bind_eq_some_iff.mp found
    obtain ⟨there, same⟩ := Approvals.Requests.find_eq_some is
    split at state
    · cases state
      exact absurd named (stands first there same by_ agreed)
    · rename_i other
      rw [if_neg other] at open'
      exact RequestPart.awaits_iff.mpr ⟨before, inside, by', state, named, open'⟩
  · exact awaits

theorem RequestStep.awaits {step : RequestStep β} (inv : Inv deployment service)
    (guard : step.Guard tid service) (withdrew : Note.withdrew id ∈ service.journal)
    (awaits : (step.effect deployment.approvals tid service.clock choice.draw
      service.approvals).part.awaits service.clock id = true) : service.awaits id = true := by
  obtain ⟨owner, tidy, -⟩ := inv.requests.tidy
  cases step with
  | ask intended => exact RequestStep.ask_awaits tidy awaits
  | redeem request principal action =>
    simp only [RequestStep.effect] at awaits
    split at awaits
    · exact awaits
    · rename_i grant redeemed
      obtain ⟨held, member, by_, rfl, -, -, within, -⟩ := Approvals.Requests.redeem_eq_ok redeemed
      change (RequestPart.mk _ _).awaits service.clock id = true at awaits
      refine RequestPart.awaits_fewer awaits (fun _ member _ _ => member) ?_
      intro other inside same
      rw [← tidy.eq_of_id member inside (Option.some.inj same)]
      exact .inl within
  | spend =>
    change (RequestPart.mk _ _).awaits service.clock id = true at awaits
    exact RequestPart.awaits_fewer awaits (fun _ member _ state => Requests.mem_spend member state)
      (fun _ _ same => by cases same)
  | unlock =>
    change (RequestPart.mk _ _).awaits service.clock id = true at awaits
    exact RequestPart.awaits_fewer awaits (fun _ member _ _ => member) (fun _ _ same => by cases same)
  | decidable request =>
    simp only [RequestStep.effect] at awaits
    split at awaits <;> exact awaits
  | answer => exact RequestStep.answer_awaits awaits
  | markRecorded => exact RequestStep.markRecorded_awaits inv guard withdrew awaits
  | lock => exact awaits
  | retain =>
    change (RequestPart.mk _ _).awaits service.clock id = true at awaits
    exact RequestPart.awaits_fewer awaits (fun _ member _ _ => List.mem_of_mem_filter member)
      (fun _ _ same => .inr same)

/-- No step lets anything new wait in the name of a withdrawn agreement. -/
theorem Step.awaits {step : Step β} (inv : Inv deployment service)
    (guard : step.Guard deployment tid service) (withdrew : Note.withdrew id ∈ service.journal)
    (ran : step.run deployment tid choice service = some (answer, after))
    (awaits : after.awaits id = true) : service.awaits id = true := by
  obtain ⟨-, -, -, rfl⟩ := Step.ran ran
  cases step with
  | requests step => exact RequestStep.awaits inv guard.2 withdrew awaits
  | service step => cases step <;> exact awaits
  | _ => exact awaits

/-! ## What a step keeps -/

theorem Step.withdrew_cases {step : Step β} (guard : step.Guard deployment tid service)
    (ran : step.run deployment tid choice service = some (answer, after))
    (is : Note.withdrew id ∈ after.journal) :
    Note.withdrew id ∈ service.journal ∨ step.Withdraws service id := by
  obtain ⟨-, -, -, rfl⟩ := Step.ran ran
  suffices all : ∀ note ∈ (step.effect deployment tid choice service).notes,
      note = .withdrew id → step.Withdraws service id from
    (List.mem_append.mp is).imp_right (fun new => all _ new rfl)
  apply Step.notes_cases (motive := fun note => note = .withdrew id → step.Withdraws service id) guard
  case withdrew =>
    intro agreement withdraws same
    cases same
    exact withdraws
  all_goals
    intros
    contradiction

theorem Step.collected_cases {step : Step β} (guard : step.Guard deployment tid service)
    (ran : step.run deployment tid choice service = some (answer, after)) {minter : Nat}
    {intended : Intended} {grant : Grant} {receipt : Receipt}
    (is : Note.collected minter intended grant receipt ∈ after.journal) :
    Note.collected minter intended grant receipt ∈ service.journal ∨
      Collecting deployment tid intended grant service := by
  obtain ⟨-, -, -, rfl⟩ := Step.ran ran
  suffices all : ∀ note ∈ (step.effect deployment tid choice service).notes,
      note = .collected minter intended grant receipt →
        Collecting deployment tid intended grant service from
    (List.mem_append.mp is).imp_right (fun new => all _ new rfl)
  apply Step.notes_cases (motive := fun note => note = .collected minter intended grant receipt →
    Collecting deployment tid intended grant service) guard
  case collected =>
    intro intended grant receipt collecting same
    cases same
    exact collecting
  all_goals
    intros
    contradiction

/-- Nothing waits in the name of a withdrawn agreement if nothing did when it
was withdrawn. -/
theorem Step.keeps_withdrawn {step : Step β} (inv : Inv deployment service)
    (guard : step.Guard deployment tid service) (kept : service.Withdrawn)
    (careful : ∀ id, step.Withdraws service id → service.awaits id = false)
    (ran : step.run deployment tid choice service = some (answer, after)) : after.Withdrawn := by
  intro id is
  refine Bool.eq_false_iff.mpr fun awaits => ?_
  rcases Step.withdrew_cases guard ran is with before | withdraws
  · exact Bool.eq_false_iff.mp (kept id before) (Step.awaits inv guard before ran awaits)
  · refine Bool.eq_false_iff.mp (careful id withdraws) ?_
    obtain ⟨-, -, -, rfl⟩ := Step.ran ran
    cases step with
    | standing step => exact awaits
    | _ => cases withdraws

/-- Nothing is minted in the name of a withdrawn agreement if nothing waits. -/
theorem Step.mints_none {step : Step β} (guard : step.Guard deployment tid service)
    (kept : service.Withdrawn) (withdrew : Note.withdrew id ∈ service.journal)
    (ran : step.run deployment tid choice service = some (answer, after)) {minter : Nat}
    {intended : Intended} {grant : Grant} {receipt : Receipt}
    (named : grant.approver.agreement = some id)
    (minted : Note.collected minter intended grant receipt ∈ after.journal) :
    Note.collected minter intended grant receipt ∈ service.journal := by
  rcases Step.collected_cases guard ran minted with before | collecting
  · exact before
  obtain ⟨held, member, by_, state, rfl⟩ := collecting.held
  exact absurd (RequestPart.awaits_iff.mpr
    ⟨held, member, by_, state, named, .inr collecting.collecting⟩)
    (Bool.eq_false_iff.mp (kept id withdrew))

/-- What happens by itself lets nothing new wait, and notes nothing. -/
theorem Happening.keeps_withdrawn {happening : Happening}
    (happened : happening.run service = some after) :
    after.journal = service.journal ∧ (service.Withdrawn → after.Withdrawn) := by
  suffices awaits : after.journal = service.journal ∧
      ∀ id, after.awaits id = true → service.awaits id = true by
    refine ⟨awaits.1, fun kept id withdrew => Bool.eq_false_iff.mpr fun is => ?_⟩
    rw [awaits.1] at withdrew
    exact Bool.eq_false_iff.mp (kept id withdrew) (awaits.2 id is)
  cases happening with
  | tick later =>
    simp only [Happening.run] at happened
    split at happened
    · rename_i le
      cases happened
      refine ⟨rfl, fun id awaits => ?_⟩
      obtain ⟨held, member, by_, state, named, open'⟩ := RequestPart.awaits_iff.mp awaits
      exact RequestPart.awaits_iff.mpr
        ⟨held, member, by_, state, named, open'.imp_left (Nat.lt_of_le_of_lt le)⟩
    · cases happened
  | rehashRequests requests =>
    simp only [Happening.run, Bool.and_eq_true, List.isPerm_iff] at happened
    split at happened
    · rename_i ok
      cases happened
      refine ⟨rfl, fun id awaits => RequestPart.awaits_fewer awaits
        (fun held member _ _ => ok.2.mem_iff.mpr member) (fun _ _ same => .inr same)⟩
    · cases happened
  | rehashSessions | rehashStanding =>
    simp only [Happening.run] at happened
    split at happened
    · cases happened
      exact ⟨rfl, fun _ awaits => awaits⟩
    · cases happened

/-! ## Careful withdrawals -/

/-- Whether a move does not withdraw an agreement in whose name a request waits
to be collected. -/
def careful (world : World) : BastionMove → Bool
  | .turn tid _ =>
    match world.threads[tid]? with
    | some ⟨_, .act (.standing (.revoke id)) _, _⟩ =>
      !(world.shared.standing.any (·.id = id) && world.shared.awaits id)
    | _ => true
  | _ => true

/-- Reached by moves that withdraw no agreement in whose name a request waits. -/
abbrev Careful (deployment : Deployment) (before after : World) : Prop :=
  Runs (semantics deployment) (Call.program deployment) (fun world move => careful world move = true)
    before after

theorem careful_withdraws {world : World} {call : Call} {past : List Took} {step : Step β}
    {next : β → Prog Reply} (found : world.threads[tid]? = some ⟨call, .act step next, past⟩)
    (ok : careful world (.turn tid choice) = true) (withdraws : step.Withdraws world.shared id) :
    world.shared.awaits id = false := by
  simp only [careful, found] at ok
  cases step with
  | standing step =>
    cases step with
    | revoke other =>
      obtain ⟨rfl, stood⟩ := withdraws
      simpa [stood] using ok
    | _ => cases withdraws
  | _ => cases withdraws

theorem Careful.reachable {world later : World} (onward : Careful deployment world later)
    (reached : Reachable deployment world) : Reachable deployment later := by
  obtain ⟨clock, run⟩ := reached
  exact ⟨clock, run.trans (onward.mono fun _ _ _ => trivial)⟩

/-- Nothing is minted later in the name of an agreement that is withdrawn. -/
theorem Careful.withdrawn {world later : World} (reached : Reachable deployment world)
    (kept : world.shared.Withdrawn) (onward : Careful deployment world later) :
    later.shared.Withdrawn ∧ ∀ id, Note.withdrew id ∈ world.shared.journal →
      Note.withdrew id ∈ later.shared.journal ∧
      ∀ minter intended grant receipt, grant.approver.agreement = some id →
        Note.collected minter intended grant receipt ∈ later.shared.journal →
          Note.collected minter intended grant receipt ∈ world.shared.journal := by
  induction onward with
  | refl => exact ⟨kept, fun id withdrew => ⟨withdrew, fun _ _ _ _ _ minted => minted⟩⟩
  | @tail middle last onward step ih =>
    obtain ⟨move, ok, moved⟩ := step
    obtain ⟨kept, since⟩ := ih
    cases move with
    | spawn call =>
      cases moved
      exact ⟨kept, since⟩
    | turn tid choice =>
      obtain ⟨call, past, β, step, next, answer, found, ran, -⟩ := World.move_turn moved
      have good := (Careful.reachable onward reached).good
      have guard := good.guard found
      refine ⟨Step.keeps_withdrawn good.inv guard kept (fun id => careful_withdraws found ok) ran,
        fun id withdrew => ?_⟩
      obtain ⟨withdrew, since⟩ := since id withdrew
      refine ⟨?_, fun minter intended grant receipt named minted =>
        since minter intended grant receipt named (Step.mints_none guard kept withdrew ran named minted)⟩
      obtain ⟨-, -, -, eq⟩ := Step.ran ran
      rw [eq]
      exact List.mem_append_left _ withdrew
    | environment event =>
      obtain ⟨shared, happened, rfl⟩ := Option.map_eq_some_iff.mp moved
      obtain ⟨journal, keeps⟩ := Happening.keeps_withdrawn happened
      change shared.Withdrawn ∧ ∀ id, _ → _ ∈ shared.journal ∧ _
      rw [journal]
      exact ⟨keeps kept, fun id withdrew => since id withdrew⟩

/-- **A withdrawal is final where no request waits in the agreement's name.**
Once `revoke_standing` has returned that an agreement was withdrawn, no receipt
is minted in its name, if no withdrawal was made while a request that stood
approved in that agreement's name could still be collected. -/
theorem withdrawal_final {clock : Nat} {world later : World}
    (run : Careful deployment (World.new deployment clock) world) {past : List Took}
    (withdrew : world.threads[tid]? = some ⟨.revokeStanding id, .done (.withdrew true), past⟩)
    (onward : Careful deployment world later) {minter : Nat} {intended : Intended} {grant : Grant}
    {receipt : Receipt} (minted : Note.collected minter intended grant receipt ∈ later.shared.journal)
    (named : grant.approver.agreement = some id) :
    Note.collected minter intended grant receipt ∈ world.shared.journal := by
  have new : Reachable deployment (World.new deployment clock) := ⟨clock, .refl⟩
  have none' : (World.new deployment clock).shared.Withdrawn := fun _ withdrew => by cases withdrew
  have reached := Careful.reachable run new
  obtain ⟨kept, -⟩ := Careful.withdrawn new none' run
  obtain ⟨-, noted⟩ := reached.good.finished withdrew
  exact ((Careful.withdrawn reached kept onward).2 id (noted rfl)).2 minter intended grant receipt
    named minted

/-! ## On the sample -/

namespace Sample

/-- The same action is asked for again. -/
def asking : BastionMove := .spawn (.authorize alice ⟨5⟩ default (.ok default))

/-- The world some moves lead on to, if they can be made. -/
def onward (world : World) (moves : List BastionMove) : World :=
  (world.play (semantics reviewed) (Call.program reviewed) moves).getD world

theorem onward_runs (world : World) (moves : List BastionMove) :
    Runs (semantics reviewed) (Call.program reviewed) (fun _ _ => True) world
      (onward world moves) := by
  unfold onward
  cases played : world.play (semantics reviewed) (Call.program reviewed) moves with
  | none => exact .refl
  | some after => exact World.play_runs played

/-- The world some careful moves lead on to. -/
def carefully (world : World) (moves : List BastionMove) : World :=
  (world.playIf (semantics reviewed) (Call.program reviewed) careful moves).getD world

theorem carefully_runs (world : World) (moves : List BastionMove) :
    Careful reviewed world (carefully world moves) := by
  unfold carefully
  cases played : world.playIf (semantics reviewed) (Call.program reviewed) careful moves with
  | none => exact .refl
  | some after => exact World.playIf_runs played

/-- A person agrees to a command and to its session. The agreement answers the
command after it, whose collection is refused by the recording boundary, and
is withdrawn. -/
def refusedCollection : List BastionMove :=
  opening ++ asking :: turns 1 10 6 ++ .spawn (.approveSession ⟨13⟩ "bob" none) :: turns 2 20 11 ++
    asking :: turns 3 40 8 ++ asking :: turns 4 50 13 ++ failing 4 63 :: turns 4 64 3 ++
    .spawn (.revokeStanding ⟨29⟩) :: turns 5 70 1

/-- The agreement answers the command after it, and is withdrawn. -/
def withdrawn : List BastionMove := standing ++ .spawn (.revokeStanding ⟨29⟩) :: turns 5 70 1

end Sample

theorem Journal.mem_collections {journal : Journal} {handed : Nat × Intended × Grant × Receipt} :
    handed ∈ journal.filterMap Note.collection ↔
      Note.collected handed.1 handed.2.1 handed.2.2.1 handed.2.2.2 ∈ journal := by
  constructor
  · intro member
    obtain ⟨note, inside, is⟩ := List.mem_filterMap.mp member
    cases note with
    | collected =>
      cases is
      exact inside
    | _ => cases is
  · exact fun member => List.mem_filterMap.mpr ⟨_, member, rfl⟩

/-- What was collected in the name of an agreement. -/
def Journal.collectionsFor (journal : Journal) (id : AgreementId) :
    List (Nat × Intended × Grant × Receipt) :=
  (journal.filterMap Note.collection).filter (fun handed => handed.2.2.1.approver.agreement = some id)

/-- The sample's agreement is withdrawn, and the call after that is handed a
receipt in its name. -/
theorem withdrawal_not_final : ∃ (world later : World) (past : List Took) (tid : Nat)
    (intended : Intended) (grant : Grant) (receipt : Receipt),
    Reachable Sample.reviewed world ∧
    world.threads[5]? = some ⟨.revokeStanding ⟨29⟩, .done (.withdrew true), past⟩ ∧
    Runs (semantics Sample.reviewed) (Call.program Sample.reviewed) (fun _ _ => True) world later ∧
    world.threads.length ≤ tid ∧
    Note.collected tid intended grant receipt ∈ later.shared.journal ∧
    grant.approver.agreement = some ⟨29⟩ ∧
    Note.collected tid intended grant receipt ∉ world.shared.journal := by
  have one : ((Sample.onward (Sample.run Sample.refusedCollection)
      (Sample.asking :: Sample.turns 6 80 7)).shared.journal.collectionsFor ⟨29⟩).any
        (fun handed => (Sample.run Sample.refusedCollection).threads.length ≤ handed.1) = true := by
    decide +kernel
  have none' : (Sample.run Sample.refusedCollection).shared.journal.collectionsFor ⟨29⟩ = [] := by
    decide +kernel
  obtain ⟨handed, first, after⟩ := List.any_eq_true.mp one
  obtain ⟨member, named⟩ := List.mem_filter.mp first
  have named := of_decide_eq_true named
  refine ⟨_, _, _, handed.1, handed.2.1, handed.2.2.1, handed.2.2.2,
    Sample.run_reachable Sample.refusedCollection, rfl, Sample.onward_runs _ _,
    of_decide_eq_true after, Journal.mem_collections.mp member, named, fun there => ?_⟩
  have inside : handed ∈
      (Sample.run Sample.refusedCollection).shared.journal.collectionsFor ⟨29⟩ :=
    List.mem_filter.mpr ⟨Journal.mem_collections.mpr there, decide_eq_true named⟩
  rw [none'] at inside
  cases inside

/-- The sample's agreement was used and is withdrawn, and what was minted in
its name later on was minted before. -/
theorem withdrawal_final_withdrawn : ∃ tid intended grant receipt,
    grant.approver.agreement = some ⟨29⟩ ∧
    Note.collected tid intended grant receipt ∈ (Sample.carefully (World.new Sample.reviewed 0)
      Sample.withdrawn).shared.journal := by
  have one : ((Sample.carefully (Sample.carefully (World.new Sample.reviewed 0) Sample.withdrawn)
      (Sample.asking :: Sample.turns 6 80 7)).shared.journal.collectionsFor ⟨29⟩).head?.isSome := by
    decide +kernel
  obtain ⟨handed, first⟩ := Option.isSome_iff_exists.mp one
  obtain ⟨member, named⟩ := List.mem_filter.mp (List.mem_of_head? first)
  have named := of_decide_eq_true named
  obtain ⟨past, finished⟩ : ∃ past, (Sample.carefully (World.new Sample.reviewed 0)
      Sample.withdrawn).threads[5]? = some ⟨.revokeStanding ⟨29⟩, .done (.withdrew true), past⟩ :=
    ⟨_, rfl⟩
  exact ⟨handed.1, handed.2.1, handed.2.2.1, handed.2.2.2, named, withdrawal_final
    (Sample.carefully_runs _ Sample.withdrawn) finished (Sample.carefully_runs _ _)
    (Journal.mem_collections.mp member) named⟩

end McpSsh.Bastion
