import McpSsh.Bastion.Invariant

/-!
# What a step leaves to others

Whatever step a call takes, another call can still rely on what it knew. A part
changes only under its own lock, a note is tagged with the call whose step it
is, and only the holder of the request lock records an agreement.
-/

namespace McpSsh.Bastion

variable {deployment : Deployment} {tid other : Nat} {choice : Choice} {service after : Service}
variable {β : Type} {step : Step β} {answer : β}

/-- What it takes for a step to run, and what it leaves. -/
theorem Step.ran (ran : step.run deployment tid choice service = some (answer, after)) :
    service.journal.unused choice.draw = true ∧ service.permits tid step.use = true ∧
      answer = (step.effect deployment tid choice service).answer ∧
      after = { (step.effect deployment tid choice service).part with
        locks := service.locksAfter tid (step.effect deployment tid choice service).holds step.use
        proofs := (step.effect deployment tid choice service).proofs.map (tid, ·) ++
          (step.effect deployment tid choice service).part.proofs
        journal := service.journal ++ (step.effect deployment tid choice service).notes } := by
  unfold Step.run at ran
  split at ran
  · rename_i ok
    simp only [Bool.and_eq_true] at ok
    simp only [Option.some.injEq, Prod.mk.injEq] at ran
    exact ⟨ok.1, ok.2, ran.1.symm, ran.2.symm⟩
  · cases ran

/-! ## Notes -/

/-- Whether a step registers a run. -/
def RunStep.Registers {β : Type} : RunStep β → Prop
  | .register .. => True
  | _ => False

def Step.Registers {β : Type} : Step β → Prop
  | .runs step => step.Registers
  | _ => False

/-- Whether a step is one of the ledger. -/
def Step.Records {β : Type} : Step β → Prop
  | .ledger _ => True
  | _ => False

/-- Whether a step withdraws an agreement that stands. -/
def StandingStep.Withdraws {β : Type} (standing : Approvals.Agreements) (id : AgreementId) :
    StandingStep β → Prop
  | .revoke other => other = id ∧ standing.any (·.id = id) = true
  | _ => False

def Step.Withdraws {β : Type} (service : Service) (id : AgreementId) : Step β → Prop
  | .standing step => step.Withdraws service.standing id
  | _ => False

/-- The notes a step can add, each of its own call's. -/
theorem Step.notes_cases {motive : Note → Prop} (guard : step.Guard deployment tid service)
    (opened : ∀ session, motive (.opened tid session))
    (committed : step.Records → ∀ entry, motive (.committed entry))
    (recorded : ∀ intended, motive (.recorded tid intended))
    (raised : ∀ intended asked, motive (.raised tid intended asked))
    (joined : ∀ request, motive (.joined tid request))
    (lapsed : ∀ request by_, motive (.lapsed tid request by_))
    (found : ∀ request reading, motive (.found tid request reading))
    (answered : ∀ answer redeemBy, motive (.answered tid answer redeemBy))
    (collected : ∀ intended grant receipt, Collecting deployment tid intended grant service →
      motive (.collected tid intended grant receipt))
    (granted : ∀ what, motive (.granted tid what))
    (selected : ∀ agreement reading, motive (.selected tid agreement reading))
    (withdrew : ∀ agreement, step.Withdraws service agreement → motive (.withdrew agreement))
    (dialled : ∀ connection, motive (.dialled tid connection))
    (placed : ∀ holder session, motive (.placed tid holder session))
    (bound : ∀ session connection, motive (.bound tid session connection))
    (registered : step.Registers → ∀ session run, motive (.registered tid session run)) :
    ∀ note ∈ (step.effect deployment tid choice service).notes, motive note := by
  intro note member
  have guarded := guard.2
  cases step with
  | service step => cases step <;> cases member
  | sessions step =>
    cases step with
    | publish =>
      simp only [Step.effect, SessionStep.effect, List.mem_singleton] at member
      exact member ▸ opened _
    | reserve =>
      simp only [Step.effect, SessionStep.effect] at member
      split at member <;> cases member
    | claim =>
      simp only [Step.effect, SessionStep.effect] at member
      split at member <;> cases member
    | _ => cases member
  | requests step =>
    cases step with
    | ask intended =>
      simp only [Step.effect, RequestStep.effect] at member
      split at member
      · rw [List.mem_singleton] at member
        exact member ▸ found _ _
      · simp only [askNotes] at member
        split at member
        · rw [List.mem_singleton] at member
          exact member ▸ found _ _
        · rw [List.mem_singleton] at member
          exact member ▸ raised _ _
        · rw [List.mem_singleton] at member
          exact member ▸ joined _
        · split at member
          · simp only [List.mem_cons, List.not_mem_nil, or_false] at member
            rcases member with rfl | rfl
            · exact raised _ _
            · exact lapsed _ _
          · cases member
        · cases member
    | redeem =>
      simp only [Step.effect, RequestStep.effect] at member
      split at member
      · cases member
      · rw [List.mem_singleton] at member
        exact member ▸ found _ _
    | decidable =>
      simp only [Step.effect, RequestStep.effect] at member
      split at member <;> cases member
    | answer =>
      simp only [Step.effect, RequestStep.effect, List.mem_singleton] at member
      exact member ▸ answered _ _
    | _ => cases member
  | standing step =>
    cases step with
    | select =>
      simp only [Step.effect, StandingStep.effect] at member
      split at member
      · cases member
      · rw [List.mem_singleton] at member
        exact member ▸ selected _ _
    | grant =>
      simp only [Step.effect, StandingStep.effect, List.mem_singleton] at member
      exact member ▸ granted _
    | revoke =>
      simp only [Step.effect, StandingStep.effect] at member
      split at member
      · rename_i stood
        rw [List.mem_singleton] at member
        exact member ▸ withdrew _ ⟨rfl, stood⟩
      · cases member
    | _ => cases member
  | ledger step =>
    cases step with
    | recordIntent =>
      simp only [Step.effect, LedgerStep.effect] at member
      split at member
      · cases member
      · simp only [List.mem_cons, List.not_mem_nil, or_false] at member
        rcases member with rfl | rfl
        · exact committed trivial _
        · exact recorded _
    | thisDeliberation => cases member
    | recordApproval =>
      simp only [Step.effect, LedgerStep.effect] at member
      split at member
      · cases member
      · simp only [List.mem_cons, List.not_mem_nil, or_false] at member
        rcases member with rfl | rfl
        · exact committed trivial _
        · exact collected _ _ _ guarded
    | recordAnswer =>
      simp only [Step.effect, LedgerStep.effect] at member
      split at member
      · cases member
      · rw [List.mem_singleton] at member
        exact member ▸ committed trivial _
    | record =>
      simp only [Step.effect, LedgerStep.effect] at member
      split at member
      · cases member
      · rw [List.mem_singleton] at member
        exact member ▸ committed trivial _
    | reclaim =>
      simp only [Step.effect, LedgerStep.effect] at member
      split at member <;> cases member
  | links step =>
    cases step with
    | dial =>
      simp only [Step.effect, LinkStep.effect] at member
      split at member
      · rw [List.mem_singleton] at member
        exact member ▸ dialled _
      · cases member
    | insert =>
      simp only [Step.effect, LinkStep.effect, List.mem_cons, List.not_mem_nil, or_false] at member
      rcases member with rfl | rfl
      · exact placed _ _
      · exact bound _ _
    | replace =>
      simp only [Step.effect, LinkStep.effect, List.mem_map] at member
      obtain ⟨holder, -, rfl⟩ := member
      exact bound _ _
    | _ => cases member
  | runs step =>
    cases step with
    | register =>
      simp only [Step.effect, RunStep.effect] at member
      split at member
      · cases member
      · rw [List.mem_singleton] at member
        exact member ▸ registered trivial _ _
    | _ => cases member

/-- A note names the call whose step it is, if any. -/
theorem Step.notes_tid (guard : step.Guard deployment tid service) :
    ∀ note ∈ (step.effect deployment tid choice service).notes,
      note.tid = none ∨ note.tid = some tid := by
  apply Step.notes_cases (motive := fun note => note.tid = none ∨ note.tid = some tid) guard <;>
    intros <;> simp [Note.tid]

/-- Only a registration notes a run. -/
theorem Step.notes_registers (guard : step.Guard deployment tid service)
    (registers : ¬ step.Registers) :
    ∀ note ∈ (step.effect deployment tid choice service).notes, note.registers = none := by
  apply Step.notes_cases (motive := fun note => note.registers = none) guard
  case registered => exact fun yes => absurd yes registers
  all_goals
    intros
    rfl

/-- Only the holder of the request lock records an agreement. -/
theorem Step.notes_collects (guard : step.Guard deployment tid service) :
    ∀ note ∈ (step.effect deployment tid choice service).notes,
      note.collects ≠ none → service.locks .requests = some tid := by
  apply Step.notes_cases
    (motive := fun note => note.collects ≠ none → service.locks .requests = some tid) guard
  case collected => exact fun _ _ _ collecting _ => collecting.lock
  all_goals
    intros
    contradiction

/-! ## Parts -/

@[simp] theorem Step.effect_clock :
    (step.effect deployment tid choice service).part.clock = service.clock := by
  cases step with
  | service step => cases step <;> rfl
  | _ => rfl

/-- The request store changes under its lock only. -/
theorem Step.effect_approvals (permits : service.permits tid step.use = true)
    (held : service.locks .requests = some other) (differ : other ≠ tid) :
    (step.effect deployment tid choice service).part.approvals = service.approvals := by
  cases step with
  | service step => cases step <;> rfl
  | requests step => cases step <;> simp [Step.use, RequestStep.use, Service.permits, held, differ] at permits
  | _ => rfl

theorem Step.effect_standing (permits : service.permits tid step.use = true)
    (held : service.locks .standing = some other) (differ : other ≠ tid) :
    (step.effect deployment tid choice service).part.standing = service.standing := by
  cases step with
  | service step => cases step <;> rfl
  | standing step => cases step <;> simp [Step.use, StandingStep.use, Service.permits, held, differ] at permits
  | _ => rfl

theorem Step.effect_held (permits : service.permits tid step.use = true)
    (held : service.locks .sessions = some other) (differ : other ≠ tid) :
    (step.effect deployment tid choice service).part.sessions.store.held =
      service.sessions.store.held := by
  cases step with
  | service step => cases step <;> rfl
  | sessions step =>
    cases step with
    | release => rfl
    | _ => simp [Step.use, SessionStep.use, Service.permits, held, differ] at permits
  | _ => rfl

theorem Step.effect_openings (differ : other ≠ tid) (principal : PrincipalId) :
    (step.effect deployment tid choice service).part.sessions.openings.count (other, principal) =
      service.sessions.openings.count (other, principal) := by
  have apart : ∀ p, (tid, p) ≠ (other, principal) := fun p same => differ (by cases same; rfl)
  cases step with
  | service step => cases step <;> rfl
  | sessions step =>
    cases step with
    | reserve principal' =>
      simp only [Step.effect, SessionStep.effect]
      split
      · rfl
      · simp [Effect.plain, apart]
    | release principal' =>
      simp only [Step.effect, SessionStep.effect, Effect.plain]
      rw [List.count_erase_of_ne (apart _).symm]
    | publish principal' =>
      simp only [Step.effect, SessionStep.effect]
      rw [List.count_erase_of_ne (apart _).symm]
    | claim =>
      simp only [Step.effect, SessionStep.effect]
      split <;> rfl
    | _ => rfl
  | _ => rfl

theorem Step.effect_proofs (differ : other ≠ tid) {sequence : Nat}
    (member : (other, sequence) ∈ service.proofs) :
    (other, sequence) ∈ (step.effect deployment tid choice service).part.proofs := by
  cases step with
  | service step =>
    cases step with
    | leave => exact List.mem_filter.mpr ⟨member, by simpa using differ⟩
    | _ => exact member
  | _ => exact member

/-- Replacing what one holder holds leaves the others. -/
theorem find_replaced {holder id : Nat} {connection : Connection} (apart : id ≠ holder)
    (holders : List Holder) :
    (holders.map (fun held => if held.id = holder then { held with connection } else held)).find?
        (·.id = id) = holders.find? (·.id = id) := by
  induction holders with
  | nil => rfl
  | cons head tail ih =>
    rw [List.map_cons, List.find?_cons, List.find?_cons, ih]
    split_ifs with here
    · simp [here, Ne.symm apart]
    · rfl

/-- A holder is looked up under its own lock, and stays under its number. -/
theorem Step.effect_holders (inv : Inv deployment service)
    (unused : service.journal.unused choice.draw = true)
    (permits : service.permits tid step.use = true) {held : Holder}
    (locked : service.locks (.holder held.id) = some other) (differ : other ≠ tid)
    (found : service.links.find held.id = some held) :
    (step.effect deployment tid choice service).part.links.find held.id = some held := by
  cases step with
  | service step => cases step <;> exact found
  | links step =>
    cases step with
    | dial target =>
      simp only [Step.effect, LinkStep.effect]
      split <;> exact found
    | insert session connection =>
      obtain ⟨placer, placed⟩ := inv.links.holders held (List.mem_of_find?_eq_some found)
      have apart : choice.draw ≠ held.id := fun same =>
        inv.history.unused unused placed (by simp [Note.drawn, same])
      simp only [Step.effect, LinkStep.effect, LinkPart.find, List.find?_cons]
      rw [decide_eq_false apart]
      exact found
    | replace holder connection =>
      have apart : held.id ≠ holder := by
        rintro rfl
        simp [Step.use, LinkStep.use, Service.permits, locked, differ] at permits
      simp only [Step.effect, LinkStep.effect, LinkPart.find]
      rw [find_replaced apart]
      exact found
    | _ => exact found
  | _ => exact found

/-- A session that cannot be used is not made usable. -/
theorem Step.effect_gone (distinct : service.sessions.store.Distinct) (unused : service.journal.unused choice.draw = true)
    {session : Session} (opened : service.journal.Opened session)
    (gone : service.sessions.store.usable service.clock session.id = none) :
    (step.effect deployment tid choice service).part.sessions.store.usable service.clock session.id =
      none := by
  cases step with
  | service step => cases step <;> exact gone
  | sessions step =>
    cases step with
    | reserve principal =>
      simp only [Step.effect, SessionStep.effect]
      split
      · rename_i eq
        exact Sessions.usable_sublist distinct (Sessions.reserve_eq eq).1 gone
      · rename_i eq
        exact Sessions.usable_sublist distinct (Sessions.reserve_eq eq).1 gone
    | publish principal host role purpose accessClass =>
      -- The identifier drawn is not that of a session opened before.
      obtain ⟨opener, lastUsed, inside⟩ := opened
      have differ : choice.draw ≠ session.id.draw := by
        intro same
        have missed := List.all_eq_true.mp unused _ inside
        simp [Note.drawn, same] at missed
      simp only [Step.effect, SessionStep.effect, Sessions.usable, Sessions.find, Sessions.publish,
        sessionOpened, List.find?_cons] at gone ⊢
      rw [decide_eq_false (fun same => differ (by rw [← same]))]
      exact gone
    | useSession id principal =>
      simp only [Step.effect, SessionStep.effect]
      exact Sessions.useSession_usable distinct rfl gone
    | close id principal =>
      simp only [Step.effect, SessionStep.effect]
      exact Sessions.usable_sublist distinct Sessions.close_held gone
    | sweep => exact Sessions.usable_sublist distinct Sessions.sweep_held gone
    | claim id =>
      simp only [Step.effect, SessionStep.effect]
      split <;> exact gone
    | removeClaimed id => exact Sessions.usable_sublist distinct Sessions.remove_held gone
    | _ => exact gone
  | _ => exact gone

/-! ## The frame -/

/-- A lock of another call stays that call's. -/
theorem Service.locksAfter_other {use : Use} {holds : Bool} (permits : service.permits tid use = true)
    (differ : other ≠ tid) (which : Lock) :
    service.locks which = some other ↔ service.locksAfter tid holds use which = some other := by
  have apart : ∀ was : Option Nat, (was = none ∨ was = some tid) → was ≠ some other := by
    rintro was (rfl | rfl) <;> simp [Ne.symm differ]
  cases use with
  | without => exact Iff.rfl
  | takes lock =>
    simp only [Service.permits, decide_eq_true_eq] at permits
    simp only [Service.locksAfter, Function.update_apply]
    split
    · rename_i same
      subst same
      constructor
      · intro held; exact (apart _ (.inl permits) held).elim
      · intro held; split at held <;> simp [Ne.symm differ] at held
    · exact Iff.rfl
  | has lock =>
    simp only [Service.permits, decide_eq_true_eq] at permits
    simp only [Service.locksAfter, Function.update_apply]
    split
    · rename_i same
      subst same
      constructor
      · intro held; exact (apart _ (.inr permits) held).elim
      · intro held; split at held <;> simp [Ne.symm differ] at held
    · exact Iff.rfl

/-- **Frame.** Another call relies on what a step leaves. -/
theorem Step.rely (inv : Inv deployment service) (guard : step.Guard deployment tid service)
    (ran : step.run deployment tid choice service = some (answer, after)) (differ : other ≠ tid) :
    Rely other service after := by
  obtain ⟨unused, permits, rfl, rfl⟩ := Step.ran ran
  constructor
  · simp
  · exact List.prefix_append _ _
  · exact Service.locksAfter_other permits differ
  · exact fun held => Step.effect_approvals permits held differ
  · intro held note member collects
    rcases List.mem_append.mp member with old | new
    · exact old
    · have mine := Step.notes_collects guard note new collects
      rw [held] at mine
      exact (differ (Option.some.inj mine)).elim
  · exact fun held => Step.effect_standing permits held differ
  · exact fun held => Step.effect_held permits held differ
  · exact fun principal => Step.effect_openings differ principal
  · exact fun held locked found => Step.effect_holders inv unused permits locked differ found
  · exact fun sequence member => List.mem_append_right _ (Step.effect_proofs differ member)
  · intro note member tagged
    rcases List.mem_append.mp member with old | new
    · exact old
    · rcases Step.notes_tid guard note new with untagged | mine
      · rw [untagged] at tagged; cases tagged
      · rw [mine] at tagged
        exact (differ (Option.some.inj tagged).symm).elim
  · intro session opened gone
    have stays : (step.effect deployment tid choice service).part.sessions.store.usable
        service.clock session.id = none := Step.effect_gone inv.sessions.ids unused opened gone
    have clock : (step.effect deployment tid choice service).part.clock = service.clock :=
      Step.effect_clock
    rw [← clock] at stays
    exact stays

end McpSsh.Bastion
