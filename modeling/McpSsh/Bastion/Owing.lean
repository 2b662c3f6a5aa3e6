import McpSsh.Lib.Debts
import McpSsh.Bastion.Kinds
import McpSsh.Bastion.Worlds

/-!
# What a call has to give back

A session slot that was reserved is released or used, and the proofs a call
holds in its local variables go with them. Both are counted along the programs
of the calls.
-/

namespace McpSsh.Bastion

open Interleaving

variable {deployment : Deployment} {tid other : Nat} {choice : Choice} {service after : Service}
variable {α β : Type} {answer : β}

/-! ## What a step leaves owed -/

def SessionStep.slots {β : Type} : SessionStep β → β → Nat → Nat
  | .reserve _, .ok _, owed => owed + 1
  | .release _, _, owed => owed - 1
  | .publish .., _, owed => owed - 1
  | _, _, owed => owed

def ServiceStep.proofs {β : Type} : ServiceStep β → Nat → Nat
  | .leave, _ => 0
  | _, owed => owed

def RequestStep.proofs {β : Type} : RequestStep β → Nat → Nat
  | .answer .., owed => owed + 1
  | _, owed => owed

def LedgerStep.proofs {β : Type} : LedgerStep β → β → Nat → Nat
  | .recordIntent .., .ok _, owed => owed + 1
  | _, _, owed => owed

/-- The slots and the proofs a call has after a step. -/
def Step.owing {β : Type} : Step β → β → Nat × Nat → Nat × Nat
  | .service step, _, (slots, proofs) => (slots, step.proofs proofs)
  | .sessions step, answer, (slots, proofs) => (step.slots answer slots, proofs)
  | .requests step, _, (slots, proofs) => (slots, step.proofs proofs)
  | .ledger step, answer, (slots, proofs) => (slots, step.proofs answer proofs)
  | _, _, owed => owed

theorem SessionStep.slots_mono (step : SessionStep β) (answer : β) : Monotone (step.slots answer) := by
  intro few many le
  cases step with
  | reserve =>
    cases answer with
    | error => exact le
    | ok => exact Nat.succ_le_succ le
  | release | publish => exact Nat.sub_le_sub_right le 1
  | _ => exact le

theorem ServiceStep.proofs_mono (step : ServiceStep β) : Monotone step.proofs := by
  intro few many le
  cases step with
  | leave => exact Nat.le_refl 0
  | _ => exact le

theorem RequestStep.proofs_mono (step : RequestStep β) : Monotone step.proofs := by
  intro few many le
  cases step with
  | answer => exact Nat.succ_le_succ le
  | _ => exact le

theorem LedgerStep.proofs_mono (step : LedgerStep β) (answer : β) : Monotone (step.proofs answer) := by
  intro few many le
  cases step with
  | recordIntent =>
    cases answer with
    | error => exact le
    | ok => exact Nat.succ_le_succ le
  | _ => exact le

/-- Slots and proofs, as what calls owe. -/
def debts : Debts Step (Nat × Nat) where
  after := Step.owing
  mono := by
    intro β step answer few many le
    cases step with
    | service step => exact ⟨le.1, step.proofs_mono le.2⟩
    | sessions step => exact ⟨step.slots_mono answer le.1, le.2⟩
    | requests step => exact ⟨le.1, step.proofs_mono le.2⟩
    | ledger step => exact ⟨le.1, step.proofs_mono answer le.2⟩
    | _ => exact le

/-- What is held on a call's account. -/
def Service.owed (tid : Nat) (service : Service) : Nat × Nat :=
  (service.sessions.openings.countP (·.1 = tid), service.proofs.countP (·.1 = tid))

/-! ## Steps and accounts -/

/-- Leaving out one of a call's own slots. -/
theorem countP_erase_own {openings : List (Nat × PrincipalId)} {principal : PrincipalId}
    (mine : (tid, principal) ∈ openings) :
    (openings.erase (tid, principal)).countP (·.1 = tid) = openings.countP (·.1 = tid) - 1 := by
  rw [List.countP_erase, if_pos ⟨mine, by simp⟩]

theorem countP_erase_other {openings : List (Nat × PrincipalId)} {principal : PrincipalId}
    (differ : other ≠ tid) :
    (openings.erase (tid, principal)).countP (·.1 = other) = openings.countP (·.1 = other) := by
  rw [List.countP_erase, if_neg (fun both => differ (of_decide_eq_true both.2).symm)]
  rfl

/-- A session step leaves others' slots alone. -/
theorem SessionStep.effect_others {step : SessionStep β} {clock draw : Nat} {part : SessionPart}
    (differ : other ≠ tid) :
    (step.effect deployment tid clock draw part).part.openings.countP (·.1 = other) =
      part.openings.countP (·.1 = other) := by
  cases step with
  | reserve =>
    simp only [SessionStep.effect]
    split
    · rfl
    · exact List.countP_cons_of_neg (by simpa using differ.symm)
  | release | publish => exact countP_erase_other differ
  | claim =>
    simp only [SessionStep.effect]
    split <;> rfl
  | _ => rfl

theorem SessionStep.effect_slots {step : SessionStep β} {clock draw : Nat}
    (guard : step.Guard deployment tid service) :
    (step.effect deployment tid clock draw service.sessions).part.openings.countP (·.1 = tid) =
      step.slots (step.effect deployment tid clock draw service.sessions).answer
        (service.sessions.openings.countP (·.1 = tid)) := by
  cases step with
  | reserve =>
    simp only [SessionStep.effect]
    split
    · rfl
    · exact List.countP_cons_of_pos (by simp)
  | release => exact countP_erase_own guard
  | publish => exact countP_erase_own guard.1
  | claim =>
    simp only [SessionStep.effect]
    split <;> rfl
  | _ => rfl

theorem countP_tagged (proofs : List Nat) :
    (proofs.map (tid, ·)).countP (·.1 = other) = if other = tid then proofs.length else 0 := by
  induction proofs with
  | nil => simp
  | cons first rest ih =>
    rw [List.map_cons, List.countP_cons, ih]
    split_ifs with same <;> simp_all

theorem RequestStep.effect_proofs {step : RequestStep β} {config : Approvals.Config}
    {clock draw : Nat} {part : RequestPart} (owed : Nat) :
    (step.effect config tid clock draw part).proofs.length + owed ≤ step.proofs owed := by
  have none' : ∀ {effect : Effect RequestPart β}, effect.proofs = [] →
      effect.proofs.length + owed ≤ owed := by
    intro effect none'
    rw [none', List.length_nil, Nat.zero_add]
  cases step with
  | answer held =>
    have one : held.proof.toList.length ≤ 1 := by cases held.proof <;> simp
    exact (Nat.add_le_add_right one owed).trans (Nat.le_of_eq (Nat.add_comm 1 owed))
  | _ =>
    refine none' ?_
    simp only [RequestStep.effect]
    try split
    all_goals rfl

theorem LedgerStep.effect_proofs {step : LedgerStep β} {clock : Nat} {accepts : Bool}
    {alive : Nat → Bool} {ledger : Ledger.State} (owed : Nat) :
    (step.effect deployment tid clock accepts alive ledger).proofs.length + owed ≤
      step.proofs (step.effect deployment tid clock accepts alive ledger).answer owed := by
  cases step with
  | recordIntent decision intent =>
    simp only [LedgerStep.effect]
    split
    · exact Nat.le_of_eq (Nat.zero_add owed)
    · rename_i intended _
      have one : intended.proof.toList.length ≤ 1 := by cases intended.proof <;> simp
      exact (Nat.add_le_add_right one owed).trans (Nat.le_of_eq (Nat.add_comm 1 owed))
  | thisDeliberation => exact Nat.le_of_eq (Nat.zero_add owed)
  | _ =>
    simp only [LedgerStep.effect]
    split <;> exact Nat.le_of_eq (Nat.zero_add owed)

/-- The proofs a step leaves a call with. -/
theorem Step.effect_kept {step : Step β} :
    (step.effect deployment tid choice service).proofs.length +
        (step.effect deployment tid choice service).part.proofs.countP (·.1 = tid) ≤
      (step.owing (step.effect deployment tid choice service).answer (service.owed tid)).2 := by
  have none' : ∀ {effect : Effect Service β}, effect.proofs = [] → effect.part.proofs = service.proofs →
      effect.proofs.length + effect.part.proofs.countP (·.1 = tid) ≤ (service.owed tid).2 := by
    intro effect none' same
    rw [none', same, List.length_nil, Nat.zero_add]
    exact Nat.le_refl _
  cases step with
  | service step =>
    cases step with
    | leave =>
      simp [Step.effect, ServiceStep.effect, Effect.plain, Step.owing, ServiceStep.proofs,
        List.countP_filter]
    | _ => exact none' rfl rfl
  | sessions step =>
    refine none' ?_ rfl
    cases step with
    | reserve | claim => simp only [Step.effect, SessionStep.effect]; split <;> rfl
    | _ => rfl
  | requests step => exact RequestStep.effect_proofs _
  | standing step =>
    refine none' ?_ rfl
    cases step with
    | select => simp only [Step.effect, StandingStep.effect]; split <;> rfl
    | _ => rfl
  | ledger step => exact LedgerStep.effect_proofs _
  | links step =>
    refine none' ?_ rfl
    cases step with
    | dial => simp only [Step.effect, LinkStep.effect]; split <;> rfl
    | _ => rfl
  | runs step =>
    refine none' ?_ rfl
    cases step with
    | register => simp only [Step.effect, RunStep.effect]; split <;> rfl
    | _ => rfl

theorem told (deployment : Deployment) :
    debts.Told (semantics deployment) (fun tid step service => step.Guard deployment tid service)
      (fun tid service => service.owed tid) where
  others := by
    intro β tid other choice step before after answer ran differ
    obtain ⟨-, -, -, rfl⟩ := Step.ran ran
    refine ⟨Nat.le_of_eq ?_, Nat.le_of_eq ?_⟩
    · cases step with
      | service step => cases step <;> rfl
      | sessions step => exact SessionStep.effect_others differ
      | _ => rfl
    · simp only [Service.owed, List.countP_append, countP_tagged, if_neg differ, Nat.zero_add]
      cases step with
      | service step =>
        cases step with
        | leave =>
          simp only [Step.effect, ServiceStep.effect, Effect.plain, List.countP_filter]
          refine List.countP_congr (fun proof _ => ?_)
          simp only [ne_eq, decide_not, Bool.and_eq_true, decide_eq_true_eq, Bool.not_eq_true',
            decide_eq_false_iff_not, and_iff_left_iff_imp]
          intro same mine
          exact differ (same.symm.trans mine)
        | _ => rfl
      | _ => rfl
  own := by
    intro β tid choice step before after answer guard ran
    obtain ⟨-, -, rfl, rfl⟩ := Step.ran ran
    refine ⟨?_, ?_⟩
    · cases step with
      | service step => cases step <;> exact Nat.le_refl _
      | sessions step => exact Nat.le_of_eq (SessionStep.effect_slots guard.2)
      | _ => exact Nat.le_refl _
    · simp only [Service.owed, List.countP_append, countP_tagged, if_true]
      exact Step.effect_kept
  environment := by
    intro tid event before after happened
    cases event <;> simp only [semantics, Happening.run] at happened <;> split at happened <;>
      cases happened <;> exact ⟨Nat.le_refl _, Nat.le_refl _⟩

/-! ## Programs that owe nothing of their own -/

/-- A step that takes no slot and no proof, and gives none back. -/
abbrev Step.Even (γ : Type) (step : Step γ) : Prop := debts.Neutral γ step

def Kind.even : Kind → Bool
  | .slot | .intent | .answer | .leave => false
  | _ => true

theorem Step.even_of_kind {γ : Type} (step : Step γ) (even : step.kind.even = true) :
    Step.Even γ step := by
  intro answer owed
  cases step with
  | service step =>
    cases step with
    | leave => cases even
    | _ => rfl
  | sessions step =>
    cases step with
    | reserve | release | publish => cases even
    | _ => rfl
  | requests step =>
    cases step with
    | answer => cases even
    | _ => rfl
  | ledger step =>
    cases step with
    | recordIntent => cases even
    | _ => rfl
  | standing | links | runs => rfl

theorem Takes.even {kinds : List Kind} {program : Prog α} (takes : Takes kinds program)
    (even : kinds.all Kind.even = true) : program.All Step.Even :=
  takes.each even fun _ step => step.even_of_kind

def Kind.slotless : Kind → Bool
  | .slot => false
  | _ => true

/-- A step that is about no slot leaves a call none if it has none. -/
theorem Step.slotless_of_kind {γ : Type} (step : Step γ) (slotless : step.kind.slotless = true)
    (answer : γ) {owed : Nat × Nat} (none' : owed.1 = 0) : (step.owing answer owed).1 = 0 := by
  cases step with
  | sessions step =>
    cases step with
    | reserve | release | publish => cases slotless
    | _ => exact none'
  | _ => exact none'

/-! ## Programs that give back what they take -/

/-- A program that ends without a slot, whatever proofs it then holds. -/
abbrev Slotless (owed : Nat × Nat) (program : Prog α) : Prop :=
  program.Owes debts (fun _ after => after.1 = 0) owed

/-- One that ends with neither. -/
abbrev Clean (owed : Nat × Nat) (program : Prog α) : Prop :=
  program.Owes debts (fun _ after => after = ⊥) owed

variable {owed : Nat × Nat}

theorem Takes.slotless {kinds : List Kind} {program : Prog α} (takes : Takes kinds program)
    (slotless : kinds.all Kind.slotless = true) (none' : owed.1 = 0) : Slotless owed program :=
  .of_all (takes.each slotless fun _ step kind answer _ => step.slotless_of_kind kind answer) none'

theorem Clean.even {program : Prog α} (even : program.All Step.Even) : Clean ⊥ program :=
  Program.Owes.of_neutral even

/-- Letting go of the proofs leaves nothing owed without a slot. -/
theorem Clean.leave {program : Prog α} (none' : owed.1 = 0) (rest : Clean ⊥ program) :
    Clean owed (.act (.service .leave) fun _ => program) := by
  refine .act fun _ => ?_
  have left : debts.after (.service .leave) () owed = ⊥ := by
    obtain ⟨slots, proofs⟩ := owed
    obtain rfl : slots = 0 := none'
    rfl
  rw [left]
  exact rest

theorem authorizeAction_clean (principal : PrincipalId) (id : SessionId)
    (agentIntent : CommandIntent) (action : Except MediationError Action) :
    Clean ⊥ (authorizeAction deployment principal id agentIntent action) := by
  refine .neutral (fun _ _ => rfl) fun stopping => ?_
  cases stopping with
  | true => exact .done rfl
  | false =>
  refine .neutral (fun _ _ => rfl) fun used => ?_
  cases used with
  | error => exact .done rfl
  | ok session =>
  cases action with
  | error => exact .done rfl
  | ok action =>
  refine .act fun recorded => ?_
  cases recorded with
  | error => exact .done rfl
  | ok intended =>
    change Clean (0, 1) (admission deployment principal session.id action intended >>= _)
    exact .bind ((admission_takes ..).slotless rfl rfl) fun _ after none' =>
      Clean.leave none' (.done rfl)

theorem submit_clean (principal : PrincipalId) (session : SessionId) (agentIntent : CommandIntent)
    (work : Work) : Clean ⊥ (Bastion.submit deployment principal session agentIntent work) := by
  refine .neutral (fun _ _ => rfl) fun admitted => ?_
  cases admitted with
  | false => exact .done rfl
  | true =>
    change Clean ⊥ (authorizeAction deployment principal session agentIntent work.action >>= _)
    refine .bind (authorizeAction_clean principal session agentIntent work.action)
      fun result after none' => ?_
    subst none'
    cases result with
    | error => exact .done rfl
    | ok admitted => exact Clean.even ((perform_takes ..).even rfl)

theorem decide_clean (request : RequestId) (approver : Approver) (agreed : Bool) :
    Clean ⊥ (Bastion.decide request approver agreed) := by
  change Clean ⊥ (applyAnswer request approver agreed >>= _)
  exact .bind ((applyAnswer_takes ..).slotless rfl rfl) fun _ after none' =>
    Clean.leave none' (.done rfl)

theorem approveSession_clean (request : RequestId) (who : String) (forMillis : Option Nat) :
    Clean ⊥ (approveSession deployment request who forMillis) := by
  change Clean ⊥ (applyAnswer request (.human who) true >>= _)
  refine .bind ((applyAnswer_takes ..).slotless rfl rfl) fun answer after none' => ?_
  cases answer with
  | error => exact Clean.leave none' (.done rfl)
  | ok answer =>
    change Clean after (standingUntil deployment answer.asked.session forMillis >>= _)
    refine .bind ((standingUntil_takes ..).slotless rfl none') fun until_ after none' => ?_
    exact .neutral (fun _ _ => rfl) fun reading => .neutral (fun _ _ => rfl) fun agreement =>
      Clean.leave none' (.done rfl)

theorem openSession_clean (principal : PrincipalId) (host : HostId) (role : RoleId)
    (purpose : Purpose) (accessClass : AccessClass) :
    Clean ⊥ (Bastion.openSession deployment principal host role purpose accessClass) := by
  unfold Bastion.openSession
  cases checkAccount deployment host role accessClass with
  | error => exact .done rfl
  | ok target =>
  refine .neutral (fun _ _ => rfl) fun admitted => ?_
  cases admitted with
  | false => exact .done rfl
  | true =>
  refine .act fun reserved => ?_
  cases reserved with
  | error => exact .done rfl
  | ok =>
  refine .neutral (fun _ _ => rfl) fun dialled => ?_
  cases dialled with
  | none => exact .act fun _ => .done rfl
  | some connection =>
  refine .neutral (fun _ _ => rfl) fun admitted => ?_
  cases admitted with
  | false => exact .act fun _ => .neutral (fun _ _ => rfl) fun _ => .done rfl
  | true =>
  refine .neutral (fun _ _ => rfl) fun _ => .act fun session => ?_
  refine .neutral (fun _ _ => rfl) fun _ => .neutral (fun _ _ => rfl) fun _ =>
    .neutral (fun _ _ => rfl) fun recorded => ?_
  cases recorded with
  | error => exact .done rfl
  | ok =>
    change Clean ⊥ (reclaim >>= _)
    exact .bind (Clean.even (reclaim_takes.even rfl)) fun _ after none' => .done none'

/-- A program that owes nothing, as the program of a call. -/
theorem Clean.reply {program : Prog α} {reply : α → Reply} (clean : Clean ⊥ program) :
    Clean ⊥ (program >>= fun value => pure (reply value)) :=
  .bind clean fun _ _ none' => .done none'

theorem Call.program_clean (call : Call) : Clean ⊥ (call.program deployment) := by
  cases call with
  | openSession => exact .reply (openSession_clean ..)
  | authorize => exact .reply (authorizeAction_clean ..)
  | submit => exact .reply (submit_clean ..)
  | decide => exact .reply (decide_clean ..)
  | approveSession => exact .reply (approveSession_clean ..)
  | closeSession | terminateSession | reclaim | revokeStanding | stop | account =>
    exact .even ((Call.program_takes _).even rfl)

/-! ## Reachable worlds -/

/-- A slot or a proof is held only by a call that has not answered. -/
theorem Reachable.repaid {world : World} (reached : Reachable deployment world) :
    debts.Kept (fun tid service => service.owed tid) world := by
  obtain ⟨clock, run⟩ := reached
  refine run.owed (told deployment) Call.program_clean (fun run => ?_) ⟨fun tid thread found => ?_,
    fun tid _ => rfl⟩
  · exact (Reachable.good ⟨clock, run⟩).guard
  · cases found

end McpSsh.Bastion
