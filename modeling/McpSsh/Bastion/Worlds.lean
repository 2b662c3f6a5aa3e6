import McpSsh.Bastion.Safety.Opening

/-!
# Every reachable world

Each call meets its guards, so whatever calls are made and however their steps
are interleaved, the service keeps its invariant and each finished call has
left what it should.
-/

namespace McpSsh.Bastion

open Interleaving

variable {deployment : Deployment} {tid : Nat} {choice : Choice} {service after : Service}
variable {past : List Took} {α β : Type} {answer : β}

/-! ## The remaining calls -/

theorem revokeStanding_safe {id : AgreementId} (at' : At tid [] service) :
    Safely deployment tid
      (Ends tid [] service (fun was journal => was = true → Note.withdrew id ∈ journal))
      (Bastion.revokeStanding id) past service := by
  refine .passing at' (Below.nil .standing) fun choice before was first passed => ?_
  refine .done passed.since passed.at' fun later grows withdrawn => grows.subset ?_
  subst withdrawn
  obtain ⟨-, -, is, rfl⟩ := Step.ran passed.ran
  refine List.mem_append_right _ ?_
  change true = (before.standing.revoke id).1 at is
  simp only [Step.effect, StandingStep.effect]
  rw [← is]
  exact List.mem_singleton_self _

theorem stop_safe (at' : At tid [] service) :
    Safely deployment tid (Ends tid [] service (fun _ _ => True)) Bastion.stop past service := by
  refine .passing at' trivial fun choice before _ first passed => ?_
  refine .passing passed.at' trivial fun choice₂ before₂ _ second passed₂ => ?_
  exact .done (passed.since.trans passed₂.since) passed₂.at' (fun _ _ => trivial)

theorem account_safe {who : Attribution} {event : Event} (about : event.isAccount = true)
    (at' : At tid [] service) :
    Safely deployment tid (Ends tid [] service (fun _ _ => True))
      (Prog.ledger (.record who event)) past service := by
  refine .passing at' (Event.isPlain_of_isAccount about) fun choice before _ first passed => ?_
  exact .done passed.since passed.at' (fun _ _ => trivial)

/-! ## What calls leave -/

/-- What a finished call leaves. -/
def Call.Leaves (deployment : Deployment) (tid : Nat) (past : List Took) (after : Service) :
    Call → Reply → Prop
  | .openSession principal .., .opened result => AllOrNothing deployment principal past result
  | .authorize .., .admitted result => after.journal.Authorized tid result
  | .submit .., .executed result => Performed tid after result
  | .revokeStanding id, .withdrew was => was = true → Note.withdrew id ∈ after.journal
  | _, _ => True

/-- A finished call holds no lock, and has left what it should. -/
def Call.Left (deployment : Deployment) (call : Call) (tid : Nat) (past : List Took)
    (reply : Reply) (after : Service) : Prop :=
  Free tid after ∧ call.Leaves deployment tid past after reply

/-- A program that leaves `leaves`, as the program of a call. -/
theorem Safely.reply {program : Prog α} {start : Service} {leaves : α → Journal → Prop}
    {call : Call} {reply : α → Reply} (inv : Inv deployment service)
    (safe : Safely deployment tid (Ends tid [] start leaves) program past service)
    (left : ∀ past value after, leaves value after.journal →
      call.Leaves deployment tid past after (reply value))
    (grow : ∀ {value} {journal later : Journal}, journal <+: later → leaves value journal →
      leaves value later) :
    Safely deployment tid (call.Left deployment tid) (program >>= fun value => pure (reply value))
      past service := by
  refine .bind safe inv fun past value after _ ⟨_, at', leaves⟩ => ?_
  exact fun later _ moved =>
    ⟨at'.free.rely moved, left past value later (grow moved.journal leaves)⟩

theorem Call.program_safe (call : Call) (inv : Inv deployment service) (at' : At tid [] service) :
    Safely deployment tid (call.Left deployment tid) (call.program deployment) [] service := by
  cases call with
  | openSession principal host role purpose accessClass =>
    refine .bind (openSession_safe at') inv fun past result after _ ⟨⟨_, at'⟩, all⟩ => ?_
    exact fun later _ moved => ⟨at'.free.rely moved, all⟩
  | authorize principal session agentIntent action =>
    exact .reply inv (authorizeAction_safe at') (fun _ _ _ left => left)
      (fun grows left => left.grow grows)
  | submit principal session agentIntent work =>
    refine .bind (submit_safe at') inv fun past result after _ performed => ?_
    refine fun later _ moved => ⟨?_, performed.rely moved⟩
    refine Free.rely ?_ moved
    match result, performed with
    | .ok (.ran ..), ⟨free, _⟩ => exact free
    | .ok (.awaitingApproval ..), free | .ok (.approvalLapsed ..), free
    | .ok (.refused ..), free | .error _, free => exact free
  | decide request approver agreed person =>
    exact .reply inv (decide_safe inv at' person) (fun _ _ _ _ => trivial) (fun _ left => left)
  | approveSession request who forMillis =>
    exact .reply inv (approveSession_safe inv at') (fun _ _ _ _ => trivial) (fun _ left => left)
  | revokeStanding agreement =>
    exact .reply inv (revokeStanding_safe at') (fun _ _ _ left => left)
      (fun grows left was => grows.subset (left was))
  | closeSession principal session =>
    exact .reply inv (closeSession_safe at') (fun _ _ _ _ => trivial) (fun _ left => left)
  | terminateSession session operator =>
    exact .reply inv (terminateSession_safe at') (fun _ _ _ _ => trivial) (fun _ left => left)
  | reclaim =>
    exact .reply inv (reclaim_safe inv at') (fun _ _ _ _ => trivial) (fun _ left => left)
  | stop => exact .reply inv (stop_safe at') (fun _ _ _ _ => trivial) (fun _ left => left)
  | account who event about =>
    exact .reply inv (account_safe about at') (fun _ _ _ _ => trivial) (fun _ left => left)

/-! ## Reachable worlds -/

/-- What holds of every reachable world. -/
abbrev World.Good (deployment : Deployment) (world : World) : Prop :=
  Interleaving.Good (discipline deployment) (fun call => call.Left deployment) world

theorem World.new_good (deployment : Deployment) (clock : Nat) :
    (World.new deployment clock).Good deployment where
  inv := Inv.new deployment clock
  safe := fun tid thread found => by cases found
  fresh := fun tid _ => {
    notes := fun note member => absurd member List.not_mem_nil
    locks := fun _ => Option.some_ne_none _ ∘ Eq.symm
    openings := fun _ => rfl }

theorem Reachable.good {world : World} (reached : Reachable deployment world) :
    world.Good deployment := by
  obtain ⟨clock, run⟩ := reached
  exact run.good (fun call tid state inv unknown => call.program_safe inv (.of_unknown unknown))
    (fun _ move _ => by cases move <;> simp [Discipline.Allows, discipline])
    (World.new_good deployment clock)

/-- The service keeps its invariant. -/
theorem Reachable.inv {world : World} (reached : Reachable deployment world) :
    Inv deployment world.shared :=
  reached.good.inv

theorem Reachable.history {world : World} (reached : Reachable deployment world) :
    HistoryOk deployment world.shared.journal :=
  reached.inv.history

/-! ## A small deployment -/

namespace Sample

def web : HostId := ⟨"web", by decide⟩
def root : RoleId := ⟨"root", by decide⟩
def alice : PrincipalId := ⟨"alice", by decide⟩
def purpose : Purpose := ⟨"restart nginx", by decide⟩

/-- One privileged account on one host. -/
def registry : Registry where
  hosts := [(web, ⟨⟨"10.0.0.1", by decide⟩, ⟨"ssh-ed25519 AAAA", by decide⟩,
    [(root, ⟨⟨"root", by decide⟩, ⟨"root-key", by decide⟩, .privileged⟩)], by decide⟩)]
  distinct := by decide

/-- Every command is held for a human. -/
def reviewed : Deployment where
  registry
  review := .all
  lifetime := ⟨1000, 10000, 100⟩
  sessionsPerPrincipal := 4
  windows := ⟨100, 100⟩
  waitingPerSession := 4
  limits := Ledger.Limits.default
  format := ⟨fun bytes => ⟨bytes⟩, fun entry => [UInt8.ofNat entry.sequence]⟩
  genesis := ⟨[]⟩

/-- A step in which nothing outside fails. -/
def turn (tid draw : Nat) : BastionMove := .turn tid ⟨draw, true, fun _ => true⟩

/-- A step in which the recording boundary refuses, or the transport is gone. -/
def failing (tid draw : Nat) : BastionMove := .turn tid ⟨draw, false, fun _ => true⟩

/-- So many steps of one call. -/
def turns (tid first count : Nat) : List BastionMove :=
  (List.range count).map (fun step => turn tid (first + step))

/-- The world after some moves, if they can be made. -/
def run (moves : List BastionMove) : World :=
  ((World.new reviewed 0).play (semantics reviewed) (Call.program reviewed) moves).getD
    (World.new reviewed 0)

theorem run_reachable (moves : List BastionMove) : Reachable reviewed (run moves) := by
  refine ⟨0, ?_⟩
  unfold run
  cases played : (World.new reviewed 0).play (semantics reviewed) (Call.program reviewed)
      moves with
  | none => exact .refl
  | some world => exact World.play_runs played

/-- A person decides, and no earlier agreement does. -/
theorem bob_agreement : (Approver.human "bob").agreement = none := rfl

/-- A session is opened, under the number 5. -/
def opening : List BastionMove :=
  .spawn (.openSession alice web root purpose .privileged) :: turns 0 0 9

end Sample

end McpSsh.Bastion
