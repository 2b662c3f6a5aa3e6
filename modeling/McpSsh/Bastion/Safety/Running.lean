import McpSsh.Bastion.Safety.Answering

/-!
# Connections and runs

A session's connection is read and replaced under the lock of its holder, which
stays the session's. A run is registered with the receipt its call was handed
and a connection of the session that receipt is about.
-/

namespace McpSsh.Bastion

open Interleaving

variable {deployment : Deployment} {tid : Nat} {choice : Choice} {service after : Service}
variable {past : List Took} {held : List Lock} {α β : Type} {answer : β}

/-! ## The session's connection -/

/-- The holder a call has locked is one of the session's. -/
def Holding (tid : Nat) (holder : Nat) (session : SessionId) (service : Service) : Prop :=
  service.locks (.holder holder) = some tid ∧
    ∃ held, service.links.find holder = some held ∧ held.id = holder ∧ held.session = session

theorem Holding.rely {holder : Nat} {session : SessionId}
    (holding : Holding tid holder session service) (moved : Rely tid service after) :
    Holding tid holder session after := by
  obtain ⟨lock, held, found, rfl, same⟩ := holding
  exact ⟨(moved.locks _).mp lock, held, moved.holders held lock found, rfl, same⟩

/-- A passing step looks at the holders at most. -/
theorem Step.Passing.links {step : Step β} (passing : step.Passing held)
    (ran : step.run deployment tid choice service = some (answer, after)) :
    after.links.holders = service.links.holders := by
  obtain ⟨-, -, -, rfl⟩ := Step.ran ran
  cases step with
  | service step => cases step <;> rfl
  | links step =>
    cases step with
    | insert | look | replace => cases passing
    | dial =>
      simp only [Step.effect, LinkStep.effect]
      split <;> rfl
    | _ => rfl
  | _ => rfl

theorem Holding.passed {holder : Nat} {session : SessionId} {step : Step β} {before : Service}
    (holding : Holding tid holder session service) (passing : step.Passing held)
    (passed : Passed deployment tid held step choice service before answer after)
    (member : Lock.holder holder ∈ held) : Holding tid holder session after := by
  obtain ⟨-, found⟩ := holding.rely passed.moved
  refine ⟨(passed.at'.locks _).mpr member, ?_⟩
  rw [LinkPart.find, passing.links passed.ran]
  exact found

theorem stillTheLiveSessionConnection_safe {session : Session} {holder : Nat}
    (at' : At tid [.holder holder] service) :
    Safely deployment tid
      (fun _ _ after => (Since service after ∧ At tid [.holder holder] after) ∧
        (Holding tid holder session.id service → Holding tid holder session.id after))
      (stillTheLiveSessionConnection session holder) past service := by
  have member : Lock.holder holder ∈ [Lock.holder holder] := List.mem_singleton_self _
  have below : Below [.holder holder] .sessions := .single (Nat.zero_lt_succ 3)
  have finish : ∀ {past : List Took} (result : Except MediationError Unit) {now : Service},
      Since service now → At tid [.holder holder] now →
      (Holding tid holder session.id service → Holding tid holder session.id now) →
      Safely deployment tid
        (fun _ _ after => (Since service after ∧ At tid [.holder holder] after) ∧
          (Holding tid holder session.id service → Holding tid holder session.id after))
        (.done result) past now :=
    fun _ _ since at' holding _ _ moved => ⟨⟨since.trans moved.since, at'.rely moved⟩,
      fun held => (holding held).rely moved⟩
  unfold stillTheLiveSessionConnection
  have first : (Step.service .enter).Passing [Lock.holder holder] := trivial
  refine .passing at' first fun choice before admitted one passed => ?_
  have holding := fun h : Holding tid holder session.id service => h.passed first passed member
  cases admitted with
  | false => exact finish _ passed.since passed.at' holding
  | true =>
  have second : (Step.sessions (.useSession session.id session.principal)).Passing
    [Lock.holder holder] := below
  refine .passing passed.at' second fun choice₂ before₂ result two passed₂ => ?_
  have since := passed.since.trans passed₂.since
  have holding := fun h => (holding h).passed second passed₂ member
  match result with
  | .error error => exact finish _ since passed₂.at' holding
  | .ok _ =>
  have third : (Step.links (.isCurrent session.id holder)).Passing [Lock.holder holder] := trivial
  refine .passing passed₂.at' third fun choice₃ before₃ current three passed₃ => ?_
  have since := since.trans passed₃.since
  have holding := fun h => (holding h).passed third passed₃ member
  cases current <;> exact finish _ since passed₃.at' holding

theorem LinkStep.look_left {holder : Nat} {session : SessionId}
    {result : Option (Connection × Bool)} (inv : Inv deployment service)
    (at' : At tid [.holder holder] after)
    (placed : ∃ placer, Note.placed placer holder session ∈ service.journal)
    (ran : (Step.links (.look holder)).run deployment tid choice service = some (result, after)) :
    ∀ connection gone, result = some (connection, gone) → Holding tid holder session after ∧
      ∃ binder, Note.bound binder session connection ∈ after.journal := by
  obtain ⟨unused, permits, rfl, rfl⟩ := Step.ran ran
  intro connection gone same
  obtain ⟨held, found, eq⟩ := Option.map_eq_some_iff.mp same
  cases eq
  have member := List.mem_of_find?_eq_some found
  have id := List.find?_some found
  simp only [decide_eq_true_eq] at id
  obtain ⟨other, placedHeld⟩ := inv.links.holders held member
  obtain ⟨placer, placed⟩ := placed
  rw [id] at placedHeld
  have about := inv.history.placed_unique placedHeld placed
  obtain ⟨binder, bound⟩ := inv.links.bound held member
  exact ⟨⟨(at'.locks _).mpr (List.mem_singleton_self _), held, found, id, about⟩, binder,
    List.mem_append_left _ (about ▸ bound)⟩

theorem LinkStep.dial_left {target : Target} {connection : Connection}
    (ran : (Step.links (.dial target)).run deployment tid choice service =
      some (some connection, after)) :
    connection.host = target.host ∧ connection.role = target.role := by
  obtain ⟨unused, permits, same, -⟩ := Step.ran ran
  clear ran
  simp only [Step.effect, LinkStep.effect] at same
  split at same
  · cases same
    exact ⟨rfl, rfl⟩
  · cases same

theorem LinkStep.replace_left {holder : Nat} {session : SessionId} {connection : Connection}
    {done : Unit} (holding : Holding tid holder session service)
    (ran : (Step.links (.replace holder connection)).run deployment tid choice service =
      some (done, after)) : Note.bound tid session connection ∈ after.journal := by
  obtain ⟨unused, permits, -, rfl⟩ := Step.ran ran
  obtain ⟨-, held, found, -, same⟩ := holding
  exact List.mem_append_right _ (by simp [Step.effect, LinkStep.effect, found, same])

/-- What a connection was bound to. -/
def Journal.Connects (journal : Journal) (session : SessionId) :
    Except MediationError Connection → Prop
  | .ok connection => ∃ binder, Note.bound binder session connection ∈ journal
  | .error _ => True

theorem Journal.Connects.grow {journal later : Journal} {session : SessionId}
    {result : Except MediationError Connection} (connects : journal.Connects session result)
    (grows : journal <+: later) : later.Connects session result := by
  cases result with
  | error error => trivial
  | ok connection =>
    obtain ⟨binder, bound⟩ := connects
    exact ⟨binder, grows.subset bound⟩

theorem connectionUnder_safe {session : Session} {holder : Nat} (inv : Inv deployment service)
    (at' : At tid [.holder holder] service) (opened : service.journal.Opened session)
    (placed : ∃ placer, Note.placed placer holder session.id ∈ service.journal) :
    Safely deployment tid
      (Ends tid [.holder holder] service (fun result journal => journal.Connects session.id result))
      (connectionUnder deployment session holder) past service := by
  have member : Lock.holder holder ∈ [Lock.holder holder] := List.mem_singleton_self _
  unfold connectionUnder
  refine .bind (stillTheLiveSessionConnection_safe at') inv ?_
  intro past result first inv ⟨⟨since, at'⟩, _⟩
  match result with
  | .error error => exact .done since at' (fun _ _ => trivial)
  | .ok () =>
  refine .act at' not_false (fun later _ moved at' => ⟨at'.has member, trivial⟩) ?_
  intro choice₂ before₂ looked second passed₂
  have at₂ : At tid [.holder holder] second := passed₂.at'
  have since₂ := since.trans passed₂.since
  have look := LinkStep.look_left passed₂.inv at₂ (by
    obtain ⟨placer, placed⟩ := placed
    exact ⟨placer, (since.trans passed₂.moved.since).journal.subset placed⟩) passed₂.ran
  match looked with
  | none => exact .done since₂ at₂ (fun _ _ => trivial)
  | some (connection, false) =>
    obtain ⟨-, binder, bound⟩ := look connection false rfl
    exact .done since₂ at₂ (fun _ grows => ⟨binder, grows.subset bound⟩)
  | some (_, true) =>
  obtain ⟨holding, -⟩ := look _ _ rfl
  -- The session's own account is dialled again.
  cases resolved : deployment.registry.resolve session.host session.role with
  | error error =>
    simp only
    exact .done since₂ at₂ (fun _ _ => trivial)
  | ok target =>
  obtain ⟨host, role⟩ := Registry.resolve_labelled resolved
  have third : (Step.service .stopping).Passing [Lock.holder holder] := trivial
  refine .passing at₂ third fun choice₃ before₃ stopping third' passed₃ => ?_
  have since₃ := since₂.trans passed₃.since
  have holding := holding.passed third passed₃ member
  cases stopping with
  | true => exact .done since₃ passed₃.at' (fun _ _ => trivial)
  | false =>
  have fourth : (Step.links (.dial target)).Passing [Lock.holder holder] := trivial
  refine .passing passed₃.at' fourth fun choice₄ before₄ dialled fourth' passed₄ => ?_
  have since₄ := since₃.trans passed₄.since
  have holding := holding.passed fourth passed₄ member
  match dialled with
  | none => exact .done since₄ passed₄.at' (fun _ _ => trivial)
  | some fresh =>
  obtain ⟨sameHost, sameRole⟩ := LinkStep.dial_left passed₄.ran
  change Safely _ _ _ (stillTheLiveSessionConnection session holder >>= _) _ _
  refine .bind (stillTheLiveSessionConnection_safe passed₄.at') passed₄.kept ?_
  intro past result fifth inv ⟨⟨since₅, at₅⟩, holding₅⟩
  have holding := holding₅ holding
  have since₅ := since₄.trans since₅
  match result with
  | .error error =>
    exact .passing at₅ trivial fun choice₆ before₆ _ sixth passed₆ =>
      .done (since₅.trans passed₆.since) passed₆.at' (fun _ _ => trivial)
  | .ok () =>
  refine .act at₅ not_false (fun later _ moved at' => ⟨at'.has member, session, ?_, ?_, ?_, ?_⟩) ?_
  · exact opened.grow (since₅.trans moved.since).journal
  · rw [sameHost, host]
  · rw [sameRole, role]
  · obtain ⟨placer, placed⟩ := placed
    exact ⟨placer, (since₅.trans moved.since).journal.subset placed⟩
  · intro choice₆ before₆ _ sixth passed₆
    have bound := LinkStep.replace_left (holding.rely passed₆.moved) passed₆.ran
    exact .done (since₅.trans passed₆.since) passed₆.at' (fun _ grows =>
      ⟨tid, grows.subset bound⟩)

theorem LinkStep.holderOf_left {session : SessionId} {holder : Nat} (inv : Inv deployment service)
    (ran : (Step.links (.holderOf session)).run deployment tid choice service =
      some (some holder, after)) : ∃ placer, Note.placed placer holder session ∈ service.journal := by
  obtain ⟨unused, permits, same, -⟩ := Step.ran ran
  have found : service.links.connections.lookup session = some holder := same.symm
  obtain ⟨before, later, split, -⟩ := List.lookup_eq_some_iff.mp found
  exact inv.links.connections session holder (by simp [split])

/-- A holder's lock is taken and given back around what is done under it. -/
theorem Safely.under {holder : Nat} {body : Prog α} {leaves : α → Journal → Prop}
    (grow : ∀ value {journal later : Journal}, leaves value journal → journal <+: later →
      leaves value later)
    (at' : At tid [] service)
    (safe : ∀ past now, Inv deployment now → Since service now → At tid [.holder holder] now →
      Safely deployment tid (Ends tid [.holder holder] now leaves) body past now) :
    Safely deployment tid (Ends tid [] service leaves)
      (do
        Prog.service (.lock (.holder holder))
        let value ← body
        Prog.service (.unlock (.holder holder))
        return value) past service := by
  have bottom := Below.nil (.holder holder)
  refine .act at' not_false (fun later _ moved at' => ⟨at'.takes bottom, .inr ⟨holder, rfl⟩⟩) ?_
  intro choice before _ first passed
  have passed := passed.leaves rfl (show _ = [.holder holder] from rfl)
  change Safely _ _ _ (body >>= _) _ _
  refine .bind (safe _ first passed.kept passed.since passed.at') passed.kept ?_
  intro past value second inv ⟨since, at', left⟩
  refine .act at' not_false (fun later _ moved at' =>
    ⟨at'.has (List.mem_singleton_self _), .inr ⟨holder, rfl⟩⟩) fun choice₂ before₂ _ third passed₂ => ?_
  exact .done ((passed.since.trans since).trans passed₂.since) (passed₂.leaves rfl bottom.given).at'
    (fun journal grows => grow value left (passed₂.since.journal.trans grows))

theorem connectionFor_safe {session : Session} (at' : At tid [] service)
    (opened : service.journal.Opened session) :
    Safely deployment tid
      (Ends tid [] service (fun result journal => journal.Connects session.id result))
      (connectionFor deployment session) past service := by
  unfold connectionFor
  refine .passing at' trivial fun choice before result first passed => ?_
  match result with
  | none => exact .done passed.since passed.at' (fun _ _ => trivial)
  | some holder =>
  obtain ⟨placer, placed⟩ := LinkStep.holderOf_left passed.inv passed.ran
  have placed := (Step.since passed.inv passed.ran).journal.subset placed
  have opened := opened.grow passed.since.journal
  have grow : ∀ (result : Except MediationError Connection) (journal later : Journal),
      journal.Connects session.id result → journal <+: later → later.Connects session.id result :=
    fun _ _ _ connects grows => connects.grow grows
  refine Safe.weaken (Safely.under grow passed.at' ?_)
    (fun _ _ _ _ ends => ⟨passed.since.trans ends.1, ends.2⟩)
  intro past now inv since at'
  exact connectionUnder_safe inv at' (opened.grow since.journal) ⟨placer, since.journal.subset placed⟩

theorem closeHolder_safe {holder : Nat} (at' : At tid [] service) :
    Safely deployment tid (Ends tid [] service (fun _ _ => True)) (closeHolder holder) past
      service := by
  have bottom := Below.nil (.holder holder)
  have member : Lock.holder holder ∈ [Lock.holder holder] := List.mem_singleton_self _
  have give : ∀ {past : List Took} {now : Service}, Since service now → At tid [.holder holder] now →
      Safely deployment tid (Ends tid [] service (fun _ _ => True))
        (Prog.service (.unlock (.holder holder))) past now := by
    intro past now since at'
    exact .act at' not_false (fun later _ moved at' => ⟨at'.has member, .inr ⟨holder, rfl⟩⟩)
      fun choice before _ after passed => .done (since.trans passed.since)
        (passed.leaves rfl bottom.given).at' (fun _ _ => trivial)
  unfold closeHolder
  refine .act at' not_false (fun later _ moved at' => ⟨at'.takes bottom, .inr ⟨holder, rfl⟩⟩) ?_
  intro choice before _ first passed
  have passed := passed.leaves rfl (show _ = [.holder holder] from rfl)
  refine .act passed.at' not_false (fun later _ moved at' => ⟨at'.has member, trivial⟩) ?_
  intro choice₂ before₂ looked second passed₂
  have at₂ : At tid [.holder holder] second := passed₂.at'
  have since := passed.since.trans passed₂.since
  match looked with
  | none => exact give since at₂
  | some (connection, _) =>
    exact .passing at₂ trivial fun choice₃ before₃ _ third passed₃ =>
      give (since.trans passed₃.since) passed₃.at'

theorem closeHolders_safe {holders : List Nat} (inv : Inv deployment service)
    (at' : At tid [] service) :
    Safely deployment tid (Ends tid [] service (fun _ _ => True)) (closeHolders holders) past
      service := by
  induction holders generalizing past service with
  | nil => exact .done (.refl service) at' (fun _ _ => trivial)
  | cons holder rest ih =>
    unfold closeHolders
    refine .bind (closeHolder_safe at') inv fun past _ after inv ⟨since, at', _⟩ => ?_
    exact Safe.weaken (ih inv at') (fun _ _ _ _ ends => ⟨since.trans ends.1, ends.2⟩)

/-! ## Running -/

/-- A call that holds no lock. -/
def Free (tid : Nat) (service : Service) : Prop := ∀ which, service.locks which ≠ some tid

theorem At.free (at' : At tid [] service) : Free tid service :=
  fun which mine => by simpa using (at'.locks which).mp mine

theorem Free.rely (free : Free tid service) (moved : Rely tid service after) : Free tid after :=
  fun which mine => free which ((moved.locks which).mpr mine)

/-- A run a call has registered. -/
def Journal.Registers (journal : Journal) (tid : Nat) (run : RunId) : Prop :=
  ∃ session registered, Note.registered tid session registered ∈ journal ∧ registered.id = run

/-- What registering comes to, for a call that does nothing after it. -/
def Registering (tid : Nat) (after : Service) : Except RunError RunId → Prop
  | .ok run => Free tid after ∧ after.journal.Registers tid run
  | .error _ => Free tid after

theorem Registering.rely {result : Except RunError RunId} (registering : Registering tid service result)
    (moved : Rely tid service after) : Registering tid after result := by
  cases result with
  | error error => exact Free.rely registering moved
  | ok run =>
    obtain ⟨free, session, registered, noted, same⟩ := registering
    exact ⟨free.rely moved, session, registered, moved.journal.subset noted, same⟩

/-- A receipt its call was handed, for a session, and a connection of it. -/
structure Pairs (tid : Nat) (session : SessionId) (receipt : Receipt) (connection : Connection)
    (journal : Journal) : Prop where
  minted : ∃ intended, journal.Minted tid intended receipt ∧ intended.decision.session.id = session
  bound : ∃ binder, Note.bound binder session connection ∈ journal

theorem Pairs.grow {session : SessionId} {receipt : Receipt} {connection : Connection}
    {journal later : Journal} (pairs : Pairs tid session receipt connection journal)
    (grows : journal <+: later) : Pairs tid session receipt connection later where
  minted := by
    obtain ⟨intended, minted, same⟩ := pairs.minted
    exact ⟨intended, minted.grow grows, same⟩
  bound := by
    obtain ⟨binder, bound⟩ := pairs.bound
    exact ⟨binder, grows.subset bound⟩

theorem register_safe {session : SessionId} {receipt : Receipt} {connection : Connection}
    {payload : Option Payload} (at' : At tid [] service)
    (pairs : Pairs tid session receipt connection service.journal)
    (target : wrongTarget receipt connection = none)
    (fits : match payload with
      | none => receipt.action.kind = .execute
      | some payload => payload.suits receipt.action.operation = true) :
    Safely deployment tid (fun _ result after => Registering tid after result)
      (Prog.runs (.register session receipt connection payload)) past service := by
  intro later inv moved
  have at' := at'.rely moved
  obtain ⟨minted, bound⟩ := pairs.grow moved.journal
  refine ⟨⟨trivial, minted, bound, target, fits, at'.unregistered⟩, ?_⟩
  intro choice result after _ ran kept last _ moved'
  refine Registering.rely ?_ moved'
  obtain ⟨unused, permits, rfl, rfl⟩ := Step.ran ran
  have free : Free tid later := at'.free
  clear ran kept moved'
  simp only [Step.effect, RunStep.effect]
  split
  · exact free
  · exact ⟨free, session, _, List.mem_append_right _ (List.mem_singleton_self _), rfl⟩

theorem start_safe {session : SessionId} {receipt : Receipt} {connection : Connection}
    (at' : At tid [] service) (pairs : Pairs tid session receipt connection service.journal) :
    Safely deployment tid (fun _ result after => Registering tid after result)
      (start session connection receipt) past service := by
  have refused : ∀ {past : List Took} {now : Service} (error : RunError), At tid [] now →
      Safely deployment tid (fun _ result after => Registering tid after result)
        (.done (.error error)) past now :=
    fun error at' _ _ moved => at'.free.rely moved
  unfold start
  split
  · exact refused _ at'
  rename_i kind
  split
  · exact refused _ at'
  rename_i target
  refine .passing at' trivial fun choice before opened first passed => ?_
  cases opened with
  | false => exact refused _ passed.at'
  | true =>
    exact register_safe passed.at' (pairs.grow passed.since.journal) target (by simpa using kind)

theorem transfer_safe {session : SessionId} {receipt : Receipt} {connection : Connection}
    {payload : Payload} (at' : At tid [] service)
    (pairs : Pairs tid session receipt connection service.journal) :
    Safely deployment tid (fun _ result after => Registering tid after result)
      (transfer session connection receipt payload) past service := by
  have refused : ∀ (error : RunError), Safely deployment tid
      (fun _ result after => Registering tid after result) (.done (.error error)) past service :=
    fun error _ _ moved => at'.free.rely moved
  unfold transfer
  split
  · exact refused _
  rename_i target
  split
  · exact register_safe at' pairs target ‹_›
  · exact refused _

/-- What a submission comes to. -/
def Performed (tid : Nat) (after : Service) : Except MediationError Executed → Prop
  | .ok (.ran _ run _) => Free tid after ∧ after.journal.Registers tid run
  | _ => Free tid after

theorem Performed.rely {result : Except MediationError Executed}
    (performed : Performed tid service result) (moved : Rely tid service after) :
    Performed tid after result := by
  match result with
  | .ok (.ran decision run approvedBy) =>
    obtain ⟨free, session, registered, noted, same⟩ := performed
    exact ⟨free.rely moved, session, registered, moved.journal.subset noted, same⟩
  | .ok (.awaitingApproval ..) | .ok (.approvalLapsed ..) | .ok (.refused ..) | .error _ =>
    exact Free.rely performed moved

theorem perform_safe {session : Session} {admission : Admission} {payload : Option Payload}
    (inv : Inv deployment service) (at' : At tid [] service)
    (authorized : service.journal.Authorized tid (.ok (session, admission))) :
    Safely deployment tid (fun _ result after => Performed tid after result)
      (perform deployment session admission payload) past service := by
  obtain ⟨opened, intended, rfl, admits⟩ := authorized
  unfold perform
  cases admission with
  | held executed =>
    cases executed with
    | ran => exact admits.elim
    | awaitingApproval | approvalLapsed | refused =>
      exact fun _ _ moved => at'.free.rely moved
  | ready decision receipt approvedBy =>
  obtain ⟨-, minted⟩ := admits
  refine .bind (connectionFor_safe at' opened) inv ?_
  intro past result first inv ⟨since, at', connects⟩
  cases result with
  | error error => exact fun _ _ moved => at'.free.rely moved
  | ok connection =>
  have pairs : Pairs tid intended.decision.session.id receipt connection first.journal :=
    ⟨⟨intended, minted.grow since.journal, rfl⟩, connects⟩
  cases payload with
  | none =>
    refine .bind (start_safe at' pairs) inv fun past result after _ registering => ?_
    cases result with
    | error error => exact fun _ _ moved => Free.rely registering moved
    | ok run => exact fun _ _ moved => Performed.rely registering moved
  | some payload =>
    refine .bind (transfer_safe at' pairs) inv fun past result after _ registering => ?_
    cases result with
    | error error => exact fun _ _ moved => Free.rely registering moved
    | ok run => exact fun _ _ moved => Performed.rely registering moved

theorem submit_safe {principal : PrincipalId} {session : SessionId} {agentIntent : CommandIntent}
    {work : Work} (at' : At tid [] service) :
    Safely deployment tid (fun _ result after => Performed tid after result)
      (Bastion.submit deployment principal session agentIntent work) past service := by
  unfold Bastion.submit
  refine .passing at' trivial fun choice before admitted first passed => ?_
  cases admitted with
  | false => exact fun _ _ moved => passed.at'.free.rely moved
  | true =>
  change Safely _ _ _ (authorizeAction deployment principal session agentIntent work.action >>= _) _ _
  refine .bind (authorizeAction_safe passed.at') passed.kept ?_
  intro past result second inv ⟨_, at', authorized⟩
  match result with
  | .error error => exact fun _ _ moved => at'.free.rely moved
  | .ok (session, admission) => exact perform_safe inv at' authorized

end McpSsh.Bastion
