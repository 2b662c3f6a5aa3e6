import McpSsh.Bastion.Connections

/-!
# Endings in the record

The end of a session is recorded once, by the call that ends it, and before
that call takes the session from the store or its entry from the map. A call
whose record is refused leaves every session as usable as it was.
-/

namespace McpSsh.Bastion

open Interleaving History

variable {deployment : Deployment} {tid : Nat} {choice : Choice} {service after : Service}
variable {past : List Took} {α β : Type} {step : Step β} {answer : β}

/-! ## What a step has to do with an end -/

/-- The end a step is to record. -/
def LedgerStep.endsAs {β : Type} : LedgerStep β → Option (Attribution × Event)
  | .record who event => if event.isEnd then some (who, event) else none
  | _ => none

def Step.endsAs {β : Type} : Step β → Option (Attribution × Event)
  | .ledger step => step.endsAs
  | _ => none

/-- The end a step has recorded. -/
def LedgerStep.endRecorded {β : Type} : LedgerStep β → β → Option Entry
  | .record _ event, .ok entry => if event.isEnd then some entry else none
  | _, _ => none

def Step.endRecorded {β : Type} : Step β → β → Option Entry
  | .ledger step, answer => step.endRecorded answer
  | _, _ => none

/-- A step whose record of an end was refused. -/
def LedgerStep.endRefused {β : Type} : LedgerStep β → β → Prop
  | .record _ event, .error _ => event.isEnd = true
  | _, _ => False

def Step.endRefused {β : Type} : Step β → β → Prop
  | .ledger step, answer => step.endRefused answer
  | _, _ => False

/-- A step that takes an ended session from the store, or its entry from the
map. -/
def SessionStep.removes {β : Type} : SessionStep β → β → Prop
  | .close _ _, answer => answer = .ok ()
  | .removeClaimed _, _ => True
  | _, _ => False

def LinkStep.removes {β : Type} : LinkStep β → Prop
  | .remove _ => True
  | _ => False

def Step.removes {β : Type} : Step β → β → Prop
  | .sessions step, answer => step.removes answer
  | .links step, _ => step.removes
  | _, _ => False

/-- The end a call is to record, and of which session. -/
def Call.ending : Call → Option (SessionId × Event)
  | .closeSession _ session => some (session, .sessionClosed)
  | .terminateSession session operator => some (session, .sessionTerminated operator)
  | _ => none

/-! ## Steps that record no end -/

def Step.Endless (γ : Type) (step : Step γ) : Prop := step.endsAs = none

theorem Step.Endless.refused (endless : step.Endless) (answer : β) : ¬ step.endRefused answer := by
  intro refused
  cases step with
  | ledger step =>
    cases step with
    | record who what =>
      cases answer with
      | error =>
        have isEnd : what.isEnd = true := refused
        simp [Step.Endless, Step.endsAs, LedgerStep.endsAs, isEnd] at endless
      | ok => cases refused
    | _ => cases refused
  | _ => cases refused

def Kind.endless : Kind → Bool
  | .ending => false
  | _ => true

theorem Step.endless_of_kind {γ : Type} (step : Step γ) (endless : step.kind.endless = true) :
    Step.Endless γ step := by
  cases step with
  | ledger step =>
    cases step with
    | record who event =>
      have quiet : event.isEnd = false := LedgerStep.record_isEnd who fun ends => by
        rw [Step.kind, ends] at endless
        cases endless
      simp [Step.Endless, Step.endsAs, LedgerStep.endsAs, quiet]
    | _ => rfl
  | _ => rfl

theorem Takes.endless {kinds : List Kind} {program : Prog α} (takes : Takes kinds program)
    (endless : kinds.all Kind.endless = true) : program.All Step.Endless :=
  takes.each endless fun _ step => step.endless_of_kind

/-- Only a call that ends a session records an end. -/
theorem Call.program_endless {call : Call} (other : call.ending = none) :
    (call.program deployment).All Step.Endless := by
  cases call with
  | closeSession | terminateSession => cases other
  | _ => exact (Call.program_takes _).endless rfl

/-! ## Sessions left as usable -/

/-- Nothing is done to the connections, and every session is held and as usable
as it was. -/
structure Spares (before after : Service) : Prop where
  links : after.links = before.links
  held : ∀ session ∈ before.sessions.store.held, ∃ lastUsed,
    { session with lastUsed } ∈ after.sessions.store.held ∧
      ∀ now, session.expiry now = none → { session with lastUsed }.expiry now = none

theorem Spares.of_eq (links : after.links = service.links)
    (sessions : after.sessions.store.held = service.sessions.store.held) : Spares service after :=
  ⟨links, fun session member => ⟨session.lastUsed, by rw [sessions]; exact member, fun _ good => good⟩⟩

/-- No session held was last used later than now. -/
def Service.Current (service : Service) : Prop :=
  ∀ session ∈ service.sessions.store.held, session.lastUsed ≤ service.clock

/-- A later use only puts the end off. -/
theorem Session.expiry_renewed {session : Session} {lastUsed now : Nat}
    (later : session.lastUsed ≤ lastUsed) (good : session.expiry now = none) :
    { session with lastUsed }.expiry now = none := by
  unfold Session.expiry at good ⊢
  split at good
  · cases good
  · rename_i young
    split at good
    · cases good
    · rename_i used
      rw [if_neg young, if_neg (fun idle => used (by
        change session.lifetime.idle ≤ now - lastUsed at idle
        omega))]

theorem SessionStep.useSession_spares {id : SessionId} {principal : PrincipalId} {session : Session}
    (inv : Inv deployment service) (current : service.Current)
    (ran : (Step.sessions (.useSession id principal)).run deployment tid choice service =
      some (.ok session, after)) : Spares service after := by
  obtain ⟨-, -, is, rfl⟩ := Step.ran ran
  have used : service.sessions.store.useSession service.clock id principal = (.ok session,
      (service.sessions.store.useSession service.clock id principal).2) := Prod.ext is.symm rfl
  obtain ⟨found, member, same, -, -, rfl, store⟩ := Sessions.useSession_ok used
  refine ⟨rfl, fun other inside => ?_⟩
  change ∃ lastUsed, _ ∈ (service.sessions.store.useSession service.clock id principal).2.held ∧ _
  rw [store]
  by_cases here : other.id = id
  · have one : other = found := by
      have there := inv.sessions.ids.find inside
      rw [here, ← same] at there
      exact Option.some.inj (there.symm.trans (inv.sessions.ids.find member))
    subst one
    exact ⟨service.clock, List.mem_map.mpr ⟨other, inside, if_pos here⟩, fun now good =>
      Session.expiry_renewed (current other inside) good⟩
  · exact ⟨other.lastUsed, List.mem_map.mpr ⟨other, inside, if_neg here⟩, fun _ good => good⟩

/-- Every reachable state is current. -/
theorem SessionStep.uses {step : SessionStep β} {part : SessionPart} {clock draw : Nat} :
    ∀ session ∈ (step.effect deployment tid clock draw part).part.store.held,
      session ∈ part.store.held ∨ session.lastUsed = clock := by
  have fewer : ∀ {held : List Session}, held.Sublist part.store.held → ∀ session ∈ held,
      session ∈ part.store.held ∨ session.lastUsed = clock :=
    fun sub session member => .inl (sub.subset member)
  cases step with
  | publish principal host role purpose accessClass =>
    intro session member
    rcases List.mem_cons.mp member with rfl | old
    · exact .inr rfl
    · exact .inl old
  | reserve principal =>
    simp only [SessionStep.effect]
    split
    · rename_i eq
      exact fewer (Sessions.reserve_eq eq).1
    · rename_i eq
      exact fewer (Sessions.reserve_eq eq).1
  | useSession id principal =>
    simp only [SessionStep.effect]
    rcases ran : part.store.useSession clock id principal with ⟨result, store⟩
    cases result with
    | error error => exact fewer (Sessions.useSession_error ran).1
    | ok used =>
      obtain ⟨session, -, -, -, -, rfl, rfl⟩ := Sessions.useSession_ok ran
      intro other inside
      obtain ⟨before, mb, rfl⟩ := List.mem_map.mp inside
      split
      · exact .inr rfl
      · exact .inl mb
  | close id principal =>
    simp only [SessionStep.effect]
    exact fewer Sessions.close_held
  | sweep => exact fewer Sessions.sweep_held
  | removeClaimed id => exact fewer Sessions.remove_held
  | claim id =>
    simp only [SessionStep.effect]
    split <;> exact fewer (List.Sublist.refl _)
  | release | holds | endsBy | live | abandon => exact fewer (List.Sublist.refl _)

theorem Step.current {step : Step β} (current : service.Current)
    (ran : step.run deployment tid choice service = some (answer, after)) : after.Current := by
  obtain ⟨-, -, -, rfl⟩ := Step.ran ran
  have clock : (step.effect deployment tid choice service).part.clock = service.clock :=
    Step.effect_clock
  intro session member
  change session.lastUsed ≤ (step.effect deployment tid choice service).part.clock
  rw [clock]
  cases step with
  | service step => cases step <;> exact current session member
  | sessions step =>
    rcases SessionStep.uses session member with old | now
    · exact current session old
    · exact now.le
  | _ => exact current session member

theorem Happening.current {happening : Happening} (current : service.Current)
    (happened : happening.run service = some after) : after.Current := by
  cases happening with
  | tick later =>
    simp only [Happening.run] at happened
    split at happened
    · rename_i le
      cases happened
      exact fun session member => (current session member).trans le
    · cases happened
  | rehashSessions held =>
    simp only [Happening.run, Bool.and_eq_true, decide_eq_true_eq, List.isPerm_iff] at happened
    split at happened
    · rename_i ok
      cases happened
      exact fun session member => current session (ok.2.mem_iff.mpr member)
    · cases happened
  | rehashRequests | rehashStanding =>
    simp only [Happening.run] at happened
    split at happened
    · cases happened
      exact current
    · cases happened

theorem Reachable.current {world : World} (reached : Reachable deployment world) :
    world.shared.Current := by
  obtain ⟨clock, run⟩ := reached
  induction run with
  | refl => exact fun session member => by cases member
  | tail _ step ih =>
    obtain ⟨move, -, moved⟩ := step
    cases move with
    | spawn call =>
      cases moved
      exact ih
    | turn tid choice =>
      obtain ⟨call, past, β, step, next, answer, -, ran, -⟩ := World.move_turn moved
      exact Step.current ih ran
    | environment event =>
      obtain ⟨shared, happened, rfl⟩ := Option.map_eq_some_iff.mp moved
      exact Happening.current ih happened

/-- A step that records no end, removes nothing and spares what there is. -/
structure Step.Calm (γ : Type) (step : Step γ) : Prop where
  endless : step.Endless
  stays : ∀ answer, ¬ step.removes answer
  spares : ∀ {deployment : Deployment} {tid choice before answer after},
    step.run deployment tid choice before = some (answer, after) → Spares before after

theorem ServiceStep.calm (step : ServiceStep β) : Step.Calm β (.service step) where
  endless := rfl
  stays := fun _ => not_false
  spares := by
    intro deployment tid choice before answer after ran
    obtain ⟨-, -, -, rfl⟩ := Step.ran ran
    cases step <;> exact .of_eq rfl rfl

theorem SessionStep.abandon_calm : Step.Calm Unit (.sessions .abandon) where
  endless := rfl
  stays := fun _ => not_false
  spares := by
    intro deployment tid choice before answer after ran
    obtain ⟨-, -, -, rfl⟩ := Step.ran ran
    exact .of_eq rfl rfl

theorem SessionStep.claim_calm (id : SessionId) : Step.Calm (Option Session) (.sessions (.claim id)) where
  endless := rfl
  stays := fun _ => not_false
  spares := by
    intro deployment tid choice before answer after ran
    obtain ⟨-, -, -, rfl⟩ := Step.ran ran
    refine .of_eq rfl ?_
    simp only [Step.effect, SessionStep.effect]
    split <;> rfl

theorem LedgerStep.spares {step : LedgerStep β}
    (ran : (Step.ledger step).run deployment tid choice service = some (answer, after)) :
    Spares service after := by
  obtain ⟨-, -, -, rfl⟩ := Step.ran ran
  exact .of_eq rfl rfl

/-! ## The path of a call that ends a session -/

/-- An end has been recorded by then. -/
def Told (id : SessionId) (event : Event) (earlier : List Took) (taken : Took) : Prop :=
  taken.step.removes taken.answer → ∃ record ∈ earlier, ∃ entry,
    record.step.endRecorded record.answer = some entry ∧ entry.event = event ∧
      entry.who.session = id ∧ entry ∈ record.after.journal.entries

/-- What a call that ends a session has done. -/
structure EndsAs (id : SessionId) (event : Event) (past : List Took) : Prop where
  about : ∀ taken ∈ past, ∀ who what, taken.step.endsAs = some (who, what) →
    who.session = id ∧ what = event
  first : Warranted (Told id event) past
  refused : ∀ taken ∈ past, taken.step.endRefused taken.answer →
    ∀ other ∈ past, ¬ other.step.removes other.answer ∧ Spares other.before other.after

namespace EndsAs
variable {id : SessionId} {event : Event} {head : Took}

theorem nil : EndsAs id event [] :=
  ⟨fun _ member => absurd member List.not_mem_nil, .nil,
    fun _ member => absurd member List.not_mem_nil⟩

/-- Nothing is recorded and nothing removed. -/
theorem of_endless (endless : ∀ taken ∈ past, taken.step.Endless ∧
    ¬ taken.step.removes taken.answer) : EndsAs id event past where
  about := fun taken member _ _ is => by cases (endless taken member).1.symm.trans is
  first := by
    intro earlier taken later eq removed
    have member : taken ∈ past := by rw [eq]; simp
    exact absurd removed (endless taken member).2
  refused := fun taken member refused =>
    absurd refused ((endless taken member).1.refused _)

/-- A step before the record. -/
theorem cons (endsAs : EndsAs id event past) (endless : head.step.Endless)
    (removes : ¬ head.step.removes head.answer) (spares : Spares head.before head.after) :
    EndsAs id event (head :: past) where
  about := by
    intro taken member who what is
    rcases List.mem_cons.mp member with rfl | rest
    · cases endless.symm.trans is
    · exact endsAs.about taken rest who what is
  first := by
    refine .cons (fun earlier taken told removes => ?_) (fun is => absurd is removes) endsAs.first
    obtain ⟨record, member, more⟩ := told removes
    exact ⟨record, List.mem_cons_of_mem _ member, more⟩
  refused := by
    intro taken member refused other inside
    rcases List.mem_cons.mp member with rfl | rest
    · exact absurd refused (endless.refused _)
    · rcases List.mem_cons.mp inside with rfl | there
      · exact ⟨removes, spares⟩
      · exact endsAs.refused taken rest refused other there

/-- A calm step before it. -/
theorem calm (endsAs : EndsAs id event past) (calm : Step.Calm head.β head.step)
    (ran : head.step.run deployment tid head.choice head.before = some (head.answer, head.after)) :
    EndsAs id event (head :: past) :=
  endsAs.cons calm.endless (calm.stays _) (calm.spares ran)

/-- The record is made: whatever follows records nothing. -/
theorem recorded {who : Attribution} {entry : Entry} (about : who.session = id)
    (is : head.step.endsAs = some (who, event))
    (removes : ¬ head.step.removes head.answer)
    (recorded : head.step.endRecorded head.answer = some entry)
    (accepted : ¬ head.step.endRefused head.answer)
    (entryIs : entry.event = event ∧ entry.who.session = id ∧
      entry ∈ head.after.journal.entries)
    (rest : ∀ taken ∈ past, taken.step.Endless) : EndsAs id event (head :: past) where
  about := by
    intro taken member other what endsAs
    rcases List.mem_cons.mp member with rfl | later
    · cases is.symm.trans endsAs
      exact ⟨about, rfl⟩
    · cases (rest taken later).symm.trans endsAs
  first := by
    intro earlier taken later eq removed
    rcases earlier with _ | ⟨one, earlier⟩
    · cases eq
      exact absurd removed removes
    · cases eq
      exact ⟨head, List.mem_cons_self, entry, recorded, entryIs⟩
  refused := by
    intro taken member refused
    rcases List.mem_cons.mp member with rfl | later
    · exact absurd refused accepted
    · exact absurd refused ((rest taken later).refused _)

/-- The record is refused: nothing is removed, and nothing else is recorded. -/
theorem unrecorded {who : Attribution} (about : who.session = id)
    (is : head.step.endsAs = some (who, event)) (removes : ¬ head.step.removes head.answer)
    (spares : Spares head.before head.after)
    (rest : ∀ taken ∈ past, Step.Calm taken.β taken.step)
    (ran : ∀ taken ∈ past, taken.step.run deployment tid taken.choice taken.before =
      some (taken.answer, taken.after)) : EndsAs id event (head :: past) where
  about := by
    intro taken member other what endsAs
    rcases List.mem_cons.mp member with rfl | later
    · cases is.symm.trans endsAs
      exact ⟨about, rfl⟩
    · cases (rest taken later).endless.symm.trans endsAs
  first := by
    intro earlier taken later eq removed
    have member : taken ∈ head :: past := by rw [eq]; simp
    rcases List.mem_cons.mp member with rfl | later
    · exact absurd removed removes
    · exact absurd removed ((rest taken later).stays _)
  refused := by
    intro taken _ _ other inside
    rcases List.mem_cons.mp inside with rfl | later
    · exact ⟨removes, spares⟩
    · exact ⟨(rest other later).stays _, (rest other later).spares (ran other later)⟩

end EndsAs

/-- What is known of every step a call has taken. -/
structure Sound (deployment : Deployment) (tid : Nat) (taken : Took) : Prop where
  inv : Inv deployment taken.before
  current : taken.before.Current
  ran : taken.step.run deployment tid taken.choice taken.before = some (taken.answer, taken.after)

theorem LedgerStep.record_entries {who : Attribution} {event : Event} {entry : Entry}
    (inv : Inv deployment service)
    (ran : (Step.ledger (.record who event)).run deployment tid choice service =
      some (.ok entry, after)) :
    entry ∈ after.journal.entries ∧ entry.who = who ∧ entry.event = event := by
  obtain ⟨journal, sameWho, sameEvent⟩ := LedgerStep.record_ok inv ran
  refine ⟨List.mem_filterMap.mpr ⟨.committed entry, ?_, rfl⟩, sameWho, sameEvent⟩
  rw [journal]
  exact List.mem_append_right _ List.mem_cons_self

theorem closeSession_path {principal : PrincipalId} {id : SessionId}
    {reply : Except MediationError Unit → Reply}
    (path : (Bastion.closeSession principal id >>= fun result => pure (reply result)).Path
      (semantics deployment) tid past)
    (sound : ∀ taken ∈ past, Sound deployment tid taken) : EndsAs id .sessionClosed past := by
  have given : ∀ result : Except MediationError Unit,
      (Program.act (.service (.unlock .publishing)) (fun _ => .done (reply result))).All Step.Calm :=
    fun _ => .act _ _ (ServiceStep.calm _) fun _ => .done _
  rcases past with _ | ⟨taken, past⟩
  · exact .nil
  rw [List.forall_mem_cons] at sound
  obtain ⟨-, sound⟩ := sound
  obtain ⟨choice, admitted, one, two, rfl, ran, path⟩ := path
  refine .calm ?_ (ServiceStep.calm _) ran
  cases admitted with
  | false =>
    obtain rfl := Program.Path.of_done path
    exact .nil
  | true =>
  rcases past with _ | ⟨taken, past⟩
  · exact .nil
  rw [List.forall_mem_cons] at sound
  obtain ⟨-, sound⟩ := sound
  obtain ⟨choice, _, one, two, rfl, ran, path⟩ := path
  refine .calm ?_ (ServiceStep.calm _) ran
  rcases past with _ | ⟨taken, past⟩
  · exact .nil
  rw [List.forall_mem_cons] at sound
  obtain ⟨here, sound⟩ := sound
  obtain ⟨choice, used, one, two, rfl, ran, path⟩ := path
  cases used with
  | error error =>
    have rest := (given (.error (.session error))).path path
    exact .of_endless (List.forall_mem_cons.mpr ⟨⟨rfl, not_false⟩, fun taken member =>
      ⟨(rest taken member).endless, (rest taken member).stays _⟩⟩)
  | ok session =>
  obtain ⟨-, same, -⟩ := SessionStep.useSession_found ran
  refine .cons ?_ rfl not_false (SessionStep.useSession_spares here.inv here.current ran)
  rcases past with _ | ⟨taken, past⟩
  · exact .nil
  rw [List.forall_mem_cons] at sound
  obtain ⟨here, sound⟩ := sound
  obtain ⟨choice, recorded, one, two, rfl, ran, path⟩ := path
  cases recorded with
  | error error =>
    exact .unrecorded same rfl not_false (LedgerStep.spares ran)
      ((given (.error (.audit error))).path path) (fun taken member => (sound taken member).ran)
  | ok entry =>
  obtain ⟨there, sameWho, sameEvent⟩ := LedgerStep.record_entries here.inv ran
  refine .recorded same rfl not_false rfl not_false ⟨sameEvent, by rw [sameWho]; exact same, there⟩ ?_
  refine Program.All.path (.act _ _ rfl fun closed => ?_) path
  cases closed with
  | error => exact .act _ _ rfl fun _ => .done _
  | ok =>
    exact .act _ _ rfl fun holder => .act _ _ rfl fun _ => (closeRemoved_takes holder _).reply.endless rfl

theorem terminateSession_path {operator : PrincipalId} {id : SessionId}
    {reply : Except MediationError Unit → Reply}
    (path : (Bastion.terminateSession id operator >>= fun result => pure (reply result)).Path
      (semantics deployment) tid past)
    (sound : ∀ taken ∈ past, Sound deployment tid taken) :
    EndsAs id (.sessionTerminated operator) past := by
  have given : ∀ result : Except MediationError Unit,
      (Program.act (.service (.unlock .publishing)) (fun _ => .done (reply result))).All Step.Calm :=
    fun _ => .act _ _ (ServiceStep.calm _) fun _ => .done _
  rcases past with _ | ⟨taken, past⟩
  · exact .nil
  rw [List.forall_mem_cons] at sound
  obtain ⟨-, sound⟩ := sound
  obtain ⟨choice, admitted, one, two, rfl, ran, path⟩ := path
  refine .calm ?_ (ServiceStep.calm _) ran
  cases admitted with
  | false =>
    obtain rfl := Program.Path.of_done path
    exact .nil
  | true =>
  rcases past with _ | ⟨taken, past⟩
  · exact .nil
  rw [List.forall_mem_cons] at sound
  obtain ⟨-, sound⟩ := sound
  obtain ⟨choice, _, one, two, rfl, ran, path⟩ := path
  refine .calm ?_ (ServiceStep.calm _) ran
  rcases past with _ | ⟨taken, past⟩
  · exact .nil
  rw [List.forall_mem_cons] at sound
  obtain ⟨-, sound⟩ := sound
  obtain ⟨choice, claimed, one, two, rfl, ran, path⟩ := path
  refine .calm ?_ (SessionStep.claim_calm id) ran
  cases claimed with
  | none =>
    have rest := (given (.error (.session .unknown))).path path
    exact .of_endless fun taken member => ⟨(rest taken member).endless, (rest taken member).stays _⟩
  | some session =>
  obtain ⟨-, same⟩ := SessionStep.claim_found ran
  rcases past with _ | ⟨taken, past⟩
  · exact .nil
  rw [List.forall_mem_cons] at sound
  obtain ⟨here, sound⟩ := sound
  obtain ⟨choice, recorded, one, two, rfl, ran, path⟩ := path
  cases recorded with
  | error error =>
    exact .unrecorded same rfl not_false (LedgerStep.spares ran)
      (Program.All.path (.act _ _ SessionStep.abandon_calm fun _ => given (.error (.audit error)))
        path) (fun taken member => (sound taken member).ran)
  | ok entry =>
  obtain ⟨there, sameWho, sameEvent⟩ := LedgerStep.record_entries here.inv ran
  refine .recorded same rfl not_false rfl not_false ⟨sameEvent, by rw [sameWho]; exact same, there⟩ ?_
  refine Program.All.path ?_ path
  exact .act _ _ rfl fun _ => .act _ _ rfl fun holder => .act _ _ rfl fun _ =>
    (closeRemoved_takes holder _).reply.endless rfl

/-- Every call that ends a session goes by its path. -/
theorem Call.ending_path {call : Call} {id : SessionId} {event : Event}
    (ending : call.ending = some (id, event))
    (path : (call.program deployment).Path (semantics deployment) tid past)
    (sound : ∀ taken ∈ past, Sound deployment tid taken) :
    event.isEnd = true ∧ EndsAs id event past := by
  cases call with
  | closeSession principal session =>
    cases ending
    exact ⟨rfl, closeSession_path path sound⟩
  | terminateSession session operator =>
    cases ending
    exact ⟨rfl, terminateSession_path path sound⟩
  | _ => cases ending

/-! ## Reachable worlds -/

/-- A step after which an end is in the record that was not before. -/
theorem Step.recorded_end {entry : Entry} (inv : Inv deployment service)
    (ran : step.run deployment tid choice service = some (answer, after))
    (isEnd : entry.event.isEnd = true) (is : entry ∈ after.journal.entries)
    (was : entry ∉ service.journal.entries) :
    step.endRecorded answer = some entry ∧ step.endsAs = some (entry.who, entry.event) := by
  obtain ⟨note, noted, rfl⟩ : ∃ note ∈ after.journal, note = .committed entry := by
    obtain ⟨note, noted, same⟩ := List.mem_filterMap.mp is
    cases note with
    | committed other => exact ⟨_, noted, by rw [Option.some.inj same]⟩
    | _ => cases same
  have unwritten : Note.committed entry ∉ service.journal :=
    fun there => was (List.mem_filterMap.mpr ⟨_, there, rfl⟩)
  have written : after.journal = service.journal ++ (step.effect deployment tid choice service).notes := by
    obtain ⟨-, -, -, rfl⟩ := Step.ran ran
    rfl
  have new : Note.committed entry ∈ (step.effect deployment tid choice service).notes := by
    rw [written] at noted
    exact (List.mem_append.mp noted).resolve_left unwritten
  by_cases idles : step.Idles
  · exact absurd ((idles.idle inv ran).old noted (by simp [Note.idle, isEnd])) unwritten
  cases step with
  | service step =>
    cases step with
    | unlock => cases new
    | _ => exact absurd trivial idles
  | sessions step =>
    cases step with
    | publish =>
      obtain ⟨-, -, -, -, -, journal, -⟩ := SessionStep.publish_did ran
      rw [journal] at noted
      rcases List.mem_append.mp noted with old | new
      · exact absurd old unwritten
      · cases List.mem_singleton.mp new
    | _ => exact absurd trivial idles
  | ledger step =>
    cases step with
    | record who event =>
      cases answer with
      | error => exact absurd (LedgerStep.record_refused ran ▸ noted) unwritten
      | ok written =>
        obtain ⟨journal, sameWho, sameEvent⟩ := LedgerStep.record_ok inv ran
        rw [journal] at noted
        cases List.mem_singleton.mp ((List.mem_append.mp noted).resolve_left unwritten)
        rw [sameEvent] at isEnd
        exact ⟨if_pos isEnd, by rw [sameWho, sameEvent]; exact if_pos isEnd⟩
    | _ => exact absurd trivial idles
  | links step => exact absurd ((LinkStep.did ran).entries ▸ is) was
  | _ => exact absurd trivial idles

theorem Happening.journal {happening : Happening} (happened : happening.run service = some after) :
    after.journal = service.journal := by
  cases happening <;> simp only [Happening.run] at happened <;> split at happened <;>
    cases happened <;> rfl

/-- What is known of every step taken in a reachable world. -/
theorem Reachable.sound {world : World} (reached : Reachable deployment world) :
    ∀ tid taken, world.Remembers tid taken → Sound deployment tid taken := by
  obtain ⟨-, heeded⟩ := reached.together
  intro tid taken remembers
  obtain ⟨⟨inv, -⟩, -, ran⟩ := heeded tid taken remembers
  refine ⟨inv, ?_, ran⟩
  obtain ⟨clock, run⟩ := reached
  obtain ⟨thread, found, member⟩ := remembers
  obtain ⟨between, to', is⟩ := run.visited (fun _ there => by cases there) tid thread found taken member
  rw [← is]
  exact Reachable.current ⟨clock, to'⟩

/-- Every past is a path through the program of its call. -/
theorem Reachable.path {world : World} (reached : Reachable deployment world) {tid : Nat}
    {thread : Thread Step Call Choice Reply Service} (found : world.threads[tid]? = some thread) :
    (thread.call.program deployment).Path (semantics deployment) tid thread.past := by
  obtain ⟨clock, run⟩ := reached
  exact (run.traced (fun _ _ there => by cases there) tid thread found).path

/-- The record only grows along a past. -/
theorem Reachable.grows {world : World} (reached : Reachable deployment world) {tid : Nat}
    {thread : Thread Step Call Choice Reply Service} (found : world.threads[tid]? = some thread) :
    thread.past.Pairwise (fun one other => one.after.journal <+: other.before.journal) := by
  obtain ⟨clock, run⟩ := reached
  refine (run.ordered (fun one other => one.journal <+: other.journal)
    (fun _ => List.prefix_refl _) List.IsPrefix.trans ?_ ?_ (fun _ there => by cases there)
    tid thread found).1
  · intro tid β step choice answer before after ran
    obtain ⟨-, -, -, rfl⟩ := Step.ran ran
    exact List.prefix_append _ _
  · intro event before after happened
    exact (Happening.idle happened).grows

/-- An end is in the record because a call that ends its session put it there. -/
theorem Reachable.end_recorded {world : World} (reached : Reachable deployment world) {entry : Entry}
    (member : entry ∈ world.shared.journal.entries) {id : SessionId} (ends : entry.ends = some id) :
    ∃ (tid : Nat) (thread : Thread Step Call Choice Reply Service) (event : Event),
      world.threads[tid]? = some thread ∧ thread.call.ending = some (id, event) ∧
        entry.event = event ∧ ∃ taken ∈ thread.past,
          taken.step.endRecorded taken.answer = some entry := by
  have isEnd : entry.event.isEnd = true := by
    unfold Entry.ends at ends
    split at ends
    · assumption
    · cases ends
  obtain ⟨tid, taken, ⟨thread, found, there⟩, was, undone⟩ :
      ∃ (tid : Nat) (taken : Took), world.Remembers tid taken ∧
        entry ∉ taken.before.journal.entries ∧ entry ∈ taken.after.journal.entries := by
    obtain ⟨clock, run⟩ := reached
    obtain ⟨tid, taken, remembers, was, undone, -⟩ := Runs.undone
      (fun service => entry ∉ service.journal.entries) run
      (fun happened was is => was (Happening.journal happened ▸ is))
      (fun there => by cases there) (not_not_intro member)
    exact ⟨tid, taken, remembers, was, not_not.mp undone⟩
  obtain ⟨inv, -, ran⟩ := reached.sound tid taken ⟨thread, found, there⟩
  obtain ⟨recorded, endsAs⟩ := Step.recorded_end inv ran isEnd undone was
  have path := reached.path found
  cases ending : thread.call.ending with
  | none => cases ((Call.program_endless ending).path path taken there).symm.trans endsAs
  | some about =>
    obtain ⟨session, event⟩ := about
    obtain ⟨-, ended⟩ := Call.ending_path ending path
      (fun taken member => reached.sound tid taken ⟨thread, found, member⟩)
    obtain ⟨same, rfl⟩ := ended.about taken there _ _ endsAs
    rw [Entry.ends, if_pos isEnd, same] at ends
    cases ends
    exact ⟨tid, thread, _, found, ending, rfl, taken, there, recorded⟩

/-- **The end of a session is recorded once, and first.** No two entries say
that one session is over, and each was recorded by a call that ends it. Where
such a call takes the session from the store or its entry from the map, its
record is there already. A call whose record was refused takes nothing out and
leaves every session as usable as it was. -/
theorem end_recorded_once_and_first {world : World} (reached : Reachable deployment world) :
    Keyed Entry.ends world.shared.journal.entries ∧
    (∀ entry ∈ world.shared.journal.entries, ∀ id, entry.ends = some id →
      ∃ (tid : Nat) (thread : Thread Step Call Choice Reply Service) (event : Event),
        world.threads[tid]? = some thread ∧ thread.call.ending = some (id, event) ∧
          entry.event = event ∧ ∃ taken ∈ thread.past,
            taken.step.endRecorded taken.answer = some entry) ∧
    ∀ (tid : Nat) (thread : Thread Step Call Choice Reply Service) (id : SessionId) (event : Event),
      world.threads[tid]? = some thread → thread.call.ending = some (id, event) →
        (∀ earlier taken later, thread.past = earlier ++ taken :: later →
          taken.step.removes taken.answer → ∃ record ∈ earlier,
            ∃ entry ∈ taken.before.journal.entries, entry.event = event ∧
              entry.ends = some id ∧ record.step.endRecorded record.answer = some entry) ∧
        ((∃ taken ∈ thread.past, taken.step.endRefused taken.answer) →
          ∀ taken ∈ thread.past, ¬ taken.step.removes taken.answer ∧
            Spares taken.before taken.after) := by
  obtain ⟨together, -⟩ := reached.together
  refine ⟨together.inv.2.ends.once, fun entry member id ends => reached.end_recorded member ends,
    fun tid thread id event found ending => ?_⟩
  obtain ⟨isEnd, ended⟩ := Call.ending_path ending (reached.path found)
    (fun taken member => reached.sound tid taken ⟨thread, found, member⟩)
  refine ⟨fun earlier taken later eq removes => ?_, fun refused taken member => ?_⟩
  · obtain ⟨record, before, entry, recorded, rfl, about, there⟩ :=
      ended.first earlier taken later eq removes
    have grows : record.after.journal <+: taken.before.journal := by
      have ordered := reached.grows found
      rw [eq] at ordered
      exact (List.pairwise_append.mp ordered).2.2 record before taken List.mem_cons_self
    obtain ⟨note, noted, same⟩ := List.mem_filterMap.mp there
    refine ⟨record, before, entry, List.mem_filterMap.mpr ⟨note, grows.subset noted, same⟩, rfl, ?_,
      recorded⟩
    rw [Entry.ends, if_pos isEnd, about]
  · obtain ⟨other, inside, is⟩ := refused
    exact ended.refused other inside is taken member

/-- A session is opened, and its principal closes it. -/
def Sample.closed : List BastionMove :=
  opening ++ .spawn (.closeSession alice ⟨5⟩) :: turns 1 20 24

/-- The sample's session has one end, which a call for it recorded. -/
theorem end_recorded_once_and_first_closed :
    Keyed Entry.ends (Sample.run Sample.closed).shared.journal.entries ∧
    ∃ entry ∈ (Sample.run Sample.closed).shared.journal.entries, ∃ id, entry.ends = some id ∧
      ∃ (tid : Nat) (thread : Thread Step Call Choice Reply Service) (event : Event),
        (Sample.run Sample.closed).threads[tid]? = some thread ∧
          thread.call.ending = some (id, event) ∧ entry.event = event := by
  have one : ((Sample.run Sample.closed).shared.journal.entries.findSome? Entry.ends).isSome := by
    decide +kernel
  obtain ⟨id, found⟩ := Option.isSome_iff_exists.mp one
  obtain ⟨entry, member, ends⟩ := List.exists_of_findSome?_eq_some found
  obtain ⟨once, recorded, -⟩ := end_recorded_once_and_first (Sample.run_reachable Sample.closed)
  obtain ⟨tid, thread, event, there, ending, is, -⟩ := recorded entry member id ends
  exact ⟨once, entry, member, id, ends, tid, thread, event, there, ending, is⟩

end McpSsh.Bastion
