import McpSsh.Bastion.Preserved.Links

/-!
# The discipline of the calls

The rely–guarantee argument of the service, and the rules the programs of its
calls are checked with. `At` says which locks a call holds; `Since` is what has
become of the service since some earlier state, whoever moved. A step that no
part of the argument turns on is `Passing`.
-/

namespace McpSsh.Bastion

open Interleaving

variable {deployment : Deployment} {tid : Nat} {choice : Choice} {service after : Service}
variable {α β : Type} {answer : β}

/-- The rely–guarantee argument of the service. -/
def discipline (deployment : Deployment) : Discipline (semantics deployment) where
  inv := Inv deployment
  rely := Rely
  guard := fun tid step service => step.Guard deployment tid service
  allowed := fun _ _ _ _ => True
  fresh := Unknown
  refl := Rely.refl
  trans := Rely.trans
  unknown := fun moved unknown => unknown.rely moved
  step := fun inv guard _ ran =>
    ⟨Step.preserves inv guard ran, fun _ differ => Step.rely inv guard ran differ⟩
  environment := fun inv happened => Happening.preserves inv happened

/-- A step a call took. -/
abbrev Took : Type 1 := Taken Step Choice Service

/-- A program that meets its guards, and what holds when it is done. -/
abbrev Safely (deployment : Deployment) (tid : Nat) (post : List Took → α → Service → Prop)
    (program : Prog α) (past : List Took) (service : Service) : Prop :=
  Safe (discipline deployment) tid post program past service

/-! ## Since an earlier state -/

/-- What an earlier state leaves to a later one. -/
structure Since (before after : Service) : Prop where
  clock : before.clock ≤ after.clock
  journal : before.journal <+: after.journal
  gone : ∀ session, before.journal.Opened session →
    before.sessions.store.usable before.clock session.id = none →
    after.sessions.store.usable after.clock session.id = none

theorem Since.refl (service : Service) : Since service service :=
  ⟨Nat.le_refl _, List.prefix_refl _, fun _ _ gone => gone⟩

theorem Since.trans {a b c : Service} (first : Since a b) (second : Since b c) : Since a c where
  clock := first.clock.trans second.clock
  journal := first.journal.trans second.journal
  gone := fun session opened gone =>
    second.gone session (opened.grow first.journal) (first.gone session opened gone)

theorem Rely.since (moved : Rely tid service after) : Since service after :=
  ⟨moved.clock, moved.journal, moved.gone⟩

theorem Step.since {step : Step β} (inv : Inv deployment service)
    (ran : step.run deployment tid choice service = some (answer, after)) : Since service after := by
  obtain ⟨unused, -, -, rfl⟩ := Step.ran ran
  have clock : (step.effect deployment tid choice service).part.clock = service.clock :=
    Step.effect_clock
  refine ⟨by simp, List.prefix_append _ _, fun session opened gone => ?_⟩
  have stays : (step.effect deployment tid choice service).part.sessions.store.usable
      service.clock session.id = none := Step.effect_gone inv.sessions.ids unused opened gone
  rw [← clock] at stays
  exact stays

/-! ## Where a call stands -/

/-- Every lock held comes before one that is to be taken. -/
def Below (held : List Lock) (which : Lock) : Prop := ∀ other ∈ held, other.rank < which.rank

theorem Below.nil (which : Lock) : Below [] which := fun _ member => by cases member

theorem Below.single {first which : Lock} (lt : first.rank < which.rank) : Below [first] which := by
  intro other member
  rw [List.mem_singleton.mp member]
  exact lt

theorem Below.not_mem {held : List Lock} {which : Lock} (below : Below held which) : which ∉ held :=
  fun member => Nat.lt_irrefl _ (below which member)

/-- Giving back the lock taken last. -/
theorem Below.given {held : List Lock} {which : Lock} (below : Below held which) :
    (which :: held).filter (· ≠ which) = held := by
  rw [List.filter_cons_of_neg (by simp)]
  refine List.filter_eq_self.mpr (fun other member => ?_)
  simp only [ne_eq, decide_not, Bool.not_eq_true', decide_eq_false_iff_not]
  rintro rfl
  exact below.not_mem member

/-- The locks a call holds, and that it has registered no run. -/
structure At (tid : Nat) (held : List Lock) (service : Service) : Prop where
  locks : ∀ which, service.locks which = some tid ↔ which ∈ held
  unregistered : ∀ note ∈ service.journal, note.registers ≠ some tid

namespace At
variable {held : List Lock}

theorem rely (at' : At tid held service) (moved : Rely tid service after) : At tid held after where
  locks := fun which => (moved.locks which).symm.trans (at'.locks which)
  unregistered := by
    intro note member registers
    have mine : note.tid = some tid := by
      cases note <;> first | exact registers | cases registers
    exact at'.unregistered note (moved.mine note member mine) registers

theorem of_unknown (unknown : Unknown tid service) : At tid [] service where
  locks := fun which => by simp [unknown.locks which]
  unregistered := by
    intro note member registers
    have mine : note.tid = some tid := by
      cases note <;> first | exact registers | cases registers
    exact unknown.notes note member mine

/-- A lock above those held may be taken. -/
theorem takes (at' : At tid held service) {which : Lock}
    (below : Below held which) : Use.Disciplined tid service (.takes which) :=
  fun other mine => below other ((at'.locks other).mp mine)

theorem has (at' : At tid held service) {which : Lock} (member : which ∈ held) :
    Use.Disciplined tid service (.has which) :=
  (at'.locks which).mpr member

end At

/-- The locks held after a step that uses `use` and leaves its lock held or not. -/
def Use.held (held : List Lock) (holds : Bool) : Use → List Lock
  | .takes which => if holds then which :: held else held
  | .has which => if holds then held else held.filter (· ≠ which)
  | .without => held

theorem Service.locksAfter_mine {held : List Lock} {use : Use} {holds : Bool}
    (locks : ∀ which, service.locks which = some tid ↔ which ∈ held)
    (permits : service.permits tid use = true) (which : Lock) :
    service.locksAfter tid holds use which = some tid ↔ which ∈ use.held held holds := by
  cases use with
  | without => exact locks which
  | takes lock =>
    simp only [Service.permits, decide_eq_true_eq] at permits
    have apart : lock ∉ held := fun member => by
      rw [(locks lock).mpr member] at permits
      cases permits
    simp only [Service.locksAfter, Function.update_apply, Use.held]
    split
    · rename_i same
      subst same
      cases holds <;> simp [apart]
    · rename_i differ
      cases holds <;> simp [locks, differ]
  | has lock =>
    simp only [Service.permits, decide_eq_true_eq] at permits
    have member : lock ∈ held := (locks lock).mp permits
    simp only [Service.locksAfter, Function.update_apply, Use.held]
    split
    · rename_i same
      subst same
      cases holds <;> simp [member]
    · rename_i differ
      cases holds <;> simp [locks, differ]

/-- Where a call stands after a step that registers nothing. -/
theorem At.step {held : List Lock} (at' : At tid held service) {step : Step β}
    (guard : step.Guard deployment tid service)
    (ran : step.run deployment tid choice service = some (answer, after))
    (registers : ¬ step.Registers) :
    At tid (step.use.held held (step.effect deployment tid choice service).holds) after := by
  obtain ⟨-, permits, -, rfl⟩ := Step.ran ran
  refine ⟨Service.locksAfter_mine at'.locks permits, fun note member => ?_⟩
  rcases List.mem_append.mp member with old | new
  · exact at'.unregistered note old
  · simp [Step.notes_registers guard registers note new]

/-! ## Steps nothing turns on -/

section
variable (held : List Lock)

def ServiceStep.Passing {β : Type} : ServiceStep β → Prop
  | .lock _ | .unlock _ => False
  | _ => True

def SessionStep.Passing {β : Type} : SessionStep β → Prop
  | .release _ | .publish .. | .claim _ | .removeClaimed _ | .abandon => False
  | _ => Below held .sessions

def StandingStep.Passing {β : Type} : StandingStep β → Prop
  | .revoke _ => Below held .standing
  | _ => False

def LedgerStep.Passing {β : Type} : LedgerStep β → Prop
  | .thisDeliberation .. | .reclaim => True
  | .record _ event => event.isPlain = true
  | _ => False

def LinkStep.Passing {β : Type} : LinkStep β → Prop
  | .insert .. | .look _ | .replace .. => False
  | _ => True

def RunStep.Passing {β : Type} : RunStep β → Prop
  | .register .. => False
  | _ => True

/-- A step that takes no lock for longer than itself, and whose guard is met
wherever its call holds no lock above. -/
def Step.Passing {β : Type} : Step β → Prop
  | .service step => step.Passing
  | .sessions step => step.Passing held
  | .requests _ => False
  | .standing step => step.Passing held
  | .ledger step => step.Passing
  | .links step => step.Passing
  | .runs step => step.Passing

end

namespace Step.Passing
variable {held : List Lock} {step : Step β}

theorem guard (passing : step.Passing held) (at' : At tid held service) :
    step.Guard deployment tid service := by
  cases step with
  | service step => cases step <;> first | exact ⟨trivial, trivial⟩ | cases passing
  | sessions step => cases step <;> first | exact ⟨at'.takes passing, trivial⟩ | cases passing
  | requests step => cases passing
  | standing step => cases step <;> first | exact ⟨at'.takes passing, trivial⟩ | cases passing
  | ledger step => cases step <;> first | exact ⟨trivial, passing⟩ | cases passing
  | links step => cases step <;> first | exact ⟨trivial, trivial⟩ | cases passing
  | runs step => cases step <;> first | exact ⟨trivial, trivial⟩ | cases passing

theorem held_eq (passing : step.Passing held) : step.use.held held false = held := by
  cases step with
  | service step => cases step <;> first | rfl | cases passing
  | sessions step => cases step <;> first | rfl | cases passing
  | requests step => cases passing
  | standing step => cases step <;> first | rfl | cases passing
  | links step => cases step <;> first | rfl | cases passing
  | ledger step | runs step => rfl

theorem registers (passing : step.Passing held) : ¬ step.Registers := by
  cases step with
  | runs step => cases step <;> first | exact id | cases passing
  | _ => exact id

/-- It keeps no lock. -/
theorem holds (passing : step.Passing held) :
    (step.effect deployment tid choice service).holds = false := by
  cases step with
  | requests step => cases passing
  | service step => cases step <;> first | rfl | cases passing
  | sessions step =>
    cases step with
    | reserve =>
      simp only [Step.effect, SessionStep.effect]
      split <;> rfl
    | release | publish | claim | removeClaimed | abandon => cases passing
    | _ => rfl
  | standing step => cases step <;> first | rfl | cases passing
  | ledger step =>
    cases step with
    | recordIntent | recordApproval | recordAnswer => cases passing
    | thisDeliberation => rfl
    | record | reclaim =>
      simp only [Step.effect, LedgerStep.effect]
      split <;> rfl
  | links step =>
    cases step with
    | insert | look | replace => cases passing
    | dial =>
      simp only [Step.effect, LinkStep.effect]
      split <;> rfl
    | _ => rfl
  | runs step => cases step <;> first | rfl | cases passing

end Step.Passing

/-! ## Rules for programs -/

section
variable {post : List Took → α → Service → Prop} {past : List Took}

/-- What is known once a step is taken, of the states around it. -/
structure Passed (deployment : Deployment) (tid : Nat) (held : List Lock) (step : Step β)
    (choice : Choice) (start before : Service) (answer : β) (after : Service) : Prop where
  inv : Inv deployment before
  moved : Rely tid start before
  ran : step.run deployment tid choice before = some (answer, after)
  kept : Inv deployment after
  since : Since start after
  at' : At tid held after

/-- The locks held, once it is known whether the step's own is. -/
theorem Passed.leaves {step : Step β} {held later : List Lock} {start before : Service}
    {holds : Bool}
    (passed : Passed deployment tid
      (step.use.held held (step.effect deployment tid choice before).holds) step choice start before
      answer after)
    (is : (step.effect deployment tid choice before).holds = holds)
    (eq : step.use.held held holds = later) :
    Passed deployment tid later step choice start before answer after := by
  subst is eq
  exact passed

/-- A step that registers no run, guarded wherever others may have taken the
service. -/
theorem Safely.act {step : Step β} {next : β → Prog α} {held : List Lock}
    (at' : At tid held service) (registers : ¬ step.Registers)
    (guard : ∀ later, Inv deployment later → Rely tid service later → At tid held later →
      step.Guard deployment tid later)
    (rest : ∀ choice later answer after,
      Passed deployment tid
        (step.use.held held (step.effect deployment tid choice later).holds) step choice service
        later answer after →
      Safely deployment tid post (next answer) (past ++ [⟨step, choice, answer, later, after⟩])
        after) :
    Safely deployment tid post (.act step next) past service := by
  intro later inv moved
  have guarded := guard later inv moved (at'.rely moved)
  exact ⟨guarded, fun choice answer after _ ran kept => rest choice later answer after
    ⟨inv, moved, ran, kept, moved.since.trans (Step.since inv ran),
      (at'.rely moved).step guarded ran registers⟩⟩

/-- A passing step: where the call stands does not change. -/
theorem Safely.passing {step : Step β} {next : β → Prog α} {held : List Lock}
    (at' : At tid held service) (passing : step.Passing held)
    (rest : ∀ choice later answer after,
      Passed deployment tid held step choice service later answer after →
      Safely deployment tid post (next answer) (past ++ [⟨step, choice, answer, later, after⟩])
        after) :
    Safely deployment tid post (.act step next) past service := by
  refine .act at' passing.registers (fun _ _ _ at' => passing.guard at')
    (fun choice later answer after passed => rest choice later answer after ?_)
  have stands := passed.at'
  rw [passing.holds, passing.held_eq] at stands
  exact { passed with at' := stands }

/-- Once a call is done: what became of the service, where the call stands, and
what it leaves in the journal. -/
def Ends (tid : Nat) (held : List Lock) (start : Service) (leaves : α → Journal → Prop) :
    List Took → α → Service → Prop :=
  fun _ value after => Since start after ∧ At tid held after ∧ leaves value after.journal

theorem Safely.done {held : List Lock} {start : Service} {leaves : α → Journal → Prop} {value : α}
    (since : Since start service) (at' : At tid held service)
    (left : ∀ later, service.journal <+: later → leaves value later) :
    Safely deployment tid (Ends tid held start leaves) (.done value) past service :=
  fun _ _ moved => ⟨since.trans moved.since, at'.rely moved, left _ moved.journal⟩

/-- A program followed by another. -/
theorem Safely.bind {first : List Took → β → Service → Prop} {program : Prog β}
    {next : β → Prog α} (safe : Safely deployment tid first program past service)
    (inv : Inv deployment service)
    (rest : ∀ past value after, Inv deployment after → first past value after →
      Safely deployment tid post (next value) past after) :
    Safely deployment tid post (program >>= next) past service :=
  Safe.bind safe inv rest

end

end McpSsh.Bastion
