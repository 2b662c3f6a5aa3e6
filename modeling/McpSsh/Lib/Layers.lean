import McpSsh.Lib.Interleaving

/-!
# Layers and pasts

A `Layer` adds to a discipline that is already known to hold: where its steps
are taken, the invariant and the guards of the discipline below it are given.
`Runs.layered` is adequacy for both at once, and `Runs.met` says the same of
every step already taken.

The rest reads the pasts of the threads. A past is a path through the program
of its call (`Runs.traced`), a run may be told what it will have done by its
end (`Runs.remembered`), and what held once and holds no more was undone by
some step (`Runs.undone`).
-/

namespace McpSsh.Interleaving

variable {Step : Type → Type} {κ ι ε α σ : Type}
variable {semantics : Semantics Step ι ε σ} {programOf : κ → Program Step α}

/-! ## Threads after a move -/

/-- Where a thread comes from: it was there, it is new, or it has just taken a
step. -/
theorem World.move_threads {world after : World Step κ ι α σ} {move : Move κ ι ε}
    (moved : world.move semantics programOf move = some after) {tid : Nat}
    {thread : Thread Step κ ι α σ} (found : after.threads[tid]? = some thread) :
    world.threads[tid]? = some thread ∨ (∃ call, thread = ⟨call, programOf call, []⟩) ∨
      ∃ choice call past, ∃ β : Type, ∃ (step : Step β) (next : β → Program Step α) (answer : β),
        world.threads[tid]? = some ⟨call, .act step next, past⟩ ∧
        semantics.run tid choice step world.shared = some (answer, after.shared) ∧
        thread = ⟨call, next answer, past ++ [⟨step, choice, answer, world.shared, after.shared⟩]⟩ := by
  cases move with
  | spawn call =>
    cases moved
    rcases Nat.lt_or_ge tid world.threads.length with old | new
    · rw [List.getElem?_append_left old] at found
      exact .inl found
    · rw [List.getElem?_append_right new, List.getElem?_singleton] at found
      split at found
      · cases found
        exact .inr (.inl ⟨call, rfl⟩)
      · cases found
  | turn other choice =>
    obtain ⟨call, past, β, step, next, answer, there, ran, threads⟩ := World.move_turn moved
    rw [threads] at found
    rcases eq_or_ne other tid with rfl | differ
    · rw [List.getElem?_set_self (List.getElem?_eq_some_iff.mp there).1] at found
      cases found
      exact .inr (.inr ⟨choice, call, past, β, step, next, answer, there, ran, rfl⟩)
    · rw [List.getElem?_set_ne differ] at found
      exact .inl found
  | environment event =>
    obtain ⟨shared, -, rfl⟩ := Option.map_eq_some_iff.mp moved
    exact .inl found

/-- A thread stays, and its past only grows. -/
theorem World.move_grows {world after : World Step κ ι α σ} {move : Move κ ι ε}
    (moved : world.move semantics programOf move = some after) {tid : Nat}
    {thread : Thread Step κ ι α σ} (found : world.threads[tid]? = some thread) :
    ∃ later, after.threads[tid]? = some later ∧ later.call = thread.call ∧
      thread.past <+: later.past := by
  have within := (List.getElem?_eq_some_iff.mp found).1
  cases move with
  | spawn call =>
    cases moved
    exact ⟨thread, by rw [List.getElem?_append_left within]; exact found, rfl, List.prefix_refl _⟩
  | turn other choice =>
    obtain ⟨call, past, β, step, next, answer, there, -, threads⟩ := World.move_turn moved
    rw [threads]
    rcases eq_or_ne other tid with rfl | differ
    · obtain rfl := Option.some.inj (there.symm.trans found)
      exact ⟨_, List.getElem?_set_self within, rfl, List.prefix_append _ _⟩
    · exact ⟨thread, by rw [List.getElem?_set_ne differ]; exact found, rfl, List.prefix_refl _⟩
  | environment event =>
    obtain ⟨shared, -, rfl⟩ := Option.map_eq_some_iff.mp moved
    exact ⟨thread, found, rfl, List.prefix_refl _⟩

theorem Runs.grows {allowed : World Step κ ι α σ → Move κ ι ε → Prop}
    {before after : World Step κ ι α σ} (run : Runs semantics programOf allowed before after)
    {tid : Nat} {thread : Thread Step κ ι α σ} (found : before.threads[tid]? = some thread) :
    ∃ later, after.threads[tid]? = some later ∧ later.call = thread.call ∧
      thread.past <+: later.past := by
  induction run with
  | refl => exact ⟨thread, found, rfl, List.prefix_refl _⟩
  | tail _ step ih =>
    obtain ⟨move, -, moved⟩ := step
    obtain ⟨middle, there, call, grows⟩ := ih
    obtain ⟨last, there', call', grows'⟩ := World.move_grows moved there
    exact ⟨last, there', call'.trans call, grows.trans grows'⟩

/-! ## Layers -/

/-- What a second argument adds to a first. Its steps are only looked at where
the first one's guards are met. -/
structure Layer (base : Discipline semantics) where
  inv : σ → Prop
  rely : Nat → σ → σ → Prop
  guard : {β : Type} → Nat → Step β → σ → Prop
  allowed : {β : Type} → Nat → ι → Step β → σ → Prop
  refl : ∀ tid state, rely tid state state
  trans : ∀ {tid a b c}, base.rely tid a b → rely tid a b → rely tid b c → rely tid a c
  step : ∀ {β : Type} {tid : Nat} {choice : ι} {step : Step β} {before after : σ} {answer : β},
    base.inv before → base.guard tid step before → inv before → guard tid step before →
    allowed tid choice step before → semantics.run tid choice step before = some (answer, after) →
    base.inv after → inv after ∧ ∀ other, other ≠ tid → base.rely other before after →
      rely other before after
  environment : ∀ {event : ε} {before after : σ}, base.inv before → inv before →
    semantics.environment event before = some after → inv after ∧ ∀ tid, rely tid before after

namespace Layer
variable {base : Discipline semantics}

/-- Both arguments as one. -/
def discipline (layer : Layer base) : Discipline semantics where
  inv := fun state => base.inv state ∧ layer.inv state
  rely := fun tid before after => base.rely tid before after ∧ layer.rely tid before after
  guard := layer.guard
  allowed := fun tid choice step state =>
    (base.guard tid step state ∧ base.allowed tid choice step state) ∧
      layer.allowed tid choice step state
  fresh := base.fresh
  refl := fun tid state => ⟨base.refl tid state, layer.refl tid state⟩
  trans := fun first second =>
    ⟨base.trans first.1 second.1, layer.trans first.1 first.2 second.2⟩
  unknown := fun moved => base.unknown moved.1
  step := by
    rintro β tid choice step before after answer ⟨below, inv⟩ guard ⟨⟨met, allowed⟩, allowed'⟩ ran
    obtain ⟨kept, others⟩ := base.step below met allowed ran
    obtain ⟨inv', others'⟩ := layer.step below met inv guard allowed' ran kept
    exact ⟨⟨kept, inv'⟩, fun other differ =>
      ⟨others other differ, others' other differ (others other differ)⟩⟩
  environment := by
    rintro event before after ⟨below, inv⟩ happened
    obtain ⟨kept, all⟩ := base.environment below happened
    obtain ⟨inv', all'⟩ := layer.environment below inv happened
    exact ⟨⟨kept, inv'⟩, fun tid => ⟨all tid, all' tid⟩⟩

/-- A move is allowed if the step it takes is. -/
def Allows (layer : Layer base) (world : World Step κ ι α σ) : Move κ ι ε → Prop
  | .turn tid choice => ∀ call past, ∀ (β : Type) (step : Step β) (next : β → Program Step α),
      world.threads[tid]? = some ⟨call, .act step next, past⟩ →
        layer.allowed tid choice step world.shared
  | _ => True

variable {layer : Layer base} {post : κ → Nat → List (Taken Step ι σ) → α → σ → Prop}
variable {world : World Step κ ι α σ}

/-- Where the first argument holds, the second need not ask for its guards. -/
theorem allows (good : Good base post world) {move : Move κ ι ε} (below : base.Allows world move)
    (allowed : layer.Allows world move) : layer.discipline.Allows world move := by
  cases move with
  | turn tid choice =>
    intro call past β step next found
    exact ⟨⟨good.guard found, below call past β step next found⟩,
      allowed call past β step next found⟩
  | _ => trivial

end Layer

section
variable {base : Discipline semantics} {layer : Layer base}
variable {post first : κ → Nat → List (Taken Step ι σ) → α → σ → Prop}
variable {allowed : World Step κ ι α σ → Move κ ι ε → Prop} {before after : World Step κ ι α σ}

/-- **Adequacy of a layer.** -/
theorem Runs.layered
    (starts : ∀ call tid state, base.inv state → base.fresh tid state →
      Safe base tid (first call tid) (programOf call) [] state)
    (starts' : ∀ call tid state, layer.discipline.inv state → base.fresh tid state →
      Safe layer.discipline tid (post call tid) (programOf call) [] state)
    (allows : ∀ world move after, allowed world move →
      world.move semantics programOf move = some after →
        base.Allows world move ∧ layer.Allows world move)
    (run : Runs semantics programOf allowed before after) (good : Good base first before)
    (good' : Good layer.discipline post before) :
    Good base first after ∧ Good layer.discipline post after := by
  induction run with
  | refl => exact ⟨good, good'⟩
  | tail _ step ih =>
    obtain ⟨move, ok, moved⟩ := step
    obtain ⟨below, above⟩ := allows _ _ _ ok moved
    exact ⟨ih.1.move starts below moved,
      ih.2.move starts' (Layer.allows ih.1 below above) moved⟩

/-- What was met where a step was taken: both invariants, and the guards of the
layer. -/
structure Layer.Met (layer : Layer base) (tid : Nat) (taken : Taken Step ι σ) : Prop where
  inv : layer.discipline.inv taken.before
  guard : layer.guard tid taken.step taken.before
  ran : semantics.run tid taken.choice taken.step taken.before = some (taken.answer, taken.after)

/-- Every step taken was guarded where it was taken. -/
theorem Runs.met
    (starts : ∀ call tid state, base.inv state → base.fresh tid state →
      Safe base tid (first call tid) (programOf call) [] state)
    (starts' : ∀ call tid state, layer.discipline.inv state → base.fresh tid state →
      Safe layer.discipline tid (post call tid) (programOf call) [] state)
    (allows : ∀ world move after, allowed world move →
      world.move semantics programOf move = some after →
        base.Allows world move ∧ layer.Allows world move)
    (run : Runs semantics programOf allowed before after) (good : Good base first before)
    (good' : Good layer.discipline post before)
    (earlier : ∀ (tid : Nat) thread, before.threads[tid]? = some thread →
      ∀ taken ∈ thread.past, layer.Met tid taken) :
    ∀ (tid : Nat) thread, after.threads[tid]? = some thread →
      ∀ taken ∈ thread.past, layer.Met tid taken := by
  induction run with
  | refl => exact earlier
  | tail run step ih =>
    obtain ⟨-, above⟩ := Runs.layered starts starts' allows run good good'
    obtain ⟨move, -, moved⟩ := step
    intro tid thread found taken member
    rcases World.move_threads moved found with old | ⟨call, rfl⟩ |
      ⟨choice, call, past, β, step, next, answer, there, ran, rfl⟩
    · exact ih tid thread old taken member
    · cases member
    · rcases List.mem_append.mp member with old | new
      · exact ih tid _ there taken old
      · obtain rfl := List.mem_singleton.mp new
        exact ⟨above.inv, above.guard there, ran⟩

end

/-! ## Safety of programs nothing is asked of -/

/-- If a kind of steps meets the guards anywhere and leaves what the thread
relies on related to what it was, so does a program of such steps. -/
theorem Safe.all (discipline : Discipline semantics) {tid : Nat}
    {kind : (γ : Type) → Step γ → Prop} (leaves : σ → σ → Prop)
    (refl : ∀ state, leaves state state)
    (trans : ∀ {a b c}, leaves a b → leaves b c → leaves a c)
    (rely : ∀ {a b}, discipline.rely tid a b → leaves a b)
    (guard : ∀ {γ : Type} {step : Step γ} {state}, kind γ step → discipline.inv state →
      discipline.guard tid step state)
    (stays : ∀ {γ : Type} {step : Step γ} {choice answer before after}, kind γ step →
      discipline.inv before → discipline.allowed tid choice step before →
      semantics.run tid choice step before = some (answer, after) → leaves before after)
    {program : Program Step α} (all : program.All kind) {past : List (Taken Step ι σ)} {state : σ} :
    Safe discipline tid (fun past' _ state' => leaves state state' ∧
      ∃ more, past' = past ++ more ∧ ∀ taken ∈ more, kind taken.β taken.step) program past state := by
  suffices from' : ∀ start, leaves start state → Safe discipline tid
      (fun past' _ state' => leaves start state' ∧
        ∃ more, past' = past ++ more ∧ ∀ taken ∈ more, kind taken.β taken.step) program past state
    from from' state (refl state)
  intro start since
  induction all generalizing past state with
  | done value =>
    intro later _ moved
    exact ⟨trans since (rely moved), [], (List.append_nil _).symm, fun _ member => by cases member⟩
  | act step next here _ ih =>
    intro later inv moved
    refine ⟨guard here inv, fun choice answer after ok ran _ => ?_⟩
    have since := trans (trans since (rely moved)) (stays here inv ok ran)
    refine Safe.weaken (ih answer since) fun past' value state' _ ⟨left, more, eq, kinds⟩ => ?_
    refine ⟨left, ⟨step, choice, answer, later, after⟩ :: more, by rw [eq]; simp, ?_⟩
    intro taken member
    rcases List.mem_cons.mp member with rfl | old
    · exact here
    · exact kinds taken old

/-! ## Pasts as paths -/

/-- The steps taken are a path through the program. -/
def Program.Path (semantics : Semantics Step ι ε σ) (tid : Nat) :
    Program Step α → List (Taken Step ι σ) → Prop
  | _, [] => True
  | .done _, _ :: _ => False
  | .act step next, taken :: rest =>
    ∃ choice answer before after, taken = ⟨step, choice, answer, before, after⟩ ∧
      semantics.run tid choice step before = some (answer, after) ∧
      (next answer).Path semantics tid rest

theorem Program.Path.of_done {tid : Nat} {value : α} {past : List (Taken Step ι σ)}
    (path : (Program.done value).Path semantics tid past) : past = [] := by
  cases past with
  | nil => rfl
  | cons => cases path

/-- What is left of a program at the end of a path through it. -/
inductive Program.Leads (semantics : Semantics Step ι ε σ) (tid : Nat) (program : Program Step α) :
    List (Taken Step ι σ) → Program Step α → Prop
  | start : Leads semantics tid program [] program
  | step {past : List (Taken Step ι σ)} {β : Type} {step : Step β} {next : β → Program Step α}
      {choice : ι} {answer : β} {before after : σ}
      (leads : Leads semantics tid program past (.act step next))
      (ran : semantics.run tid choice step before = some (answer, after)) :
      Leads semantics tid program (past ++ [⟨step, choice, answer, before, after⟩]) (next answer)

theorem Program.Path.append {tid : Nat} {program left : Program Step α}
    {past more : List (Taken Step ι σ)} (leads : program.Leads semantics tid past left)
    (path : left.Path semantics tid more) : program.Path semantics tid (past ++ more) := by
  induction leads generalizing more with
  | start => exact path
  | step _ ran ih =>
    rw [List.append_assoc]
    exact ih ⟨_, _, _, _, rfl, ran, path⟩

theorem Program.Leads.path {tid : Nat} {program left : Program Step α}
    {past : List (Taken Step ι σ)} (leads : program.Leads semantics tid past left) :
    program.Path semantics tid past := by
  have none' : left.Path semantics tid [] := by cases left <;> trivial
  simpa using Program.Path.append leads none'

/-- A past is a path through the program of its call. -/
theorem Runs.traced {allowed : World Step κ ι α σ → Move κ ι ε → Prop}
    {before after : World Step κ ι α σ} (run : Runs semantics programOf allowed before after)
    (first : ∀ (tid : Nat) thread, before.threads[tid]? = some thread →
      (programOf thread.call).Leads semantics tid thread.past thread.program) :
    ∀ (tid : Nat) thread, after.threads[tid]? = some thread →
      (programOf thread.call).Leads semantics tid thread.past thread.program := by
  induction run with
  | refl => exact first
  | tail _ step ih =>
    obtain ⟨move, -, moved⟩ := step
    intro tid thread found
    rcases World.move_threads moved found with old | ⟨call, rfl⟩ |
      ⟨choice, call, past, β, step, next, answer, there, ran, rfl⟩
    · exact ih tid thread old
    · exact .start
    · exact .step (ih tid _ there) ran

/-- Where a step was taken, the world had come to by then. -/
theorem Runs.visited {allowed : World Step κ ι α σ → Move κ ι ε → Prop}
    {before after : World Step κ ι α σ} (run : Runs semantics programOf allowed before after)
    (first : ∀ thread ∈ before.threads, thread.past = []) :
    ∀ (tid : Nat) thread, after.threads[tid]? = some thread → ∀ taken ∈ thread.past,
      ∃ between, Runs semantics programOf allowed before between ∧ between.shared = taken.before := by
  induction run with
  | refl =>
    intro tid thread found taken member
    rw [first thread (List.mem_of_getElem? found)] at member
    cases member
  | tail run step ih =>
    obtain ⟨move, -, moved⟩ := step
    intro tid thread found taken member
    rcases World.move_threads moved found with old | ⟨call, rfl⟩ |
      ⟨choice, call, past, β, step, next, answer, there, ran, rfl⟩
    · exact ih tid thread old taken member
    · cases member
    · rcases List.mem_append.mp member with old | new
      · exact ih tid _ there taken old
      · obtain rfl := List.mem_singleton.mp new
        exact ⟨_, run, rfl⟩

/-- What every move leaves related is related along a past, and to what came of
it. -/
theorem Runs.ordered (since : σ → σ → Prop) (refl : ∀ state, since state state)
    (trans : ∀ {a b c}, since a b → since b c → since a c)
    (steps : ∀ {tid : Nat} {β : Type} {step : Step β} {choice answer before after},
      semantics.run tid choice step before = some (answer, after) → since before after)
    (environment : ∀ {event before after}, semantics.environment event before = some after →
      since before after)
    {allowed : World Step κ ι α σ → Move κ ι ε → Prop} {before after : World Step κ ι α σ}
    (run : Runs semantics programOf allowed before after)
    (first : ∀ thread ∈ before.threads, thread.past = []) :
    ∀ (tid : Nat) thread, after.threads[tid]? = some thread →
      thread.past.Pairwise (fun one other => since one.after other.before) ∧
        ∀ taken ∈ thread.past, since taken.after after.shared := by
  induction run with
  | refl =>
    intro tid thread found
    rw [first thread (List.mem_of_getElem? found)]
    exact ⟨.nil, fun _ member => by cases member⟩
  | @tail middle last run step ih =>
    obtain ⟨move, -, moved⟩ := step
    have onwards : since middle.shared last.shared := by
      cases move with
      | spawn call =>
        cases moved
        exact refl _
      | turn tid choice =>
        obtain ⟨call, past, β, step, next, answer, -, ran, -⟩ := World.move_turn moved
        exact steps ran
      | environment event =>
        obtain ⟨shared, happened, rfl⟩ := Option.map_eq_some_iff.mp moved
        exact environment happened
    intro tid thread found
    rcases World.move_threads moved found with old | ⟨call, rfl⟩ |
      ⟨choice, call, past, β, step, next, answer, there, ran, rfl⟩
    · obtain ⟨ordered, reached⟩ := ih tid thread old
      exact ⟨ordered, fun taken member => trans (reached taken member) onwards⟩
    · exact ⟨.nil, fun _ member => by cases member⟩
    · obtain ⟨ordered, reached⟩ := ih tid _ there
      refine ⟨List.pairwise_append.mpr ⟨ordered, List.pairwise_singleton _ _, ?_⟩, ?_⟩
      · intro one before other new
        obtain rfl := List.mem_singleton.mp new
        exact reached one before
      · intro taken member
        rcases List.mem_append.mp member with before | new
        · exact trans (reached taken before) onwards
        · obtain rfl := List.mem_singleton.mp new
          exact refl _

/-- Every step on a path is one the program can come to. -/
theorem Program.All.path {kind : (γ : Type) → Step γ → Prop} {tid : Nat} {program : Program Step α}
    (all : program.All kind) {past : List (Taken Step ι σ)} (path : program.Path semantics tid past) :
    ∀ taken ∈ past, kind taken.β taken.step := by
  induction past generalizing program with
  | nil => exact fun _ member => by cases member
  | cons head tail ih =>
    cases all with
    | done value => cases path
    | act step next here rest =>
      obtain ⟨choice, answer, before, after, rfl, -, path⟩ := path
      intro taken member
      rcases List.mem_cons.mp member with rfl | old
      · exact here
      · exact ih (rest answer) path taken old

/-! ## What a program has learnt -/

section
variable {η : Type} {names : (β : Type) → Step β → η → Prop}
variable {learns : (β : Type) → Step β → β → η → Prop} {known more : η → Prop}

/-- A program names only what it knows: what it knew to begin with, and what
its steps have answered. -/
inductive Program.Informed (names : (β : Type) → Step β → η → Prop)
    (learns : (β : Type) → Step β → β → η → Prop) : (η → Prop) → Program Step α → Prop
  | done (known : η → Prop) (value : α) : Informed names learns known (.done value)
  | act {β : Type} (known : η → Prop) (step : Step β) (next : β → Program Step α)
      (here : ∀ name, names _ step name → known name)
      (rest : ∀ answer, Informed names learns
        (fun name => known name ∨ learns _ step answer name) (next answer)) :
      Informed names learns known (.act step next)

namespace Program.Informed

theorem mono {program : Program Step α} (informed : Program.Informed names learns known program)
    (weaker : ∀ name, known name → more name) : Program.Informed names learns more program := by
  induction informed generalizing more with
  | done known value => exact .done more value
  | act known step next here _ ih =>
    exact .act more step next (fun name named => weaker name (here name named))
      (fun answer => ih answer (fun name => Or.imp_left (weaker name)))

/-- A program none of whose steps names anything. -/
theorem of_all {program : Program Step α}
    (all : program.All (fun β step => ∀ name, ¬ names β step name)) :
    Program.Informed names learns known program := by
  induction all generalizing known with
  | done value => exact .done known value
  | act step next here _ ih =>
    exact .act known step next (fun name named => absurd named (here name)) (fun answer => ih answer)

theorem bind {β : Type} {program : Program Step α} {next : α → Program Step β}
    (informed : Program.Informed names learns known program)
    (rest : ∀ value, Program.Informed names learns known (next value)) :
    Program.Informed names learns known (program >>= next) := by
  induction informed with
  | done known value => exact rest value
  | act known step next' here _ ih =>
    exact .act known step _ here
      (fun answer => ih answer (fun value => (rest value).mono (fun _ => Or.inl)))

/-- What is left of a program knows what has been answered on the way. -/
theorem leads {tid : Nat} {program left : Program Step α} {past : List (Taken Step ι σ)}
    (informed : Program.Informed names learns known program) (leads : program.Leads semantics tid past left) :
    Program.Informed names learns (fun name => known name ∨
      ∃ taken ∈ past, learns _ taken.step taken.answer name) left := by
  induction leads with
  | start => exact informed.mono (fun _ => Or.inl)
  | step _ _ ih =>
    cases ih with
    | act _ _ _ _ rest =>
      refine (rest _).mono fun name knows => ?_
      rcases knows with (before | ⟨taken, member, learnt⟩) | learnt
      · exact .inl before
      · exact .inr ⟨taken, List.mem_append_left _ member, learnt⟩
      · exact .inr ⟨_, List.mem_append_right _ (List.mem_singleton_self _), learnt⟩

end Program.Informed

end

/-! ## Looking back from the end -/

/-- A world remembers what its threads have done. -/
def World.Remembers (world : World Step κ ι α σ) (tid : Nat) (taken : Taken Step ι σ) : Prop :=
  ∃ thread, world.threads[tid]? = some thread ∧ taken ∈ thread.past

/-- A later world remembers the step a move takes. -/
def World.Recalls (semantics : Semantics Step ι ε σ) (last world : World Step κ ι α σ) :
    Move κ ι ε → Prop
  | .turn tid choice => ∀ call past, ∀ (β : Type) (step : Step β) (next : β → Program Step α) answer after,
      world.threads[tid]? = some ⟨call, .act step next, past⟩ →
        semantics.run tid choice step world.shared = some (answer, after) →
          last.Remembers tid ⟨step, choice, answer, world.shared, after⟩
  | _ => True

/-- What a run did is remembered at its end. -/
theorem Runs.remembered {allowed : World Step κ ι α σ → Move κ ι ε → Prop}
    {before after : World Step κ ι α σ} (run : Runs semantics programOf allowed before after) :
    Runs semantics programOf
      (fun world move => allowed world move ∧ after.Recalls semantics world move) before after := by
  induction run using Relation.ReflTransGen.head_induction_on with
  | refl => exact .refl
  | @head start middle step rest ih =>
    obtain ⟨move, ok, moved⟩ := step
    refine .head ⟨move, ⟨ok, ?_⟩, moved⟩ ih
    cases move with
    | turn tid choice =>
      intro call past β step next answer shared found ran
      obtain ⟨call', past', β', step', next', answer', found', ran', threads⟩ :=
        World.move_turn moved
      obtain same := Option.some.inj (found.symm.trans found')
      cases same
      obtain ⟨rfl, rfl⟩ := Prod.mk.inj (Option.some.inj (ran.symm.trans ran'))
      have there : middle.threads[tid]? = some ⟨call, next answer,
          past ++ [⟨step, choice, answer, start.shared, middle.shared⟩]⟩ := by
        rw [threads]
        exact List.getElem?_set_self (List.getElem?_eq_some_iff.mp found).1
      obtain ⟨later, found'', -, grows⟩ := Runs.grows rest there
      exact ⟨later, found'', grows.subset (List.mem_append_right _ (List.mem_singleton_self _))⟩
    | _ => trivial

/-- What held at first and holds no more was undone by some step. -/
theorem Runs.undone (holds : σ → Prop) {allowed : World Step κ ι α σ → Move κ ι ε → Prop}
    {before after : World Step κ ι α σ} (run : Runs semantics programOf allowed before after)
    (environment : ∀ {event a b}, semantics.environment event a = some b → holds a → holds b)
    (held : holds before.shared) (gone : ¬ holds after.shared) :
    ∃ (tid : Nat) (taken : Taken Step ι σ), after.Remembers tid taken ∧ holds taken.before ∧
      ¬ holds taken.after ∧
      semantics.run tid taken.choice taken.step taken.before = some (taken.answer, taken.after) := by
  induction run with
  | refl => exact absurd held gone
  | @tail middle last run step ih =>
    obtain ⟨move, -, moved⟩ := step
    by_cases still : holds middle.shared
    · cases move with
      | spawn call =>
        cases moved
        exact absurd still gone
      | turn tid choice =>
        obtain ⟨call, past, β, step, next, answer, found, ran, threads⟩ := World.move_turn moved
        have there := List.getElem?_set_self (a := (⟨call, next answer,
          past ++ [⟨step, choice, answer, middle.shared, last.shared⟩]⟩ : Thread Step κ ι α σ))
          (List.getElem?_eq_some_iff.mp found).1
        rw [← threads] at there
        exact ⟨tid, _, ⟨_, there, List.mem_append_right _ (List.mem_singleton_self _)⟩, still, gone,
          ran⟩
      | environment event =>
        obtain ⟨shared, happened, rfl⟩ := Option.map_eq_some_iff.mp moved
        exact absurd (environment happened still) gone
    · obtain ⟨tid, taken, ⟨thread, found, member⟩, rest⟩ := ih still
      obtain ⟨later, found', -, grows⟩ := World.move_grows moved found
      exact ⟨tid, taken, ⟨later, found', grows.subset member⟩, rest⟩

end McpSsh.Interleaving
