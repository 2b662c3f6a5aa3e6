import McpSsh.Settings

/-!
# Separate surfaces

What settings that are accepted say about credentials: each surface accepts what
is configured for it, no value is accepted by two of them, no name is a
credential, and there is someone to ask wherever something is held for a human.
-/

namespace McpSsh.Settings

open Refusals

/-- The variables that configure a surface, in one mode or another. -/
def Surface.variables : Surface → List String
  | .mcp => [standaloneBearerVar, bearerVar, previousBearerVar]
  | .operator => [operatorPasswordVar, proxyBearerVar, previousProxyBearerVar]
  | .evaluator => [evaluatorBearerVar, previousEvaluatorBearerVar]
  | .metrics => [metricsBearerVar, previousMetricsBearerVar]

/-- Those that a surface's values are read from. -/
def Surface.readFrom (gateway : Bool) : Surface → List String
  | .mcp => [currentVar gateway, previousBearerVar]
  | .operator => [proxyVar gateway, previousProxyBearerVar]
  | .evaluator => [evaluatorBearerVar, previousEvaluatorBearerVar]
  | .metrics => [metricsBearerVar, previousMetricsBearerVar]

/-- A variable of a surface is read, or it belongs to the other mode. -/
theorem Surface.read_or_incompatible {surface : Surface} {var : String} (gateway : Bool)
    (listed : var ∈ surface.variables) :
    var ∈ surface.readFrom gateway ∨ var ∈ incompatible gateway := by
  have all : ∀ var ∈ surface.variables,
      var ∈ surface.readFrom gateway ∨ var ∈ incompatible gateway := by
    cases surface <;> cases gateway <;> decide
  exact all var listed

section

variable {outside : Outside} {lookup : Lookup} {stdio gateway : Bool} {configured : Configured}
  {bearers : Bearers} {sha256 : List UInt8 → Digest} {surface other : Surface}
  {presented : List UInt8} {var value : String}

/-! ## What is read -/

theorem optional_of_required (read : required lookup var = .ok value) :
    optional lookup var = .ok (some value) := by
  unfold required at read
  unfold optional
  cases said : lookup var with
  | ok text =>
    rw [said] at read
    dsimp only at read ⊢
    by_cases blank : isBlank text
    · rw [if_pos blank] at read
      exact nomatch read
    · rw [if_neg blank] at read ⊢
      rw [Except.ok.inj read]
  | error missing =>
    rw [said] at read
    cases missing <;> exact nomatch read

theorem readCurrent_ok {current : Option String}
    (read : readCurrent lookup stdio gateway = .ok current) :
    optional lookup (currentVar gateway) = .ok current := by
  unfold readCurrent at read
  cases stdio with
  | true =>
    simp only [if_true, bind_ok, pure_ok, refuse_ok] at read
    obtain ⟨said, found, _, nothing, rfl⟩ := read
    rw [Option.isSome_iff_ne_none, not_not] at nothing
    rw [found, nothing]
  | false =>
    simp only [Bool.false_eq_true, if_false, bind_ok, pure_ok] at read
    obtain ⟨value, found, rfl⟩ := read
    exact optional_of_required found

/-- What is configured, as the environment has it. -/
structure Configured.Reads (lookup : Lookup) (gateway : Bool) (configured : Configured) : Prop where
  values : ∀ surface : Surface, ∀ var ∈ surface.readFrom gateway,
    ∃ value ∈ configured.values surface, optional lookup var = .ok value
  reviewed : configured.review ≠ .disabled →
    configured.proxyCurrent.isSome ∧ configured.dashboard.isSome

theorem Configured.read_ok (read : Configured.read outside lookup stdio gateway = .ok configured) :
    configured.Reads lookup gateway := by
  unfold Configured.read at read
  simp only [bind_ok, pure_ok, refuse_ok] at read
  obtain ⟨current, foundCurrent, previous, foundPrevious, proxyCurrent, foundProxy, proxyPrevious,
    foundProxyPrevious, _, -, _, -, review, -, dashboard, -, _, someone, _, somewhere,
    metricsCurrent, foundMetrics, metricsPrevious, foundMetricsPrevious, evaluatorCurrent,
    foundEvaluator, evaluatorPrevious, foundEvaluatorPrevious, name, -, _, -, _, -, _, -, rfl⟩ := read
  constructor
  · have two {first second : String} {values : List (Option String)} {value value' : Option String}
        (found : optional lookup first = .ok value) (found' : optional lookup second = .ok value')
        (same : [value, value'] = values) :
        ∀ var ∈ [first, second], ∃ value ∈ values, optional lookup var = .ok value := by
      subst same
      intro var listed
      rcases List.mem_pair.mp listed with rfl | rfl
      · exact ⟨value, List.mem_cons_self, found⟩
      · exact ⟨value', List.mem_cons_of_mem _ List.mem_cons_self, found'⟩
    intro surface
    cases surface with
    | mcp => exact two (readCurrent_ok foundCurrent) foundPrevious rfl
    | operator => exact two foundProxy foundProxyPrevious rfl
    | evaluator => exact two foundEvaluator foundEvaluatorPrevious rfl
    | metrics => exact two foundMetrics foundMetricsPrevious rfl
  · intro held
    have asked {α : Type} {given : Option α} (refused : ¬(review ≠ .disabled ∧ given.isNone = true)) :
        given.isSome = true := by
      cases given with
      | some _ => rfl
      | none => exact absurd ⟨held, rfl⟩ refused
    exact ⟨asked someone, asked somewhere⟩

/-- What a variable of a surface says is among what is configured for it. -/
theorem Configured.Reads.mem_given (reads : configured.Reads lookup gateway)
    (compatible : refuseIncompatible lookup gateway = .ok ()) (listed : var ∈ surface.variables)
    (said : optional lookup var = .ok (some value)) :
    value ∈ given (configured.values surface) := by
  rcases Surface.read_or_incompatible gateway listed with read | foreign
  · obtain ⟨other, held, found⟩ := reads.values surface var read
    rw [said, Except.ok.injEq] at found
    exact McpSsh.mem_given.mpr (found ▸ held)
  · have nothing := forM_ok.mp compatible var foreign
    simp only [bind_ok, refuse_ok] at nothing
    obtain ⟨other, found, nothing⟩ := nothing
    rw [said, Except.ok.injEq] at found
    rw [← found] at nothing
    exact absurd rfl nothing

/-! ## What is shared -/

theorem refuseShared_ok {held : List (Option String)} {values : List (Option String × String)}
    (passed : refuseShared held values = .ok ()) (listed : some value ∈ values.map Prod.fst) :
    some value ∉ held := by
  obtain ⟨⟨_, var⟩, here, rfl⟩ := List.mem_map.mp listed
  have apart := refuse_ok.mp (forM_ok.mp passed _ here)
  intro there
  exact apart (List.any_eq_true.mpr ⟨value, mem_given.mpr there, beq_self_eq_true value⟩)

/-- No value is configured for two surfaces. -/
theorem Configured.refuseShared_ok (passed : configured.refuseShared gateway = .ok ())
    (here : value ∈ given (configured.values surface))
    (there : value ∈ given (configured.values other)) : surface = other := by
  unfold Configured.refuseShared at passed
  simp only [bind_ok] at passed
  obtain ⟨_, operators, _, evaluators, metrics⟩ := passed
  rw [mem_given] at here there
  -- Each surface is checked against those before it.
  have operator : some value ∈ configured.values .operator → some value ∉ configured.values .mcp :=
    Settings.refuseShared_ok operators
  have evaluator (listed : some value ∈ configured.values .evaluator) :
      some value ∉ configured.values .mcp ∧ some value ∉ configured.values .operator := by
    have apart := Settings.refuseShared_ok evaluators listed
    rw [List.mem_append, not_or] at apart
    exact apart
  have metrics' (listed : some value ∈ configured.values .metrics) :
      (some value ∉ configured.values .mcp ∧ some value ∉ configured.values .operator) ∧
        some value ∉ configured.values .evaluator := by
    have apart := Settings.refuseShared_ok metrics listed
    rw [List.mem_append, List.mem_append, not_or, not_or] at apart
    exact apart
  cases surface <;> cases other <;> tauto

/-! ## What is accepted -/

section

variable {current previous : Option String} {currentVar previousVar : String}
  {made : Option SharedBearer}

/-- There is a credential where a current value is configured. -/
theorem bearerPair_isSome
    (paired : bearerPair sha256 current previous currentVar previousVar = .ok made) :
    made.isSome = current.isSome := by
  unfold bearerPair at paired
  cases current with
  | none =>
    cases previous with
    | none =>
      cases paired
      rfl
    | some previous => exact nomatch paired
  | some current =>
    simp only [bind_ok, pure_ok] at paired
    obtain ⟨_, -, _, -, rfl⟩ := paired
    rfl

/-- A credential accepts the values it was made of. -/
theorem bearerPair_accepts (injective : Function.Injective sha256)
    (paired : bearerPair sha256 current previous currentVar previousVar = .ok made) :
    (∃ bearer, made = some bearer ∧ bearer.accepts sha256 presented) ↔
      ∃ value ∈ given [current, previous], asBytes value = presented := by
  unfold bearerPair at paired
  cases current with
  | none =>
    cases previous with
    | none =>
      cases paired
      exact iff_of_false nofun nofun
    | some previous => exact nomatch paired
  | some current =>
    simp only [bind_ok, mapError_ok, pure_ok] at paired
    obtain ⟨_, -, bearer, made, rfl⟩ := paired
    rw [← SharedBearer.accepts_iff injective made]
    constructor
    · rintro ⟨_, ⟨⟩, accepted⟩
      exact accepted
    · intro accepted
      exact ⟨bearer, rfl, accepted⟩

end

/-- An evaluator keeps the credential it was made with. -/
theorem evaluatorSettings_bearers {made : Option SharedBearer} {name : Option String}
    {evaluator : Option EvaluatorSettings} (named : evaluatorSettings made name = .ok evaluator) :
    evaluator.map EvaluatorSettings.bearers = made := by
  cases made with
  | none =>
    cases name with
    | none =>
      cases named
      rfl
    | some name => exact nomatch named
  | some bearer =>
    cases name with
    | none => exact nomatch named
    | some name =>
      cases named
      rfl

theorem Bearers.accepts_iff : bearers.accepts sha256 surface presented ↔
    ∃ bearer, bearers.of surface = some bearer ∧ bearer.accepts sha256 presented := by
  unfold Bearers.accepts
  cases bearers.of surface with
  | none => exact iff_of_false nofun nofun
  | some bearer =>
    constructor
    · intro accepted
      exact ⟨bearer, rfl, accepted⟩
    · rintro ⟨_, ⟨⟩, accepted⟩
      exact accepted

/-- **What a surface accepts.** What is configured for it, and nothing else. -/
theorem Configured.bearers_ok (injective : Function.Injective sha256)
    (made : configured.bearers sha256 gateway = .ok bearers) :
    bearers.accepts sha256 surface presented ↔
      ∃ value ∈ given (configured.values surface), asBytes value = presented := by
  unfold Configured.bearers at made
  simp only [bind_ok, pure_ok] at made
  obtain ⟨_, metrics, _, mcp, _, operator, _, evaluator, _, named, rfl⟩ := made
  refine Bearers.accepts_iff.trans ?_
  cases surface with
  | mcp => exact bearerPair_accepts injective mcp
  | operator => exact bearerPair_accepts injective operator
  | evaluator =>
    unfold Bearers.of
    dsimp only
    rw [evaluatorSettings_bearers named]
    exact bearerPair_accepts injective evaluator
  | metrics => exact bearerPair_accepts injective metrics

/-- There is an operator's credential where one is configured. -/
theorem Configured.bearers_operator (made : configured.bearers sha256 gateway = .ok bearers) :
    bearers.proxyBearers.isSome = configured.proxyCurrent.isSome := by
  unfold Configured.bearers at made
  simp only [bind_ok, pure_ok] at made
  obtain ⟨_, -, _, -, _, operator, _, -, _, -, rfl⟩ := made
  exact bearerPair_isSome operator

/-! ## Names -/

theorem refuseName_ok {name : String} (passed : refuseName sha256 bearers name var = .ok ())
    (secret : surface ≠ .metrics) : ¬bearers.accepts sha256 surface (asBytes name) := by
  have apart := refuse_ok.mp passed
  rw [not_or, not_or] at apart
  cases surface with
  | mcp => exact apart.1
  | operator => exact apart.2.1
  | evaluator => exact apart.2.2
  | metrics => exact absurd rfl secret

/-- Without a gateway, the names of the principal and of the operator are no
credentials. -/
theorem readIdentity_ok {identity : Authentication} {principal : PrincipalId} {operator : String}
    (read : readIdentity outside lookup stdio gateway bearers = .ok identity)
    (named : identity = .stdio principal operator ∨ identity = .standalone principal operator)
    (secret : surface ≠ .metrics) :
    ¬bearers.accepts outside.sha256 surface (asBytes principal.name) ∧
      ¬bearers.accepts outside.sha256 surface (asBytes operator) := by
  unfold readIdentity at read
  cases gateway with
  | true =>
    simp only [if_true, readGateway, bind_ok, pure_ok] at read
    obtain ⟨_, -, _, -, _, -, _, -, rfl⟩ := read
    rcases named with named | named <;> cases named
  | false =>
    simp only [Bool.false_eq_true, if_false, readLocal, bind_ok, pure_ok] at read
    obtain ⟨_, -, who, -, _, -, _, -, _, first, _, second, rfl⟩ := read
    have refused := And.intro (refuseName_ok first secret) (refuseName_ok second secret)
    cases stdio with
    | true =>
      simp only [if_true, Authentication.stdio.injEq, reduceCtorEq, or_false] at named
      obtain ⟨rfl, rfl⟩ := named
      exact refused
    | false =>
      simp only [Bool.false_eq_true, if_false, Authentication.standalone.injEq, reduceCtorEq,
        false_or] at named
      obtain ⟨rfl, rfl⟩ := named
      exact refused

/-! ## Whole settings -/

/-- **Credential separation.** What is presented is accepted by at most one
surface; each surface accepts what its variables say; no name is a credential
where names are configured; and where something is held for a human there are an
operator's credential and an address to decide at. -/
theorem separate_surfaces (injective : Function.Injective outside.sha256) {settings : Settings}
    (accepted : Settings.fromLookup outside lookup = .ok settings) :
    (∀ {presented first second}, settings.accepts outside.sha256 first presented →
      settings.accepts outside.sha256 second presented → first = second) ∧
    (∀ {surface var value}, var ∈ Surface.variables surface →
      optional lookup var = .ok (some value) →
      settings.accepts outside.sha256 surface (asBytes value)) ∧
    (∀ {principal operator}, settings.identity = .stdio principal operator ∨
        settings.identity = .standalone principal operator →
      ∀ {surface}, surface ≠ .metrics →
        ¬settings.accepts outside.sha256 surface (asBytes principal.name) ∧
          ¬settings.accepts outside.sha256 surface (asBytes operator)) ∧
    (settings.review ≠ .disabled → settings.proxyBearers.isSome ∧ settings.dashboard.isSome) := by
  unfold Settings.fromLookup at accepted
  simp only [bind_ok, pure_ok, mapError_ok] at accepted
  obtain ⟨process, -, registry, -, gateway, -, _, compatible, configured, read, _, shared, bearers,
    made, identity, identified, accepted⟩ := accepted
  obtain ⟨_, -, _, -, _, -, _, -, _, -, _, -, _, -, _, -, _, -, _, -, rfl⟩ := accepted
  have reads := Configured.read_ok read
  refine ⟨?_, ?_, ?_, ?_⟩
  · intro presented first second here there
    obtain ⟨value, listed, rfl⟩ := (Configured.bearers_ok injective made).mp here
    obtain ⟨value', listed', same⟩ := (Configured.bearers_ok injective made).mp there
    rw [asBytes_inj same] at listed'
    exact Configured.refuseShared_ok shared listed listed'
  · intro surface var value listed said
    exact (Configured.bearers_ok injective made).mpr
      ⟨value, reads.mem_given compatible listed said, rfl⟩
  · intro principal operator named surface secret
    exact readIdentity_ok identified named secret
  · intro held
    rw [Configured.bearers_operator made]
    exact reads.reviewed held

end

namespace Sample

/-- Parsers that know what the sample environment holds. The digest of a text is
the text. -/
def stand : Outside where
  parseUrl raw :=
    if raw = "https://ssh.example.net/approvals" then some {
      text := raw
      scheme := "https"
      host := some "ssh.example.net"
      username := ""
      password := none
      path := "/approvals"
      query := none
      fragment := none }
    else none
  headerName bytes := if bytes = asBytes defaultOperatorHeader then some defaultOperatorHeader else none
  parseTexts _ := none
  quote text := text
  tempDir := "/tmp"
  sha256 := Digest.mk

/-- One service for one person, who is asked about every command. -/
def environment : Lookup := fun var =>
  match [(registryVar, "registry.json"),
      (standaloneBearerVar, "0123456789abcdef0123456789abcdef"),
      (operatorPasswordVar, "89abcdef0123456789abcdef01234567"),
      (reviewVar, "all"),
      (dashboardVar, "https://ssh.example.net/approvals")].lookup var with
  | some value => .ok value
  | none => .error .notPresent

theorem separate_surfaces_sample : ∃ settings,
    Settings.fromLookup stand environment = .ok settings ∧
      settings.accepts stand.sha256 .mcp (asBytes "0123456789abcdef0123456789abcdef") ∧
      ¬settings.accepts stand.sha256 .operator (asBytes "0123456789abcdef0123456789abcdef") ∧
      settings.dashboard.isSome := by
  have injective : Function.Injective stand.sha256 := fun _ _ same => Digest.mk.inj same
  have review : (Settings.fromLookup stand environment).map Settings.review = .ok .all := by decide
  cases accepted : Settings.fromLookup stand environment with
  | error reason =>
    rw [accepted] at review
    exact nomatch review
  | ok settings =>
    obtain ⟨one, own, -, held⟩ := separate_surfaces injective accepted
    have bearer : optional environment standaloneBearerVar =
        .ok (some "0123456789abcdef0123456789abcdef") := by decide
    have mcp := @own .mcp _ _ List.mem_cons_self bearer
    rw [accepted] at review
    refine ⟨settings, rfl, mcp, fun operator => ?_, ?_⟩
    · exact nomatch one mcp operator
    · refine (held ?_).2
      rw [Except.ok.inj review]
      exact nofun

end Sample

end McpSsh.Settings
