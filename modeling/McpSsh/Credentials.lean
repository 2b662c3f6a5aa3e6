import McpSsh.Registry
import McpSsh.Lib.Groups
import Mathlib.Data.List.Induction
import Mathlib.Data.List.Nodup
import Mathlib.Data.Set.List
import Mathlib.Data.String.Basic
import Mathlib.Logic.Function.Basic

/-!
# Credentials from the environment

The keys this service authenticates to targets with, by `credentials.rs`: read
once from the environment, each held under the name of its variable less the
prefix. A reference of the registry is folded into such a name, and two may
fold together, so the registry is checked against what is held before anything
is served. Whether a text is a private key that can be used is left open.
-/

namespace McpSsh

/-- `PREFIX`. -/
def credentialPrefix : String := "MCP_SSH_CREDENTIAL_"

/-- The credentials held, by the name of the variable after the prefix. -/
structure EnvCredentials where
  held : String → Option String

structure CredentialDiagnostics where
  collisions : List String
  unavailable : List String
  deriving DecidableEq

inductive CredentialError
  | unavailable
  | notFound
  deriving DecidableEq

/-- One variable of the environment, as it is read. -/
def readPair (held : String → Option String) (pair : String × String) : String → Option String :=
  match stripPrefix credentialPrefix pair.1 with
  | none => held
  | some suffix =>
    if suffix = "" ∨ pair.2 = "" then held else Function.update held suffix (some pair.2)

/-- `EnvCredentials::from_pairs`. A name that comes again takes its last value. -/
def EnvCredentials.fromPairs (pairs : List (String × String)) : EnvCredentials where
  held := pairs.foldl readPair fun _ => none

/-- One character of a reference in a variable's name. -/
def variableChar (c : Char) : Char := if c.isAlphanum then c.toUpper else '_'

/-- A reference's text as a variable's name. -/
def variableName (text : String) : String := String.ofList (text.toList.map variableChar)

/-- `EnvCredentials::variable`. -/
def EnvCredentials.variable (reference : NonBlank) : String := variableName reference.text

/-- `EnvCredentials::fetch`. -/
def EnvCredentials.fetch (credentials : EnvCredentials) (reference : NonBlank) :
    Except CredentialError String :=
  match credentials.held (EnvCredentials.variable reference) with
  | some held => .ok held
  | none => .error .notFound

/-! ## Checking the registry -/

/-- `Registry::hosts`. -/
def Registry.hostIds (registry : Registry) : List HostId := registry.hosts.map Prod.fst

/-- `Registry::roles`. -/
def Registry.roles (registry : Registry) (host : HostId) : List RoleId :=
  match registry.hosts.lookup host with
  | some entry => entry.roles.map Prod.fst
  | none => []

/-- The references that the check meets, host by host and role by role. -/
def Registry.references (registry : Registry) : List NonBlank :=
  registry.hostIds.flatMap fun host => (registry.roles host).filterMap fun role =>
    match registry.resolve host role with
    | .ok target => some target.credential
    | .error _ => none

/-- `by_variable`: the references read from each variable. -/
def Registry.byVariable (registry : Registry) : List (String × List String) :=
  registry.references.foldl
    (fun groups reference => Groups.add (EnvCredentials.variable reference) reference.text groups) []

/-- What is reported of a variable that several references would be read from. -/
def collisionLine (entry : String × List String) : String :=
  credentialPrefix ++ entry.1 ++ " would be read for more than one credential: "
    ++ ", ".intercalate entry.2

/-- What is reported where a variable holds no key. -/
def unusableLine (entry : String × List String) : String :=
  ", ".intercalate entry.2 ++ " names " ++ credentialPrefix ++ entry.1
    ++ ", which is not a private key this service can use"

/-- What is reported where a variable is not held. -/
def missingLine (entry : String × List String) : String :=
  ", ".intercalate entry.2 ++ " names " ++ credentialPrefix ++ entry.1
    ++ ", which this deployment does not hold"

/-- What the check does about one variable and the references read from it. -/
def EnvCredentials.checkVariable (usable : String → Bool)
    (checked : EnvCredentials × CredentialDiagnostics) (entry : String × List String) :
    EnvCredentials × CredentialDiagnostics :=
  let (credentials, diagnostics) := checked
  if 1 < entry.2.length then
    (credentials,
      { diagnostics with collisions := diagnostics.collisions ++ [collisionLine entry] })
  else
    match credentials.held entry.1 with
    | some held =>
      if usable held then (credentials, diagnostics)
      else
        ({ held := Function.update credentials.held entry.1 none },
          { diagnostics with unavailable := diagnostics.unavailable ++ [unusableLine entry] })
    | none =>
      (credentials,
        { diagnostics with unavailable := diagnostics.unavailable ++ [missingLine entry] })

/-- `EnvCredentials::check_registry`. -/
def EnvCredentials.checkRegistry (usable : String → Bool) (credentials : EnvCredentials)
    (registry : Registry) : EnvCredentials × CredentialDiagnostics :=
  registry.byVariable.foldl (EnvCredentials.checkVariable usable)
    (credentials, { collisions := [], unavailable := [] })

/-! ## What the environment holds -/

/-- The last value that says something and is given for a name. -/
def lastGiven (pairs : List (String × String)) (name : String) : Option String :=
  ((pairs.filter fun pair => pair.1 = name ∧ pair.2 ≠ "").getLast?).map Prod.snd

/-- Reading a variable changes what is held under its name, if it says anything. -/
theorem readPair_apply {held : String → Option String} {pair : String × String} {suffix : String}
    (named : suffix ≠ "") :
    readPair held pair suffix =
      if pair.1 = credentialPrefix ++ suffix ∧ pair.2 ≠ "" then some pair.2 else held suffix := by
  unfold readPair
  cases stripped : stripPrefix credentialPrefix pair.1 with
  | none =>
    refine (if_neg ?_).symm
    rintro ⟨same, -⟩
    rw [stripPrefix_eq_some.mpr same] at stripped
    exact nomatch stripped
  | some other =>
    have named' : pair.1 = credentialPrefix ++ suffix ↔ other = suffix := by
      rw [stripPrefix_eq_some.mp stripped, String.append_right_inj]
    by_cases same : other = suffix
    · dsimp only
      by_cases empty : pair.2 = ""
      · have silent : ¬(pair.1 = credentialPrefix ++ suffix ∧ pair.2 ≠ "") := fun here => here.2 empty
        rw [if_pos (Or.inr empty), if_neg silent]
      · rw [if_neg (not_or.mpr ⟨same ▸ named, empty⟩), if_pos ⟨named'.mpr same, empty⟩, same,
          Function.update_self]
    · rw [if_neg fun here => same (named'.mp here.1)]
      dsimp only
      split
      · rfl
      · rw [Function.update_of_ne (Ne.symm same)]

/-- **What is held.** Under each name, what the environment last gave for it. -/
theorem EnvCredentials.held_fromPairs {pairs : List (String × String)} {suffix : String}
    (named : suffix ≠ "") :
    (EnvCredentials.fromPairs pairs).held suffix = lastGiven pairs (credentialPrefix ++ suffix) := by
  unfold EnvCredentials.fromPairs lastGiven
  induction pairs using List.reverseRecOn with
  | nil => rfl
  | append_singleton earlier pair ih =>
    dsimp only at ih ⊢
    rw [List.foldl_append, List.filter_append, List.foldl_cons, List.foldl_nil,
      readPair_apply named, ih]
    by_cases given : pair.1 = credentialPrefix ++ suffix ∧ pair.2 ≠ ""
    · rw [if_pos given, List.filter_singleton, decide_eq_true given]
      simp
    · rw [if_neg given, List.filter_singleton, decide_eq_false given]
      simp

/-- A reference says something, and so does the variable it is read from. -/
theorem EnvCredentials.variable_ne_empty (reference : NonBlank) :
    EnvCredentials.variable reference ≠ "" := by
  intro empty
  have none : reference.text.toList.map variableChar = [] := by
    rw [← String.toList_ofList (l := reference.text.toList.map variableChar)]
    exact congrArg String.toList empty
  have stated := reference.stated
  rw [isBlank, List.map_eq_nil_iff.mp none] at stated
  exact nomatch stated

/-! ## The references of a registry -/

/-- A reference is configured: some account resolves to it. -/
def Registry.Configured (registry : Registry) (reference : NonBlank) : Prop :=
  ∃ host role target, registry.resolve host role = .ok target ∧ target.credential = reference

theorem mem_keys_of_lookup {κ α : Type} [DecidableEq κ] {entries : List (κ × α)} {key : κ} {value : α}
    (found : entries.lookup key = some value) : key ∈ entries.map Prod.fst := by
  obtain ⟨before, after, rfl, -⟩ := List.lookup_eq_some_iff.mp found
  exact List.mem_map.mpr ⟨(key, value), by simp, rfl⟩

/-- The check meets every reference that is configured, and no other. -/
theorem Registry.mem_references {registry : Registry} {reference : NonBlank} :
    reference ∈ registry.references ↔ registry.Configured reference := by
  simp only [Registry.references, List.mem_flatMap, List.mem_filterMap]
  constructor
  · rintro ⟨host, -, role, -, found⟩
    cases resolved : registry.resolve host role with
    | ok target =>
      rw [resolved] at found
      exact ⟨host, role, target, resolved, Option.some.inj found⟩
    | error reason =>
      rw [resolved] at found
      exact nomatch found
  · rintro ⟨host, role, target, resolved, rfl⟩
    unfold Registry.hostIds Registry.roles
    have looked := resolved
    unfold Registry.resolve at looked
    cases known : registry.hosts.lookup host with
    | none =>
      rw [known] at looked
      exact nomatch looked
    | some entry =>
      rw [known] at looked
      cases assigned : entry.roles.lookup role with
      | none =>
        dsimp only at looked
        rw [assigned] at looked
        exact nomatch looked
      | some _ =>
        refine ⟨host, ?_, role, ?_, by rw [resolved]⟩
        · exact mem_keys_of_lookup known
        · rw [known]
          exact mem_keys_of_lookup assigned

/-- Each variable is checked with the references read from it. -/
theorem Registry.byVariable_of (registry : Registry) :
    Groups.Of variableName (registry.references.map NonBlank.text) registry.byVariable := by
  have grouped := Groups.of_group variableName (registry.references.map NonBlank.text)
  rw [Groups.group, List.foldl_map] at grouped
  exact grouped

/-! ## A whole check -/

/-- What is reported of a variable that is read for one reference. -/
def reportOf (usable : String → Bool) (held : String → Option String)
    (entry : String × List String) : Option String :=
  match held entry.1 with
  | some key => if usable key then none else some (unusableLine entry)
  | none => some (missingLine entry)

/-- What a check of some variables makes of what is held and reported. -/
structure Checks (usable : String → Bool) (groups : List (String × List String))
    (before after : EnvCredentials × CredentialDiagnostics) : Prop where
  collisions : after.2.collisions =
    before.2.collisions ++ (groups.filter (1 < ·.2.length)).map collisionLine
  unavailable : after.2.unavailable =
    before.2.unavailable ++ (groups.filter (·.2.length ≤ 1)).filterMap (reportOf usable before.1.held)
  kept : ∀ name, (∀ entry ∈ groups, entry.1 ≠ name) → after.1.held name = before.1.held name
  usable : ∀ entry ∈ groups, entry.2.length ≤ 1 →
    after.1.held entry.1 = (before.1.held entry.1).filter usable

section

variable {usable : String → Bool} {entry : String × List String}
  {groups : List (String × List String)}
  {before middle after : EnvCredentials × CredentialDiagnostics}

theorem Checks.one : Checks usable [entry] before (EnvCredentials.checkVariable usable before entry) := by
  obtain ⟨⟨held⟩, collisions, unavailable⟩ := before
  unfold EnvCredentials.checkVariable
  by_cases several : 1 < entry.2.length
  · have not_one : ¬entry.2.length ≤ 1 := by omega
    dsimp only
    rw [if_pos several]
    constructor
    · simp [several]
    · simp [not_one]
    · exact fun _ _ => rfl
    · intro other listed one
      rw [List.mem_singleton.mp listed] at one
      exact absurd one not_one
  have one : entry.2.length ≤ 1 := by omega
  dsimp only
  rw [if_neg several]
  cases found : held entry.1 with
  | none =>
    constructor
    · simp [several]
    · simp [one, reportOf, found]
    · exact fun _ _ => rfl
    · intro other listed _
      rw [List.mem_singleton.mp listed]
      dsimp only
      rw [found, Option.filter_none]
  | some key =>
    cases fit : usable key with
    | true =>
      dsimp only
      rw [if_pos fit]
      constructor
      · simp [several]
      · simp [one, reportOf, found, fit]
      · exact fun _ _ => rfl
      · intro other listed _
        rw [List.mem_singleton.mp listed]
        dsimp only
        rw [found, Option.filter_some_pos fit]
    | false =>
      dsimp only
      rw [if_neg (ne_true_of_eq_false fit)]
      constructor
      · simp [several]
      · simp [one, reportOf, found, fit]
      · intro name apart
        exact Function.update_of_ne (apart entry List.mem_cons_self).symm ..
      · intro other listed _
        rw [List.mem_singleton.mp listed]
        dsimp only
        rw [found, Function.update_self, Option.filter_some_neg fit]

/-- A check of one variable does not change what is read for another. -/
theorem Checks.cons (first : Checks usable [entry] before middle)
    (rest : Checks usable groups middle after) (apart : ∀ other ∈ groups, entry.1 ≠ other.1) :
    Checks usable (entry :: groups) before after := by
  have kept (other : String × List String) (listed : other ∈ groups) :
      middle.1.held other.1 = before.1.held other.1 := by
    apply first.kept
    intro here same
    rw [List.mem_singleton.mp same]
    exact apart other listed
  constructor
  · rw [rest.collisions, first.collisions, List.append_assoc, ← List.map_append, ← List.filter_append]
    rfl
  · rw [rest.unavailable, first.unavailable, List.append_assoc]
    have same : (groups.filter (·.2.length ≤ 1)).filterMap (reportOf usable middle.1.held) =
        (groups.filter (·.2.length ≤ 1)).filterMap (reportOf usable before.1.held) := by
      apply List.filterMap_congr
      intro other listed
      unfold reportOf
      rw [kept other (List.mem_of_mem_filter listed)]
    rw [same, ← List.filterMap_append, ← List.filter_append]
    rfl
  · intro name other
    rw [rest.kept name fun here listed => other here (List.mem_cons_of_mem _ listed)]
    refine first.kept name fun here listed => ?_
    rw [List.mem_singleton.mp listed]
    exact other entry List.mem_cons_self
  · intro other listed one
    rcases List.mem_cons.mp listed with rfl | listed
    · rw [rest.kept _ fun here listed => (apart here listed).symm]
      exact first.usable _ List.mem_cons_self one
    · rw [rest.usable other listed one, kept other listed]

theorem checks_foldl (sorted : Groups.Sorted groups) :
    Checks usable groups before (groups.foldl (EnvCredentials.checkVariable usable) before) := by
  induction groups generalizing before with
  | nil =>
    constructor
    · exact (List.append_nil _).symm
    · exact (List.append_nil _).symm
    · exact fun _ _ => rfl
    · exact fun _ listed _ => absurd listed List.not_mem_nil
  | cons entry rest ih =>
    obtain ⟨later, sorted'⟩ := List.pairwise_cons.mp sorted
    exact Checks.one.cons (ih sorted') fun other listed => (later other listed).ne

end

/-! ## References do not cross -/

/-- The one line that is due for a reference that cannot be fetched. -/
def unavailableLine (pairs : List (String × String)) (reference : NonBlank) : String :=
  let entry := (EnvCredentials.variable reference, [reference.text])
  match lastGiven pairs (credentialPrefix ++ EnvCredentials.variable reference) with
  | some _ => unusableLine entry
  | none => missingLine entry

section

variable {usable : String → Bool} {pairs : List (String × String)} {registry : Registry}
  {credentials : EnvCredentials} {diagnostics : CredentialDiagnostics}

theorem NonBlank.text_injective : Function.Injective NonBlank.text := by
  rintro ⟨text, _⟩ ⟨_, _⟩ rfl
  rfl

theorem Registry.mem_texts {text : String} :
    text ∈ registry.references.map NonBlank.text ↔
      ∃ reference, registry.Configured reference ∧ reference.text = text := by
  rw [List.mem_map]
  exact exists_congr fun _ => and_congr_left' Registry.mem_references

/-- Without a collision, each variable is read for one reference. -/
theorem Registry.byVariable_single
    (none : (registry.byVariable.filter (1 < ·.2.length)).map collisionLine = [])
    {entry : String × List String} (listed : entry ∈ registry.byVariable) :
    ∃ reference, registry.Configured reference ∧
      entry = (EnvCredentials.variable reference, [reference.text]) := by
  obtain ⟨-, some', only⟩ := registry.byVariable_of.members listed
  have one := List.filter_eq_nil_iff.mp (List.map_eq_nil_iff.mp none) entry listed
  obtain ⟨text, alone⟩ : ∃ text, entry.2 = [text] := by
    rcases shape : entry.2 with _ | ⟨text, _ | ⟨second, rest⟩⟩
    · exact absurd shape some'
    · exact ⟨text, rfl⟩
    · rw [shape] at one
      simp at one
  rw [alone] at only
  obtain ⟨named, keyed⟩ := (only text).mp List.mem_cons_self
  obtain ⟨reference, configured, rfl⟩ := Registry.mem_texts.mp named
  exact ⟨reference, configured, Prod.ext keyed.symm alone⟩

/-- Without a collision, the references that are checked, each with its variable. -/
theorem Registry.byVariable_references
    (none : (registry.byVariable.filter (1 < ·.2.length)).map collisionLine = []) :
    ∃ checked : List NonBlank,
      registry.byVariable = checked.map (fun reference =>
        (EnvCredentials.variable reference, [reference.text])) ∧
      (checked.map EnvCredentials.variable).Nodup ∧
      ∀ reference, reference ∈ checked ↔ registry.Configured reference := by
  have single : registry.byVariable ∈ Set.range (List.map fun reference : NonBlank =>
      (EnvCredentials.variable reference, [reference.text])) := by
    rw [Set.range_list_map]
    intro entry listed
    obtain ⟨reference, -, rfl⟩ := Registry.byVariable_single none listed
    exact ⟨reference, rfl⟩
  obtain ⟨checked, same⟩ := single
  have of := registry.byVariable_of
  rw [← same] at of
  refine ⟨checked, same.symm, ?_, fun reference => ⟨fun listed => ?_, fun configured => ?_⟩⟩
  · have ordered := List.pairwise_map.mp of.sorted
    exact List.pairwise_map.mpr (ordered.imp ne_of_lt)
  · obtain ⟨-, -, only⟩ := of.members (List.mem_map.mpr ⟨reference, listed, rfl⟩)
    obtain ⟨other, configured, text⟩ := Registry.mem_texts.mp ((only _).mp List.mem_cons_self).1
    rw [← NonBlank.text_injective text]
    exact configured
  · have named := Registry.mem_texts.mpr ⟨reference, configured, rfl⟩
    obtain ⟨entry, listed, keyed⟩ := of.covers _ named
    obtain ⟨-, -, only⟩ := of.members listed
    have held := (only _).mpr ⟨named, keyed.symm⟩
    obtain ⟨other, listed', rfl⟩ := List.mem_map.mp listed
    rw [NonBlank.text_injective (List.mem_singleton.mp held)]
    exact listed'

theorem EnvCredentials.fetch_ok {reference : NonBlank} {key : String} :
    credentials.fetch reference = .ok key ↔
      credentials.held (EnvCredentials.variable reference) = some key := by
  unfold EnvCredentials.fetch
  cases credentials.held (EnvCredentials.variable reference) with
  | some held => rw [Except.ok.injEq, Option.some.injEq]
  | none => exact iff_of_false nofun nofun

theorem EnvCredentials.fetch_error {reference : NonBlank} {reason : CredentialError} :
    credentials.fetch reference = .error reason ↔
      credentials.held (EnvCredentials.variable reference) = none ∧ reason = .notFound := by
  unfold EnvCredentials.fetch
  cases credentials.held (EnvCredentials.variable reference) with
  | some held => exact iff_of_false nofun nofun
  | none => rw [Except.error.injEq, eq_self, true_and, eq_comm]

/-- What is reported of a reference whose key cannot be used. -/
theorem reportOf_fromPairs {reference : NonBlank} :
    reportOf usable (EnvCredentials.fromPairs pairs).held
        (EnvCredentials.variable reference, [reference.text]) =
      if ((lastGiven pairs (credentialPrefix ++ EnvCredentials.variable reference)).filter usable).isNone
      then some (unavailableLine pairs reference) else none := by
  unfold reportOf unavailableLine
  dsimp only
  rw [EnvCredentials.held_fromPairs (EnvCredentials.variable_ne_empty reference)]
  cases lastGiven pairs (credentialPrefix ++ EnvCredentials.variable reference) with
  | none => rfl
  | some key =>
    cases fit : usable key with
    | true => rw [Option.filter_some_pos fit]; simp [fit]
    | false => rw [Option.filter_some_neg fit]; simp [fit]

/-- **References do not cross.** Where the check reports no collision, each
reference of the registry has a variable of its own; what is fetched for it is
what that variable holds, if it is a key that can be used; and the references
reported unavailable are those for which nothing is fetched. -/
theorem EnvCredentials.uncrossed
    (checked : (EnvCredentials.fromPairs pairs).checkRegistry usable registry =
      (credentials, diagnostics))
    (none : diagnostics.collisions = []) :
    (∀ {first second}, registry.Configured first → registry.Configured second →
      EnvCredentials.variable first = EnvCredentials.variable second → first = second) ∧
    (∀ {reference key}, registry.Configured reference →
      (credentials.fetch reference = .ok key ↔
        lastGiven pairs (credentialPrefix ++ EnvCredentials.variable reference) = some key ∧
          usable key)) ∧
    ∃ failing : List NonBlank, failing.Nodup ∧
      (∀ reference, reference ∈ failing ↔
        registry.Configured reference ∧ credentials.fetch reference = .error .notFound) ∧
      diagnostics.unavailable = failing.map (unavailableLine pairs) := by
  have checks : Checks usable registry.byVariable
      (EnvCredentials.fromPairs pairs, { collisions := [], unavailable := [] })
      (credentials, diagnostics) := by
    rw [← checked]
    exact checks_foldl registry.byVariable_of.sorted
  have single := checks.collisions.symm.trans none
  obtain ⟨references, same, distinct, all⟩ := Registry.byVariable_references single
  have held {reference : NonBlank} (configured : registry.Configured reference) :
      credentials.held (EnvCredentials.variable reference) =
        (lastGiven pairs (credentialPrefix ++ EnvCredentials.variable reference)).filter usable := by
    have listed : (EnvCredentials.variable reference, [reference.text]) ∈ registry.byVariable := by
      rw [same]
      exact List.mem_map.mpr ⟨reference, (all reference).mpr configured, rfl⟩
    rw [checks.usable _ listed le_rfl,
      EnvCredentials.held_fromPairs (EnvCredentials.variable_ne_empty reference)]
  refine ⟨?_, ?_, ?_⟩
  · intro first second configured configured' same'
    exact List.inj_on_of_nodup_map distinct ((all _).mpr configured) ((all _).mpr configured') same'
  · intro reference key configured
    rw [EnvCredentials.fetch_ok, held configured, Option.filter_eq_some_iff]
  · refine ⟨references.filter fun reference =>
      (credentials.held (EnvCredentials.variable reference)).isNone, ?_, ?_, ?_⟩
    · exact (List.Nodup.of_map _ distinct).filter _
    · intro reference
      rw [List.mem_filter, all, EnvCredentials.fetch_error, Option.isNone_iff_eq_none,
        and_iff_left rfl]
    · rw [checks.unavailable, List.nil_append, List.filter_eq_self.mpr, same, List.filterMap_map,
        ← List.filterMap_eq_map, List.filterMap_filter]
      · apply List.filterMap_congr
        intro reference listed
        dsimp only [Function.comp_apply]
        rw [reportOf_fromPairs, held ((all reference).mp listed)]
      · intro entry listed
        obtain ⟨reference, -, rfl⟩ := Registry.byVariable_single single listed
        rfl

end

namespace Sample

/-- A machine with one account that may look. -/
def machine (credential : NonBlank) : HostEntry where
  address := ⟨"192.0.2.7:22", by decide⟩
  hostKey := ⟨"ssh-ed25519 AAAAC3Nz", by decide⟩
  roles := [(⟨"operator", by decide⟩,
    { user := ⟨"deploy", by decide⟩, credential, accessClass := .readOnly })]
  distinct := List.nodup_singleton _

def webKey : NonBlank := ⟨"web-1/readonly", by decide⟩

def dnsKey : NonBlank := ⟨"mcp-ssh/dns1/readonly", by decide⟩

def fleet : Registry where
  hosts := [(⟨"web-1", by decide⟩, machine webKey), (⟨"dns1", by decide⟩, machine dnsKey)]
  distinct := by decide +revert

/-- An environment that holds the key of one of them. -/
def keys : List (String × String) :=
  [("PATH", "/usr/bin"), ("MCP_SSH_CREDENTIAL_WEB_1_READONLY", "a key"),
    ("MCP_SSH_CREDENTIAL_MCP_SSH_DNS1_READONLY", "")]

def fitKey (text : String) : Bool := text = "a key"

def checkedKeys : EnvCredentials × CredentialDiagnostics :=
  (EnvCredentials.fromPairs keys).checkRegistry fitKey fleet

example : checkedKeys.2.unavailable =
    [missingLine ("MCP_SSH_DNS1_READONLY", ["mcp-ssh/dns1/readonly"])] := by decide

theorem uncrossed_sample :
    checkedKeys.2.collisions = [] ∧ checkedKeys.1.fetch webKey = .ok "a key" ∧
      ∃ failing : List NonBlank, failing.Nodup ∧
        (∀ reference, reference ∈ failing ↔
          fleet.Configured reference ∧ checkedKeys.1.fetch reference = .error .notFound) ∧
        checkedKeys.2.unavailable = failing.map (unavailableLine keys) := by
  have none : checkedKeys.2.collisions = [] := by decide
  have configured : fleet.Configured webKey :=
    ⟨⟨"web-1", by decide⟩, ⟨"operator", by decide⟩, _, rfl, rfl⟩
  obtain ⟨-, fetched, failing⟩ := @EnvCredentials.uncrossed fitKey keys fleet _ _ rfl none
  exact ⟨none, (fetched configured).mpr ⟨by decide, rfl⟩, failing⟩

end Sample

end McpSsh
