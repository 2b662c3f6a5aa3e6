import McpSsh.Bastion.Calls
import McpSsh.Lib.Segments

/-!
# Paths and the paths beside them

What `RemotePath::parse` accepts, said without splitting anything: `/`, or names
behind slashes. Its parent and a path beside it are then told by their names,
which is what a staged upload rests on: the stage is a name in the directory of
the destination or the call goes no further.
-/

namespace McpSsh

/-- A name that can stand between slashes: not empty, not a dot or two, and with
neither a slash nor a NUL in it. -/
def IsName (name : String) : Prop :=
  name ≠ "" ∧ name ≠ "." ∧ name ≠ ".." ∧ '/' ∉ name.toList ∧ '\x00' ∉ name.toList

instance (name : String) : Decidable (IsName name) := inferInstanceAs (Decidable (_ ∧ _))

/-- Names behind slashes. -/
def pathOf (names : List String) : String :=
  String.ofList (Segments.join '/' (names.map String.toList))

/-- A directory's entry of a name. -/
def entryOf (directory name : String) : String :=
  if directory = "/" then "/" ++ name else directory ++ "/" ++ name

/-- The grammar of paths. -/
def PathGrammar (raw : String) : Prop :=
  raw.utf8ByteSize ≤ pathMax ∧
    (raw = "/" ∨ ∃ names, names ≠ [] ∧ (∀ name ∈ names, IsName name) ∧ raw = pathOf names)

/-! ## What is accepted -/

/-- A component that has one spelling only. -/
def PlainComponent (component : List Char) : Prop :=
  component ≠ [] ∧ component ≠ ['.'] ∧ component ≠ ['.', '.']

theorem componentRefusal_none {raw : String} (longer : raw ≠ "/") {components : List (List Char)} :
    componentRefusal raw components = none ↔ ∀ component ∈ components, PlainComponent component := by
  induction components with
  | nil => exact iff_of_true rfl nofun
  | cons component rest ih =>
    rw [List.forall_mem_cons, ← ih, componentRefusal]
    unfold PlainComponent
    by_cases up : component = ['.', '.']
    · rw [if_pos up]
      exact iff_of_false nofun fun plain => plain.1.2.2 up
    rw [if_neg up]
    by_cases here : component = ['.']
    · rw [if_pos here]
      exact iff_of_false nofun fun plain => plain.1.2.1 here
    rw [if_neg here]
    by_cases empty : component = []
    · rw [if_pos ⟨empty, fun last => longer last.2⟩]
      exact iff_of_false nofun fun plain => plain.1.1 empty
    rw [if_neg fun bad => empty bad.1]
    exact (and_iff_right ⟨empty, here, up⟩).symm

/-- A component without a slash or a NUL is a name. -/
theorem isName_iff {name : String} :
    IsName name ↔ PlainComponent name.toList ∧ '/' ∉ name.toList ∧ '\x00' ∉ name.toList := by
  have texts (text : String) : name.toList = text.toList ↔ name = text := String.toList_inj
  have empty : name.toList = [] ↔ name = "" := texts ""
  have here : name.toList = ['.'] ↔ name = "." := texts "."
  have up : name.toList = ['.', '.'] ↔ name = ".." := texts ".."
  unfold IsName PlainComponent
  rw [Ne.eq_def name.toList, Ne.eq_def name.toList, Ne.eq_def name.toList, empty, here, up,
    and_assoc, and_assoc]

theorem pathOf_toList (names : List String) :
    (pathOf names).toList = Segments.join '/' (names.map String.toList) := String.toList_ofList

/-- Names without a slash are pieces between slashes. -/
theorem slash_notMem {names : List String} (whole : ∀ name ∈ names, '/' ∉ name.toList) :
    ∀ piece ∈ names.map String.toList, '/' ∉ piece := by
  intro piece listed
  obtain ⟨name, named, rfl⟩ := List.mem_map.mp listed
  exact whole name named

/-- Paths of names have no NUL in them. -/
theorem nul_notMem {names : List String} (valid : ∀ name ∈ names, IsName name) :
    '\x00' ∉ (pathOf names).toList := by
  rw [pathOf_toList]
  intro listed
  obtain ⟨piece, within, listed⟩ := List.mem_flatMap.mp listed
  obtain ⟨name, named, rfl⟩ := List.mem_map.mp within
  rcases List.mem_cons.mp listed with slash | listed
  · exact absurd slash (by decide)
  · exact (valid name named).2.2.2.2 listed

/-- What comes after the first slash of a text that has one in front. -/
theorem components_eq (rest : List Char) : (('/' :: rest).splitOn '/').tail = rest.splitOn '/' := by
  rw [List.splitOn_cons_eq_if_modifyHead, if_pos (beq_self_eq_true _), List.tail_cons]

/-- Names behind slashes are accepted if they are short enough. -/
theorem refusal_pathOf {names : List String} (some' : names ≠ [])
    (valid : ∀ name ∈ names, IsName name) (short : (pathOf names).utf8ByteSize ≤ pathMax) :
    RemotePath.refusal (pathOf names) = none := by
  have pieces : names.map String.toList ≠ [] := mt List.map_eq_nil_iff.mp some'
  have text := pathOf_toList names
  obtain ⟨rest, joined⟩ : ∃ rest, '/' :: rest = Segments.join '/' (names.map String.toList) :=
    ⟨_, (Segments.join_eq pieces).symm⟩
  rw [← joined] at text
  have split := Segments.splitOn_join pieces
    (slash_notMem fun name listed => (valid name listed).2.2.2.1) joined
  have longer : pathOf names ≠ "/" := by
    intro root
    rw [root] at text
    obtain rfl : rest = [] := (List.cons.inj text).2.symm
    cases names with
    | nil => exact some' rfl
    | cons name names =>
      have first : name.toList = [] := by
        rw [List.splitOn_nil] at split
        exact (List.cons.inj split).1.symm
      exact (isName_iff.mp (valid name List.mem_cons_self)).1.1 first
  unfold RemotePath.refusal
  rw [if_neg, if_neg (Nat.not_lt.mpr short), if_neg, if_neg, text, components_eq, split,
    componentRefusal_none longer]
  · intro component listed
    obtain ⟨name, named, rfl⟩ := List.mem_map.mp listed
    exact (isName_iff.mp (valid name named)).1
  · rw [List.contains_iff_mem]
    exact nul_notMem valid
  · rw [text]
    exact not_not.mpr rfl
  · intro empty
    rw [String.isEmpty_iff] at empty
    rw [empty] at text
    exact nomatch text

/-- Anything that is accepted but `/` is names behind slashes. -/
theorem names_of_refusal {raw : String} (accepted : RemotePath.refusal raw = none)
    (longer : raw ≠ "/") :
    raw.utf8ByteSize ≤ pathMax ∧
      ∃ names, names ≠ [] ∧ (∀ name ∈ names, IsName name) ∧ raw = pathOf names := by
  unfold RemotePath.refusal at accepted
  split at accepted
  · exact nomatch accepted
  split at accepted
  · exact nomatch accepted
  next short =>
  split at accepted
  · exact nomatch accepted
  next absolute =>
  split at accepted
  · exact nomatch accepted
  next clean =>
  obtain ⟨rest, text⟩ := List.head?_eq_some_iff.mp (not_not.mp absolute)
  rw [text, components_eq, componentRefusal_none longer] at accepted
  have joined : Segments.join '/' (rest.splitOn '/') = '/' :: rest := Segments.join_splitOn rest
  refine ⟨Nat.not_lt.mp short, (rest.splitOn '/').map String.ofList, ?_, ?_, ?_⟩
  · exact mt List.map_eq_nil_iff.mp (List.splitOn_ne_nil _ _)
  · intro name listed
    obtain ⟨component, within, rfl⟩ := List.mem_map.mp listed
    rw [isName_iff, String.toList_ofList]
    refine ⟨accepted component within, Segments.notMem_of_splitOn within, ?_⟩
    intro nul
    rw [List.contains_iff_mem, text, ← joined] at clean
    exact clean (List.mem_flatMap.mpr ⟨component, within, List.mem_cons_of_mem _ nul⟩)
  · apply String.toList_inj.mp
    rw [pathOf_toList, List.map_map, text]
    have back : String.toList ∘ String.ofList = id := funext fun _ => String.toList_ofList
    rw [back, List.map_id, joined]

/-- **Grammar.** What is accepted is what the grammar says. -/
theorem refusal_none {raw : String} : RemotePath.refusal raw = none ↔ PathGrammar raw := by
  constructor
  · intro accepted
    by_cases root : raw = "/"
    · subst root
      exact ⟨by decide, .inl rfl⟩
    · obtain ⟨short, named⟩ := names_of_refusal accepted root
      exact ⟨short, .inr named⟩
  · rintro ⟨short, rfl | ⟨names, some', valid, rfl⟩⟩
    · decide
    · exact refusal_pathOf some' valid short

/-! ## Parents and siblings -/

/-- The directory that some names lead to. -/
def directoryOf (names : List String) : String := if names = [] then "/" else pathOf names

/-- A parent is the directory that all names but the last lead to, whatever the
last one is. -/
theorem parent_eq {path : RemotePath} {front : List String} {last : List Char} (whole : '/' ∉ last)
    (text : path.raw.toList = Segments.join '/' (front.map String.toList ++ [last])) :
    path.parent = directoryOf front := by
  have before : ((path.raw.toList.reverse.dropWhile (· ≠ '/')).drop 1).reverse =
      Segments.join '/' (front.map String.toList) := by
    rw [text]
    exact Segments.beforeLast_join whole
  unfold RemotePath.parent directoryOf
  dsimp only
  rw [before]
  cases front with
  | nil => rfl
  | cons name front => rfl

/-- Names lead nowhere but below the root. -/
theorem pathOf_ne_root {names : List String} (some' : names ≠ [])
    (valid : ∀ name ∈ names, IsName name) : pathOf names ≠ "/" := by
  intro root
  have text := pathOf_toList names
  rw [root] at text
  cases names with
  | nil => exact some' rfl
  | cons name names =>
    unfold Segments.join at text
    rw [List.map_cons, List.flatMap_cons, List.cons_append] at text
    have nothing := (List.append_eq_nil_iff.mp (List.cons.inj text).2.symm).1
    exact (isName_iff.mp (valid name List.mem_cons_self)).1.1 nothing

/-- A directory's entry is behind one more slash. -/
theorem entryOf_toList {names : List String} (valid : ∀ name ∈ names, IsName name) (name : String) :
    (entryOf (directoryOf names) name).toList =
      Segments.join '/' (names.map String.toList ++ [name.toList]) := by
  unfold entryOf directoryOf
  by_cases root : names = []
  · rw [if_pos root, if_pos rfl, root, String.toList_append]
    exact Segments.join_singleton.symm
  · rw [if_neg root, if_neg (pathOf_ne_root root valid), String.toList_append, String.toList_append,
      pathOf_toList, Segments.join_append, Segments.join_singleton, List.append_assoc]
    rfl

theorem entryOf_pathOf {names : List String} (valid : ∀ name ∈ names, IsName name) (name : String) :
    entryOf (directoryOf names) name = pathOf (names ++ [name]) := by
  apply String.toList_inj.mp
  rw [entryOf_toList valid, pathOf_toList, List.map_append]
  rfl

/-- Names without slashes are told by the path they spell. -/
theorem pathOf_inj {names others : List String} (some' : names ≠ []) (some'' : others ≠ [])
    (whole : ∀ name ∈ names, '/' ∉ name.toList) (whole' : ∀ name ∈ others, '/' ∉ name.toList)
    (same : pathOf names = pathOf others) : names = others := by
  have joined := congrArg String.toList same
  rw [pathOf_toList, pathOf_toList] at joined
  have pieces := Segments.join_inj (mt List.map_eq_nil_iff.mp some') (mt List.map_eq_nil_iff.mp some'')
    (slash_notMem whole) (slash_notMem whole') joined
  exact List.map_injective_iff.mpr (fun _ _ => String.toList_inj.mp) pieces

/-- The parent of an accepted path is a directory that names lead to. -/
theorem RemotePath.directory (path : RemotePath) :
    ∃ names, (∀ name ∈ names, IsName name) ∧ path.parent = directoryOf names ∧
      (path.raw ≠ "/" → ∃ last, IsName last ∧ path.raw = pathOf (names ++ [last])) := by
  by_cases root : path.raw = "/"
  · refine ⟨[], nofun, ?_, fun longer => absurd root longer⟩
    exact parent_eq (List.not_mem_nil) (by rw [root]; rfl)
  · obtain ⟨-, names, some', valid, text⟩ := names_of_refusal path.accepted root
    have parts := (List.dropLast_append_getLast some').symm
    rw [parts] at text valid
    refine ⟨names.dropLast, ?_, ?_, fun _ => ⟨names.getLast some', ?_, text⟩⟩
    · exact fun name listed => valid name (List.mem_append_left _ listed)
    · have last := valid _ (List.mem_append_right _ (List.mem_singleton_self _))
      refine parent_eq last.2.2.2.1 ?_
      rw [text, pathOf_toList, List.map_append]
      rfl
    · exact valid _ (List.mem_append_right _ (List.mem_singleton_self _))

/-! ## Staged uploads -/

namespace Bastion

open Interleaving Prog

variable (deployment : Deployment)

/-- What an upload is asked with, once its session and its account are known. -/
structure UploadArgs where
  path : String
  intent : String
  source : String
  overwrite : Bool
  stagingPath : Option String

/-- Why an upload is turned away before the service is asked. -/
inductive ToolError
  | path (error : PathError)
  | intent (error : CommandIntentError)
  | notConfigured
  | input
  deriving DecidableEq

/-- `ssh_upload`, from its paths on. The store, if there is one, has the input
that a source names. -/
def sshUpload (principal : PrincipalId) (session : SessionId)
    (files : Option (String → Option PreparedUpload)) (args : UploadArgs) :
    Prog (Except ToolError (Except MediationError Executed)) :=
  match RemotePath.parse args.path with
  | .error error => return .error (.path error)
  | .ok path =>
    match CommandIntent.parse args.intent with
    | .error error => return .error (.intent error)
    | .ok agentIntent =>
      match files with
      | none => return .error .notConfigured
      | some store =>
        match args.stagingPath.mapM RemotePath.parse with
        | .error error => return .error (.path error)
        | .ok stagingPath =>
          match store args.source with
          | none => return .error .input
          | some input => do
            let executed ← submit deployment principal session agentIntent
              (.upload path input args.overwrite stagingPath)
            return .ok executed

/-- A step that keeps to this side: it asks nothing of a connection and starts
no run. -/
def Step.Local (γ : Type) (step : Step γ) : Prop :=
  match step with
  | .links _ | .runs _ => False
  | _ => True

/-- Work that is no action goes no further than the session. -/
theorem submit_local (principal : PrincipalId) (session : SessionId) (agentIntent : CommandIntent)
    {work : Work} {error : MediationError} (refused : work.action = .error error) :
    (submit deployment principal session agentIntent work).All Step.Local := by
  unfold submit authorizeAction
  rw [refused]
  refine .act _ _ trivial fun entered => ?_
  cases entered with
  | false => exact .done _
  | true =>
    refine .act _ _ trivial fun stopping => ?_
    cases stopping with
    | true => exact .done _
    | false =>
      refine .act _ _ trivial fun used => ?_
      cases used <;> exact .done _

/-- A staging path that an upload can be made with. -/
def Staged (path : RemotePath) (overwrite : Bool) (stagingPath : Option String) : Prop :=
  ∀ text, stagingPath = some text → ∃ stage, RemotePath.parse text = .ok stage ∧
    stage.parent = path.parent ∧ stage ≠ path ∧ overwrite = true

/-- An upload reaches for the peer only with a path and a stage that were
accepted, the one beside the other. -/
theorem sshUpload_local (principal : PrincipalId) (session : SessionId)
    (files : Option (String → Option PreparedUpload)) (args : UploadArgs) :
    (∃ path, RemotePath.parse args.path = .ok path ∧
      Staged path args.overwrite args.stagingPath) ∨
    (sshUpload deployment principal session files args).All Step.Local := by
  unfold sshUpload
  cases parsed : RemotePath.parse args.path with
  | error error => exact .inr (.done _)
  | ok path =>
    cases CommandIntent.parse args.intent with
    | error error => exact .inr (.done _)
    | ok agentIntent =>
      cases files with
      | none => exact .inr (.done _)
      | some store =>
        cases staged : args.stagingPath.mapM RemotePath.parse with
        | error error => exact .inr (.done _)
        | ok stagingPath =>
          dsimp only
          cases store args.source with
          | none => exact .inr (.done _)
          | some input =>
            cases refused : stagingRefused path args.overwrite stagingPath with
            | true =>
              have action : (Work.upload path input args.overwrite stagingPath).action =
                  .error .invalidStagingPath := by
                unfold Work.action
                dsimp only
                rw [if_pos refused]
              exact .inr ((submit_local deployment principal session agentIntent action).bind
                fun _ => .done _)
            | false =>
              refine .inl ⟨path, rfl, ?_⟩
              intro text given
              rw [given] at staged
              cases read : RemotePath.parse text with
              | error error =>
                rw [Option.mapM_some, read] at staged
                exact nomatch staged
              | ok stage =>
                rw [Option.mapM_some, read] at staged
                obtain rfl := Except.ok.inj staged
                unfold stagingRefused at refused
                rw [Option.any_some] at refused
                have kept := Bool.eq_false_iff.mp refused
                refine ⟨stage, rfl, ?_, ?_, ?_⟩
                · by_contra elsewhere
                  exact kept (by rw [decide_eq_true elsewhere, Bool.or_true])
                · intro same
                  exact kept (by rw [decide_eq_true same, Bool.or_true, Bool.true_or])
                · by_contra fresh
                  exact kept (by rw [Bool.eq_false_iff.mpr fresh, Bool.not_false, Bool.true_or,
                    Bool.true_or])

end Bastion

/-- What `parse` accepts is kept as it was given. -/
theorem RemotePath.parse_ok {raw : String} {path : RemotePath} :
    RemotePath.parse raw = .ok path ↔ path.raw = raw := by
  unfold RemotePath.parse
  constructor
  · intro parsed
    split at parsed
    · exact nomatch parsed
    · cases parsed
      rfl
  · rintro rfl
    split
    · next error refused => exact nomatch path.accepted.symm.trans refused
    · rfl

open Bastion in
/-- **Paths.** `parse` accepts what the grammar says. A path but the root is its
parent and its last name; a text that names something beside a path is a path
with the same parent, if it is one, and is one if the name is and it is not too
long. An upload does nothing but on this side unless its stage was accepted and
is beside its destination. -/
theorem RemotePath.grammar :
    (∀ raw, (∃ path, RemotePath.parse raw = .ok path) ↔ PathGrammar raw) ∧
    (∀ path : RemotePath, path.raw ≠ "/" → ∃ front last,
      (∀ name ∈ front ++ [last], IsName name) ∧ path.raw = pathOf (front ++ [last]) ∧
        path.parent = directoryOf front ∧ entryOf path.parent last = path.raw) ∧
    (∀ (path : RemotePath) name, '/' ∉ name.toList →
      (∀ stage, RemotePath.parse (entryOf path.parent name) = .ok stage →
        stage.parent = path.parent) ∧
      (name ≠ "" → ((∃ stage, RemotePath.parse (entryOf path.parent name) = .ok stage) ↔
        IsName name ∧ (entryOf path.parent name).utf8ByteSize ≤ pathMax))) ∧
    ∀ deployment principal session files args,
      (∃ path, RemotePath.parse args.path = .ok path ∧
        Staged path args.overwrite args.stagingPath) ∨
      (sshUpload deployment principal session files args).All Step.Local := by
  have accepts {raw : String} : (∃ path, RemotePath.parse raw = .ok path) ↔ PathGrammar raw := by
    rw [← refusal_none]
    constructor
    · rintro ⟨path, parsed⟩
      rw [← parse_ok.mp parsed]
      exact path.accepted
    · exact fun accepted => ⟨⟨raw, accepted⟩, parse_ok.mpr rfl⟩
  refine ⟨fun raw => accepts, ?_, ?_, ?_⟩
  · intro path longer
    obtain ⟨front, valid, parent, last⟩ := path.directory
    obtain ⟨last, named, text⟩ := last longer
    refine ⟨front, last, ?_, text, parent, ?_⟩
    · intro name listed
      rcases List.mem_append.mp listed with listed | listed
      · exact valid name listed
      · rw [List.mem_singleton.mp listed]
        exact named
    · rw [parent, entryOf_pathOf valid, text]
  · intro path name whole
    obtain ⟨front, valid, parent, -⟩ := path.directory
    rw [parent]
    constructor
    · intro stage parsed
      refine parent_eq whole ?_
      rw [parse_ok.mp parsed]
      exact entryOf_toList valid name
    · intro some'
      rw [accepts, entryOf_pathOf valid]
      constructor
      · have spelled : ∀ other ∈ front ++ [name], '/' ∉ other.toList := by
          intro other listed
          rcases List.mem_append.mp listed with listed | listed
          · exact (valid other listed).2.2.2.1
          · rw [List.mem_singleton.mp listed]
            exact whole
        have some'' : front ++ [name] ≠ [] :=
          List.append_ne_nil_of_right_ne_nil _ (List.cons_ne_nil _ _)
        rintro ⟨short, root | ⟨names, some', named, text⟩⟩
        · have only : front ++ [name] = [""] :=
            pathOf_inj some'' (List.cons_ne_nil _ _) spelled (by decide) root
          have last := congrArg List.getLast? only
          rw [List.getLast?_concat] at last
          exact absurd (Option.some.inj last) some'
        · have same := pathOf_inj some'' some' spelled (fun other listed =>
            (named other listed).2.2.2.1) text
          exact ⟨named name (same ▸ List.mem_append_right _ (List.mem_singleton_self _)), short⟩
      · rintro ⟨named, short⟩
        refine ⟨short, .inr ⟨front ++ [name], ?_, ?_, rfl⟩⟩
        · exact List.append_ne_nil_of_right_ne_nil _ (List.cons_ne_nil _ _)
        · intro other listed
          rcases List.mem_append.mp listed with listed | listed
          · exact valid other listed
          · rw [List.mem_singleton.mp listed]
            exact named
  · intro deployment principal session files args
    exact sshUpload_local deployment principal session files args

/-- A path under the root, one beside it, and a text that is none. -/
theorem Sample.grammar_sample :
    (∃ path stage, RemotePath.parse "/motd" = .ok path ∧
      RemotePath.parse (entryOf path.parent ".motd") = .ok stage ∧ stage.parent = path.parent) ∧
      ¬ ∃ path, RemotePath.parse "/etc/../motd" = .ok path := by
  obtain ⟨accepts, -, beside, -⟩ := RemotePath.grammar
  obtain ⟨path, parsed⟩ := (accepts "/motd").mpr
    ⟨by decide, .inr ⟨["motd"], by decide, by decide, by decide⟩⟩
  have parent : path.parent = "/" := by
    have text := RemotePath.parse_ok.mp parsed
    exact @parent_eq path [] "motd".toList (by decide) (by rw [text]; decide)
  obtain ⟨parents, accepted⟩ := beside path ".motd" (by decide)
  obtain ⟨stage, staged⟩ := (accepted (by decide)).mpr ⟨by decide, by rw [parent]; decide⟩
  refine ⟨⟨path, stage, parsed, staged, parents stage staged⟩, ?_⟩
  rintro ⟨path, parsed⟩
  have refused : RemotePath.refusal "/etc/../motd" = some .traversal := by decide
  rw [← RemotePath.parse_ok.mp parsed, path.accepted] at refused
  exact nomatch refused

end McpSsh
