import McpSsh.SessionStore
import McpSsh.Lib.Selection
import Mathlib.Data.Prod.Lex
import Mathlib.Data.String.Basic

/-!
# What an operator sees of the sessions

`filtered_snapshots` goes through the map of sessions once, in the map's order,
and keeps the newest of those that pass the filter. The map is keyed by the text
of an identifier, which is also what settles the order of sessions that were
opened at one time.
-/

namespace McpSsh

/-- A number of so many digits in lowercase hex. -/
def spell : Nat → Nat → List Char
  | 0, _ => []
  | width + 1, number => hexDigit (number / 16 ^ width) :: spell width (number % 16 ^ width)

/-- `SessionId::as_str`. -/
def SessionId.asStr (id : SessionId) : String := String.ofList (spell 32 id.draw)

inductive SessionStatus
  | live
  | lapsed (why : Expiry)
  deriving DecidableEq

structure SessionSnapshot where
  session : Session
  status : SessionStatus
  openedAt : Nat
  lastUsed : Nat
  idleBy : Nat
  endsBy : Nat
  observedAt : Nat
  deriving DecidableEq

/-- A session as it is at one reading of the clock. -/
def Session.snapshot (session : Session) (now : Nat) : SessionSnapshot where
  session := session
  status := (session.expiry now).elim .live .lapsed
  openedAt := session.openedAt
  lastUsed := session.lastUsed
  idleBy := satAdd session.lastUsed session.lifetime.idle
  endsBy := satAdd session.openedAt session.lifetime.max
  observedAt := now

/-- Whether a session passes the filter. -/
def Session.passes (host : Option HostId) (principal : Option PrincipalId) (session : Session) : Bool :=
  ¬ (host.any (· ≠ session.host) || principal.any (· ≠ session.principal))

namespace Sessions

/-- One session of the map is looked at. `partition_point` is the first position
at which its test fails. -/
def look (limit : Nat) (host : Option HostId) (principal : Option PrincipalId)
    (newest : List Session) (held : Session) : List Session :=
  if host.any (· ≠ held.host) || principal.any (· ≠ held.principal) then newest
  else
    let position := newest.findIdx fun candidate =>
      ¬ (held.openedAt < candidate.openedAt ∨
        candidate.openedAt = held.openedAt ∧ candidate.id.asStr ≤ held.id.asStr)
    if position < limit then (newest.insertIdx position held).take limit else newest

/-- `SessionStore::filtered_snapshots`. -/
def filteredSnapshots (store : Sessions) (now limit : Nat) (host : Option HostId)
    (principal : Option PrincipalId) : List SessionSnapshot :=
  (store.held.foldl (look limit host principal) []).map (·.snapshot now)

/-- One session under each text. -/
def Keyed (store : Sessions) : Prop := (store.held.map (·.id.asStr)).Nodup

/-- Newest first, and by identifier where two were opened at one time. -/
def newestFirst (first second : Session) : Bool :=
  second.openedAt < first.openedAt ∨
    first.openedAt = second.openedAt ∧ first.id.asStr ≤ second.id.asStr

end Sessions

/-! ## Identifiers -/

theorem hexDigit_lt : ∀ a < 16, ∀ b < 16, (hexDigit a < hexDigit b ↔ a < b) := by
  decide

theorem hexDigit_inj : ∀ a < 16, ∀ b < 16, (hexDigit a = hexDigit b ↔ a = b) := by
  decide

/-- A number comes before another if its front does, or if that is the same and
its rest does. -/
theorem lt_iff_digits {width a b : Nat} (positive : 0 < width) :
    a < b ↔ a / width < b / width ∨ a / width = b / width ∧ a % width < b % width := by
  have whole := Nat.div_add_mod a width
  have whole' := Nat.div_add_mod b width
  have small := Nat.mod_lt a positive
  have small' := Nat.mod_lt b positive
  rcases lt_trichotomy (a / width) (b / width) with less | same | more
  · have room := Nat.mul_le_mul_left width (Nat.succ_le_of_lt less)
    rw [Nat.mul_succ] at room
    exact iff_of_true (by omega) (.inl less)
  · rw [same] at whole ⊢
    omega
  · have room := Nat.mul_le_mul_left width (Nat.succ_le_of_lt more)
    rw [Nat.mul_succ] at room
    omega

/-- Numbers of one width are in the order of their texts. -/
theorem spell_lt {width a b : Nat} (ha : a < 16 ^ width) (hb : b < 16 ^ width) :
    spell width a < spell width b ↔ a < b := by
  induction width generalizing a b with
  | zero =>
    rw [Nat.pow_zero, Nat.lt_one_iff] at ha hb
    subst ha hb
    exact iff_of_false (List.not_lt_nil _) (lt_irrefl _)
  | succ width ih =>
    have positive : 0 < 16 ^ width := Nat.pow_pos (by decide)
    rw [Nat.pow_succ, Nat.mul_comm] at ha hb
    have digit : a / 16 ^ width < 16 := Nat.div_lt_of_lt_mul (by rwa [Nat.mul_comm])
    have digit' : b / 16 ^ width < 16 := Nat.div_lt_of_lt_mul (by rwa [Nat.mul_comm])
    rw [spell, spell, List.cons_lt_cons_iff, hexDigit_lt _ digit _ digit',
      hexDigit_inj _ digit _ digit', ih (Nat.mod_lt a positive) (Nat.mod_lt b positive)]
    exact (lt_iff_digits positive).symm

/-- Identifiers of sixteen bytes are in the order of what was drawn. -/
theorem SessionId.asStr_lt {first second : SessionId} (drawn : first.draw < 16 ^ 32)
    (drawn' : second.draw < 16 ^ 32) : first.asStr < second.asStr ↔ first.draw < second.draw := by
  rw [← spell_lt drawn drawn']
  unfold asStr
  rw [String.lt_iff_toList_lt, String.toList_ofList, String.toList_ofList]

theorem SessionId.asStr_inj {first second : SessionId} (drawn : first.draw < 16 ^ 32)
    (drawn' : second.draw < 16 ^ 32) (same : first.asStr = second.asStr) : first = second := by
  have before : ¬ first.draw < second.draw := by
    rw [← asStr_lt drawn drawn', same]
    exact lt_irrefl _
  have after : ¬ second.draw < first.draw := by
    rw [← asStr_lt drawn' drawn, same]
    exact lt_irrefl _
  have equal : first.draw = second.draw := by omega
  exact congrArg SessionId.mk equal

namespace Sessions

variable {store : Sessions} {now limit : Nat} {host : Option HostId}
  {principal : Option PrincipalId}

/-- Identifiers that differ have texts that differ. -/
theorem Distinct.keyed (distinct : store.Distinct)
    (drawn : ∀ session ∈ store.held, session.id.draw < 16 ^ 32) : store.Keyed := by
  have texts : store.held.map (·.id.asStr) = (store.held.map (·.id)).map SessionId.asStr := by
    rw [List.map_map]
    rfl
  unfold Keyed
  rw [texts]
  refine List.Nodup.map_on ?_ distinct
  intro first listed second listed' same
  obtain ⟨session, held, rfl⟩ := List.mem_map.mp listed
  obtain ⟨session', held', rfl⟩ := List.mem_map.mp listed'
  exact SessionId.asStr_inj (drawn session held) (drawn session' held') same

/-! ## The scan -/

/-- What sessions are sorted by. -/
def place (session : Session) : Natᵒᵈ ×ₗ String :=
  toLex (OrderDual.toDual session.openedAt, session.id.asStr)

theorem place_le {first second : Session} :
    place first ≤ place second ↔ second.openedAt < first.openedAt ∨
      first.openedAt = second.openedAt ∧ first.id.asStr ≤ second.id.asStr := by
  unfold place
  rw [Prod.Lex.toLex_le_toLex]
  rfl

/-- A session that passes is kept as a selection keeps it; another is not. -/
theorem look_eq {newest : List Session} {held : Session} :
    look limit host principal newest held =
      if held.passes host principal then Selection.keep place limit newest held else newest := by
  unfold look Session.passes
  cases skipped : host.any (· ≠ held.host) || principal.any (· ≠ held.principal) with
  | true => rfl
  | false =>
    have test : (fun candidate : Session => decide ¬ (held.openedAt < candidate.openedAt ∨
        candidate.openedAt = held.openedAt ∧ candidate.id.asStr ≤ held.id.asStr)) =
        fun candidate => decide (place held < place candidate) := by
      funext candidate
      exact decide_eq_decide.mpr (not_congr place_le.symm |>.trans not_le)
    unfold Selection.keep Selection.position
    rw [← test]
    rfl

/-- The scan is a selection of the sessions that pass. -/
theorem scan_eq (sessions : List Session) :
    sessions.foldl (look limit host principal) [] =
      Selection.select place limit (sessions.filter (·.passes host principal)) := by
  unfold Selection.select
  rw [List.foldl_filter]
  congr 1
  funext newest held
  exact look_eq

theorem newestFirst_iff {first second : Session} :
    newestFirst first second = true ↔ place first ≤ place second := by
  rw [place_le]
  exact decide_eq_true_iff

end Sessions

open Sessions in
/-- **Snapshots of the sessions.** Whatever order the map is gone through in,
what is shown is the front of the sessions that pass the filter, lapsed ones
among them, newest first and by identifier; each as it is at the one reading of
the clock. -/
theorem Sessions.Keyed.snapshots {store : Sessions} (keyed : store.Keyed) {order : List Session}
    (same : order.Perm store.held) (now limit : Nat) (host : Option HostId)
    (principal : Option PrincipalId) :
    { store with held := order }.filteredSnapshots now limit host principal =
      (((store.held.filter (·.passes host principal)).mergeSort newestFirst).take limit).map
        (·.snapshot now) := by
  have sorted : Selection.Ordered place
      ((store.held.filter (·.passes host principal)).mergeSort newestFirst) := by
    refine (List.pairwise_mergeSort ?_ ?_ _).imp newestFirst_iff.mp
    · intro first second third before after
      rw [newestFirst_iff] at before after ⊢
      exact before.trans after
    · intro first second
      rw [Bool.or_eq_true, newestFirst_iff, newestFirst_iff]
      exact le_total _ _
  have passing := same.filter (·.passes host principal)
  have distinct : ((order.filter (·.passes host principal)).map place).Nodup := by
    have texts : (order.map (·.id.asStr)).Nodup := (same.map _).nodup_iff.mpr keyed
    have places : ((order.map place).map fun key => (ofLex key).2).Nodup := by
      rw [List.map_map]
      exact texts
    exact places.of_map.sublist (List.filter_sublist.map place)
  unfold filteredSnapshots
  dsimp only
  rw [scan_eq, Selection.select_eq limit distinct sorted ((List.mergeSort_perm _ _).trans passing.symm)]

namespace Sample

/-- A session that was opened at some time by some caller. -/
def opened (draw openedAt : Nat) : Session where
  id := ⟨draw⟩
  principal := default
  host := default
  role := default
  purpose := default
  accessClass := .readOnly
  openedAt := openedAt
  lastUsed := openedAt
  lifetime := ⟨10, 100, 5⟩

/-- The sessions in the order the map has them. -/
def iterated : List Session := [opened 7 5, opened 9 20, opened 3 5, opened 1 2]

def store : Sessions := ⟨[opened 1 2, opened 3 5, opened 7 5, opened 9 20], []⟩

/-- Of four sessions, two of them as old as each other, three are shown; the
older two have lapsed. -/
theorem snapshots_sample :
    { store with held := iterated }.filteredSnapshots 25 3 none none =
        (((store.held.filter (·.passes none none)).mergeSort Sessions.newestFirst).take 3).map
          (·.snapshot 25) ∧
      ((⟨iterated, []⟩ : Sessions).filteredSnapshots 25 3 none none).map
        (fun shown => (shown.session.id.draw, shown.status)) =
          [(9, .live), (3, .lapsed .idle), (7, .lapsed .idle)] := by
  have keyed : store.Keyed := by
    unfold Sessions.Keyed
    decide
  have same : iterated.Perm store.held := by decide
  exact ⟨keyed.snapshots same 25 3 none none, by decide⟩

end Sample

end McpSsh
