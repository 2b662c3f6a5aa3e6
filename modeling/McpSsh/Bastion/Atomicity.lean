import McpSsh.Bastion.Agreements

/-!
# Whether an opening is all or nothing

A failure before the session is published gives back what was reserved. The
record of the opening comes after the publication, and nothing takes the
session or its connection back when that record is refused.
-/

namespace McpSsh.Bastion

open Interleaving

variable {deployment : Deployment} {tid : Nat}

/-- **An opening that fails leaves nothing exactly if no record it wanted was
refused.** The only record an opening makes is that of the session it has
published. -/
theorem open_session_leaves_nothing_iff {world : World} (reached : Reachable deployment world)
    {principal : PrincipalId} {host : HostId} {role : RoleId} {purpose : Purpose}
    {accessClass : AccessClass} {error : MediationError} {past : List Took}
    (failed : world.threads[tid]? = some
      ⟨.openSession principal host role purpose accessClass, .done (.opened (.error error)), past⟩) :
    LeavesNothing principal past ↔ ∀ took ∈ past, Heard deployment took :=
  (reached.good.finished failed).2 error rfl

/-- A session is published, and its record is refused. -/
def Sample.unrecorded : List BastionMove :=
  .spawn (.openSession alice web root purpose .privileged) :: turns 0 0 8 ++ [failing 0 8]

/-- The sample's opening is over, and its own steps have left a session. -/
theorem Sample.unrecorded_over : ∃ past,
    (run unrecorded).threads[0]? = some ⟨.openSession alice web root purpose .privileged,
      .done (.opened (.error (.audit .notRecorded))), past⟩ ∧
    net (sessionsUnder ⟨5⟩) past = 1 :=
  ⟨_, rfl, by decide +kernel⟩

/-- An opening whose record is refused leaves its session behind, in the store
and in the connection map. -/
theorem open_session_leaves_session : ∃ past,
    (Sample.run Sample.unrecorded).threads[0]? = some
      ⟨.openSession Sample.alice Sample.web Sample.root Sample.purpose .privileged,
        .done (.opened (.error (.audit .notRecorded))), past⟩ ∧
    ¬ LeavesNothing Sample.alice past ∧
    (Sample.run Sample.unrecorded).shared.sessions.store.held.map (·.id) = [⟨5⟩] ∧
    (Sample.run Sample.unrecorded).shared.links.connections.map (·.1) = [⟨5⟩] := by
  obtain ⟨past, failed, more⟩ := Sample.unrecorded_over
  refine ⟨past, failed, fun nothing => ?_, by decide +kernel, by decide +kernel⟩
  have none' := nothing.sessions ⟨5⟩
  rw [more] at none'
  omega

/-- The sample's opening leaves something, its record not having been heard. -/
theorem open_session_leaves_nothing_iff_unrecorded : ∃ past,
    (Sample.run Sample.unrecorded).threads[0]? = some
      ⟨.openSession Sample.alice Sample.web Sample.root Sample.purpose .privileged,
        .done (.opened (.error (.audit .notRecorded))), past⟩ ∧
    (LeavesNothing Sample.alice past ↔ ∀ took ∈ past, Heard Sample.reviewed took) := by
  obtain ⟨past, failed, -⟩ := Sample.unrecorded_over
  exact ⟨past, failed,
    open_session_leaves_nothing_iff (Sample.run_reachable Sample.unrecorded) failed⟩

end McpSsh.Bastion
