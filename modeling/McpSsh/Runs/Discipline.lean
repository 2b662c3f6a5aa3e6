import McpSsh.Runs.Preserved

/-!
# The discipline of the calls about runs

What each step has to meet where it is taken, and that every step and every
happening is then a `Change`. Only the call that keeps the records' lock moves
it.
-/

namespace McpSsh.RunStore

open Interleaving Ledger
open Bastion (Deployment)

/-! ## Guards -/

/-- A run can be let go of: it is in the record, and if it is to be thrown away
nobody can ask for it. -/
def Service.Releasable (service : Service) (run : RunId) (why : Why) : Prop :=
  ∃ outcome, service.Settled outcome ∧ service.Completed outcome ∧ outcome.run = run ∧
    (why = .orphaned → service.Gone outcome.authorization.who.session)

/-- What a step has to meet. -/
def Step.Guard {β : Type} (tid : Nat) (service : Service) : Step β → Prop
  | .enlist run => service.admitting = some (tid, run)
  | .forget run why => service.Releasable run why
  | .recordOutcome outcome => service.Settled outcome
  | _ => True

variable {deployment : Deployment} {tid : Nat} {choice : Choice} {service before after : Service}
variable {outcome : Outcome} {live : Live} {α β : Type} {answer : β}

/-! ## Sessions -/

/-- Forgetting sessions. -/
theorem Change.fewer (deployment : Deployment) {sessions : Sessions}
    (sub : sessions.held.Sublist service.sessions.held) :
    Change deployment service { service with sessions } :=
  .sessions service.clock sessions (Nat.le_refl _) (fun distinct => distinct.sublist sub)
    (fun distinct _ _ gone => Sessions.usable_sublist distinct sub gone)

theorem Change.uses (deployment : Deployment) (service : Service) (id : SessionId)
    (principal : PrincipalId) :
    Change deployment service { service with
      sessions := (service.sessions.useSession service.clock id principal).2 } := by
  refine .sessions service.clock _ (Nat.le_refl _) (fun distinct => ?_)
    (fun distinct _ _ gone => Sessions.useSession_usable distinct rfl gone)
  cases ran : service.sessions.useSession service.clock id principal with
  | mk answer sessions =>
    cases answer with
    | error => exact distinct.sublist (Sessions.useSession_error ran).1
    | ok used =>
      obtain ⟨session, -, same, -, -, usedEq, rfl⟩ := Sessions.useSession_ok ran
      unfold Sessions.Distinct
      rw [Sessions.renewed_ids (show used.id = id by rw [usedEq]; exact same)]
      exact distinct

theorem Change.publishes (deployment : Deployment) {session : Session}
    (unnamed : service.unnamed session.id = true) :
    Change deployment service { service with sessions := service.sessions.publish session } := by
  simp only [Service.unnamed, Bool.and_eq_true, List.all_eq_true, decide_eq_true_eq] at unnamed
  obtain ⟨unknown, apart⟩ := unnamed
  have new : ∀ held ∈ service.sessions.held, held.id ≠ session.id := by
    rw [Option.isNone_iff_eq_none] at unknown
    exact fun held member => by simpa using List.find?_eq_none.mp unknown held member
  have distinct : service.sessions.Distinct → (service.sessions.publish session).Distinct :=
    fun distinct => List.nodup_cons.mpr ⟨fun inside => by
      obtain ⟨held, member, same⟩ := List.mem_map.mp inside
      exact new held member same, distinct⟩
  refine .sessions service.clock _ (Nat.le_refl _) distinct ?_
  rintro known _ ⟨authorized, minted, rfl⟩ gone
  rw [Sessions.usable_eq_none (distinct known)]
  intro held member same
  rcases List.mem_cons.mp member with rfl | old
  · exact absurd same.symm (apart authorized minted)
  · exact (Sessions.usable_eq_none known).mp gone held old same

/-! ## Steps and happenings -/

/-- Nobody but its holder moves the records' lock. -/
def Keeps (tid : Nat) (before after : Service) : Prop :=
  ∀ other, other ≠ tid → ∀ run, before.admitting = some (other, run) →
    after.admitting = some (other, run)

theorem recordOutcome_admitting (deployment : Deployment) (service : Service) (outcome : Outcome)
    (accepts : Bool) :
    (service.recordOutcome deployment outcome accepts).2.admitting = service.admitting := by
  unfold Service.recordOutcome
  generalize wrote : service.writes deployment (.recordOutcome outcome) accepts = result
  have same : result.2.admitting = service.admitting := by
    rw [← wrote]
    rfl
  split <;> exact same

theorem Step.change {step : Step β} (inv : Inv deployment before) (guard : step.Guard tid before)
    (ran : step.run deployment tid choice before = some (answer, after)) :
    Change deployment before after ∧ Keeps tid before after := by
  cases step with
  | enter | holds | unfinished | snapshot =>
    cases ran
    exact ⟨.same _ _, fun _ _ _ locked => locked⟩
  | useSession id principal =>
    cases ran
    exact ⟨.uses _ _ _ _, fun _ _ _ locked => locked⟩
  | sweep =>
    cases ran
    exact ⟨.fewer _ Sessions.sweep_held, fun _ _ _ locked => locked⟩
  | close id principal =>
    cases ran
    exact ⟨.fewer _ Sessions.close_held, fun _ _ _ locked => locked⟩
  | recordSessionClosed session =>
    cases ran
    exact ⟨.writes _ _ trivial (fun _ => nofun), fun _ _ _ locked => locked⟩
  | reclaimLedger =>
    cases ran
    exact ⟨.writes _ _ trivial (fun _ => nofun), fun _ _ _ locked => locked⟩
  | terminate id operator =>
    simp only [Step.run] at ran
    split at ran
    · cases ran
      exact ⟨.same _ _, fun _ _ _ locked => locked⟩
    rename_i session _
    have writes : Change deployment before
        (before.writes deployment (.recordSessionTerminated session operator) choice.accepts).2 :=
      .writes _ _ trivial (fun _ => nofun)
    have kept : Keeps tid before
        (before.writes deployment (.recordSessionTerminated session operator) choice.accepts).2 :=
      fun _ _ _ locked => locked
    split at ran
    · rename_i error wrote same
      cases ran
      rw [same] at writes kept
      exact ⟨writes, kept⟩
    · rename_i wrote same
      cases ran
      rw [same] at writes kept
      exact ⟨.both writes (.fewer _ Sessions.remove_held), kept⟩
  | register receipt =>
    simp only [Step.run] at ran
    split at ran
    · rename_i ok
      simp only [Bool.and_eq_true, Option.isNone_iff_eq_none] at ok
      obtain ⟨⟨unlocked, unspent⟩, fresh⟩ := ok
      have free : before.admitting = none := by simpa [Service.unlocked] using unlocked
      split at ran
      · cases ran
        exact ⟨.same _ _, fun _ _ _ locked => locked⟩
      · rename_i open_
        cases ran
        refine ⟨.admits tid (Live.new ⟨choice.draw⟩ receipt.authorization) receipt.authorization rfl
          (by simpa using open_) free fresh unspent, fun other _ run locked => ?_⟩
        rw [free] at locked
        cases locked
    · cases ran
  | enlist run =>
    simp only [Step.run] at ran
    split at ran
    · rename_i locked
      cases ran
      obtain ⟨live, member, rfl, at'⟩ := inv.admitting tid run locked
      refine ⟨?_, fun other differ run' locked' => ?_⟩
      · simp only [inv.find member]
        exact .advances before.permits member (.starts tid at' locked)
      · rw [locked] at locked'
        cases locked'
        exact absurd rfl differ
    · cases ran
  | find | belongsTo | authorization | outstanding =>
    simp only [Step.run] at ran
    split at ran
    · cases ran
      exact ⟨.same _ _, fun _ _ _ locked => locked⟩
    · cases ran
  | forget run why =>
    obtain ⟨outcome, settled, completed, same, -⟩ := guard
    simp only [Step.run] at ran
    split at ran
    · split at ran
      · cases ran
        refine ⟨.held _ fun other held => ?_, fun _ _ _ locked => locked⟩
        by_cases this : other = run
        · exact .inr ⟨outcome, settled, completed, same.trans this.symm⟩
        · exact .inl (List.mem_filter.mpr ⟨held, by simpa using this⟩)
      · cases ran
        exact ⟨.same _ _, fun _ _ _ locked => locked⟩
    · cases ran
  | stop =>
    simp only [Step.run] at ran
    split at ran
    · rename_i unlocked
      cases ran
      exact ⟨.stops (by simpa [Service.unlocked] using unlocked), fun _ _ _ locked => locked⟩
    · cases ran
  | recordOutcome outcome =>
    simp only [Step.run, Option.some.injEq, Prod.ext_iff] at ran
    obtain ⟨-, rfl⟩ := ran
    refine ⟨.outcome outcome choice.accepts guard, fun _ _ _ locked => ?_⟩
    rw [recordOutcome_admitting]
    exact locked

/-- A reader's next thing is its run's. -/
theorem reader_eq_some {run : RunId} {at' : Reader} {next : Live → Service}
    (happened : service.reader run at' next = some after) :
    ∃ live ∈ service.lives, live.id = run ∧ live.reader = at' ∧ next live = after := by
  obtain ⟨live, found, rfl⟩ := Option.map_eq_some_iff.mp happened
  obtain ⟨found, at'⟩ := Option.filter_eq_some_iff.mp found
  obtain ⟨member, same⟩ := find_eq_some found
  exact ⟨live, member, same, by simpa using at', rfl⟩

theorem Others.offers {operation : Ledger.Operation} (others : service.Others operation) :
    service.record.Offers operation ∧ ∀ outcome, operation ≠ .recordOutcome outcome := by
  cases operation with
  | recordOutcome => cases others
  | drop => exact ⟨others.1, fun _ => nofun⟩
  | _ => exact ⟨others, fun _ => nofun⟩

theorem Happening.change {happening : Happening} (inv : Inv deployment before)
    (happened : happening.run deployment before = some after) :
    Change deployment before after ∧ ∀ tid, Keeps tid before after := by
  cases happening with
  | tick later =>
    simp only [Happening.run] at happened
    split at happened
    · rename_i le
      cases happened
      exact ⟨.sessions later before.sessions le id
        (fun distinct _ _ gone => Sessions.usable_later distinct le gone), fun _ _ _ _ locked => locked⟩
    · cases happened
  | reserve principal =>
    cases happened
    refine ⟨.fewer _ ?_, fun _ _ _ _ locked => locked⟩
    exact (Sessions.reserve_eq rfl).1
  | release principal =>
    cases happened
    exact ⟨.fewer _ (List.Sublist.refl _), fun _ _ _ _ locked => locked⟩
  | publish session =>
    simp only [Happening.run] at happened
    split at happened
    · rename_i unnamed
      cases happened
      exact ⟨.publishes _ unnamed, fun _ _ _ _ locked => locked⟩
    · cases happened
  | useSession id principal =>
    cases happened
    exact ⟨.uses _ _ _ _, fun _ _ _ _ locked => locked⟩
  | writes operation accepts =>
    simp only [Happening.run] at happened
    split at happened
    · rename_i others
      cases happened
      obtain ⟨offers, other⟩ := Others.offers others
      exact ⟨.writes operation accepts offers other, fun _ _ _ _ locked => locked⟩
    · cases happened
  | rehashSessions sessions =>
    simp only [Happening.run] at happened
    split at happened
    · rename_i perm
      cases happened
      have same := List.isPerm_iff.mp perm
      exact ⟨.sessions before.clock _ (Nat.le_refl _) (fun distinct => (same.map _).nodup_iff.mp distinct)
        (fun distinct _ _ gone => Sessions.usable_perm distinct same gone),
        fun _ _ _ _ locked => locked⟩
    · cases happened
  | rehashRuns held =>
    simp only [Happening.run] at happened
    split at happened
    · rename_i ok
      cases happened
      have same := List.isPerm_iff.mp (Bool.and_eq_true_iff.mp ok).2
      exact ⟨.held _ fun run inside => .inl (same.mem_iff.mp inside), fun _ _ _ _ locked => locked⟩
    · cases happened
  | reads run stdout stderr =>
    obtain ⟨live, member, rfl, at', rfl⟩ := reader_eq_some happened
    exact ⟨.advances before.permits member (.reads stdout stderr at'), fun _ _ _ _ locked => locked⟩
  | settles run state stdout stderr file info =>
    simp only [Happening.run] at happened
    split at happened
    · cases happened
    · rename_i ended
      obtain ⟨live, member, rfl, at', rfl⟩ := reader_eq_some happened
      exact ⟨.advances before.permits member (.settles state stdout stderr file info at' ended),
        fun _ _ _ _ locked => locked⟩
  | permitted run =>
    simp only [Happening.run] at happened
    split at happened
    · cases happened
    · obtain ⟨live, member, rfl, at', rfl⟩ := reader_eq_some happened
      exact ⟨.advances (before.permits - 1) member (.permitted at'), fun _ _ _ _ locked => locked⟩
  | tells run accepts =>
    obtain ⟨live, member, rfl, at', rfl⟩ := reader_eq_some happened
    have settled : before.Settled live.snapshot :=
      ⟨live, member, rfl, by simp [inv.running live member, at']⟩
    have records := inv.records settled accepts
    refine ⟨.both (.outcome live.snapshot accepts settled) ?_, fun _ _ _ _ locked => ?_⟩
    · exact .advances (before.recordOutcome deployment live.snapshot accepts).2.permits
        (records.lives.symm ▸ member) (.told at' records.told)
    · exact (recordOutcome_admitting deployment before live.snapshot accepts).trans locked
  | leaves run =>
    obtain ⟨live, member, rfl, at', rfl⟩ := reader_eq_some happened
    exact ⟨.advances (before.permits + 1) member (.leaves at'), fun _ _ _ _ locked => locked⟩

/-! ## The discipline -/

/-- What a call can rely on while others move: what it knew, and the records'
lock if it keeps it. -/
structure Rely (tid : Nat) (before after : Service) : Prop where
  since : Since before after
  admitting : ∀ run, before.admitting = some (tid, run) → after.admitting = some (tid, run)

/-- The rely–guarantee argument of the run store. -/
def discipline (deployment : Deployment) : Discipline (semantics deployment) where
  inv := Inv deployment
  rely := Rely
  guard := fun tid step service => step.Guard tid service
  allowed := fun _ _ _ _ => True
  fresh := fun _ _ => True
  refl := fun _ service => ⟨.refl service, fun _ => id⟩
  trans := fun first second =>
    ⟨first.since.trans second.since, fun run locked => second.admitting run (first.admitting run locked)⟩
  unknown := fun _ _ => trivial
  step := fun inv guard _ ran =>
    have ⟨change, keeps⟩ := Step.change inv guard ran
    have ⟨inv', since⟩ := change.keeps inv
    ⟨inv', fun other differ => ⟨since, keeps other differ⟩⟩
  environment := fun {_ _ _} inv happened =>
    have ⟨change, keeps⟩ := Happening.change inv happened
    have ⟨inv', since⟩ := change.keeps inv
    ⟨inv', fun tid => ⟨since, keeps (tid + 1) tid (Nat.ne_of_lt (Nat.lt_succ_self tid))⟩⟩

end McpSsh.RunStore
