import McpSsh.Approval.Invariant
import Mathlib.Data.Finset.Card
import Mathlib.Logic.Relation

/-!
# Runs of the approval store

Any sequence of the store's operations, with any arguments and any answers from
their callbacks, at any clock readings. A use of a standing agreement is the
operations it makes under the standing lock: a selection, which changes
nothing, then a decision, its recording and a redemption.
-/

namespace McpSsh.Approvals

/-- The two maps of the store, and the clock. -/
structure Store where
  clock : Nat
  requests : Requests
  standing : Agreements

/-- One operation of the store. A callback answers with an error of type `ε` or
a result of type `ρ`. -/
inductive Operation (ε ρ : Type)
  | askWith (fresh : RequestId) (intended : Intended) (consume : Grant → Except ε ρ)
  | redeemActionWith (id : RequestId) (principal : PrincipalId) (action : Action)
      (agentIntent : CommandIntent) (consume : Grant → Except ε ρ)
  | decide (id : RequestId) (approver : Approver) (agreed : Bool) (redeemable : SessionId → Bool)
  | markRecorded (id : RequestId)
  | grantStanding (reading : Nat) (agreement : StandingApproval)
  | revokeStanding (id : AgreementId)
  | selectStanding (session : SessionId)
  | sweep (reading : Nat) (lives : SessionId → Bool)
  | tick (later : Nat)
  | rehash (requests : Requests) (standing : Agreements)

namespace Operation
variable {ε ρ : Type}

/-- What may be asked of an operation: an identifier is drawn once, a session
has one principal, the clock does not go back, and a map reorders only what it
holds. -/
def Allowed (owner : Owner) (store : Store) : Operation ε ρ → Prop
  | .askWith fresh intended _ => (∀ held ∈ store.requests, held.asked.id ≠ fresh) ∧
      intended.decision.session.principal = owner intended.decision.session.id
  | .tick later => store.clock ≤ later
  | .rehash requests standing => store.requests.Perm requests ∧ store.standing.Perm standing
  | _ => True

/-- Whether an operation sweeps the requests of a session. -/
def sweeps (session : SessionId) : Operation ε ρ → Bool
  | .sweep _ lives => !lives session
  | _ => false

/-- What an operation leaves. -/
def apply (config : Config) (ofError : ApprovalError → ε) (store : Store) :
    Operation ε ρ → Store
  | .askWith fresh intended consume => { store with
      requests :=
        (config.askWith ofError store.clock fresh intended consume store.requests).2 }
  | .redeemActionWith id principal action agentIntent consume => { store with
      requests := (config.redeemActionWith ofError store.clock id principal action agentIntent
        consume store.requests).2 }
  | .decide id approver agreed redeemable => { store with
      requests := (config.decide store.clock id approver agreed redeemable store.requests).2 }
  | .markRecorded id => { store with requests := (store.requests.markRecorded id).2 }
  | .grantStanding reading agreement => { store with
      standing := store.standing.grant reading agreement }
  | .revokeStanding id => { store with standing := (store.standing.revoke id).2 }
  | .selectStanding _ => store
  | .sweep reading lives => { store with
      requests := store.requests.sweep reading lives
      standing := store.standing.sweep reading lives }
  | .tick later => { store with clock := later }
  | .rehash requests standing => { store with requests, standing }

end Operation

section
variable {ε ρ : Type} (config : Config) (ofError : ApprovalError → ε) (owner : Owner)

/-- One operation whose kind `keeps` allows. -/
def Store.Step (keeps : Operation ε ρ → Prop) (before after : Store) : Prop :=
  ∃ operation : Operation ε ρ, operation.Allowed owner before ∧ keeps operation ∧
    after = operation.apply config ofError before

/-- Any sequence of operations whose kinds `keeps` allows. -/
def Store.Runs (keeps : Operation ε ρ → Prop) : Store → Store → Prop :=
  Relation.ReflTransGen (Store.Step config ofError owner keeps)

/-- Reachable from the empty store, whatever the operations. -/
def Store.Reachable (store : Store) : Prop :=
  ∃ clock, Store.Runs config ofError owner (fun _ : Operation ε ρ => True) ⟨clock, [], []⟩ store

end

variable {ε ρ : Type} {config : Config} {ofError : ApprovalError → ε} {owner : Owner}
variable {keeps : Operation ε ρ → Prop}

/-! ## The invariant along a run -/

theorem Operation.tidy {store : Store} {operation : Operation ε ρ}
    (tidy : store.requests.Tidy config.waitingPerSession owner)
    (allowed : operation.Allowed owner store) :
    (operation.apply config ofError store).requests.Tidy config.waitingPerSession owner := by
  cases operation with
  | askWith fresh intended consume =>
    have asked := tidy.ask store.clock allowed.1 allowed.2
    simp only [Operation.apply, Config.askWith]
    split
    · exact tidy
    split
    · rename_i eq; rw [eq] at asked; exact asked
    · rename_i eq; rw [eq] at asked; exact asked
    · rename_i eq
      rw [eq] at asked
      split
      · exact asked
      · exact asked.spend _
  | redeemActionWith id principal action agentIntent consume =>
    simp only [Operation.apply, Config.redeemActionWith]
    split
    · exact tidy
    split
    · exact tidy
    · exact tidy.spend id
  | decide id approver agreed redeemable =>
    simp only [Operation.apply, Config.decide]
    split
    · exact tidy
    split
    · exact tidy
    split
    · exact tidy
    · rename_i held found _
      obtain ⟨member, rfl, waiting, -⟩ := Requests.decidable_eq_ok found
      exact tidy.answer member (by simp [waiting, State.isWaiting]) store.clock approver agreed
  | markRecorded id => exact tidy.markRecorded id
  | grantStanding => exact tidy
  | revokeStanding => exact tidy
  | selectStanding => exact tidy
  | sweep reading lives => exact tidy.filter _
  | tick => exact tidy
  | rehash => exact tidy.perm allowed.1

theorem Store.Runs.tidy {before after : Store} (run : Store.Runs config ofError owner keeps before after)
    (tidy : before.requests.Tidy config.waitingPerSession owner) :
    after.requests.Tidy config.waitingPerSession owner := by
  induction run with
  | refl => exact tidy
  | tail _ step ih =>
    obtain ⟨operation, allowed, -, rfl⟩ := step
    exact operation.tidy ih allowed

theorem Store.Reachable.tidy {store : Store}
    (reached : Store.Reachable (ρ := ρ) config ofError owner store) :
    store.requests.Tidy config.waitingPerSession owner := by
  obtain ⟨clock, run⟩ := reached
  exact run.tidy (Requests.Tidy.nil _ _)

/-! ## What one operation leaves alone -/

theorem Requests.mem_update_of_ne {requests : Requests} {id : RequestId} {change : Held → Held}
    {held : Held} (member : held ∈ requests) (other : held.asked.id ≠ id) :
    held ∈ requests.update id change :=
  List.mem_map.mpr ⟨held, member, if_neg other⟩

theorem Requests.mem_retain {requests : Requests} {now : Nat} {held : Held}
    (member : held ∈ requests) (kept : held.forgettable now = false) :
    held ∈ requests.retain now :=
  List.mem_filter.mpr ⟨member, by simp [kept]⟩

/-- A request that nothing about its state can forget survives an ask, unless
it is the agreement the ask collects or reports as lapsed. -/
theorem Config.mem_ask {requests : Requests} {now : Nat} {fresh : RequestId} {intended : Intended}
    {held : Held} (member : held ∈ requests) (kept : held.forgettable now = false)
    (other : ∀ gone ∈ requests, gone.asked.id = held.asked.id → ∀ by_,
      gone.state ≠ .approved by_ true) :
    held ∈ (config.ask now fresh intended requests).2 := by
  have member' := Requests.mem_retain member kept
  have other : ∀ gone ∈ requests.retain now, gone.asked.id = held.asked.id → ∀ by_,
      gone.state ≠ .approved by_ true :=
    fun gone mg => other gone (List.mem_of_mem_filter mg)
  unfold Config.ask
  generalize requests.retain now = requests at member' other
  simp only
  split
  · exact member'
  split
  · exact member'
  split
  · exact member'
  split
  · exact member'
  split
  · rename_i lapsed
    obtain ⟨gone, memberGone, rfl, -, -, state⟩ := Requests.lapsed_eq_some lapsed
    refine List.mem_filter.mpr ⟨List.mem_cons_of_mem _ member', ?_⟩
    simpa using fun same => other gone memberGone same.symm _ state
  · exact List.mem_cons_of_mem _ member'

/-- A grant collected by an ask is that of a request it leaves in place. -/
theorem Config.ask_collect {requests left : Requests} {now : Nat} {fresh : RequestId}
    {intended : Intended} {grant : Grant}
    (asked : config.ask now fresh intended requests = (.collect grant, left)) :
    left = requests.retain now ∧ ∃ held ∈ left, ∃ by_,
      held.isFor intended.decision.session (config.actionOf intended) = true ∧
        now < held.redeemBy ∧ held.state = .approved by_ true ∧ grant = held.grant by_ := by
  unfold Config.ask at asked
  simp only at asked
  split at asked
  · rename_i found
    cases asked
    exact ⟨rfl, Requests.agreed_eq_some found⟩
  · split at asked
    · cases asked
    split at asked
    · cases asked
    split at asked
    · cases asked
    split at asked <;> cases asked

/-! ## A refusal stands -/

/-- A refusal answers every ask for its action. -/
theorem Config.ask_refused {requests : Requests}
    (tidy : requests.Tidy config.waitingPerSession owner) {held : Held} (member : held ∈ requests)
    {by_ : Approver} (no : held.state = .refused by_) (now : Nat) (fresh : RequestId)
    {intended : Intended} (session : intended.decision.session.id = held.asked.session)
    (action : config.actionOf intended = held.action) :
    config.ask now fresh intended requests =
      (.answered (.ok (.refused by_)), requests.retain now) := by
  have member' : held ∈ requests.retain now :=
    Requests.mem_retain member (by simp [Held.forgettable, no])
  have tidy := tidy.retain now
  -- Whatever else is open for the action would be this very request.
  have alone : ∀ other ∈ requests.retain now,
      other.isAbout intended.decision.session.id (config.actionOf intended) = true →
      other.isOpen = true → other = held := by
    intro other mo about opened
    simp only [Held.isAbout_iff] at about
    exact tidy.sole other mo held member' (about.1.trans session) (about.2.trans action) opened
      (by simp [Held.isOpen, no, State.isRedeemed])
  have noneAgreed : (requests.retain now).agreed now intended.decision.session
      (config.actionOf intended) = none := by
    cases found : (requests.retain now).agreed now intended.decision.session
        (config.actionOf intended) with
    | none => rfl
    | some grant =>
      obtain ⟨other, mo, approver, mine, -, state, -⟩ := Requests.agreed_eq_some found
      simp only [Held.isFor_iff] at mine
      have same := alone other mo (by simpa using mine.1)
        (by simp [Held.isOpen, state, State.isRedeemed])
      rw [same, no] at state
      cases state
  have refused : (requests.retain now).refused intended.decision.session.id
      (config.actionOf intended) = some by_ := by
    cases found : (requests.retain now).refused intended.decision.session.id
        (config.actionOf intended) with
    | none =>
      exact (Requests.refused_eq_none found member' (by simp [session, action]) by_ no).elim
    | some approver =>
      obtain ⟨other, mo, about, state⟩ := Requests.refused_eq_some found
      have same := alone other mo about (by simp [Held.isOpen, state, State.isRedeemed])
      rw [same, no] at state
      cases state
      rfl
  unfold Config.ask
  simp only [noneAgreed, refused]

/-- A refusal outlives every operation but a sweep of its session. -/
theorem Operation.refused_stays {store : Store} {operation : Operation ε ρ}
    (tidy : store.requests.Tidy config.waitingPerSession owner)
    (allowed : operation.Allowed owner store) {held : Held} (member : held ∈ store.requests)
    {by_ : Approver} (no : held.state = .refused by_)
    (spared : operation.sweeps held.asked.session = false) :
    held ∈ (operation.apply config ofError store).requests := by
  -- Another request under this identifier would be this one.
  have distinct : ∀ other ∈ store.requests, other.state ≠ .refused by_ →
      held.asked.id ≠ other.asked.id :=
    fun other mo state same => state (tidy.eq_of_id member mo same ▸ no)
  cases operation with
  | askWith fresh intended consume =>
    have stays : held ∈ (config.ask store.clock fresh intended store.requests).2 :=
      Config.mem_ask member (by simp [Held.forgettable, no]) (by
        intro gone mg same approver state
        exact distinct gone mg (by simp [state]) same.symm)
    simp only [Operation.apply, Config.askWith]
    split
    · exact member
    split
    · rename_i eq; rw [eq] at stays; exact stays
    · rename_i eq; rw [eq] at stays; exact stays
    · rename_i eq
      rw [eq] at stays
      split
      · exact stays
      · obtain ⟨rfl, found, mf, approver, -, -, state, rfl⟩ := Config.ask_collect eq
        exact Requests.mem_update_of_ne stays
          (distinct found (List.mem_of_mem_filter mf) (by simp [state]))
  | redeemActionWith id principal action agentIntent consume =>
    simp only [Operation.apply, Config.redeemActionWith]
    split
    · exact member
    rename_i eq
    split
    · exact member
    · obtain ⟨found, mf, approver, rfl, -, -, -, state, -⟩ := Requests.redeem_eq_ok eq
      exact Requests.mem_update_of_ne member (distinct found mf (by simp [state]))
  | decide id approver agreed redeemable =>
    simp only [Operation.apply, Config.decide]
    split
    · exact member
    split
    · exact member
    rename_i eq
    split
    · exact member
    · refine Requests.mem_update_of_ne member fun same => ?_
      subst same
      simp only [Requests.decidable, tidy.find_eq member, no, State.isWaiting, Bool.not_false,
        ite_true] at eq
      cases eq
  | markRecorded id =>
    simp only [Operation.apply, Requests.markRecorded]
    split
    · rename_i found
      refine Requests.mem_update_of_ne member fun same => ?_
      subst same
      simp [tidy.find_eq member, no, State.agreedBy] at found
    · exact member
  | grantStanding => exact member
  | revokeStanding => exact member
  | selectStanding => exact member
  | sweep reading lives =>
    refine List.mem_filter.mpr ⟨member, ?_⟩
    simp only [Operation.sweeps, Bool.not_eq_false'] at spared
    simp [Held.forgettable, no, spared]
  | tick => exact member
  | rehash => exact allowed.1.mem_iff.mp member

theorem Store.Runs.refused_stays {before after : Store} {held : Held} {by_ : Approver}
    (run : Store.Runs config ofError owner
      (fun operation : Operation ε ρ => operation.sweeps held.asked.session = false) before after)
    (tidy : before.requests.Tidy config.waitingPerSession owner) (member : held ∈ before.requests)
    (no : held.state = .refused by_) : held ∈ after.requests := by
  induction run with
  | refl => exact member
  | tail earlier step ih =>
    obtain ⟨operation, allowed, spared, rfl⟩ := step
    exact operation.refused_stays (Store.Runs.tidy earlier tidy) allowed ih no spared

/-- **Approval-store invariant.** In every reachable store at most one request
of a session is unredeemed for one action and no session has more requests
waiting than it may; and after a refusal, however the store is used short of
sweeping the session, every ask for that action is answered with the refusal,
raises no request and reaches no callback, whatever the clock reads. -/
theorem approval_store_invariant {store : Store}
    (reached : Store.Reachable (ρ := ρ) config ofError owner store) :
    (∀ session action, (store.requests.filter (fun held =>
        held.isAbout session action && held.isOpen)).length ≤ 1) ∧
    (∀ session, (store.requests.waitingOf session).length ≤ config.waitingPerSession) ∧
    ∀ held ∈ store.requests, ∀ by_, held.state = .refused by_ → ∀ later,
      Store.Runs config ofError owner
        (fun operation : Operation ε ρ => operation.sweeps held.asked.session = false) store later →
      ∀ (now : Nat) (fresh : RequestId) (intended : Intended) (consume : Grant → Except ε ρ),
        intended.decision.verdict = .needsApproval →
        intended.decision.session.id = held.asked.session →
        config.actionOf intended = held.action →
        config.askWith ofError now fresh intended consume later.requests =
          (.ok (.refused by_), later.requests.retain now) := by
  have tidy := reached.tidy
  refine ⟨fun session action => ?_, tidy.waiting, ?_⟩
  · have nodup : (store.requests.filter (fun held =>
        held.isAbout session action && held.isOpen)).Nodup :=
      (List.Nodup.of_map _ tidy.ids).filter _
    rw [← List.toFinset_card_of_nodup nodup]
    refine Finset.card_le_one.mpr fun a ma b mb => ?_
    simp only [List.mem_toFinset, List.mem_filter, Bool.and_eq_true, Held.isAbout_iff] at ma mb
    exact tidy.sole a ma.1 b mb.1 (ma.2.1.1.trans mb.2.1.1.symm) (ma.2.1.2.trans mb.2.1.2.symm)
      ma.2.2 mb.2.2
  · intro held member by_ no later run now fresh intended consume held' session action
    have asked := Config.ask_refused (run.tidy tidy) (run.refused_stays tidy member no) no now fresh
      session action
    simp only [Config.askWith, held', asked, ne_eq, not_true_eq_false, if_false]
    rfl

/-! ## A store that has refused -/

/-- A held decision, for a store to be asked about. -/
def someIntended : Intended :=
  { (default : Intended) with decision := { (default : Decision) with verdict := .needsApproval } }

def someConfig : Config where
  windows := ⟨60000, 60000⟩
  waitingPerSession := 1
  sha256 := Digest.mk

/-- The store after one request was raised and refused. -/
def refusedStore : Store :=
  let asked := Operation.askWith (ε := ApprovalError) (ρ := Grant) ⟨7⟩ someIntended .ok
  let answered := Operation.decide (ε := ApprovalError) (ρ := Grant) ⟨7⟩ (.human "ada") false
    (fun _ => true)
  answered.apply someConfig id (asked.apply someConfig id ⟨0, [], []⟩)

theorem refusedStore_reachable :
    Store.Reachable (ρ := Grant) someConfig id (fun _ => default) refusedStore := by
  refine ⟨0, .tail (.tail .refl ⟨.askWith ⟨7⟩ someIntended .ok, ⟨?_, rfl⟩, trivial, rfl⟩)
    ⟨.decide ⟨7⟩ (.human "ada") false (fun _ => true), trivial, trivial, rfl⟩⟩
  intro held member
  cases member

theorem approval_store_invariant_refusedStore :
    ∃ held ∈ refusedStore.requests, held.state = .refused (.human "ada") ∧
      (refusedStore.requests.waitingOf held.asked.session).length ≤ 1 ∧
      someConfig.askWith id 5 ⟨8⟩ someIntended Except.ok refusedStore.requests =
        ((.ok (.refused (.human "ada")) : Except ApprovalError (Standing Grant)),
          refusedStore.requests.retain 5) := by
  have invariant := approval_store_invariant refusedStore_reachable
  refine ⟨_, List.mem_cons_self, rfl, invariant.2.1 _, ?_⟩
  exact invariant.2.2 _ List.mem_cons_self _ rfl _ .refl 5 ⟨8⟩ someIntended .ok rfl rfl rfl

end McpSsh.Approvals
