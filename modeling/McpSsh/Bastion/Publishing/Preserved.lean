import McpSsh.Bastion.Publishing.Invariant

/-!
# Steps keep sessions, ends and connections together

Most steps are idle: they bring no session, no end and no connection, and only
forget sessions. The others are taken one by one. Opening and ending a session,
and whatever moves the connection map, is done under the publishing lock, so
the call that has it finds things as it left them.
-/

namespace McpSsh.Bastion

open Interleaving History

variable {deployment : Deployment} {lost : Nat → Prop} {tid : Nat} {choice : Choice}
variable {service after : Service} {β : Type} {step : Step β} {answer : β}

/-! ## Steps that leave the connections alone -/

/-- A note of a holder or of what it was given to hold. -/
def Note.links : Note → Bool
  | .placed .. | .bound .. => true
  | _ => false

/-- Holders and connections are left alone. -/
structure Steady (before after : Service) : Prop where
  links : after.links = before.links
  grows : before.journal <+: after.journal
  old : ∀ note ∈ after.journal, note.links = true → note ∈ before.journal

namespace Steady

theorem linked (steady : Steady service after) (id : SessionId) :
    after.linked id = service.linked id := by
  unfold Service.linked
  rw [steady.links]

theorem lasts (steady : Steady service after) : Lasts service after where
  closed := by rw [steady.links]; exact fun _ member => member
  shut := by
    rintro holder ⟨held, found, closed⟩
    exact ⟨held, by rw [steady.links]; exact found, by rw [steady.links]; exact closed⟩
  parted := by
    rintro id ⟨⟨placer, holder, placed⟩, none'⟩
    exact ⟨⟨placer, holder, steady.grows.subset placed⟩, (steady.linked id).trans none'⟩

theorem leaves (steady : Steady service after)
    (sheltered : service.locks .publishing = some tid → Sheltered service after) :
    Leaves tid service after where
  lasts := steady.lasts
  sheltered
  fresh := fun connection fresh => {
    dialled := steady.grows.subset fresh.dialled
    unbound := fun binder id other bound => fresh.unbound binder id other (steady.old _ bound rfl)
    unclosed := by rw [steady.links]; exact fresh.unclosed }
  spared := by
    rintro holder held - - unclosed
    rw [steady.links]
    exact unclosed

/-- The map stays in order if every session still has its holder and its entry. -/
theorem map (steady : Steady service after) (ok : MapOk lost service)
    (all : after.locks .publishing = none → after.AllPlaced)
    (mapped : ∀ session ∈ after.sessions.store.held, session.expiry after.clock = none →
      ∀ placer holder, Note.placed placer holder session.id ∈ service.journal →
        service.linked session.id = some holder) : MapOk lost after where
  all
  known := by
    intro placer holder id placed
    obtain ⟨session, opened, same⟩ := ok.known placer holder id (steady.old _ placed rfl)
    exact ⟨session, opened.grow steady.grows, same⟩
  mapped := by
    intro session member good placer holder placed
    rw [steady.linked]
    exact mapped session member good placer holder (steady.old _ placed rfl)
  single := fun placer holder placer' holder' id placed placed' =>
    ok.single placer holder placer' holder' id (steady.old _ placed rfl) (steady.old _ placed' rfl)
  found := by
    intro placer holder id placed
    rw [steady.links]
    exact ok.found placer holder id (steady.old _ placed rfl)
  unclosed := by
    intro id holder held
    rw [steady.linked, steady.links]
    exact ok.unclosed id holder held
  distinct := fun binder id connection binder' id' connection' bound bound' =>
    ok.distinct binder id connection binder' id' connection' (steady.old _ bound rfl)
      (steady.old _ bound' rfl)
  bound := by
    intro binder id connection bound
    rw [steady.links]
    exact ok.bound binder id connection (steady.old _ bound rfl)
  dialled := by
    rintro connection (closed | ⟨binder, id, other, bound, same⟩)
    · rw [steady.links] at closed
      exact (ok.dialled connection (.inl closed)).grow steady.grows
    · exact (ok.dialled connection (.inr ⟨binder, id, other, steady.old _ bound rfl, same⟩)).grow
        steady.grows

end Steady

/-! ## Idle steps -/

/-- A note of no session, end or connection. -/
def Note.idle : Note → Bool
  | .opened .. | .placed .. | .bound .. => false
  | .committed entry => !entry.event.isEnd
  | _ => true

theorem Note.idle_of_links {note : Note} (links : note.links = true) : note.idle = false := by
  cases note <;> first | rfl | cases links

/-- Nothing came: sessions were forgotten at most, and connections left alone. -/
structure Idle (before after : Service) : Prop where
  links : after.links = before.links
  notes : ∃ notes, after.journal = before.journal ++ notes ∧ ∀ note ∈ notes, note.idle = true
  held : ∀ session ∈ after.sessions.store.held, ∃ old ∈ before.sessions.store.held,
    old.id = session.id ∧ (session.expiry after.clock = none → old.expiry before.clock = none)
  publishing : after.locks .publishing = none → before.locks .publishing = none

namespace Idle

/-- A note that says something was there before. -/
theorem old (idle : Idle service after) {note : Note} (member : note ∈ after.journal)
    (kind : note.idle = false) : note ∈ service.journal := by
  obtain ⟨notes, eq, quiet⟩ := idle.notes
  rw [eq] at member
  rcases List.mem_append.mp member with old | new
  · exact old
  · rw [quiet note new] at kind
    cases kind

theorem grows (idle : Idle service after) : service.journal <+: after.journal := by
  obtain ⟨notes, eq, -⟩ := idle.notes
  exact ⟨notes, eq.symm⟩

theorem steady (idle : Idle service after) : Steady service after where
  links := idle.links
  grows := idle.grows
  old := fun _ member links => idle.old member (Note.idle_of_links links)

theorem opened (idle : Idle service after) {session : Session}
    (opened : after.journal.Opened session) : service.journal.Opened session := by
  obtain ⟨opener, lastUsed, member⟩ := opened
  exact ⟨opener, lastUsed, idle.old member rfl⟩

theorem ended (idle : Idle service after) {id : SessionId} (ended : after.journal.Ended id) :
    service.journal.Ended id := by
  obtain ⟨entry, member, ends⟩ := ended
  refine ⟨entry, Journal.mem_entries.mpr (idle.old (Journal.mem_entries.mp member) ?_), ends⟩
  unfold Entry.ends at ends
  split at ends
  · simp [Note.idle, *]
  · cases ends

theorem sheltered (idle : Idle service after) : Sheltered service after where
  ended := fun _ => idle.ended
  held := idle.held
  opened := fun _ => idle.opened
  placed := fun _ _ _ placed => idle.old placed rfl
  connections := congrArg LinkPart.connections idle.links

theorem leaves (idle : Idle service after) : Leaves tid service after :=
  idle.steady.leaves (fun _ => idle.sheltered)

/-- No end among the entries that came. -/
theorem once (idle : Idle service after) (once : Keyed Entry.ends service.journal.entries) :
    Keyed Entry.ends after.journal.entries := by
  obtain ⟨notes, eq, quiet⟩ := idle.notes
  unfold Keyed at once ⊢
  have none' : (notes.filterMap Note.entry).filterMap Entry.ends = [] := by
    refine List.filterMap_eq_nil_iff.mpr fun entry member => ?_
    obtain ⟨note, inside, is⟩ := List.mem_filterMap.mp member
    have idle := quiet note inside
    cases note with
    | committed other =>
      cases is
      simp only [Note.idle, Bool.not_eq_true'] at idle
      simp [Entry.ends, idle]
    | _ => cases is
  rw [eq, Journal.entries_append, List.filterMap_append, none', List.append_nil]
  exact once

/-- **Idle steps keep everything.** -/
theorem published (idle : Idle service after) (ok : Published lost service) :
    Published lost after where
  ends := {
    once := idle.once ok.ends.once
    known := by
      intro id ended
      obtain ⟨session, opened, same⟩ := ok.ends.known id (idle.ended ended)
      exact ⟨session, opened.grow idle.grows, same⟩
    clear := fun free => idle.sheltered.clear (ok.ends.clear (idle.publishing free)) }
  map := idle.steady.map ok.map
    (fun free => idle.sheltered.allPlaced idle.grows (ok.map.all (idle.publishing free)))
    (fun session member good placer holder placed => by
      obtain ⟨old, inside, same, lives⟩ := idle.held session member
      rw [← same] at placed ⊢
      exact ok.map.mapped old inside (lives good) placer holder placed)

end Idle

/-! ## Which steps are idle -/

def ServiceStep.Idles {β : Type} : ServiceStep β → Prop
  | .unlock which => which ≠ .publishing
  | _ => True

def SessionStep.Idles {β : Type} : SessionStep β → Prop
  | .publish .. => False
  | _ => True

def LedgerStep.Idles {β : Type} : LedgerStep β → Prop
  | .record _ event => event.isEnd = false
  | _ => True

def LinkStep.Idles {β : Type} : LinkStep β → Prop
  | .insert .. | .remove _ | .removeOrphans _ | .replace .. | .hangUp _ => False
  | _ => True

/-- A step that brings no session, end or connection and moves no map. -/
def Step.Idles {β : Type} : Step β → Prop
  | .service step => step.Idles
  | .sessions step => step.Idles
  | .ledger step => step.Idles
  | .links step => step.Idles
  | _ => True

/-- It has nothing to mind. -/
theorem Step.Idles.minds (idles : step.Idles) : step.Minds lost tid service := by
  cases step with
  | service step =>
    cases step with
    | unlock which => exact fun same => absurd same idles
    | _ => trivial
  | sessions step =>
    cases step with
    | publish => cases idles
    | _ => trivial
  | ledger step =>
    cases step with
    | record who event =>
      intro ends
      have quiet : event.isEnd = false := idles
      rw [quiet] at ends
      cases ends
    | _ => trivial
  | links step =>
    cases step with
    | insert | remove | removeOrphans | replace | hangUp => cases idles
    | _ => trivial
  | _ => trivial

/-- Sessions are renewed or forgotten. -/
theorem SessionStep.renews {step : SessionStep β} {part : SessionPart} {clock draw : Nat}
    (idles : step.Idles) :
    ∀ session ∈ (step.effect deployment tid clock draw part).part.store.held,
      ∃ old ∈ part.store.held, old.id = session.id ∧
        (session.expiry clock = none → old.expiry clock = none) := by
  have fewer : ∀ {held : List Session}, held.Sublist part.store.held → ∀ session ∈ held,
      ∃ old ∈ part.store.held, old.id = session.id ∧
        (session.expiry clock = none → old.expiry clock = none) :=
    fun sub session member => ⟨session, sub.subset member, rfl, fun good => good⟩
  cases step with
  | publish => cases idles
  | reserve principal =>
    simp only [SessionStep.effect]
    split
    · rename_i eq
      exact fewer (Sessions.reserve_eq eq).1
    · rename_i eq
      exact fewer (Sessions.reserve_eq eq).1
  | useSession id principal =>
    simp only [SessionStep.effect]
    rcases ran : part.store.useSession clock id principal with ⟨result, store⟩
    cases result with
    | error error => exact fewer (Sessions.useSession_error ran).1
    | ok used =>
      obtain ⟨session, member, same, -, good, rfl, rfl⟩ := Sessions.useSession_ok ran
      intro other inside
      obtain ⟨before, mb, rfl⟩ := List.mem_map.mp inside
      split
      · exact ⟨session, member, rfl, fun _ => good⟩
      · exact ⟨before, mb, rfl, fun good => good⟩
  | close id principal =>
    simp only [SessionStep.effect]
    exact fewer Sessions.close_held
  | sweep => exact fewer Sessions.sweep_held
  | removeClaimed id => exact fewer Sessions.remove_held
  | claim id =>
    simp only [SessionStep.effect]
    split <;> exact fewer (List.Sublist.refl _)
  | release | holds | endsBy | live | abandon => exact fewer (List.Sublist.refl _)

/-- A ledger step says what it committed, and nothing of sessions or
connections. -/
theorem LedgerStep.notes_cases {step : LedgerStep β} {accepts : Bool} {clock : Nat}
    {alive : Nat → Bool} {ledger : Ledger.State} :
    ∀ note ∈ (step.effect deployment tid clock accepts alive ledger).notes,
      (∃ entry, note = .committed entry) ∨ note.idle = true := by
  intro note member
  cases step with
  | thisDeliberation => cases member
  | recordIntent | recordApproval =>
    simp only [LedgerStep.effect] at member
    split at member
    · cases member
    · simp only [List.mem_cons, List.not_mem_nil, or_false] at member
      rcases member with rfl | rfl
      · exact .inl ⟨_, rfl⟩
      · exact .inr rfl
  | recordAnswer | record =>
    simp only [LedgerStep.effect] at member
    split at member
    · cases member
    · obtain rfl := List.mem_singleton.mp member
      exact .inl ⟨_, rfl⟩
  | reclaim =>
    simp only [LedgerStep.effect] at member
    split at member <;> cases member

/-- What an idle step says is idle. -/
theorem Step.Idles.notes (inv : Inv deployment service) (idles : step.Idles) :
    ∀ note ∈ (step.effect deployment tid choice service).notes, note.idle = true := by
  intro note member
  cases step with
  | service step => cases step <;> cases member
  | sessions step =>
    cases step with
    | publish => cases idles
    | reserve =>
      simp only [Step.effect, SessionStep.effect] at member
      split at member <;> cases member
    | claim =>
      simp only [Step.effect, SessionStep.effect] at member
      split at member <;> cases member
    | _ => cases member
  | requests step =>
    have guard : ∀ note ∈ (step.effect deployment.approvals tid service.clock choice.draw
        service.approvals).notes, note.idle = true := by
      intro note member
      cases step with
      | ask intended =>
        simp only [RequestStep.effect] at member
        split at member
        · obtain rfl := List.mem_singleton.mp member
          rfl
        · simp only [askNotes] at member
          split at member
          · obtain rfl := List.mem_singleton.mp member
            rfl
          · obtain rfl := List.mem_singleton.mp member
            rfl
          · obtain rfl := List.mem_singleton.mp member
            rfl
          · split at member
            · simp only [List.mem_cons, List.not_mem_nil, or_false] at member
              rcases member with rfl | rfl <;> rfl
            · cases member
          · cases member
      | redeem =>
        simp only [RequestStep.effect] at member
        split at member
        · cases member
        · obtain rfl := List.mem_singleton.mp member
          rfl
      | decidable =>
        simp only [RequestStep.effect] at member
        split at member <;> cases member
      | answer =>
        obtain rfl := List.mem_singleton.mp member
        rfl
      | _ => cases member
    exact guard note member
  | standing step =>
    cases step with
    | select =>
      simp only [Step.effect, StandingStep.effect] at member
      split at member
      · cases member
      · obtain rfl := List.mem_singleton.mp member
        rfl
    | grant =>
      obtain rfl := List.mem_singleton.mp member
      rfl
    | revoke =>
      simp only [Step.effect, StandingStep.effect] at member
      split at member
      · obtain rfl := List.mem_singleton.mp member
        rfl
      · cases member
    | _ => cases member
  | ledger step =>
    rcases LedgerStep.notes_cases note member with ⟨entry, rfl⟩ | quiet
    · have writes := LedgerStep.committed choice inv member
      cases step with
      | record who event =>
        simp only [LedgerStep.writes, Option.some.injEq, Prod.mk.injEq] at writes
        have quiet : event.isEnd = false := idles
        simp [Note.idle, ← writes.2, quiet]
      | recordIntent | recordApproval | recordAnswer =>
        simp only [LedgerStep.writes, Option.some.injEq, Prod.mk.injEq] at writes
        simp only [Note.idle, ← writes.2]
        rfl
      | _ => cases writes
    · exact quiet
  | links step =>
    cases step with
    | dial =>
      simp only [Step.effect, LinkStep.effect] at member
      split at member
      · obtain rfl := List.mem_singleton.mp member
        rfl
      · cases member
    | insert | remove | removeOrphans | replace | hangUp => cases idles
    | _ => cases member
  | runs step =>
    cases step with
    | register =>
      simp only [Step.effect, RunStep.effect] at member
      split at member
      · cases member
      · obtain rfl := List.mem_singleton.mp member
        rfl
    | _ => cases member

/-- It does not give the publishing lock back. -/
theorem Step.Idles.use (idles : step.Idles) : step.use ≠ .has .publishing := by
  intro has
  cases step with
  | service step =>
    cases step with
    | unlock which =>
      cases has
      exact idles rfl
    | _ => cases has
  | sessions step => cases step <;> cases has
  | requests step => cases step <;> cases has
  | standing step => cases step <;> cases has
  | links step => cases step <;> cases has
  | ledger step | runs step => cases has

/-- **An idle step brings nothing.** -/
theorem Step.Idles.idle (inv : Inv deployment service) (idles : step.Idles)
    (ran : step.run deployment tid choice service = some (answer, after)) : Idle service after := by
  obtain ⟨-, permits, -, rfl⟩ := Step.ran ran
  have use := idles.use
  refine ⟨?_, ⟨_, rfl, idles.notes inv⟩, ?_, fun free => ?_⟩
  · cases step with
    | service step => cases step <;> rfl
    | links step =>
      cases step with
      | dial =>
        simp only [Step.effect, LinkStep.effect]
        split <;> rfl
      | insert | remove | removeOrphans | replace | hangUp => cases idles
      | _ => rfl
    | _ => rfl
  · have same : ∀ session ∈ service.sessions.store.held, ∃ old ∈ service.sessions.store.held,
        old.id = session.id ∧
          (session.expiry service.clock = none → old.expiry service.clock = none) :=
      fun session member => ⟨session, member, rfl, fun good => good⟩
    cases step with
    | service step => cases step <;> exact same
    | sessions step => exact SessionStep.renews idles
    | _ => exact same
  · cases eq : step.use with
    | without =>
      rw [eq] at free
      exact free
    | takes which =>
      rw [eq] at free permits
      rcases eq_or_ne which .publishing with rfl | differ
      · exact of_decide_eq_true permits
      · simpa [Service.locksAfter, Function.update_of_ne differ.symm] using free
    | has which =>
      rcases eq_or_ne which .publishing with rfl | differ
      · exact absurd eq use
      · rw [eq] at free
        simpa [Service.locksAfter, Function.update_of_ne differ.symm] using free

/-- So does what happens by itself. -/
theorem Happening.idle {happening : Happening} (happened : happening.run service = some after) :
    Idle service after := by
  have same : ∀ session ∈ service.sessions.store.held, ∃ old ∈ service.sessions.store.held,
      old.id = session.id ∧
        (session.expiry service.clock = none → old.expiry service.clock = none) :=
    fun session member => ⟨session, member, rfl, fun good => good⟩
  have quiet : ∃ notes, service.journal = service.journal ++ notes ∧
      ∀ note ∈ notes, note.idle = true := ⟨[], (List.append_nil _).symm, fun _ member => by cases member⟩
  cases happening with
  | tick later =>
    simp only [Happening.run] at happened
    split at happened
    · rename_i le
      cases happened
      refine ⟨rfl, quiet, fun session member => ⟨session, member, rfl, fun good => ?_⟩, id⟩
      have early := Session.expiry_isNone_of_le le (Option.isNone_iff_eq_none.mpr good)
      exact Option.isNone_iff_eq_none.mp early
    · cases happened
  | rehashSessions held =>
    simp only [Happening.run, Bool.and_eq_true, decide_eq_true_eq, List.isPerm_iff] at happened
    split at happened
    · rename_i ok
      cases happened
      exact ⟨rfl, quiet, fun session member =>
        ⟨session, ok.2.mem_iff.mpr member, rfl, fun good => good⟩, id⟩
    · cases happened
  | rehashRequests | rehashStanding =>
    simp only [Happening.run] at happened
    split at happened
    · cases happened
      exact ⟨rfl, quiet, same, id⟩
    · cases happened

end McpSsh.Bastion
