import McpSsh.Bastion.Publishing.Preserved

/-!
# Opening and ending, under the publishing lock

The call that has the lock brings a session or records an end. Nobody else
counts on the sessions meanwhile.
-/

namespace McpSsh.Bastion

open Interleaving History

variable {deployment : Deployment} {lost : Nat → Prop} {tid other : Nat} {choice : Choice}
variable {service after : Service} {β : Type} {answer : β}

/-- What a step has to leave: the invariant, and what others count on. -/
def Keeps (lost : Nat → Prop) (tid : Nat) (before after : Service) : Prop :=
  Published lost after ∧ ∀ other, other ≠ tid → Leaves other before after

/-- Nobody else is sheltered while a call has the publishing lock. -/
theorem unsheltered (locked : service.locks .publishing = some tid) (differ : other ≠ tid) :
    service.locks .publishing = some other → Sheltered service after := by
  intro mine
  rw [locked] at mine
  exact absurd (Option.some.inj mine).symm differ

theorem ServiceStep.unlock_published {answer : Unit} (ok : Published lost service)
    (minds : (Step.service (.unlock .publishing)).Minds lost tid service)
    (ran : (Step.service (.unlock .publishing)).run deployment tid choice service =
      some (answer, after)) : Keeps lost tid service after := by
  obtain ⟨placed, clear⟩ := minds rfl
  obtain ⟨-, -, -, rfl⟩ := Step.ran ran
  simp only [Step.effect, ServiceStep.effect, Effect.plain, List.append_nil]
  exact ⟨⟨{ ok.ends with clear := fun _ => clear }, { ok.map with all := fun _ => placed }⟩,
    fun other _ => Steady.leaves ⟨rfl, List.prefix_refl _, fun _ member _ => member⟩
      (fun _ => ⟨fun _ ended => ended, fun session member => ⟨session, member, rfl, id⟩,
        fun _ opened => opened, fun _ _ _ placed => placed, rfl⟩)⟩

/-- What a publication does. -/
theorem SessionStep.publish_did {principal : PrincipalId} {host : HostId} {role : RoleId}
    {purpose : Purpose} {accessClass : AccessClass} {answer : Session}
    (ran : (Step.sessions (.publish principal host role purpose accessClass)).run deployment tid
      choice service = some (answer, after)) :
    service.journal.unused choice.draw = true ∧
      after.sessions.store.held = answer :: service.sessions.store.held ∧
      after.clock = service.clock ∧ after.links = service.links ∧
      after.locks .publishing = service.locks .publishing ∧
      after.journal = service.journal ++ [.opened tid answer] ∧ answer.id = ⟨choice.draw⟩ := by
  obtain ⟨unused, -, rfl, rfl⟩ := Step.ran ran
  exact ⟨unused, rfl, rfl, rfl, rfl, rfl, rfl⟩

/-- No session opened before has the number just drawn. -/
theorem Inv.opened_unused (inv : Inv deployment service) {draw : Nat}
    (unused : service.journal.unused draw = true) {known : Session}
    (opened : service.journal.Opened known) : known.id ≠ ⟨draw⟩ := by
  obtain ⟨opener, lastUsed, member⟩ := opened
  intro same
  exact inv.history.unused unused member (by simp [Note.drawn, same])

theorem SessionStep.publish_published {principal : PrincipalId} {host : HostId} {role : RoleId}
    {purpose : Purpose} {accessClass : AccessClass} {answer : Session} (inv : Inv deployment service)
    (ok : Published lost service) (locked : service.locks .publishing = some tid)
    (ran : (Step.sessions (.publish principal host role purpose accessClass)).run deployment tid
      choice service = some (answer, after)) : Keeps lost tid service after := by
  obtain ⟨unused, held, clock, links, locks, journal, id⟩ := SessionStep.publish_did ran
  have grows : service.journal <+: after.journal := ⟨_, journal.symm⟩
  have entries : after.journal.entries = service.journal.entries := by
    rw [journal]
    simp [Journal.entries_append, Note.entry]
  have busy : after.locks .publishing ≠ none := by simp [locks, locked]
  have steady : Steady service after := ⟨links, grows, fun note member kind => by
    rw [journal] at member
    rcases List.mem_append.mp member with old | new
    · exact old
    · obtain rfl := List.mem_singleton.mp new
      cases kind⟩
  refine ⟨⟨⟨?_, ?_, fun free => absurd free busy⟩,
    steady.map ok.map (fun free => absurd free busy) ?_⟩,
    fun other differ => steady.leaves (unsheltered locked differ)⟩
  · rw [entries]
    exact ok.ends.once
  · rintro ended ⟨entry, member, ends⟩
    rw [entries] at member
    obtain ⟨known, opened, same⟩ := ok.ends.known ended ⟨entry, member, ends⟩
    exact ⟨known, opened.grow grows, same⟩
  · intro session member good placer holder placed
    rw [held] at member
    rw [clock] at good
    rcases List.mem_cons.mp member with rfl | inside
    · -- Nobody has been given a holder for the number just drawn.
      obtain ⟨known, opened, same⟩ := ok.map.known placer holder _ placed
      exact absurd (same.trans id) (inv.opened_unused unused opened)
    · exact ok.map.mapped session inside good placer holder placed

/-- An end is recorded once, of a session that was opened. -/
theorem LedgerStep.end_published {who : Attribution} {event : Event} {result : Except AuditError Entry}
    (inv : Inv deployment service) (ok : Published lost service) (ends : event.isEnd = true)
    (minds : (Step.ledger (.record who event)).Minds lost tid service)
    (ran : (Step.ledger (.record who event)).run deployment tid choice service =
      some (result, after)) : Keeps lost tid service after := by
  obtain ⟨locked, -, unended, session, opened, same⟩ := minds ends
  obtain ⟨sessions, clock, links, locks⟩ : after.sessions = service.sessions ∧
      after.clock = service.clock ∧ after.links = service.links ∧ after.locks = service.locks := by
    obtain ⟨-, -, -, rfl⟩ := Step.ran ran
    exact ⟨rfl, rfl, rfl, rfl⟩
  cases result with
  | error error =>
    have journal := LedgerStep.record_refused ran
    have idle : Idle service after := {
      links
      notes := ⟨[], by rw [journal, List.append_nil], fun _ member => by cases member⟩
      held := fun session member => ⟨session, by rw [← sessions]; exact member, rfl,
        fun good => by rw [← clock]; exact good⟩
      publishing := fun free => by rw [← locks]; exact free }
    exact ⟨idle.published ok, fun other _ => idle.leaves⟩
  | ok entry =>
    obtain ⟨journal, sameWho, sameEvent⟩ := LedgerStep.record_ok inv ran
    have grows : service.journal <+: after.journal := ⟨_, journal.symm⟩
    have entryEnds : entry.ends = some who.session := by
      simp [Entry.ends, sameEvent, ends, sameWho]
    have entries : after.journal.entries = service.journal.entries ++ [entry] := by
      rw [journal, Journal.entries_append]
      rfl
    have busy : after.locks .publishing ≠ none := by simp [locks, locked]
    have steady : Steady service after := ⟨links, grows, fun note member kind => by
      rw [journal] at member
      rcases List.mem_append.mp member with old | new
      · exact old
      · obtain rfl := List.mem_singleton.mp new
        cases kind⟩
    refine ⟨⟨⟨?_, ?_, fun free => absurd free busy⟩,
      steady.map ok.map (fun free => absurd free busy) ?_⟩,
      fun other differ => steady.leaves (unsheltered locked differ)⟩
    · rw [entries]
      refine ok.ends.once.append fun id keyOf earlier member ends => ?_
      rw [entryEnds] at keyOf
      cases keyOf
      exact unended ⟨earlier, member, ends⟩
    · rintro id ⟨about, member, ends⟩
      rw [entries] at member
      rcases List.mem_append.mp member with inside | new
      · obtain ⟨known, opened, same⟩ := ok.ends.known id ⟨about, inside, ends⟩
        exact ⟨known, opened.grow grows, same⟩
      · obtain rfl := List.mem_singleton.mp new
        rw [entryEnds] at ends
        exact ⟨session, opened.grow grows, same.trans (Option.some.inj ends)⟩
    · rw [sessions, clock]
      exact ok.map.mapped

end McpSsh.Bastion
