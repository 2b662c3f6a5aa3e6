import McpSsh.Bastion.Publishing.Sessions

/-!
# Moving the connections

A holder is placed once for its session, so an entry taken out of the map does
not come back. A connection is bound once, and closed only by the call that has
its holder's lock, so what the map holds is open.
-/

namespace McpSsh.Bastion

open Interleaving History

variable {deployment : Deployment} {lost : Nat → Prop} {tid other : Nat} {choice : Choice}
variable {service after : Service} {β : Type} {answer : β}

/-- An entry is found after a filter of the keys if its key is kept. -/
theorem lookup_filter (keep : SessionId → Bool) (id : SessionId)
    (connections : List (SessionId × Nat)) :
    (connections.filter (fun entry => keep entry.1)).lookup id =
      if keep id then connections.lookup id else none := by
  induction connections with
  | nil => simp
  | cons head tail ih =>
    obtain ⟨key, holder⟩ := head
    rcases eq_or_ne id key with rfl | differ
    · cases kept : keep id with
      | true => simp [kept]
      | false => simpa [kept] using ih
    · have apart : (id == key) = false := by simpa using differ
      rw [List.lookup_cons, apart, ← ih, List.filter_cons]
      split
      · rw [List.lookup_cons, apart]
      · rfl

/-- What is in the map was placed there. -/
theorem Inv.linked_placed (inv : Inv deployment service) {id : SessionId} {holder : Nat}
    (is : service.linked id = some holder) :
    ∃ placer, Note.placed placer holder id ∈ service.journal := by
  obtain ⟨before, later, split, -⟩ := List.lookup_eq_some_iff.mp is
  exact inv.links.connections id holder (by rw [split]; simp)

/-- The holder in a session's entry is that session's. -/
theorem MapOk.owns (ok : MapOk lost service) (inv : Inv deployment service) {id : SessionId}
    {holder : Nat} {held : Holder} (is : service.linked id = some holder)
    (found : service.links.find holder = some held) : held.session = id := by
  obtain ⟨placer, placed⟩ := inv.linked_placed is
  obtain ⟨other, found', own⟩ := ok.found placer holder id placed
  obtain rfl := Option.some.inj (found.symm.trans found')
  exact own

/-- A holder under a number was placed under it. -/
theorem Inv.find_placed (inv : Inv deployment service) {holder : Nat} {held : Holder}
    (found : service.links.find holder = some held) :
    held.id = holder ∧ ∃ placer, Note.placed placer holder held.session ∈ service.journal := by
  have same : held.id = holder := by simpa using List.find?_some found
  obtain ⟨placer, placed⟩ := inv.links.holders held (List.mem_of_find?_eq_some found)
  exact ⟨same, placer, same ▸ placed⟩

/-- Nobody's holder has a number that has not been drawn. -/
theorem Inv.find_unused (inv : Inv deployment service) {draw holder : Nat}
    (unused : service.journal.unused draw = true) {held : Holder}
    (found : service.links.find holder = some held) : holder ≠ draw := by
  obtain ⟨-, placer, placed⟩ := inv.find_placed found
  rintro rfl
  exact inv.history.unused unused placed rfl

/-- Two calls do not dial one connection. -/
theorem Inv.fresh_apart (inv : Inv deployment service) {other : Nat} (differ : other ≠ tid)
    {mine theirs : Connection} (fresh : service.Fresh tid mine)
    (fresh' : service.Fresh other theirs) : mine.id ≠ theirs.id := by
  intro same
  have eq := inv.history.drawn.unique fresh.dialled fresh'.dialled (k := mine.id) rfl
    (by rw [same]; rfl)
  simp only [Note.dialled.injEq] at eq
  exact differ eq.1.symm

/-- What a link step does to the service. -/
structure LinkStep.Did {β : Type} (step : LinkStep β) (tid : Nat) (choice : Choice)
    (before after : Service) : Prop where
  unused : before.journal.unused choice.draw = true
  sessions : after.sessions = before.sessions
  clock : after.clock = before.clock
  publishing : after.locks .publishing = before.locks .publishing
  links : after.links = (step.effect tid choice.draw choice.accepts before.links).part
  journal : after.journal =
    before.journal ++ (step.effect tid choice.draw choice.accepts before.links).notes

theorem LinkStep.did {step : LinkStep β}
    (ran : (Step.links step).run deployment tid choice service = some (answer, after)) :
    step.Did tid choice service after := by
  obtain ⟨unused, -, -, rfl⟩ := Step.ran ran
  refine ⟨unused, rfl, rfl, ?_, rfl, rfl⟩
  cases step <;> simp [Step.use, LinkStep.use, Service.locksAfter]

namespace LinkStep.Did
variable {step : LinkStep β}

/-- No link step writes an entry or opens a session. -/
theorem quiet (_ : step.Did tid choice service after) :
    ∀ note ∈ (step.effect tid choice.draw choice.accepts service.links).notes,
      note.entry = none ∧ ∀ opener session, note ≠ .opened opener session := by
  intro note member
  cases step with
  | dial =>
    simp only [LinkStep.effect] at member
    split at member
    · obtain rfl := List.mem_singleton.mp member
      exact ⟨rfl, fun _ _ same => by cases same⟩
    · cases member
  | insert =>
    simp only [LinkStep.effect, List.mem_cons, List.not_mem_nil, or_false] at member
    rcases member with rfl | rfl <;> exact ⟨rfl, fun _ _ same => by cases same⟩
  | replace =>
    obtain ⟨held, -, rfl⟩ := List.mem_map.mp member
    exact ⟨rfl, fun _ _ same => by cases same⟩
  | _ => cases member

theorem entries (did : step.Did tid choice service after) :
    after.journal.entries = service.journal.entries := by
  rw [did.journal, Journal.entries_append,
    List.filterMap_eq_nil_iff.mpr (fun note member => (did.quiet note member).1), List.append_nil]

theorem ends (did : step.Did tid choice service after) (ok : EndsOk service) : EndsOk after := by
  have entries := did.entries
  have same : ∀ id, after.journal.Ended id ↔ service.journal.Ended id := by
    intro id
    unfold Journal.Ended
    rw [entries]
  refine ⟨by rw [entries]; exact ok.once, fun id ended => ?_, fun free => ?_⟩
  · obtain ⟨session, opened, is⟩ := ok.known id ((same id).mp ended)
    exact ⟨session, opened.grow ⟨_, did.journal.symm⟩, is⟩
  · rw [did.publishing] at free
    intro session member ended
    rw [did.sessions] at member
    exact ok.clear free session member ((same session.id).mp ended)

end LinkStep.Did

/-- Taking entries out of the map, of sessions that cannot be used. -/
theorem MapOk.filtered (ok : MapOk lost service) (keep : SessionId → Bool)
    (sessions : after.sessions = service.sessions) (clock : after.clock = service.clock)
    (journal : after.journal = service.journal) (busy : after.locks .publishing ≠ none)
    (links : after.links = { service.links with
      connections := service.links.connections.filter (fun entry => keep entry.1) })
    (kept : ∀ session ∈ service.sessions.store.held, session.expiry service.clock = none →
      keep session.id = true) :
    MapOk lost after ∧ Lasts service after := by
  have linked : ∀ id, after.linked id = if keep id then service.linked id else none := by
    intro id
    rw [Service.linked, links]
    exact lookup_filter keep id _
  have find : after.links.find = service.links.find := by rw [links]; rfl
  have closed : after.links.closed = service.links.closed := by rw [links]
  refine ⟨?_, ⟨by rw [closed]; exact fun _ member => member, ?_, ?_⟩⟩
  · exact {
      all := fun free => absurd free busy
      known := by rw [journal]; exact ok.known
      mapped := by
        intro session member good placer holder placed
        rw [sessions] at member
        rw [clock] at good
        rw [journal] at placed
        rw [linked, if_pos (kept session member good)]
        exact ok.mapped session member good placer holder placed
      single := by rw [journal]; exact ok.single
      found := by rw [journal, find]; exact ok.found
      unclosed := by
        intro id holder held is found
        rw [find] at found
        rw [closed]
        rw [linked] at is
        split at is
        · exact ok.unclosed id holder held is found
        · cases is
      distinct := by rw [journal]; exact ok.distinct
      bound := by rw [journal, find, closed]; exact ok.bound
      dialled := by
        unfold Service.Spent Service.Dialled
        rw [journal, closed]
        exact ok.dialled }
  · rintro holder ⟨held, found, member⟩
    exact ⟨held, by rw [find]; exact found, by rw [closed]; exact member⟩
  · rintro id ⟨placed, none'⟩
    refine ⟨by rw [journal]; exact placed, ?_⟩
    rw [linked, none']
    split <;> rfl

/-- What other calls count on when entries are taken out. -/
theorem Leaves.of_filtered (lasts : Lasts service after) (journal : after.journal = service.journal)
    (closed : after.links.closed = service.links.closed)
    (sheltered : service.locks .publishing = some other → Sheltered service after) :
    Leaves other service after where
  lasts
  sheltered
  fresh := fun connection fresh => ⟨by rw [journal]; exact fresh.dialled,
    by rw [journal]; exact fresh.unbound, by rw [closed]; exact fresh.unclosed⟩
  spared := by
    intro holder held _ _ unclosed
    rw [closed]
    exact unclosed

theorem LinkStep.remove_published {id : SessionId} {answer : Option Nat} (ok : Published lost service)
    (minds : (Step.links (.remove id)).Minds lost tid service)
    (ran : (Step.links (.remove id)).run deployment tid choice service = some (answer, after)) :
    Keeps lost tid service after := by
  obtain ⟨locked, -, lapsed⟩ := minds
  have did := LinkStep.did ran
  have journal : after.journal = service.journal := did.journal.trans (List.append_nil _)
  obtain ⟨map, lasts⟩ := ok.map.filtered (fun other => decide (other ≠ id)) did.sessions did.clock
    journal (by simp [did.publishing, locked]) did.links (fun session member good =>
      decide_eq_true (fun same => lapsed session member same good))
  exact ⟨⟨did.ends ok.ends, map⟩, fun other differ => .of_filtered lasts journal
    (by rw [did.links]; rfl) (unsheltered locked differ)⟩

theorem LinkStep.removeOrphans_published {live : List SessionId} {answer : List Nat}
    (ok : Published lost service) (minds : (Step.links (.removeOrphans live)).Minds lost tid service)
    (ran : (Step.links (.removeOrphans live)).run deployment tid choice service =
      some (answer, after)) : Keeps lost tid service after := by
  obtain ⟨locked, -, lives⟩ := minds
  have did := LinkStep.did ran
  have journal : after.journal = service.journal := did.journal.trans (List.append_nil _)
  obtain ⟨map, lasts⟩ := ok.map.filtered (fun other => decide (other ∈ live)) did.sessions did.clock
    journal (by simp [did.publishing, locked]) did.links (fun session member good =>
      decide_eq_true (lives session member good))
  exact ⟨⟨did.ends ok.ends, map⟩, fun other differ => .of_filtered lasts journal
    (by rw [did.links]; rfl) (unsheltered locked differ)⟩

/-- Closing what nobody's entry holds. -/
theorem LinkStep.hangUp_published {connection : Nat} {answer : Unit} (ok : Published lost service)
    (inv : Inv deployment service)
    (minds : (Step.links (.hangUp connection)).Minds lost tid service)
    (ran : (Step.links (.hangUp connection)).run deployment tid choice service =
      some (answer, after)) : Keeps lost tid service after := by
  obtain ⟨mine, nobody, dialled⟩ := minds
  have did := LinkStep.did ran
  have journal : after.journal = service.journal := did.journal.trans (List.append_nil _)
  have linked : ∀ id, after.linked id = service.linked id := fun id => by
    rw [Service.linked, did.links]
    rfl
  have find : after.links.find = service.links.find := by rw [did.links]; rfl
  have closed : after.links.closed = connection :: service.links.closed := by
    rw [did.links]
    rfl
  have closes : ∀ {other}, other ∉ service.links.closed → other ≠ connection →
      other ∉ after.links.closed := by
    intro other unclosed differ
    rw [closed]
    exact List.not_mem_cons_of_ne_of_not_mem differ unclosed
  have lasts : Lasts service after := by
    refine ⟨?_, ?_, ?_⟩
    · rw [closed]
      exact List.subset_cons_self _ _
    · rintro holder ⟨held, found, member⟩
      exact ⟨held, by rw [find]; exact found, by rw [closed]; exact List.mem_cons_of_mem _ member⟩
    · rintro id ⟨placed, none'⟩
      exact ⟨by rw [journal]; exact placed, (linked id).trans none'⟩
  refine ⟨⟨did.ends ok.ends, ?_⟩, fun other differ => ⟨lasts, fun locked => ?_, ?_, ?_⟩⟩
  · exact {
      all := fun free => by
        rw [did.publishing] at free
        intro session opened
        rw [journal] at opened ⊢
        exact ok.map.all free session opened
      known := by rw [journal]; exact ok.map.known
      mapped := by
        rw [did.sessions, did.clock, journal]
        intro session member good placer holder placed
        exact (linked _).trans (ok.map.mapped session member good placer holder placed)
      single := by rw [journal]; exact ok.map.single
      found := by rw [journal, find]; exact ok.map.found
      unclosed := by
        intro id holder held is found
        rw [linked] at is
        rw [find] at found
        refine closes (ok.map.unclosed id holder held is found) fun same => ?_
        -- A holder in the map is in it for its own session.
        have own := ok.map.owns inv is found
        rw [← own] at is
        exact (mine holder held found same).2 is
      distinct := by rw [journal]; exact ok.map.distinct
      bound := by
        rw [journal, find]
        intro binder id other bound
        rcases ok.map.bound binder id other bound with old | rest
        · exact .inl (by rw [closed]; exact List.mem_cons_of_mem _ old)
        · exact .inr rest
      dialled := by
        unfold Service.Spent Service.Dialled
        rw [journal, closed]
        rintro other (member | bound)
        · rcases List.mem_cons.mp member with rfl | old
          · exact dialled
          · exact ok.map.dialled other (.inl old)
        · exact ok.map.dialled other (.inr bound) }
  · exact ⟨fun id ended => by rw [journal] at ended; exact ended, fun session member =>
      ⟨session, by rw [← did.sessions]; exact member, rfl, fun good => by rw [← did.clock]; exact good⟩,
      fun session opened => by rw [journal] at opened; exact opened,
      fun _ _ _ placed => by rw [journal] at placed; exact placed, by rw [did.links]; rfl⟩
  · intro fresh is
    exact ⟨by rw [journal]; exact is.dialled, by rw [journal]; exact is.unbound,
      closes is.unclosed (nobody other fresh differ is)⟩
  · intro holder held locked found unclosed
    refine closes unclosed fun same => ?_
    have locked' := (mine holder held found same).1
    rw [locked] at locked'
    exact differ (Option.some.inj locked')

/-- The entry an insertion makes. -/
theorem LinkStep.insert_linked {id : SessionId} {connection : Connection}
    (did : (LinkStep.insert id connection).Did tid choice service after) (other : SessionId) :
    after.linked other = if other = id then some choice.draw else service.linked other := by
  rw [Service.linked, did.links]
  change List.lookup other ((id, choice.draw) ::
    service.links.connections.filter (fun entry => decide (entry.1 ≠ id))) = _
  rw [List.lookup_cons, lookup_filter (fun other => decide (other ≠ id))]
  rcases eq_or_ne other id with rfl | differ
  · simp
  · simp [differ, Service.linked, show (other == id) = false by simpa using differ]

/-- A connection is put in the map, for a session that never had one. -/
theorem LinkStep.insert_published {id : SessionId} {connection : Connection} {answer : Unit}
    (ok : Published lost service) (inv : Inv deployment service)
    (guard : (Step.links (.insert id connection)).Guard deployment tid service)
    (minds : (Step.links (.insert id connection)).Minds lost tid service)
    (ran : (Step.links (.insert id connection)).run deployment tid choice service =
      some (answer, after)) : Keeps lost tid service after := by
  obtain ⟨locked, fresh, unplaced⟩ := minds
  obtain ⟨-, owner, opened, sameOwner, -⟩ := guard
  have did := LinkStep.did ran
  have journal : after.journal = service.journal ++
      [.placed tid choice.draw id, .bound tid id connection] := did.journal
  have grows : service.journal <+: after.journal := ⟨_, journal.symm⟩
  have busy : after.locks .publishing ≠ none := by simp [did.publishing, locked]
  have linked := LinkStep.insert_linked did
  have find : ∀ holder, after.links.find holder = if holder = choice.draw then
      some ⟨choice.draw, id, connection⟩ else service.links.find holder := by
    intro holder
    rw [did.links]
    simp only [LinkStep.effect, LinkPart.find, List.find?_cons]
    rcases eq_or_ne holder choice.draw with rfl | differ
    · simp
    · simp [differ, differ.symm]
  have stays : ∀ {holder held}, service.links.find holder = some held →
      after.links.find holder = some held := fun found => by
    rw [find, if_neg (inv.find_unused did.unused found)]
    exact found
  have closed : after.links.closed = service.links.closed := by rw [did.links]; rfl
  have placedIs : ∀ {placer holder about}, Note.placed placer holder about ∈ after.journal →
      Note.placed placer holder about ∈ service.journal ∨
        placer = tid ∧ holder = choice.draw ∧ about = id := by
    intro placer holder about placed
    rw [journal] at placed
    simpa [or_assoc] using placed
  have boundIs : ∀ {binder about other}, Note.bound binder about other ∈ after.journal →
      Note.bound binder about other ∈ service.journal ∨ about = id ∧ other = connection := by
    intro binder about other bound
    rw [journal] at bound
    have cases' : Note.bound binder about other ∈ service.journal ∨
        binder = tid ∧ about = id ∧ other = connection := by simpa using bound
    exact cases'.imp_right And.right
  refine ⟨⟨did.ends ok.ends, ?_⟩, fun other differ =>
    ⟨⟨?_, ?_, ?_⟩, unsheltered locked differ, ?_, ?_⟩⟩
  · exact {
      all := fun free => absurd free busy
      known := by
        intro placer holder about placed
        rcases placedIs placed with old | ⟨-, -, rfl⟩
        · obtain ⟨session, opened, same⟩ := ok.map.known placer holder about old
          exact ⟨session, opened.grow grows, same⟩
        · exact ⟨owner, opened.grow grows, sameOwner⟩
      mapped := by
        intro session member good placer holder placed
        rw [did.sessions] at member
        rw [did.clock] at good
        rw [linked]
        rcases placedIs placed with old | ⟨-, rfl, same⟩
        · have differ : session.id ≠ id := fun same => unplaced placer holder (same ▸ old)
          rw [if_neg differ]
          exact ok.map.mapped session member good placer holder old
        · rw [if_pos same]
      single := by
        intro placer holder placer' holder' about placed placed'
        rcases placedIs placed with old | ⟨-, rfl, rfl⟩ <;>
          rcases placedIs placed' with old' | ⟨-, rfl, same⟩
        · exact ok.map.single _ _ _ _ _ old old'
        · exact absurd (same ▸ old) (unplaced placer holder)
        · exact absurd old' (unplaced placer' holder')
        · rfl
      found := by
        intro placer holder about placed
        rcases placedIs placed with old | ⟨-, rfl, rfl⟩
        · obtain ⟨held, found, own⟩ := ok.map.found placer holder about old
          exact ⟨held, stays found, own⟩
        · exact ⟨⟨choice.draw, about, connection⟩, by rw [find, if_pos rfl], rfl⟩
      unclosed := by
        intro about holder held is found
        rw [closed]
        rw [linked] at is
        split at is
        · cases is
          rw [find, if_pos rfl] at found
          cases found
          exact fresh.unclosed
        · obtain ⟨placer, placed⟩ := inv.linked_placed is
          obtain ⟨other, found', -⟩ := ok.map.found placer holder about placed
          obtain rfl := Option.some.inj ((stays found').symm.trans found)
          exact ok.map.unclosed about holder _ is found'
      distinct := by
        intro binder about other binder' about' other' bound bound' same
        rcases boundIs bound with old | ⟨rfl, rfl⟩ <;> rcases boundIs bound' with old' | ⟨rfl, rfl⟩
        · exact ok.map.distinct _ _ _ _ _ _ old old' same
        · exact absurd same (fresh.unbound binder about other old)
        · exact absurd same.symm (fresh.unbound binder' about' other' old')
        · rfl
      bound := by
        intro binder about other bound
        rw [closed]
        rcases boundIs bound with old | ⟨rfl, rfl⟩
        · rcases ok.map.bound binder about other old with shut | gone | ⟨holder, held, found, is⟩
          · exact .inl shut
          · exact .inr (.inl gone)
          · exact .inr (.inr ⟨holder, held, stays found, is⟩)
        · exact .inr (.inr ⟨choice.draw, _, by rw [find, if_pos rfl], rfl, rfl⟩)
      dialled := by
        rintro number (member | ⟨binder, about, other, bound, same⟩)
        · rw [closed] at member
          exact (ok.map.dialled number (.inl member)).grow grows
        · rcases boundIs bound with old | ⟨-, rfl⟩
          · exact (ok.map.dialled number (.inr ⟨binder, about, other, old, same⟩)).grow grows
          · exact same ▸ fresh.was.grow grows }
  · rw [closed]
    exact fun _ member => member
  · rintro holder ⟨held, found, member⟩
    exact ⟨held, stays found, by rw [closed]; exact member⟩
  · rintro about ⟨⟨placer, holder, placed⟩, none'⟩
    refine ⟨⟨placer, holder, grows.subset placed⟩, ?_⟩
    have differ : about ≠ id := fun same => unplaced placer holder (same ▸ placed)
    rw [linked, if_neg differ]
    exact none'
  · intro theirs is
    refine ⟨grows.subset is.dialled, fun binder about other bound => ?_, by
      rw [closed]; exact is.unclosed⟩
    rcases boundIs bound with old | ⟨-, rfl⟩
    · exact is.unbound binder about other old
    · exact inv.fresh_apart differ fresh is
  · intro holder held _ _ unclosed
    rw [closed]
    exact unclosed

/-- What a holder under this number holds after it was replaced. -/
theorem find_replaced_self {holder : Nat} {connection : Connection} (holders : List Holder) :
    (holders.map (fun held => if held.id = holder then { held with connection } else held)).find?
        (·.id = holder) =
      (holders.find? (·.id = holder)).map (fun held => { held with connection }) := by
  induction holders with
  | nil => rfl
  | cons head tail ih =>
    rw [List.map_cons, List.find?_cons, List.find?_cons]
    rcases eq_or_ne head.id holder with same | differ
    · simp [same]
    · simp [differ, ih]

/-- A lost connection is replaced by its holder's keeper. -/
theorem LinkStep.replace_published {holder : Nat} {connection : Connection} {answer : Unit}
    (ok : Published lost service) (inv : Inv deployment service)
    (guard : (Step.links (.replace holder connection)).Guard deployment tid service)
    (minds : (Step.links (.replace holder connection)).Minds lost tid service)
    (ran : (Step.links (.replace holder connection)).run deployment tid choice service =
      some (answer, after)) : Keeps lost tid service after := by
  obtain ⟨fresh, gone⟩ := minds
  have keeper : service.locks (.holder holder) = some tid := guard.1
  have did := LinkStep.did ran
  have journal : after.journal = service.journal ++
      (service.links.find holder).toList.map (fun held => .bound tid held.session connection) :=
    did.journal
  have grows : service.journal <+: after.journal := ⟨_, journal.symm⟩
  have linked : ∀ id, after.linked id = service.linked id := fun id => by
    rw [Service.linked, did.links]
    rfl
  have apart : ∀ {other}, other ≠ holder → after.links.find other = service.links.find other := by
    intro other differ
    rw [did.links]
    exact find_replaced differ _
  have self : after.links.find holder =
      (service.links.find holder).map (fun held => { held with connection }) := by
    rw [did.links]
    exact find_replaced_self _
  have closed : after.links.closed = service.links.closed := by rw [did.links]; rfl
  have placedIs : ∀ {placer other about}, Note.placed placer other about ∈ after.journal →
      Note.placed placer other about ∈ service.journal := by
    intro placer other about placed
    rw [journal] at placed
    simpa using placed
  have boundIs : ∀ {binder about other}, Note.bound binder about other ∈ after.journal →
      Note.bound binder about other ∈ service.journal ∨
        other = connection ∧ ∃ held, service.links.find holder = some held ∧ held.session = about := by
    intro binder about other bound
    rw [journal] at bound
    rcases List.mem_append.mp bound with old | new
    · exact .inl old
    · obtain ⟨held, found, same⟩ := List.mem_map.mp new
      cases same
      exact .inr ⟨rfl, held, Option.mem_toList.mp found, rfl⟩
  have openedIs : ∀ {session}, after.journal.Opened session → service.journal.Opened session := by
    rintro session ⟨opener, lastUsed, member⟩
    rw [journal] at member
    exact ⟨opener, lastUsed, by simpa using member⟩
  have entries : after.journal.entries = service.journal.entries := by
    rw [journal, Journal.entries_append]
    simp [List.filterMap_map, Note.entry, Function.comp_def]
  refine ⟨⟨did.ends ok.ends, ?_⟩, fun other differ => ⟨⟨?_, ?_, ?_⟩, fun _ => ?_, ?_, ?_⟩⟩
  · exact {
      all := fun free session opened => by
        rw [did.publishing] at free
        obtain ⟨placer, placed, member⟩ := ok.map.all free session (openedIs opened)
        exact ⟨placer, placed, grows.subset member⟩
      known := by
        intro placer other about placed
        obtain ⟨session, opened, same⟩ := ok.map.known placer other about (placedIs placed)
        exact ⟨session, opened.grow grows, same⟩
      mapped := by
        rw [did.sessions, did.clock]
        intro session member good placer other placed
        exact (linked _).trans (ok.map.mapped session member good placer other (placedIs placed))
      single := fun placer other placer' other' about placed placed' =>
        ok.map.single placer other placer' other' about (placedIs placed) (placedIs placed')
      found := by
        intro placer other about placed
        obtain ⟨held, found, own⟩ := ok.map.found placer other about (placedIs placed)
        rcases eq_or_ne other holder with rfl | differ
        · exact ⟨{ held with connection }, by rw [self, found]; rfl, own⟩
        · exact ⟨held, by rw [apart differ]; exact found, own⟩
      unclosed := by
        intro about other held is found
        rw [linked] at is
        rw [closed]
        rcases eq_or_ne other holder with rfl | differ
        · rw [self] at found
          obtain ⟨before, -, rfl⟩ := Option.map_eq_some_iff.mp found
          exact fresh.unclosed
        · rw [apart differ] at found
          exact ok.map.unclosed about other held is found
      distinct := by
        intro binder about other binder' about' other' bound bound' same
        rcases boundIs bound with old | ⟨rfl, held, found, rfl⟩ <;>
          rcases boundIs bound' with old' | ⟨rfl, held', found', rfl⟩
        · exact ok.map.distinct _ _ _ _ _ _ old old' same
        · exact absurd same (fresh.unbound binder about other old)
        · exact absurd same.symm (fresh.unbound binder' about' other' old')
        · rw [found] at found'
          cases found'
          rfl
      bound := by
        intro binder about other bound
        rw [closed]
        rcases boundIs bound with old | ⟨rfl, held, found, rfl⟩
        · rcases ok.map.bound binder about other old with shut | lost' | ⟨there, held, found, is⟩
          · exact .inl shut
          · exact .inr (.inl lost')
          · rcases eq_or_ne there holder with rfl | differ
            · exact .inr (.inl (is.2 ▸ (gone held found).2))
            · exact .inr (.inr ⟨there, held, by rw [apart differ]; exact found, is⟩)
        · exact .inr (.inr ⟨holder, { held with connection := other }, by rw [self, found]; rfl,
            rfl, rfl⟩)
      dialled := by
        rintro number (member | ⟨binder, about, other, bound, same⟩)
        · rw [closed] at member
          exact (ok.map.dialled number (.inl member)).grow grows
        · rcases boundIs bound with old | ⟨rfl, -⟩
          · exact (ok.map.dialled number (.inr ⟨binder, about, other, old, same⟩)).grow grows
          · exact same ▸ fresh.was.grow grows }
  · rw [closed]
    exact fun _ member => member
  · rintro other ⟨held, found, member⟩
    rcases eq_or_ne other holder with rfl | differ
    · exact absurd member (gone held found).1
    · exact ⟨held, by rw [apart differ]; exact found, by rw [closed]; exact member⟩
  · rintro about ⟨⟨placer, other, placed⟩, none'⟩
    exact ⟨⟨placer, other, grows.subset placed⟩, (linked about).trans none'⟩
  · refine ⟨fun id ended => ?_, fun session member => ⟨session, ?_, rfl, ?_⟩, fun session => openedIs,
      fun _ _ _ => placedIs, by rw [did.links]; rfl⟩
    · obtain ⟨entry, member, ends⟩ := ended
      exact ⟨entry, entries ▸ member, ends⟩
    · rw [← did.sessions]
      exact member
    · rw [did.clock]
      exact fun good => good
  · intro theirs is
    refine ⟨grows.subset is.dialled, fun binder about other bound => ?_, by
      rw [closed]; exact is.unclosed⟩
    rcases boundIs bound with old | ⟨rfl, -⟩
    · exact is.unbound binder about other old
    · exact inv.fresh_apart differ fresh is
  · intro there held _ _ unclosed
    rw [closed]
    exact unclosed

end McpSsh.Bastion
