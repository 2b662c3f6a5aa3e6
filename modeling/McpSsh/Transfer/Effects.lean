import McpSsh.Transfer.Steps

/-!
# What a step does to an item

Said once for all of them, in `Item.Follows`: an item keeps what it was declared
by until its content is complete, and that happens once.
-/

namespace McpSsh.Transfers

variable {setting : Setting} {plane next : Plane} {act : Act} {i : Nat} {id : String}
  {item : Item} {snapshot : Snapshot}

/-! ## Content, credentials and recipients -/

/-- All of a file: its size and digest are those of its content. -/
def Snapshot.Complete (setting : Setting) (snapshot : Snapshot) : Prop :=
  snapshot.size.toNat = snapshot.content.length ∧
    snapshot.digest = setting.sha256 snapshot.content

/-- What was declared is so. -/
def Snapshot.Meets (setting : Setting) (snapshot : Snapshot) (declared : Reference) : Prop :=
  (∀ size, declared.size = some size → size = snapshot.size) ∧
    ∀ digest, declared.digest = some digest → digest = snapshot.fileDigest setting

theorem Snapshot.whole_complete {disk : Nat} {got : List UInt8}
    (within : got.length ≤ setting.maxBytes.toNat) : (whole setting disk got).Complete setting := by
  refine ⟨UInt64.toNat_ofNat_of_lt' ?_, rfl⟩
  exact within.trans_lt setting.maxBytes.toNat_lt_size

/-- Whoever has the credential of an issue, as far as its hash tells. -/
def Issue.Admits (setting : Setting) (issue : Issue) (credential : String) : Prop :=
  setting.sha256 (asBytes credential) = setting.sha256 (asBytes issue.credential)

/-- A ticket for an item that its owner was given. -/
def Ticket.Of (setting : Setting) (issued : List Issue) (owner : PrincipalId) (id : String)
    (ticket : Ticket) : Prop :=
  ∃ issue ∈ issued, issue.ticket = ticket.id ∧
    ticket.credential = setting.sha256 (asBytes issue.credential) ∧ issue.principal = owner ∧
    issue.id = id

/-- A caller is the owner, and a bearer has what the owner was issued. -/
def Recipient.Entitled (setting : Setting) (issued : List Issue) (owner : PrincipalId)
    (id : String) : Recipient → Prop
  | .caller principal => principal = owner
  | .bearer ticket credential => ∃ issue ∈ issued, issue.ticket = ticket ∧ issue.id = id ∧
      issue.principal = owner ∧ issue.Admits setting credential

structure Handing.Rightful (setting : Setting) (issued : List Issue) (handing : Handing) :
    Prop where
  content : handing.item.content = .ready handing.snapshot
  complete : handing.snapshot.Complete setting
  meets : handing.snapshot.Meets setting handing.item.declared
  live : handing.item.expired handing.moment = false
  kept : handing.item.withdrawn = false
  clean : handing.item.cleaning = false
  recipient : handing.recipient.Entitled setting issued handing.item.owner handing.id

theorem Recipient.Entitled.mono {issued more : List Issue} {owner : PrincipalId}
    {recipient : Recipient} (entitled : recipient.Entitled setting issued owner id)
    (grows : issued ⊆ more) : recipient.Entitled setting more owner id := by
  cases recipient with
  | caller principal => exact entitled
  | bearer ticket credential =>
    obtain ⟨issue, listed, rest⟩ := entitled
    exact ⟨issue, grows listed, rest⟩

/-! ## Items and tasks -/

structure Item.Genuine (setting : Setting) (plane : Plane) (id : String) (item : Item) :
    Prop where
  unmade : id ∉ plane.completed → item.reference = item.declared
  made : ∀ snapshot, item.content = .ready snapshot →
    id ∈ plane.completed ∧ snapshot.Complete setting ∧ snapshot.Meets setting item.declared
  done : id ∈ plane.completed → (∃ snapshot, item.content = .ready snapshot) ∨ item.cleaning = true
  ticket : ∀ ticket, item.ticket = some ticket →
    ticket.id ∉ plane.taken ∧ ticket.Of setting plane.issued item.owner id

/-- A reader was handed its bytes, and will release its item if that is due. -/
def Plane.Handed (plane : Plane) (id : String) (snapshot : Snapshot) (due : Item → Bool)
    (release : Bool) : Prop :=
  id ∈ plane.completed ∧
    (∃ handing ∈ plane.handed, handing.id = id ∧ handing.snapshot = snapshot) ∧
    ∀ item, plane.store.items.lookup id = some item → release = due item

/-- Of a store that is not local. -/
def Task.Honest (setting : Setting) (plane : Plane) : Task → Prop
  | .authorizing owner id =>
    id ∈ plane.drawn ∧ ∀ item, plane.store.items.lookup id = some item → item.owner = owner
  | .receiving _ (.filling _ got) => got.length ≤ setting.maxBytes.toNat
  | .receiving _ (.received snapshot) => snapshot.Complete setting
  | .publishing id snapshot file =>
    file = none ∧ snapshot.Complete setting ∧ id ∈ plane.drawn ∧
      ∀ item, plane.store.items.lookup id = some item → snapshot.Meets setting item.declared
  | .prepared id snapshot release => plane.Handed id snapshot Item.upload release
  | .delivering id snapshot sent release broken =>
    plane.Handed id snapshot (!·.upload) release ∧ snapshot.Complete setting ∧
      sent ≤ snapshot.size.toNat ∧ (broken = true → sent < snapshot.size.toNat)
  | .releasing id => id ∈ plane.completed
  | .reconciling removed _ _ => removed = true
  | _ => True

structure Plane.Served (setting : Setting) (plane : Plane) : Prop where
  items : ∀ id item, plane.store.items.lookup id = some item → item.Genuine setting plane id
  tasks : ∀ task ∈ plane.tasks, task.Honest setting plane
  handed : ∀ handing ∈ plane.handed, handing.Rightful setting plane.issued
  known : plane.completed ⊆ plane.drawn
  once : plane.completed.Nodup
  taken : plane.taken.Nodup
  used : plane.taken ⊆ plane.drawn
  issued : (plane.issued.map Issue.ticket).Nodup
  issues : ∀ issue ∈ plane.issued, issue.ticket ∈ plane.drawn

/-- Only one item has a ticket of one name. -/
theorem Plane.Served.ticket_inj (served : plane.Served setting) {one two : String} {a b : Item}
    {s t : Ticket} (at_one : plane.store.items.lookup one = some a)
    (at_two : plane.store.items.lookup two = some b) (mine : a.ticket = some s)
    (yours : b.ticket = some t) (same : s.id = t.id) : one = two := by
  obtain ⟨-, first, listed, named, -, -, rfl⟩ := (served.items one a at_one).ticket s mine
  obtain ⟨-, second, listed', named', -, -, rfl⟩ := (served.items two b at_two).ticket t yours
  have equal := List.inj_on_of_nodup_map served.issued listed listed'
    (named.trans (same.trans named'.symm))
  rw [equal]

/-! ## What a step does to an item -/

/-- Nothing gives an item another owner, takes back what was withdrawn or is
being cleaned, or makes it complete but the completion of what it received. -/
structure Item.Follows (setting : Setting) (plane : Plane) (act : Act) (next : Plane)
    (id : String) (item item' : Item) : Prop where
  owner : item'.owner = item.owner
  declared : item'.declared = item.declared
  upload : item'.upload = item.upload
  reference : item'.reference = item.reference ∨ id ∈ next.completed
  content : item'.content = item.content ∨
    ((∀ snapshot, item'.content ≠ .ready snapshot) ∧
      ((∀ snapshot, item.content ≠ .ready snapshot) ∨ item'.cleaning = true)) ∨
    ∃ snapshot file, item.content = .receiving ∧ item'.content = .ready snapshot ∧
      .publishing id snapshot file ∈ plane.tasks ∧ id ∈ next.completed
  cleaning : item.cleaning = true → item'.cleaning = true
  withdrawn : item.withdrawn = true → item'.withdrawn = true
  withdrawal : item'.withdrawn = true → item.withdrawn = true ∨
    (∀ snapshot, item.content ≠ .ready snapshot) ∨
    ∃ i, act = .release i ∧ plane.tasks[i]? = some (.releasing id)
  ticket : ∀ ticket, item'.ticket = some ticket →
    (item.ticket = some ticket ∧ (ticket.id ∈ next.taken → ticket.id ∈ plane.taken)) ∨
      (ticket.id ∉ next.taken ∧ ticket.Of setting next.issued item.owner id)

theorem Item.Follows.refl (item : Item) (taken : ∀ ticket, item.ticket = some ticket →
    ticket.id ∈ next.taken → ticket.id ∈ plane.taken) :
    item.Follows setting plane act next id item where
  owner := rfl
  declared := rfl
  upload := rfl
  reference := .inl rfl
  content := .inl rfl
  cleaning kept := kept
  withdrawn kept := kept
  withdrawal := .inl
  ticket ticket has := .inl ⟨has, taken ticket has⟩

/-- The items of a step that changes one of them. -/
theorem follows_modify {f : Item → Item} {key : String} {before : Item}
    (found : plane.store.items.lookup key = some before)
    (changed : next.store.items = plane.store.items.modify key f)
    (follows : before.Follows setting plane act next key (f before))
    (taken : ∀ id item ticket, id ≠ key → plane.store.items.lookup id = some item →
      item.ticket = some ticket → ticket.id ∈ next.taken → ticket.id ∈ plane.taken)
    (after : Item) (now : next.store.items.lookup id = some after) :
    ∃ item, plane.store.items.lookup id = some item ∧
      item.Follows setting plane act next id after := by
  rw [changed] at now
  by_cases same : id = key
  · subst same
    rw [Table.lookup_modify, found] at now
    cases now
    exact ⟨before, found, follows⟩
  · rw [Table.lookup_modify_ne same] at now
    exact ⟨after, now, .refl after fun ticket has => taken id after ticket same now has⟩

/-- Those of a step that changes none of them. -/
theorem follows_same (same : ∀ item, next.store.items.lookup id = some item →
      plane.store.items.lookup id = some item)
    (taken : next.taken = plane.taken) (after : Item)
    (now : next.store.items.lookup id = some after) :
    ∃ item, plane.store.items.lookup id = some item ∧
      item.Follows setting plane act next id after :=
  ⟨after, same after now, .refl after fun ticket _ used => by rwa [taken] at used⟩

/-- A new item, as it was declared. -/
structure Item.New (plane next : Plane) (id : String) (item : Item) : Prop where
  fresh : id ∉ plane.drawn
  reference : item.reference = item.declared
  content : item.content = .pending
  ticket : item.ticket = none
  completed : next.completed = plane.completed

theorem follows_abandon {key : String}
    (changed : next.store = plane.store.abandon key) (taken : next.taken = plane.taken)
    (after : Item) (now : next.store.items.lookup id = some after) :
    ∃ item, plane.store.items.lookup id = some item ∧
      item.Follows setting plane act next id after := by
  cases found : plane.store.items.lookup key with
  | none =>
    rw [Store.abandon_of_none found] at changed
    exact follows_same (fun item now => by rwa [changed] at now) taken after now
  | some item =>
    obtain ⟨-, same⟩ | ⟨-, -, -, gone⟩ | ⟨unready, -, kept⟩ := Store.abandon_cases found
    · rw [same] at changed
      exact follows_same (fun item now => by rwa [changed] at now) taken after now
    · refine follows_same (fun item now => ?_) taken after now
      rw [changed, gone] at now
      exact Table.lookup_of_erase now
    · apply follows_modify found (by rw [changed, kept]) _ _ after now
      · exact
          { owner := rfl
            declared := rfl
            upload := rfl
            reference := .inl rfl
            content := .inr (.inl ⟨nofun, .inl unready⟩)
            cleaning := fun cleaning => cleaning
            withdrawn := fun _ => rfl
            withdrawal := fun _ => .inr (.inl unready)
            ticket := fun ticket has => .inl ⟨has, fun used => by rwa [taken] at used⟩ }
      · intro _ _ ticket _ _ _ used
        rwa [taken] at used

/-- What a step does to the items of a store that is not local. -/
theorem Step.follows (step : Step setting plane act next)
    (served : plane.Served setting) (after : Item)
    (now : next.store.items.lookup id = some after) :
    (∃ item, plane.store.items.lookup id = some item ∧
      item.Follows setting plane act next id after) ∨ after.New plane next id := by
  -- the credential just drawn is one that nobody has used
  have issue {key ticket credential : String} {owner : PrincipalId} {before : Item}
      (fresh : ticket ∉ plane.drawn) (taken : next.taken = plane.taken)
      (found : plane.store.items.lookup key = some before) (owns : before.owner = owner)
      (changed : next.store.items =
        plane.store.items.modify key (·.issue setting ticket credential))
      (listed : ⟨ticket, credential, owner, key⟩ ∈ next.issued) :
      ∃ item, plane.store.items.lookup id = some item ∧
        item.Follows setting plane act next id after := by
    refine follows_modify found changed ?_ ?_ after now
    · exact
        { owner := rfl
          declared := rfl
          upload := rfl
          reference := .inl rfl
          content := .inl rfl
          cleaning := fun cleaning => cleaning
          withdrawn := fun withdrawn => withdrawn
          withdrawal := .inl
          ticket := fun has same => by
            cases same
            refine .inr ⟨?_, _, listed, rfl, rfl, owns.symm, rfl⟩
            rw [taken]
            exact fun used => fresh (served.used used) }
    · intro _ _ ticket _ _ _ used
      rwa [taken] at used
  have change {key : String} {f : Item → Item} {before : Item}
      (found : plane.store.items.lookup key = some before) (taken : next.taken = plane.taken)
      (changed : next.store.items = plane.store.items.modify key f)
      (follows : before.Follows setting plane act next key (f before)) :
      ∃ item, plane.store.items.lookup id = some item ∧
        item.Follows setting plane act next id after := by
    refine follows_modify found changed follows ?_ after now
    intro _ _ ticket _ _ _ used
    rwa [taken] at used
  have keep (same : ∀ item, next.store.items.lookup id = some item →
        plane.store.items.lookup id = some item) (taken : next.taken = plane.taken) :
      ∃ item, plane.store.items.lookup id = some item ∧
        item.Follows setting plane act next id after := follows_same same taken after now
  have abandon {key : String} (changed : next.store = plane.store.abandon key)
      (taken : next.taken = plane.taken) :
      ∃ item, plane.store.items.lookup id = some item ∧
        item.Follows setting plane act next id after := follows_abandon changed taken after now
  -- the credential just used is no other item's
  have take {key : String} {f : Item → Item} {before : Item} {held : Ticket}
      (found : plane.store.items.lookup key = some before) (has : before.ticket = some held)
      (taken : next.taken = held.id :: plane.taken)
      (changed : next.store.items = plane.store.items.modify key f)
      (follows : before.Follows setting plane act next key (f before)) :
      ∃ item, plane.store.items.lookup id = some item ∧
        item.Follows setting plane act next id after := by
    refine follows_modify found changed follows ?_ after now
    intro other item ticket differ found' has' used
    rw [taken] at used
    rcases List.mem_cons.mp used with same | used
    · exact absurd (served.ticket_inj found' found has' has same) differ
    · exact used
  cases step with
  | @reserve owner params upload key store fresh remote admitted =>
    obtain ⟨-, -, -, uri, rfl⟩ := Store.reserve_ok admitted
    by_cases same : id = key
    · subst same
      rw [AList.lookup_insert] at now
      cases now
      exact .inr ⟨fresh, rfl, rfl, rfl, rfl⟩
    · rw [AList.lookup_insert_ne same] at now
      exact .inl ⟨after, now, .refl after fun _ _ used => used⟩
  | @authorizeUpload i owner key ticket credential result store task fresh fresh' issued =>
    obtain ⟨before, found, rfl⟩ := Store.authorizeUpload_ok issued
    have owns := (served.tasks _ (List.mem_of_getElem? task)).2 before found
    exact .inl (issue fresh rfl found owns rfl (List.mem_cons_self ..))
  | @authorizeDownload owner uri key ticket credential result store fresh fresh' issued =>
    obtain ⟨before, -, owned, -, rfl⟩ := Store.authorizeDownload_ok issued
    obtain ⟨-, found, -, -, owns, -⟩ := Store.owned_ok owned
    exact .inl (issue fresh rfl found owns rfl (List.mem_cons_self ..))
  | @put ticket credential key release store remote took =>
    obtain ⟨before, held, found, -, -, -, has, named, -, done⟩ := Store.takeTicket_ok took
    rcases done with ⟨-, -, pending, -, rfl⟩ | ⟨snapshot, wrong, -⟩
    · refine .inl (take found has (by rw [named]) rfl ?_)
      exact
        { owner := rfl
          declared := rfl
          upload := rfl
          reference := .inl rfl
          content := .inr (.inl ⟨nofun, .inl fun _ ready => nomatch pending.symm.trans ready⟩)
          cleaning := fun cleaning => cleaning
          withdrawn := fun withdrawn => withdrawn
          withdrawal := .inl
          ticket := nofun }
    · cases wrong
  | @get ticket credential key snapshot release store item remote took found' =>
    obtain ⟨before, held, found, -, -, -, has, named, -, done⟩ := Store.takeTicket_ok took
    rcases done with ⟨wrong, -⟩ | ⟨snapshot, -, ready, -, -, rfl⟩
    · cases wrong
    · refine .inl (take found has (by rw [named]) rfl ?_)
      exact
        { owner := rfl
          declared := rfl
          upload := rfl
          reference := .inl rfl
          content := .inl rfl
          cleaning := fun cleaning => cleaning
          withdrawn := fun withdrawn => withdrawn
          withdrawal := .inl
          ticket := nofun }
  | @receive i key store task began =>
    obtain ⟨before, found, -, -, pending, -, -, rfl⟩ := Store.begin_some began
    refine .inl (change found rfl rfl ?_)
    exact
      { owner := rfl
        declared := rfl
        upload := rfl
        reference := .inl rfl
        content := .inr (.inl ⟨nofun, .inl fun _ ready => nomatch pending.symm.trans ready⟩)
        cleaning := fun cleaning => cleaning
        withdrawn := fun withdrawn => withdrawn
        withdrawal := .inl
        ticket := fun _ has => .inl ⟨has, fun used => used⟩ }
  | @drop i key task idle => exact .inl (abandon rfl rfl)
  | @giveUp i key task => exact .inl (abandon rfl rfl)
  | @activate i key store task active =>
    obtain ⟨before, found, receiving, rfl⟩ := Store.activate_some active
    refine .inl (change found rfl rfl ?_)
    exact
      { owner := rfl
        declared := rfl
        upload := rfl
        reference := .inl rfl
        content := .inl rfl
        cleaning := fun cleaning => cleaning
        withdrawn := fun withdrawn => withdrawn
        withdrawal := .inl
        ticket := fun _ has => .inl ⟨has, fun used => used⟩ }
  | @complete i key snapshot file before task done found =>
    rcases Store.complete_cases setting snapshot file found with
      ⟨receiving, made⟩ | ⟨other, kept⟩
    · refine .inl (change found rfl (by rw [made]) ?_)
      have listed : key ∈ if before.content = .receiving then key :: plane.completed
          else plane.completed := by
        rw [if_pos receiving]
        exact List.mem_cons_self ..
      exact
        { owner := rfl
          declared := rfl
          upload := rfl
          reference := .inr listed
          content := .inr (.inr ⟨snapshot, file, receiving, rfl, List.mem_of_getElem? task, listed⟩)
          cleaning := fun cleaning => cleaning
          withdrawn := fun withdrawn => withdrawn
          withdrawal := .inl
          ticket := fun _ has => .inl ⟨has, fun used => used⟩ }
    · refine .inl (change found rfl (by rw [kept]) ?_)
      exact
        { owner := rfl
          declared := rfl
          upload := rfl
          reference := .inl rfl
          content := .inl rfl
          cleaning := fun cleaning => cleaning
          withdrawn := fun withdrawn => withdrawn
          withdrawal := .inl
          ticket := fun _ has => .inl ⟨has, fun used => used⟩ }
  | @release i key task =>
    rcases plane.store.withdrawDelivered_cases key with
      ⟨⟨before, snapshot, found, ready⟩, done⟩ | ⟨-, done⟩
    · refine .inl (change found rfl (by rw [done]) ?_)
      exact
        { owner := rfl
          declared := rfl
          upload := rfl
          reference := .inl rfl
          content := .inl rfl
          cleaning := fun cleaning => cleaning
          withdrawn := fun _ => rfl
          withdrawal := fun _ => .inr (.inr ⟨i, rfl, task⟩)
          ticket := fun _ has => .inl ⟨has, fun used => used⟩ }
    · exact .inl (keep (fun item now => by rwa [done] at now) rfl)
  | @sweep moment past some' =>
    rw [Store.sweep_lookup] at now
    obtain ⟨before, found, rfl⟩ := Option.map_eq_some_iff.mp now
    refine .inl ⟨before, found, ?_⟩
    split
    · exact .refl before fun _ _ used => used
    · exact
        { owner := rfl
          declared := rfl
          upload := rfl
          reference := .inl rfl
          content := .inr (.inl ⟨nofun, .inr rfl⟩)
          cleaning := fun _ => rfl
          withdrawn := fun withdrawn => withdrawn
          withdrawal := .inl
          ticket := fun _ has => .inl ⟨has, fun used => used⟩ }
  | @reconcile i first todo removed task =>
    cases served.tasks _ (List.mem_of_getElem? task)
    exact .inl (keep (fun item now => Table.lookup_of_erase now) rfl)
  | _ => exact .inl (keep (fun item now => now) rfl)

end McpSsh.Transfers
