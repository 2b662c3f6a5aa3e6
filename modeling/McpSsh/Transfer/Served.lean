import McpSsh.Transfer.Effects

/-!
# What a step keeps of items and readers

What a store remembers grows. What holds of an item's bytes and its credential,
and of the tasks that read or make them, holds again after each step.
-/

namespace McpSsh.Transfers

variable {setting : Setting} {plane next : Plane} {act : Act} {i : Nat} {id : String}
  {item : Item} {snapshot : Snapshot}

/-! ## What a step remembers -/

theorem Step.draws (step : Step setting plane act next) : plane.drawn ⊆ next.drawn := by
  cases step with
  | reserve => exact List.subset_cons_self ..
  | authorizeUpload => exact fun _ had => List.mem_cons_of_mem _ (List.mem_cons_of_mem _ had)
  | authorizeDownload => exact fun _ had => List.mem_cons_of_mem _ (List.mem_cons_of_mem _ had)
  | _ => exact List.Subset.refl _

theorem Step.issues (step : Step setting plane act next) :
    next.issued = plane.issued ∨ ∃ issue, next.issued = issue :: plane.issued ∧
      issue.ticket ∉ plane.drawn ∧ issue.ticket ∈ next.drawn := by
  cases step with
  | authorizeUpload task fresh fresh' issued =>
    exact .inr ⟨_, rfl, fresh, List.mem_cons_of_mem _ (List.mem_cons_self ..)⟩
  | authorizeDownload fresh fresh' issued =>
    exact .inr ⟨_, rfl, fresh, List.mem_cons_of_mem _ (List.mem_cons_self ..)⟩
  | _ => exact .inl rfl

/-- A ticket is used by who shows what it was issued with. -/
theorem Step.takes (step : Step setting plane act next) :
    next.taken = plane.taken ∨ ∃ ticket credential id item held,
      (act = .put ticket credential ∨ act = .get ticket credential) ∧
      next.taken = ticket :: plane.taken ∧ plane.store.items.lookup id = some item ∧
      item.ticket = some held ∧ held.id = ticket ∧
      held.credential = setting.sha256 (asBytes credential) := by
  cases step with
  | put remote took =>
    obtain ⟨item, held, found, -, -, -, has, named, hash, -⟩ := Store.takeTicket_ok took
    exact .inr ⟨_, _, _, item, held, .inl rfl, rfl, found, has, named, hash⟩
  | get remote took found =>
    obtain ⟨item, held, found, -, -, -, has, named, hash, -⟩ := Store.takeTicket_ok took
    exact .inr ⟨_, _, _, item, held, .inr rfl, rfl, found, has, named, hash⟩
  | _ => exact .inl rfl

theorem Step.fulfils (step : Step setting plane act next) :
    next.completed = plane.completed ∨ ∃ id item item' snapshot,
      next.completed = id :: plane.completed ∧ plane.store.items.lookup id = some item ∧
      item.content = .receiving ∧ next.store.items.lookup id = some item' ∧
      item'.content = .ready snapshot := by
  cases step with
  | @complete i id snapshot file item task done found =>
    rcases Store.complete_cases setting snapshot file found with
      ⟨receiving, made⟩ | ⟨other, -⟩
    · obtain ⟨item', now, ready⟩ : ∃ item' : Item,
          (plane.store.complete setting id snapshot file).2.items.lookup id = some item' ∧
            item'.content = .ready snapshot := by
        rw [made, Table.lookup_modify, found]
        exact ⟨_, rfl, rfl⟩
      exact .inr ⟨id, item, item', snapshot, if_pos receiving, found, receiving, now, ready⟩
    · exact .inl (if_neg other)
  | _ => exact .inl rfl

/-- Bytes are handed over of an item that is complete and live, to who may have
them. -/
theorem Step.hands (step : Step setting plane act next) (served : plane.Served setting) :
    next.handed = plane.handed ∨ ∃ handing, next.handed = handing :: plane.handed ∧
      plane.store.items.lookup handing.id = some handing.item ∧
      handing.Rightful setting plane.issued := by
  cases step with
  | @input owner uri id snapshot release item remote given found =>
    obtain ⟨other, owned, ready, -⟩ := Store.input_ok given
    obtain ⟨-, found', clean, kept, owns, live⟩ := Store.owned_ok owned
    rw [found] at found'
    cases found'
    obtain ⟨-, complete, meets⟩ := (served.items id item found).made snapshot ready
    exact .inr ⟨_, rfl, found, ready, complete, meets, live, kept, clean, owns.symm⟩
  | @get ticket credential id snapshot release store item remote took found =>
    obtain ⟨other, held, found', clean, kept, live, has, named, hash, done⟩ :=
      Store.takeTicket_ok took
    rw [found] at found'
    cases found'
    have genuine := served.items id item found
    rcases done with ⟨wrong, -⟩ | ⟨bytes, -, ready, same, -, -⟩
    · cases wrong
    · cases same
      obtain ⟨-, complete, meets⟩ := genuine.made snapshot ready
      obtain ⟨-, issue, listed, ticket', hash', owner, id'⟩ := genuine.ticket held has
      refine .inr ⟨_, rfl, found, ready, complete, meets, live, kept, clean, issue, listed, ?_⟩
      exact ⟨ticket'.trans named, id', owner, hash.symm.trans hash'⟩
  | _ => exact .inl rfl

theorem Step.remembers (step : Step setting plane act next) :
    plane.issued ⊆ next.issued ∧ plane.completed ⊆ next.completed := by
  constructor
  · rcases step.issues with same | ⟨issue, more, -⟩
    · exact same ▸ List.Subset.refl _
    · exact more ▸ List.subset_cons_self ..
  · rcases step.fulfils with same | ⟨id, item, item', snapshot, more, -⟩
    · exact same ▸ List.Subset.refl _
    · exact more ▸ List.subset_cons_self ..

theorem Step.hands_more (step : Step setting plane act next) : plane.handed ⊆ next.handed := by
  cases step with
  | input => exact List.subset_cons_self ..
  | get => exact List.subset_cons_self ..
  | _ => exact List.Subset.refl _

/-! ## What a step keeps of them -/

/-- What was drawn keeps its owner and its declaration. -/
theorem Step.keeps (step : Step setting plane act next) (served : plane.Served setting)
    (drawn : id ∈ plane.drawn) {after : Item} (now : next.store.items.lookup id = some after) :
    ∃ item, plane.store.items.lookup id = some item ∧
      item.Follows setting plane act next id after := by
  rcases step.follows served after now with follows | new
  · exact follows
  · exact absurd drawn new.fresh

theorem Plane.Handed.step {due : Item → Bool} {release : Bool}
    (handed : plane.Handed id snapshot due release) (step : Step setting plane act next)
    (served : plane.Served setting)
    (same : ∀ item item' : Item, item'.upload = item.upload → due item' = due item) :
    next.Handed id snapshot due release := by
  obtain ⟨done, ⟨handing, listed, rest⟩, released⟩ := handed
  refine ⟨step.remembers.2 done, ⟨handing, step.hands_more listed, rest⟩, fun after now => ?_⟩
  obtain ⟨item, found, follows⟩ := step.keeps served (served.known done) now
  rw [same item after follows.upload]
  exact released item found

theorem Task.Honest.step {task : Task} (honest : task.Honest setting plane)
    (step : Step setting plane act next) (served : plane.Served setting) :
    task.Honest setting next := by
  have completed := step.remembers.2
  cases task with
  | authorizing owner id =>
    refine ⟨step.draws honest.1, fun after now => ?_⟩
    obtain ⟨item, found, follows⟩ := step.keeps served honest.1 now
    exact follows.owner.trans (honest.2 item found)
  | receiving id stage =>
    cases stage <;> exact honest
  | publishing id snapshot file =>
    obtain ⟨private', complete, drawn, meets⟩ := honest
    refine ⟨private', complete, step.draws drawn, fun after now => ?_⟩
    obtain ⟨item, found, follows⟩ := step.keeps served drawn now
    rw [follows.declared]
    exact meets item found
  | prepared id snapshot release =>
    exact Plane.Handed.step honest step served fun _ _ same => same
  | delivering id snapshot sent release broken =>
    exact ⟨honest.1.step step served fun _ _ same => congrArg not same, honest.2⟩
  | releasing id => exact completed honest
  | reconciling removed first todo => exact honest
  | destination id => trivial
  | stray id disk => trivial
  | cleaning todo => trivial
  | gone => trivial

theorem Item.Genuine.step {after : Item} (genuine : item.Genuine setting plane id)
    (found : plane.store.items.lookup id = some item) (step : Step setting plane act next)
    (served : plane.Served setting) (now : next.store.items.lookup id = some after)
    (follows : item.Follows setting plane act next id after) :
    after.Genuine setting next id := by
  have completed := step.remembers.2
  constructor
  case unmade =>
    intro unmade
    rw [follows.declared, ← genuine.unmade fun before => unmade (completed before)]
    exact follows.reference.resolve_right unmade
  case made =>
    intro snapshot ready
    rcases follows.content with same | ⟨unready, -⟩ | ⟨bytes, file, -, ready', listed, done⟩
    · obtain ⟨done, complete, meets⟩ := genuine.made snapshot (same.symm.trans ready)
      exact ⟨completed done, complete, by rwa [follows.declared]⟩
    · exact absurd ready (unready snapshot)
    · cases ready'.symm.trans ready
      obtain ⟨-, complete, -, meets⟩ := served.tasks _ listed
      refine ⟨done, complete, ?_⟩
      rw [follows.declared]
      exact meets item found
  case done =>
    intro done
    have before (had : id ∈ plane.completed) :
        (∃ snapshot, after.content = .ready snapshot) ∨ after.cleaning = true := by
      rcases genuine.done had with ⟨snapshot, ready⟩ | cleaning
      · rcases follows.content with same | ⟨-, unready | cleaning⟩ | ⟨_, _, receiving, -⟩
        · exact .inl ⟨snapshot, same.trans ready⟩
        · exact absurd ready (unready snapshot)
        · exact .inr cleaning
        · exact nomatch receiving.symm.trans ready
      · exact .inr (follows.cleaning cleaning)
    rcases step.fulfils with same | ⟨key, _, made, snapshot, more, -, -, now', ready⟩
    · exact before (same ▸ done)
    · rw [more] at done
      rcases List.mem_cons.mp done with rfl | had
      · cases now.symm.trans now'
        exact .inl ⟨snapshot, ready⟩
      · exact before had
  case ticket =>
    intro ticket has
    rcases follows.ticket ticket has with ⟨had, unused⟩ | ⟨unused, issued⟩
    · obtain ⟨fresh, issue, listed, rest⟩ := genuine.ticket ticket had
      refine ⟨fun used => fresh (unused used), issue, step.remembers.1 listed, ?_⟩
      rw [follows.owner]
      exact rest
    · rw [follows.owner]
      exact ⟨unused, issued⟩

theorem mem_set_or {tasks : List Task} {new task : Task} (member : task ∈ tasks.set i new)
    {p : Task → Prop} (good : p new) : task ∈ tasks ∨ p task := by
  rcases mem_set_cases member with rfl | ⟨j, -, found⟩
  · exact .inr good
  · exact .inl (List.mem_of_getElem? found)

theorem mem_append_or {tasks : List Task} {new task : Task} (member : task ∈ tasks ++ [new])
    {p : Task → Prop} (good : p new) : task ∈ tasks ∨ p task := by
  rcases List.mem_append.mp member with before | now
  · exact .inl before
  · rw [List.mem_singleton.mp now]
    exact .inr good

/-- What becomes of a task in a step, or begins with it. -/
theorem Step.task_honest {task : Task} (step : Step setting plane act next)
    (remote : setting.isLocal = false) (inv : plane.Inv) (served : plane.Served setting)
    (listed : task ∈ next.tasks) : task ∈ plane.tasks ∨ task.Honest setting next := by
  have honest {i : Nat} {task : Task} (found : plane.tasks[i]? = some task) :
      task.Honest setting plane := served.tasks task (List.mem_of_getElem? found)
  cases step with
  | tick => exact .inl listed
  | @reserve owner params upload key store fresh remote' admitted =>
    apply mem_append_or listed
    obtain ⟨-, -, -, uri, rfl⟩ := Store.reserve_ok admitted
    cases upload with
    | false => trivial
    | true =>
      refine ⟨List.mem_cons_self .., fun item now => ?_⟩
      rw [AList.lookup_insert] at now
      cases now
      rfl
  | authorizeUpload => exact mem_set_or listed trivial
  | authorizeDownload => exact .inl listed
  | @input owner uri key snapshot release item remote' given found =>
    apply mem_append_or listed
    obtain ⟨other, owned, ready, released⟩ := Store.input_ok given
    obtain ⟨-, found', -⟩ := Store.owned_ok owned
    cases found.symm.trans found'
    have done := ((served.items key item found).made snapshot ready).1
    refine ⟨done, ⟨_, List.mem_cons_self .., rfl, rfl⟩, fun other now => ?_⟩
    cases found.symm.trans now
    exact released
  | localInput here => exact nomatch here.symm.trans remote
  | put => exact mem_append_or listed trivial
  | @get ticket credential key snapshot release store item remote' took found =>
    apply mem_append_or listed
    obtain ⟨other, held, found', -, -, -, -, -, -, ⟨wrong, -⟩ | ⟨bytes, -, ready, same, released, changed⟩⟩ :=
      Store.takeTicket_ok took
    · cases wrong
    · cases same
      cases found.symm.trans found'
      obtain ⟨done, complete, -⟩ := (served.items key item found).made snapshot ready
      refine ⟨⟨done, ⟨_, List.mem_cons_self .., rfl, rfl⟩, fun after now => ?_⟩, complete,
        Nat.zero_le _, nofun⟩
      rw [changed, Table.lookup_modify, found] at now
      cases now
      exact released
  | receive => exact mem_append_or listed trivial
  | drop => exact mem_set_or listed trivial
  | activate => exact mem_set_or listed (Nat.zero_le _)
  | fill task' within => exact mem_set_or listed within
  | @finish i key disk got task' =>
    exact mem_set_or listed (Snapshot.whole_complete (honest task'))
  | @check i key snapshot task' agrees =>
    have complete : snapshot.Complete setting := honest task'
    obtain ⟨item, found, meets⟩ := Store.agrees_iff.mp agrees
    rcases List.mem_append.mp listed with before | now
    · exact mem_set_or before trivial
    · refine .inr ?_
      rw [List.mem_singleton.mp now]
      refine ⟨rfl, complete, inv.drawn key (by rw [found]; exact nofun), fun other found' => ?_⟩
      cases found.symm.trans found'
      obtain ⟨before, found'', receiving, -⟩ :=
        inv.pinned _ (List.mem_of_getElem? task') key _ rfl
      cases found.symm.trans found''
      have genuine := served.items key item found
      have unmade : key ∉ plane.completed := by
        intro done
        rcases genuine.done done with ⟨bytes, ready⟩ | cleaning
        · exact nomatch receiving.symm.trans ready
        · exact nomatch receiving.symm.trans ((inv.sound key item found).cleaned cleaning).2.2
      rw [← genuine.unmade unmade]
      exact meets
  | stop => exact mem_set_or listed trivial
  | giveUp => exact mem_set_or listed trivial
  | publish here => exact nomatch here.symm.trans remote
  | complete => exact mem_set_or listed trivial
  | orphan => exact mem_set_or listed trivial
  | straggle => exact mem_append_or listed trivial
  | settle => exact mem_set_or listed trivial
  | close => exact mem_set_or listed trivial
  | @place i key snapshot release task' =>
    have handed := honest task'
    cases release with
    | true => exact mem_set_or listed handed.1
    | false => exact mem_set_or listed trivial
  | @deliver i key snapshot sent release count task' some' there unread =>
    obtain ⟨handed, complete, -, -⟩ := honest task'
    refine mem_set_or listed ⟨handed, complete, ?_, nofun⟩
    rw [complete.1]
    exact there
  | @fail i key snapshot sent release task' unread =>
    obtain ⟨handed, complete, within, -⟩ := honest task'
    exact mem_set_or listed ⟨handed, complete, within, fun _ => unread⟩
  | @exhaust i key snapshot sent release broken task' over' =>
    obtain ⟨⟨done, -⟩, -⟩ := honest task'
    apply mem_set_or listed
    split
    · exact done
    · trivial
  | release => exact mem_set_or listed trivial
  | sweep => exact mem_append_or listed trivial
  | @unlink i first todo removed task' named =>
    apply mem_set_or listed
    cases removed with
    | true => rfl
    | false => exact nomatch (named rfl).1.symm.trans remote
  | reconcile => exact mem_set_or listed trivial

theorem Plane.Served.step (served : plane.Served setting) (inv : plane.Inv)
    (remote : setting.isLocal = false) (step : Step setting plane act next) :
    next.Served setting := by
  have drawn {id : String} {item : Item} (found : plane.store.items.lookup id = some item) :
      id ∈ plane.drawn := inv.drawn id (by rw [found]; exact nofun)
  constructor
  case items =>
    intro id after now
    rcases step.follows served after now with ⟨item, found, follows⟩ | new
    · exact (served.items id item found).step found step served now follows
    · have unmade : id ∉ next.completed := by
        rw [new.completed]
        exact fun done => new.fresh (served.known done)
      constructor
      case unmade => exact fun _ => new.reference
      case made => exact fun snapshot ready => nomatch new.content.symm.trans ready
      case done => exact fun done => absurd done unmade
      case ticket => exact fun ticket has => nomatch new.ticket.symm.trans has
  case tasks =>
    intro task listed
    rcases step.task_honest remote inv served listed with before | honest
    · exact (served.tasks task before).step step served
    · exact honest
  case handed =>
    have rightful {handing : Handing} (before : handing.Rightful setting plane.issued) :
        handing.Rightful setting next.issued :=
      { before with recipient := before.recipient.mono step.remembers.1 }
    intro handing listed
    rcases step.hands served with same | ⟨new, more, -, rightful'⟩
    · exact rightful (served.handed handing (same ▸ listed))
    · rw [more] at listed
      rcases List.mem_cons.mp listed with rfl | before
      · exact rightful rightful'
      · exact rightful (served.handed handing before)
  case known =>
    rcases step.fulfils with same | ⟨id, item, item', snapshot, more, found, -⟩
    · rw [same]
      exact List.Subset.trans served.known step.draws
    · rw [more]
      exact List.cons_subset.mpr ⟨step.draws (drawn found), List.Subset.trans served.known step.draws⟩
  case once =>
    rcases step.fulfils with same | ⟨id, item, item', snapshot, more, found, receiving, -⟩
    · rw [same]
      exact served.once
    · rw [more]
      refine List.nodup_cons.mpr ⟨fun done => ?_, served.once⟩
      rcases (served.items id item found).done done with ⟨bytes, ready⟩ | cleaning
      · exact nomatch receiving.symm.trans ready
      · exact nomatch receiving.symm.trans ((inv.sound id item found).cleaned cleaning).2.2
  case taken =>
    rcases step.takes with same | ⟨ticket, credential, id, item, held, -, more, found, has, rfl, -⟩
    · rw [same]
      exact served.taken
    · rw [more]
      exact List.nodup_cons.mpr ⟨((served.items id item found).ticket held has).1, served.taken⟩
  case used =>
    rcases step.takes with same | ⟨ticket, credential, id, item, held, -, more, found, has, rfl, -⟩
    · rw [same]
      exact List.Subset.trans served.used step.draws
    · obtain ⟨-, issue, listed, named, -⟩ := (served.items id item found).ticket held has
      rw [more]
      refine List.cons_subset.mpr ⟨step.draws ?_, List.Subset.trans served.used step.draws⟩
      rw [← named]
      exact served.issues issue listed
  case issued =>
    rcases step.issues with same | ⟨issue, more, fresh, -⟩
    · rw [same]
      exact served.issued
    · rw [more, List.map_cons]
      refine List.nodup_cons.mpr ⟨fun before => ?_, served.issued⟩
      obtain ⟨other, listed, same⟩ := List.mem_map.mp before
      exact fresh (same ▸ served.issues other listed)
  case issues =>
    intro issue listed
    rcases step.issues with same | ⟨new, more, -, drawn⟩
    · exact step.draws (served.issues issue (same ▸ listed))
    · rw [more] at listed
      rcases List.mem_cons.mp listed with rfl | before
      · exact drawn
      · exact step.draws (served.issues issue before)

end McpSsh.Transfers
