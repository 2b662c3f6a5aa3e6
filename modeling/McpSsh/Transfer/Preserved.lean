import McpSsh.Transfer.Invariant

/-!
# What a step keeps

A change of the tasks, of one item, or of the table at a time; each step is one
or two of these.
-/

namespace McpSsh.Transfers

variable {setting : Setting} {plane next : Plane} {i : Nat} {old new : Task} {id : String}
  {item : Item} {f : Item → Item} {tasks : List Task} {disks : List String}

theorem Item.Sound.extend (sound : item.Sound disks id) (other : String) :
    item.Sound (disks ++ [other]) id :=
  { sound with
    held := fun disk holds => by
      have before := sound.held disk holds
      rw [List.getElem?_append_left (List.getElem?_eq_some_iff.mp before).1]
      exact before }

/-- A task that has nothing to do with published files. -/
def Task.Quiet : Task → Prop
  | .publishing _ _ (some _) | .cleaning _ | .reconciling .. => False
  | _ => True

theorem Task.keeps_subset {task : Task} {pending : Pending} (member : pending ∈ task.keeps) :
    pending ∈ task.swept := by
  cases task with
  | cleaning todo => exact member
  | reconciling removed first todo =>
    cases removed with
    | false => exact member
    | true => exact List.mem_cons_of_mem _ member
  | _ => cases member

theorem Task.Quiet.swept {task : Task} (quiet : task.Quiet) : task.swept = [] := by
  cases task with
  | cleaning => cases quiet
  | reconciling => cases quiet
  | _ => rfl

theorem Task.Quiet.proper {task : Task} (quiet : task.Quiet) : task.Proper := by
  cases task with
  | publishing id snapshot file =>
    cases file with
    | some file => cases quiet
    | none => trivial
  | cleaning => cases quiet
  | reconciling => cases quiet
  | _ => trivial

namespace Plane

/-! ## Tasks -/

theorem Tracked.mono {name : String} (tracked : plane.Tracked name)
    (more : ∀ task ∈ plane.tasks, task.Quiet ∨ task ∈ tasks) :
    ({ plane with tasks } : Plane).Tracked name := by
  obtain ⟨item, found, file | ⟨snapshot, listed⟩ | ⟨task, listed, pending, kept, same⟩⟩ := tracked
  · exact ⟨item, found, .inl file⟩
  · rcases more _ listed with quiet | still
    · cases quiet
    · exact ⟨item, found, .inr (.inl ⟨snapshot, still⟩)⟩
  · rcases more _ listed with quiet | still
    · have swept := Task.keeps_subset kept
      rw [quiet.swept] at swept
      cases swept
    · exact ⟨item, found, .inr (.inr ⟨task, still, pending, kept, same⟩)⟩

theorem mem_set_of_quiet (found : plane.tasks[i]? = some old) (quiet : old.Quiet) (new : Task) :
    ∀ task ∈ plane.tasks, task.Quiet ∨ task ∈ plane.tasks.set i new := by
  intro task listed
  rcases mem_set_of_mem found new listed with rfl | still
  · exact .inl quiet
  · exact .inr still

/-- A task becomes another, and files are published or removed. -/
theorem Inv.replace {published : List String} (inv : plane.Inv)
    (found : plane.tasks[i]? = some old) (receives : new.receives.Sublist old.receives)
    (carries : new.carries.Sublist old.carries) (swept : new.swept.Sublist old.swept)
    (proper : new.Proper) (pinned : new.Pinned plane.store.items)
    (tracked : ∀ name ∈ published,
      ({ plane with tasks := plane.tasks.set i new } : Plane).Tracked name) :
    ({ plane with tasks := plane.tasks.set i new, published } : Plane).Inv where
  size := inv.size
  share := inv.share
  drawn := inv.drawn
  sound := inv.sound
  order := inv.order.set found receives carries swept proper
  pinned task member := by
    rcases mem_set_cases member with rfl | ⟨j, -, found'⟩
    · exact pinned
    · exact inv.pinned task (List.mem_of_getElem? found')
  begun task member id mine := by
    rcases mem_set_cases member with rfl | ⟨j, -, found'⟩
    · exact inv.begun old (List.mem_of_getElem? found) id (receives.mem mine)
    · exact inv.begun task (List.mem_of_getElem? found') id mine
  swept task member pending mine := by
    rcases mem_set_cases member with rfl | ⟨j, -, found'⟩
    · exact inv.swept old (List.mem_of_getElem? found) pending (swept.mem mine)
    · exact inv.swept task (List.mem_of_getElem? found') pending mine
  published := tracked

/-- A task goes on, or ends, that neither publishes nor sweeps. -/
theorem Inv.set (inv : plane.Inv) (found : plane.tasks[i]? = some old) (quiet : old.Quiet)
    (quiet' : new.Quiet) (receives : new.receives.Sublist old.receives)
    (carries : new.carries.Sublist old.carries) (pinned : new.Pinned plane.store.items) :
    ({ plane with tasks := plane.tasks.set i new } : Plane).Inv := by
  apply inv.replace found receives carries
  case swept =>
    rw [quiet'.swept]
    exact List.nil_sublist _
  case proper => exact quiet'.proper
  case pinned => exact pinned
  case tracked =>
    intro name listed
    exact (inv.published name listed).mono (mem_set_of_quiet found quiet new)

/-- A task that ends. -/
theorem Inv.gone (inv : plane.Inv) (found : plane.tasks[i]? = some old) (quiet : old.Quiet) :
    ({ plane with tasks := plane.tasks.set i .gone } : Plane).Inv :=
  inv.set found quiet trivial (List.nil_sublist _) (List.nil_sublist _) nofun

/-- A new task. -/
theorem Inv.append (inv : plane.Inv) (quiet : new.Quiet)
    (receives : ∀ id ∈ new.receives, ∀ task ∈ plane.tasks, id ∉ task.receives)
    (receives' : new.receives.Nodup)
    (carries : ∀ id ∈ new.carries, ∀ task ∈ plane.tasks, id ∉ task.carries)
    (carries' : new.carries.Nodup) (pinned : new.Pinned plane.store.items)
    (begun : ∀ id ∈ new.receives, id ∈ plane.drawn ∧ ∀ item,
      plane.store.items.lookup id = some item → ¬ item.Open) :
    ({ plane with tasks := plane.tasks ++ [new] } : Plane).Inv where
  size := inv.size
  share := inv.share
  drawn := inv.drawn
  sound := inv.sound
  order := by
    refine inv.order.append receives receives' carries carries' ?_ ?_ quiet.proper
    · rw [quiet.swept]
      exact nofun
    · rw [quiet.swept]
      exact List.nodup_nil
  pinned task member := by
    rcases List.mem_append.mp member with before | now
    · exact inv.pinned task before
    · rw [List.mem_singleton.mp now]
      exact pinned
  begun task member := by
    rcases List.mem_append.mp member with before | now
    · exact inv.begun task before
    · rw [List.mem_singleton.mp now]
      exact begun
  swept task member := by
    rcases List.mem_append.mp member with before | now
    · exact inv.swept task before
    · rw [List.mem_singleton.mp now, quiet.swept]
      exact nofun
  published name listed :=
    (inv.published name listed).mono fun task member => .inr (List.mem_append_left _ member)

/-- A new task that neither receives nor publishes. -/
theorem Inv.spawn (inv : plane.Inv) (quiet : new.Quiet) (receives : new.receives = [])
    (carries : new.carries = []) (pinned : new.Pinned plane.store.items) :
    ({ plane with tasks := plane.tasks ++ [new] } : Plane).Inv := by
  apply inv.append quiet
  case receives => rw [receives]; exact nofun
  case receives' => rw [receives]; exact List.nodup_nil
  case carries => rw [carries]; exact nofun
  case carries' => rw [carries]; exact List.nodup_nil
  case pinned => exact pinned
  case begun => rw [receives]; exact nofun

/-! ## Items -/

/-- One item changes, and the tasks. -/
theorem Inv.change (inv : plane.Inv) (found : plane.store.items.lookup id = some item)
    (owner : ∀ item, (f item).owner = item.owner) (sound : (f item).Sound plane.disks id)
    (order : Orderly tasks)
    (pinned : ∀ task ∈ tasks, ∀ key pin, task.pin = some (key, pin) →
      (key ≠ id → ∃ item, plane.store.items.lookup key = some item ∧ pin.Of item) ∧
        (key = id → pin.Of (f item)))
    (begun : ∀ task ∈ tasks, ∀ key ∈ task.receives,
      (∃ task ∈ plane.tasks, key ∈ task.receives) ∧ (key = id → ¬ (f item).Open))
    (swept : ∀ task ∈ tasks, ∀ pending ∈ task.swept,
      (∃ task ∈ plane.tasks, pending ∈ task.swept) ∧
        (pending.id = id →
          (f item).cleaning = true ∧ ((f item).restored pending).Sound plane.disks id))
    (published : ∀ name ∈ plane.published,
      ({ plane with
        store := { plane.store with items := plane.store.items.modify id f }
        tasks } : Plane).Tracked name) :
    ({ plane with
      store := { plane.store with items := plane.store.items.modify id f }
      tasks } : Plane).Inv where
  size := by
    change Table.size (Table.modify id f plane.store.items) ≤ _
    rw [Table.size_modify]
    exact inv.size
  share who := by
    change Table.count _ (Table.modify id f plane.store.items) ≤ _
    rw [Table.count_modify (fun value => by rw [owner])]
    exact inv.share who
  drawn key present := by
    apply inv.drawn key
    intro missing
    apply present
    by_cases same : key = id
    · subst same
      rw [missing] at found
      cases found
    · rw [Table.lookup_modify_ne same]
      exact missing
  sound key other found' := by
    by_cases same : key = id
    · subst same
      rw [Table.lookup_modify, found] at found'
      cases found'
      exact sound
    · rw [Table.lookup_modify_ne same] at found'
      exact inv.sound key other found'
  order := order
  pinned task member key pin pins := by
    obtain ⟨elsewhere, here⟩ := pinned task member key pin pins
    by_cases same : key = id
    · subst same
      exact ⟨f item, by rw [Table.lookup_modify, found]; rfl, here rfl⟩
    · rw [Table.lookup_modify_ne same]
      exact elsewhere same
  begun task member key mine := by
    obtain ⟨⟨task', listed, mine'⟩, here⟩ := begun task member key mine
    refine ⟨(inv.begun task' listed key mine').1, fun other found' => ?_⟩
    by_cases same : key = id
    · subst same
      rw [Table.lookup_modify, found] at found'
      cases found'
      exact here rfl
    · rw [Table.lookup_modify_ne same] at found'
      exact (inv.begun task' listed key mine').2 other found'
  swept task member pending mine := by
    obtain ⟨⟨task', listed, mine'⟩, here⟩ := swept task member pending mine
    by_cases same : pending.id = id
    · obtain ⟨cleaning, restored⟩ := here same
      exact ⟨f item, by rw [same, Table.lookup_modify, found]; rfl, cleaning, same ▸ restored⟩
    · rw [Table.lookup_modify_ne same]
      exact inv.swept task' listed pending mine'
  published := published

theorem Tracked.modify {name : String} (tracked : plane.Tracked name)
    (found : plane.store.items.lookup id = some item)
    (file : ∀ name, item.localFile = some name → (f item).localFile = some name) :
    ({ plane with
      store := { plane.store with items := plane.store.items.modify id f } } : Plane).Tracked
      name := by
  obtain ⟨other, found', tracks⟩ := tracked
  by_cases same : name = id
  · subst same
    rw [found] at found'
    cases found'
    refine ⟨f item, by rw [Table.lookup_modify, found]; rfl, ?_⟩
    rcases tracks with has | later
    · exact .inl (file name has)
    · exact .inr later
  · refine ⟨other, ?_, tracks⟩
    rw [Table.lookup_modify_ne same]
    exact found'

/-- One item changes, and keeps what its tasks need. -/
theorem Inv.modify (inv : plane.Inv) (found : plane.store.items.lookup id = some item)
    (owner : ∀ item, (f item).owner = item.owner) (sound : (f item).Sound plane.disks id)
    (pins : ∀ task ∈ plane.tasks, ∀ pin, task.pin = some (id, pin) → pin.Of item →
      pin.Of (f item))
    (shut : (f item).Open → item.Open)
    (swept : item.cleaning = true → (f item).cleaning = true ∧ ∀ pending,
      (item.restored pending).Sound plane.disks id →
        ((f item).restored pending).Sound plane.disks id)
    (file : ∀ name, item.localFile = some name → (f item).localFile = some name) :
    ({ plane with
      store := { plane.store with items := plane.store.items.modify id f } } : Plane).Inv := by
  apply inv.change found owner sound inv.order
  case pinned =>
    intro task member key pin pins'
    refine ⟨fun _ => inv.pinned task member key pin pins', ?_⟩
    rintro rfl
    obtain ⟨other, found', has⟩ := inv.pinned task member _ pin pins'
    rw [found] at found'
    cases found'
    exact pins task member pin pins' has
  case begun =>
    intro task member key mine
    refine ⟨⟨task, member, mine⟩, ?_⟩
    rintro rfl opened
    exact (inv.begun task member _ mine).2 item found (shut opened)
  case swept =>
    intro task member pending mine
    refine ⟨⟨task, member, mine⟩, ?_⟩
    rintro rfl
    obtain ⟨other, found', cleaning, restored⟩ := inv.swept task member pending mine
    rw [found] at found'
    cases found'
    exact ⟨(swept cleaning).1, (swept cleaning).2 pending restored⟩
  case published =>
    intro name listed
    exact (inv.published name listed).modify found file

/-- An item leaves that no task has to do with. -/
theorem Inv.erase (inv : plane.Inv)
    (unpinned : ∀ task ∈ plane.tasks, ∀ pin, task.pin ≠ some (id, pin))
    (unswept : ∀ task ∈ plane.tasks, ∀ pending ∈ task.swept, pending.id ≠ id)
    (unnamed : ∀ item, plane.store.items.lookup id = some item → item.localFile = none) :
    ({ plane with
      store := { plane.store with items := plane.store.items.erase id } } : Plane).Inv where
  size := (Table.size_erase_le id plane.store.items).trans inv.size
  share who := (Table.count_erase_le _ id plane.store.items).trans (inv.share who)
  drawn key present := by
    apply inv.drawn key
    intro missing
    apply present
    by_cases same : key = id
    · rw [same, AList.lookup_erase]
    · rw [AList.lookup_erase_ne same]
      exact missing
  sound key other found := by
    by_cases same : key = id
    · rw [same, AList.lookup_erase] at found
      cases found
    · rw [AList.lookup_erase_ne same] at found
      exact inv.sound key other found
  order := inv.order
  pinned task member key pin pins := by
    have differ : key ≠ id := by
      rintro rfl
      exact unpinned task member pin pins
    rw [AList.lookup_erase_ne differ]
    exact inv.pinned task member key pin pins
  begun task member key mine := by
    refine ⟨(inv.begun task member key mine).1, fun other found => ?_⟩
    by_cases same : key = id
    · rw [same, AList.lookup_erase] at found
      cases found
    · rw [AList.lookup_erase_ne same] at found
      exact (inv.begun task member key mine).2 other found
  swept task member pending mine := by
    rw [AList.lookup_erase_ne (unswept task member pending mine)]
    exact inv.swept task member pending mine
  published name listed := by
    obtain ⟨other, found, tracks⟩ := inv.published name listed
    by_cases same : name = id
    · subst same
      rcases tracks with file | ⟨snapshot, listed'⟩ | ⟨task, listed', pending, kept, same, -⟩
      · rw [unnamed other found] at file
        cases file
      · exact absurd rfl (unpinned _ listed' (.active snapshot.disk))
      · exact absurd same (unswept task listed' pending (Task.keeps_subset kept))
    · refine ⟨other, ?_, tracks⟩
      rw [AList.lookup_erase_ne same]
      exact found

end Plane

end McpSsh.Transfers
