import McpSsh.Transfer.Preserved

/-!
# Every step keeps what holds of transfers
-/

namespace McpSsh.Transfers

variable {setting : Setting} {plane next : Plane} {i : Nat} {id : String} {item : Item}
  {act : Act}

/-! ## Shares -/

namespace Task

variable {task : Task} {disk : Nat} {snapshot : Snapshot}

theorem pin_receiving {file : Option Nat} (pin : task.pin = some (id, .receiving file)) :
    id ∈ task.receives ∧ id ∈ task.carries := by
  unfold Task.pin at pin
  split at pin <;> cases pin
  all_goals exact ⟨List.mem_singleton_self _, List.mem_singleton_self _⟩

theorem pin_active (pin : task.pin = some (id, .active disk)) :
    id ∈ task.carries ∧ ∃ snapshot ∈ task.snapshots, snapshot.disk = disk := by
  unfold Task.pin at pin
  split at pin <;> cases pin
  exact ⟨List.mem_singleton_self _, _, List.mem_singleton_self _, rfl⟩

theorem pin_ready (pin : task.pin = some (id, .ready snapshot)) : snapshot ∈ task.snapshots := by
  unfold Task.pin at pin
  split at pin <;> cases pin
  all_goals exact List.mem_singleton_self _

theorem pin_holds (pin : task.pin = some (id, .holds disk)) : disk ∈ task.files := by
  unfold Task.pin at pin
  split at pin <;> cases pin
  exact List.mem_singleton_self _

end Task

namespace Plane

theorem mem_files_of_active {disk : Nat} (found : plane.store.items.lookup id = some item)
    (active : item.active = some disk) :
    disk ∈ plane.store.items.entries.filterMap (·.2.active) :=
  List.mem_filterMap.mpr ⟨⟨id, item⟩, AList.mem_lookup_iff.mp found, active⟩

theorem mem_snapshots_of_ready {snapshot : Snapshot}
    (found : plane.store.items.lookup id = some item) (content : item.content = .ready snapshot) :
    snapshot ∈ plane.store.items.entries.filterMap (·.2.content.bytes) :=
  List.mem_filterMap.mpr
    ⟨⟨id, item⟩, AList.mem_lookup_iff.mp found, by rw [content, Content.bytes]⟩

theorem mem_snapshots_of_task {task : Task} {snapshot : Snapshot} (listed : task ∈ plane.tasks)
    (has : snapshot ∈ task.snapshots) : snapshot ∈ plane.tasks.flatMap Task.snapshots :=
  List.mem_flatMap.mpr ⟨task, listed, has⟩

theorem mem_disks_of_snapshot {snapshot : Snapshot} (has : snapshot ∈ plane.snapshots) :
    snapshot.disk ∈ plane.snapshots.dedup.map Snapshot.disk :=
  List.mem_map_of_mem (List.mem_dedup.mpr has)

/-- Who pins an item has a share of its file, and the item is retained. -/
theorem retained_of_pinned {task : Task} {pin : Pin} (listed : task ∈ plane.tasks)
    (pins : task.pin = some (id, pin)) (found : plane.store.items.lookup id = some item)
    (needs : pin.Of item) (now : Nat) : item.retained plane.counts now = true := by
  have shared {disk : Nat} (one : disk ∈ plane.store.items.entries.filterMap (·.2.active) ++
      plane.tasks.flatMap Task.files) (two : disk ∈ plane.snapshots.dedup.map Snapshot.disk) :
      1 < plane.counts.disk disk := by
    have first := List.count_pos_iff.mpr one
    have second := List.count_pos_iff.mpr two
    change 1 < plane.files.count disk
    rw [files, List.count_append]
    omega
  unfold Item.retained
  simp only [Bool.or_eq_true, decide_eq_true_eq]
  cases pin with
  | receiving file => exact .inl (.inl (.inr needs.1))
  | active disk =>
    left; right
    obtain ⟨-, snapshot, has, rfl⟩ := Task.pin_active pins
    rw [show item.active = _ from needs, Option.any_some, decide_eq_true_eq]
    apply shared
    · exact List.mem_append_left _ (mem_files_of_active found needs)
    · exact mem_disks_of_snapshot (List.mem_append_right _ (mem_snapshots_of_task listed has))
  | ready snapshot =>
    right
    rw [show item.content = _ from needs]
    simp only [Bool.or_eq_true, decide_eq_true_eq]
    left
    have mine := mem_snapshots_of_task listed (Task.pin_ready pins)
    have first := List.count_pos_iff.mpr mine
    have second := List.count_pos_iff.mpr (mem_snapshots_of_ready found needs)
    change 1 < plane.snapshots.count snapshot
    rw [snapshots, List.count_append]
    omega
  | holds disk =>
    have mine : disk ∈ plane.tasks.flatMap Task.files :=
      List.mem_flatMap.mpr ⟨task, listed, Task.pin_holds pins⟩
    rcases needs with active | ⟨snapshot, content, rfl⟩
    · left; right
      rw [active, Option.any_some, decide_eq_true_eq]
      have first := List.count_pos_iff.mpr (mem_files_of_active found active)
      have second := List.count_pos_iff.mpr mine
      change 1 < plane.files.count disk
      rw [files, List.count_append, List.count_append]
      omega
    · right
      rw [content]
      simp only [Bool.or_eq_true, decide_eq_true_eq]
      right
      apply shared
      · exact List.mem_append_right _ mine
      · apply mem_disks_of_snapshot
        exact List.mem_append_left _ (mem_snapshots_of_ready found content)

/-! ## The table -/

theorem Inv.draw (inv : plane.Inv) (token : String) :
    ({ plane with drawn := token :: plane.drawn } : Plane).Inv :=
  { inv with
    drawn := fun id present => List.mem_cons_of_mem _ (inv.drawn id present)
    begun := fun task member id mine =>
      ⟨List.mem_cons_of_mem _ (inv.begun task member id mine).1, (inv.begun task member id mine).2⟩
    published := inv.published }

/-- What has happened is no part of it. -/
theorem Inv.recall (inv : plane.Inv) (issued : List Issue) (taken : List String)
    (handed : List Handing) (completed : List String) :
    ({ plane with issued, taken, handed, completed } : Plane).Inv :=
  { inv with published := inv.published }

theorem Inv.extend (inv : plane.Inv) (id : String) :
    ({ plane with disks := plane.disks ++ [id] } : Plane).Inv :=
  { inv with
    sound := fun key item found => (inv.sound key item found).extend id
    swept := fun task member pending mine => by
      obtain ⟨item, found, cleaning, restored⟩ := inv.swept task member pending mine
      exact ⟨item, found, cleaning, restored.extend id⟩
    published := inv.published }

/-- Only an item that nobody receives for is given up. -/
theorem Inv.abandon (inv : plane.Inv) (idle : ∀ task ∈ plane.tasks, id ∉ task.receives) :
    ({ plane with store := plane.store.abandon id } : Plane).Inv := by
  cases found : plane.store.items.lookup id with
  | none =>
    rw [Store.abandon_of_none found]
    exact inv
  | some item =>
    have sound := inv.sound id item found
    rcases Store.abandon_cases found with ⟨-, kept⟩ | ⟨unready, active, cleaning, gone⟩ |
      ⟨unready, busy, withdrawn⟩
    · rw [kept]
      exact inv
    · rw [gone]
      apply inv.erase
      case unpinned =>
        intro task member pin pins
        obtain ⟨other, found', needs⟩ := inv.pinned task member id pin pins
        rw [found] at found'
        cases found'
        cases pin with
        | receiving file => exact idle task member (Task.pin_receiving pins).1
        | active disk =>
          rw [show item.active = _ from needs] at active
          cases active
        | ready snapshot => exact unready snapshot needs
        | holds disk =>
          rcases needs with has | ⟨snapshot, content, -⟩
          · rw [has] at active
            cases active
          · exact unready snapshot content
      case unswept =>
        rintro task member pending mine rfl
        obtain ⟨other, found', cleaned, -⟩ := inv.swept task member pending mine
        rw [found] at found'
        cases found'
        rw [cleaning] at cleaned
        cases cleaned
      case unnamed =>
        intro other found'
        rw [found] at found'
        cases found'
        cases file : item.localFile with
        | none => rfl
        | some name =>
          rcases (sound.file name file).2 with has | ⟨snapshot, content⟩
          · exact absurd active has
          · exact absurd content (unready snapshot)
    · rw [withdrawn]
      apply inv.modify found
      case owner => exact fun _ => rfl
      case sound =>
        constructor
        case held =>
          rintro disk (active | ⟨snapshot, content, -⟩)
          · exact sound.held disk (.inl active)
          · cases content
        case idle => exact fun _ open' => nomatch open'
        case cleaned =>
          intro cleaning
          exact ⟨(sound.cleaned cleaning).1, (sound.cleaned cleaning).2.1, rfl⟩
        case file =>
          intro name file
          rcases sound.file name file with ⟨same, has | ⟨snapshot, content⟩⟩
          · exact ⟨same, .inl has⟩
          · exact absurd content (unready snapshot)
      case pins =>
        intro task member pin pins needs
        cases pin with
        | receiving file => exact absurd (Task.pin_receiving pins).1 (idle task member)
        | active disk => exact needs
        | ready snapshot => exact absurd needs (unready snapshot)
        | holds disk =>
          rcases needs with has | ⟨snapshot, content, -⟩
          · exact .inl has
          · exact absurd content (unready snapshot)
      case shut => exact fun open' => nomatch open'.2.1
      case swept =>
        intro cleaning
        refine ⟨cleaning, fun pending restored => ?_⟩
        exact { restored with idle := fun _ open' => nomatch open' }
      case file => exact fun _ same => same

theorem spared_of_cleaning {counts : Counts} {now : Nat} (cleaning : item.cleaning = true) :
    (item.cleaning || item.retained counts now) = true := by
  rw [cleaning, Bool.true_or]

/-- A sweep takes what nobody shares. -/
theorem Inv.sweep (inv : plane.Inv) (moment : Nat) :
    ({ plane with
      store := (plane.store.sweep plane.counts moment).2
      tasks := plane.tasks ++ [.cleaning (plane.store.sweep plane.counts moment).1] } : Plane).Inv := by
  have spared {id : String} {item : Item} (found : plane.store.items.lookup id = some item)
      (kept : (item.cleaning || item.retained plane.counts moment) = true) :
      (plane.store.sweep plane.counts moment).2.items.lookup id = some item := by
    rw [Store.sweep_lookup, found, Option.map_some, if_pos kept]
  constructor
  case size => exact (Table.size_mapValues _ _).trans_le inv.size
  case share =>
    intro owner
    refine (Table.count_mapValues ?_ _).trans_le (inv.share owner)
    intro key value
    split <;> rfl
  case drawn =>
    intro id present
    apply inv.drawn id
    intro missing
    apply present
    rw [Store.sweep_lookup, missing, Option.map_none]
  case sound =>
    intro id item found
    rw [Store.sweep_lookup] at found
    obtain ⟨before, found', rfl⟩ := Option.map_eq_some_iff.mp found
    have sound := inv.sound id before found'
    split
    · exact sound
    · constructor
      case held =>
        rintro disk (active | ⟨snapshot, content, -⟩)
        · cases active
        · cases content
      case idle => exact fun _ _ => rfl
      case cleaned => exact fun _ => ⟨rfl, rfl, rfl⟩
      case file => exact fun name file => nomatch file
  case order =>
    apply inv.order.append
    case receives => exact nofun
    case receives' => exact List.nodup_nil
    case carries => exact nofun
    case carries' => exact List.nodup_nil
    case swept =>
      intro pending taken task member other mine same
      obtain ⟨id, item, found, cleaning, -, rfl⟩ := Store.mem_sweep.mp taken
      obtain ⟨item', found', cleaned, -⟩ := inv.swept task member other mine
      rw [same] at found'
      rw [show (item.pending id).id = id from rfl, found] at found'
      cases found'
      rw [cleaning] at cleaned
      cases cleaned
    case swept' => exact Store.sweep_ids_nodup _ _ _
    case proper => trivial
  case pinned =>
    intro task member id pin pins
    rcases List.mem_append.mp member with before | now
    · obtain ⟨item, found, needs⟩ := inv.pinned task before id pin pins
      refine ⟨item, spared found ?_, needs⟩
      rw [retained_of_pinned before pins found needs, Bool.or_true]
    · rw [List.mem_singleton.mp now] at pins
      cases pins
  case begun =>
    intro task member id mine
    rcases List.mem_append.mp member with before | now
    · refine ⟨(inv.begun task before id mine).1, fun item found open' => ?_⟩
      rw [Store.sweep_lookup] at found
      obtain ⟨old, found', rfl⟩ := Option.map_eq_some_iff.mp found
      split at open'
      · exact (inv.begun task before id mine).2 old found' open'
      · cases open'.2.2
    · rw [List.mem_singleton.mp now] at mine
      cases mine
  case swept =>
    intro task member pending mine
    rcases List.mem_append.mp member with before | now
    · obtain ⟨item, found, cleaning, restored⟩ := inv.swept task before pending mine
      exact ⟨item, spared found (spared_of_cleaning cleaning), cleaning, restored⟩
    · rw [List.mem_singleton.mp now] at mine
      obtain ⟨id, item, found, cleaning, lapsed, rfl⟩ := Store.mem_sweep.mp mine
      refine ⟨item.swept, ?_, rfl, ?_⟩
      · rw [show (item.pending id).id = id from rfl, Store.sweep_lookup, found, Option.map_some,
          if_neg (by rw [cleaning, lapsed]; exact nofun)]
      · have same : item.swept.restored (item.pending id) = item := by
          unfold Item.swept Item.restored Item.pending
          rw [← cleaning]
        rw [same]
        exact inv.sound id item found
  case published =>
    intro name listed
    obtain ⟨item, found, tracks⟩ := inv.published name listed
    by_cases kept : (item.cleaning || item.retained plane.counts moment) = true
    · refine ⟨item, spared found kept, ?_⟩
      rcases tracks with file | ⟨snapshot, still⟩ | ⟨task, member, pending, keeps, same⟩
      · exact .inl file
      · exact .inr (.inl ⟨snapshot, List.mem_append_left _ still⟩)
      · exact .inr (.inr ⟨task, List.mem_append_left _ member, pending, keeps, same⟩)
    · refine ⟨item.swept, by rw [Store.sweep_lookup, found, Option.map_some, if_neg kept], ?_⟩
      rw [Bool.not_eq_true, Bool.or_eq_false_iff] at kept
      rcases tracks with file | ⟨snapshot, still⟩ | ⟨task, member, pending, keeps, same⟩
      · right; right
        refine ⟨_, List.mem_append_right _ (List.mem_singleton_self _), item.pending name, ?_,
          rfl, file⟩
        exact Store.mem_sweep.mpr ⟨name, item, found, kept.1, kept.2, rfl⟩
      · exact .inr (.inl ⟨snapshot, List.mem_append_left _ still⟩)
      · exact .inr (.inr ⟨task, List.mem_append_left _ member, pending, keeps, same⟩)

/-- No two sweeps have one item. -/
theorem swept_apart {tasks : List Task} {j : Nat} {one two : Task} {mine yours : Pending}
    (order : Orderly tasks) (at_i : tasks[i]? = some one) (at_j : tasks[j]? = some two)
    (first : mine ∈ one.swept) (second : yours ∈ two.swept) (same : mine.id = yours.id) :
    i = j := by
  have nodup := order.apart
  rw [List.map_flatMap] at nodup
  apply eq_of_flatMap_nodup nodup at_i at_j
  · exact List.mem_map_of_mem first
  · rw [same]
    exact List.mem_map_of_mem second

theorem swept_nodup {tasks : List Task} {task : Task} (order : Orderly tasks)
    (found : tasks[i]? = some task) : (task.swept.map Pending.id).Nodup := by
  have nodup := order.apart
  rw [List.map_flatMap, List.flatMap_def] at nodup
  refine (List.sublist_flatten_of_mem ?_).nodup nodup
  exact List.mem_map_of_mem (List.mem_of_getElem? found)

/-- What a sweep has of an item nobody pins. -/
theorem Inv.unpinned_of_cleaning (inv : plane.Inv)
    (found : plane.store.items.lookup id = some item) (cleaning : item.cleaning = true)
    {task : Task} (listed : task ∈ plane.tasks) (pin : Pin) : task.pin ≠ some (id, pin) := by
  intro pins
  obtain ⟨other, found', needs⟩ := inv.pinned task listed id pin pins
  rw [found] at found'
  cases found'
  obtain ⟨active, -, content⟩ := (inv.sound id item found).cleaned cleaning
  cases pin with
  | receiving file => exact nomatch content.symm.trans needs.1
  | active disk => exact nomatch active.symm.trans needs
  | ready snapshot => exact nomatch content.symm.trans needs
  | holds disk =>
    rcases needs with has | ⟨snapshot, ready, -⟩
    · exact nomatch active.symm.trans has
    · exact nomatch content.symm.trans ready

variable {first : Pending} {todo : List Pending} {removed : Bool}

/-- What is being reconciled is swept by nobody else, and once. -/
theorem Inv.reconciling_alone (inv : plane.Inv)
    (found : plane.tasks[i]? = some (.reconciling removed first todo)) {task : Task}
    {pending : Pending} (listed : task ∈ plane.tasks.set i (.cleaning todo))
    (mine : pending ∈ task.swept) : pending.id ≠ first.id := by
  intro same
  rcases mem_set_cases listed with rfl | ⟨j, differ, found'⟩
  · have nodup := swept_nodup inv.order found
    exact (List.nodup_cons.mp nodup).1 (same ▸ List.mem_map_of_mem mine)
  · exact differ (swept_apart inv.order found' found mine List.mem_cons_self same)

/-- The files are gone, and the item goes. -/
theorem Inv.reconcile_removed (inv : plane.Inv)
    (found : plane.tasks[i]? = some (.reconciling true first todo)) :
    ({ plane with
      store := plane.store.reconcile first true
      tasks := plane.tasks.set i (.cleaning todo) } : Plane).Inv := by
  have listed := List.mem_of_getElem? found
  obtain ⟨item, found', cleaning, -⟩ := inv.swept _ listed first List.mem_cons_self
  have rest : ({ plane with tasks := plane.tasks.set i (.cleaning todo) } : Plane).Inv := by
    apply inv.replace found
    case receives => exact List.nil_sublist _
    case carries => exact List.nil_sublist _
    case swept => exact List.sublist_cons_self _ _
    case proper => trivial
    case pinned => exact nofun
    case tracked =>
      intro name named
      obtain ⟨other, found'', tracks⟩ := inv.published name named
      refine ⟨other, found'', ?_⟩
      rcases tracks with file | ⟨snapshot, still⟩ | ⟨task, member, pending, keeps, same⟩
      · exact .inl file
      · rcases mem_set_of_mem found (.cleaning todo) still with ⟨⟨⟩⟩ | still
        exact .inr (.inl ⟨snapshot, still⟩)
      · rcases mem_set_of_mem found (.cleaning todo) member with rfl | member
        · exact .inr (.inr ⟨_, mem_set_self found _, pending, keeps, same⟩)
        · exact .inr (.inr ⟨task, member, pending, keeps, same⟩)
  apply rest.erase
  case unpinned =>
    intro task member pin
    exact rest.unpinned_of_cleaning found' cleaning member pin
  case unswept =>
    intro task member pending mine
    exact inv.reconciling_alone found member mine
  case unnamed =>
    intro other found''
    rw [show plane.store.items.lookup first.id = some item from found'] at found''
    cases found''
    exact ((inv.sound first.id item found').cleaned cleaning).2.1

/-- The files are still there, and the item has them back. -/
theorem Inv.reconcile_kept (inv : plane.Inv)
    (found : plane.tasks[i]? = some (.reconciling false first todo)) :
    ({ plane with
      store := plane.store.reconcile first false
      tasks := plane.tasks.set i (.cleaning todo) } : Plane).Inv := by
  have listed := List.mem_of_getElem? found
  obtain ⟨item, found', cleaning, sound⟩ := inv.swept _ listed first List.mem_cons_self
  rw [Store.reconcile_kept]
  apply inv.change found'
  case owner => exact fun _ => rfl
  case sound => exact sound
  case order =>
    apply inv.order.set found
    case receives => exact List.nil_sublist _
    case carries => exact List.nil_sublist _
    case swept => exact List.sublist_cons_self _ _
    case proper => trivial
  case pinned =>
    intro task member key pin pins
    rcases mem_set_cases member with rfl | ⟨j, -, at_j⟩
    · cases pins
    · have member' := List.mem_of_getElem? at_j
      refine ⟨fun _ => inv.pinned task member' key pin pins, ?_⟩
      rintro rfl
      exact absurd pins (inv.unpinned_of_cleaning found' cleaning member' pin)
  case begun =>
    intro task member key mine
    rcases mem_set_cases member with rfl | ⟨j, -, at_j⟩
    · cases mine
    · refine ⟨⟨task, List.mem_of_getElem? at_j, mine⟩, ?_⟩
      rintro rfl open'
      -- An item that is open again would have had no file that could stay.
      have none' := sound.idle open'.1 open'.2.1
      rcases inv.order.proper _ listed with disk | file
      · rw [show first.disk = none from none'] at disk
        cases disk
      · obtain ⟨name, file⟩ := Option.isSome_iff_exists.mp file
        rcases (sound.file name file).2 with has | ⟨snapshot, ready⟩
        · exact has none'
        · exact nomatch open'.1.symm.trans ready
  case swept =>
    intro task member pending mine
    refine ⟨?_, fun same => absurd same (inv.reconciling_alone found member mine)⟩
    rcases mem_set_cases member with rfl | ⟨j, -, at_j⟩
    · exact ⟨_, listed, List.mem_cons_of_mem _ mine⟩
    · exact ⟨task, List.mem_of_getElem? at_j, mine⟩
  case published =>
    intro name named
    obtain ⟨other, found'', tracks⟩ := inv.published name named
    by_cases same : name = first.id
    · subst same
      rw [found'] at found''
      cases found''
      refine ⟨item.restored first, by rw [Table.lookup_modify, found']; rfl, ?_⟩
      rcases tracks with file | ⟨snapshot, still⟩ | ⟨task, member, pending, keeps, same, file⟩
      · rw [((inv.sound _ item found').cleaned cleaning).2.1] at file
        cases file
      · exact absurd rfl (inv.unpinned_of_cleaning found' cleaning still (.active snapshot.disk))
      · rcases mem_set_of_mem found (.cleaning todo) member with rfl | member
        · rcases List.mem_cons.mp keeps with rfl | later
          · exact .inl file
          · exact .inr (.inr ⟨_, mem_set_self found _, pending, later, same, file⟩)
        · exact .inr (.inr ⟨task, member, pending, keeps, same, file⟩)
    · refine ⟨other, by rw [Table.lookup_modify_ne same]; exact found'', ?_⟩
      rcases tracks with file | ⟨snapshot, still⟩ | ⟨task, member, pending, keeps, same', file⟩
      · exact .inl file
      · rcases mem_set_of_mem found (.cleaning todo) still with ⟨⟨⟩⟩ | still
        exact .inr (.inl ⟨snapshot, still⟩)
      · rcases mem_set_of_mem found (.cleaning todo) member with rfl | member
        · rcases List.mem_cons.mp keeps with rfl | later
          · exact absurd same'.symm same
          · exact .inr (.inr ⟨_, mem_set_self found _, pending, later, same', file⟩)
        · exact .inr (.inr ⟨task, member, pending, keeps, same', file⟩)

/-- A receipt has its file, under a new number. -/
theorem Inv.activate {store : Store} (inv : plane.Inv)
    (found : plane.tasks[i]? = some (.receiving id .starting))
    (active : plane.store.activate id plane.disks.length = some store) :
    ({ plane with
      store
      disks := plane.disks ++ [id]
      tasks := plane.tasks.set i (.receiving id (.filling plane.disks.length [])) } :
        Plane).Inv := by
  obtain ⟨item, found', content, rfl⟩ := Store.activate_some active
  have idle : item.active = none := by
    obtain ⟨other, found'', needs⟩ :=
      inv.pinned _ (List.mem_of_getElem? found) id (.receiving none) rfl
    rw [found'] at found''
    cases found''
    exact needs.2
  have busy (cleaning : item.cleaning = true) : False :=
    nomatch content.symm.trans ((inv.sound id item found').cleaned cleaning).2.2
  refine Inv.change (inv.extend id) found' ?owner ?sound ?order ?pinned ?begun ?swept ?published
  case owner => exact fun _ => rfl
  case sound =>
    constructor
    case held =>
      rintro disk (active | ⟨snapshot, ready, -⟩)
      · cases active
        exact List.getElem?_concat_length
      · exact nomatch content.symm.trans ready
    case idle => exact fun pending => nomatch content.symm.trans pending
    case cleaned => exact fun cleaning => (busy cleaning).elim
    case file =>
      intro name file
      exact ⟨((inv.sound id item found').file name file).1, .inl nofun⟩
  case order => exact inv.order.set found (.refl _) (.refl _) (List.nil_sublist _) trivial
  case pinned =>
    intro task member key pin pins
    rcases mem_set_cases member with rfl | ⟨j, differ, at_j⟩
    · cases pins
      exact ⟨fun other => absurd rfl other, fun _ => ⟨content, rfl⟩⟩
    · have member' := List.mem_of_getElem? at_j
      refine ⟨fun _ => inv.pinned task member' key pin pins, ?_⟩
      rintro rfl
      obtain ⟨other, found'', needs⟩ := inv.pinned task member' key pin pins
      rw [found'] at found''
      cases found''
      cases pin with
      | receiving file =>
        exact absurd (eq_of_flatMap_nodup inv.order.receives at_j found
          (Task.pin_receiving pins).1 (List.mem_singleton_self _)) differ
      | active disk => exact nomatch idle.symm.trans needs
      | ready snapshot => exact nomatch content.symm.trans needs
      | holds disk =>
        rcases needs with has | ⟨snapshot, ready, -⟩
        · exact nomatch idle.symm.trans has
        · exact nomatch content.symm.trans ready
  case begun =>
    intro task member key mine
    refine ⟨?_, fun _ open' => nomatch content.symm.trans open'.1⟩
    rcases mem_set_cases member with rfl | ⟨j, -, at_j⟩
    · exact ⟨_, List.mem_of_getElem? found, mine⟩
    · exact ⟨task, List.mem_of_getElem? at_j, mine⟩
  case swept =>
    intro task member pending mine
    rcases mem_set_cases member with rfl | ⟨j, -, at_j⟩
    · cases mine
    · have member' := List.mem_of_getElem? at_j
      refine ⟨⟨task, member', mine⟩, ?_⟩
      rintro rfl
      obtain ⟨other, found'', cleaning, -⟩ := inv.swept task member' pending mine
      rw [found'] at found''
      cases found''
      exact (busy cleaning).elim
  case published =>
    intro name named
    have tracked := ((inv.extend id).published name named).mono
      (mem_set_of_quiet found trivial (.receiving id (.filling plane.disks.length [])))
    exact tracked.modify found' fun _ file => file

/-- A worker completes its item, or finds that it was given up and leaves it the
published file. -/
theorem Inv.complete {snapshot : Snapshot} {file : Option String} (inv : plane.Inv)
    (found : plane.tasks[i]? = some (.publishing id snapshot file))
    (done : file.isSome = setting.isLocal)
    (remote : setting.isLocal = false → plane.published = [])
    (found' : plane.store.items.lookup id = some item) :
    ({ plane with
      store := (plane.store.complete setting id snapshot file).2
      tasks := plane.tasks.set i .gone } : Plane).Inv := by
  have listed := List.mem_of_getElem? found
  have active : item.active = some snapshot.disk := by
    obtain ⟨other, found'', needs⟩ := inv.pinned _ listed id (.active snapshot.disk) rfl
    rw [found'] at found''
    cases found''
    exact needs
  have sound := inv.sound id item found'
  have named (name : String) (same : file = some name) : name = id := by
    subst same
    exact inv.order.proper _ listed
  have busy (cleaning : item.cleaning = true) : False :=
    absurd (active.symm.trans (sound.cleaned cleaning).1) (Option.some_ne_none _)
  -- Both outcomes leave these of the item.
  obtain ⟨f, equation, owner, file', cases'⟩ : ∃ f : Item → Item,
      (plane.store.complete setting id snapshot file).2 =
        { plane.store with items := plane.store.items.modify id f } ∧
      (∀ item, (f item).owner = item.owner) ∧ (f item).localFile = file ∧
      ((item.content = .receiving ∧ (f item).content = .ready snapshot ∧
          (f item).active = none ∧ (f item).cleaning = item.cleaning) ∨
        (item.content ≠ .receiving ∧ f item = { item with localFile := file })) := by
    refine ⟨fun item => (item.complete setting snapshot file plane.store.clock).2, ?_, ?_, ?_, ?_⟩
    · rw [Store.complete, found']
    · intro item
      dsimp only [Item.complete]
      split <;> rfl
    · dsimp only [Item.complete]
      split <;> rfl
    · dsimp only [Item.complete]
      split
      · rename_i content
        exact .inr ⟨content, rfl⟩
      · rename_i content
        exact .inl ⟨Decidable.not_not.mp content, rfl, rfl, rfl⟩
  rw [equation]
  have apart {task : Task} {j : Nat} (at_j : plane.tasks[j]? = some task) (differ : j ≠ i)
      (mine : id ∈ task.carries) : False :=
    differ (eq_of_flatMap_nodup inv.order.carries at_j found mine (List.mem_singleton_self _))
  apply inv.change found' owner
  case sound =>
    rcases cases' with ⟨content, ready, none', cleaning⟩ | ⟨content, same⟩
    · constructor
      case held =>
        rintro disk (has | ⟨other, has, rfl⟩)
        · cases none'.symm.trans has
        · cases ready.symm.trans has
          exact sound.held _ (.inl active)
      case idle => exact fun pending => by cases ready.symm.trans pending
      case cleaned => exact fun cleans => (busy (cleaning ▸ cleans)).elim
      case file =>
        intro name has
        exact ⟨named name (file'.symm.trans has), .inr ⟨snapshot, ready⟩⟩
    · rw [same]
      constructor
      case held => exact sound.held
      case idle => exact sound.idle
      case cleaned => exact fun cleaning => (busy cleaning).elim
      case file => exact fun name has => ⟨named name has, .inl (active ▸ Option.some_ne_none _)⟩
  case order =>
    exact inv.order.set found (List.nil_sublist _) (List.nil_sublist _) (List.nil_sublist _) trivial
  case pinned =>
    intro task member key pin pins
    rcases mem_set_cases member with rfl | ⟨j, differ, at_j⟩
    · cases pins
    · have member' := List.mem_of_getElem? at_j
      refine ⟨fun _ => inv.pinned task member' key pin pins, ?_⟩
      rintro rfl
      obtain ⟨other, found'', needs⟩ := inv.pinned task member' key pin pins
      rw [found'] at found''
      cases found''
      rcases cases' with ⟨content, ready, none', -⟩ | ⟨content, same⟩
      · cases pin with
        | receiving file => exact (apart at_j differ (Task.pin_receiving pins).2).elim
        | active disk => exact (apart at_j differ (Task.pin_active pins).1).elim
        | ready other => cases content.symm.trans needs
        | holds disk =>
          rcases needs with has | ⟨other, has, -⟩
          · cases active.symm.trans has
            exact .inr ⟨snapshot, ready, rfl⟩
          · cases content.symm.trans has
      · rw [same]
        cases pin <;> exact needs
  case begun =>
    intro task member key mine
    rcases mem_set_cases member with rfl | ⟨j, -, at_j⟩
    · cases mine
    · have member' := List.mem_of_getElem? at_j
      refine ⟨⟨task, member', mine⟩, ?_⟩
      rintro rfl open'
      rcases cases' with ⟨-, ready, -⟩ | ⟨-, same⟩
      · cases ready.symm.trans open'.1
      · rw [same] at open'
        exact (inv.begun task member' key mine).2 item found' open'
  case swept =>
    intro task member pending mine
    rcases mem_set_cases member with rfl | ⟨j, -, at_j⟩
    · cases mine
    · have member' := List.mem_of_getElem? at_j
      refine ⟨⟨task, member', mine⟩, ?_⟩
      rintro rfl
      obtain ⟨other, found'', cleaning, -⟩ := inv.swept task member' pending mine
      rw [found'] at found''
      cases found''
      exact (busy cleaning).elim
  case published =>
    intro name listed'
    obtain ⟨other, found'', tracks⟩ := inv.published name listed'
    by_cases same : name = id
    · subst same
      refine ⟨f item, by rw [Table.lookup_modify, found']; rfl, .inl ?_⟩
      rw [file']
      cases has : file with
      | some other => rw [named other has]
      | none =>
        rw [has] at done
        rw [remote done.symm] at listed'
        cases listed'
    · refine ⟨other, by rw [Table.lookup_modify_ne same]; exact found'', ?_⟩
      rcases tracks with file | ⟨bytes, still⟩ | ⟨task, member, pending, keeps, same'⟩
      · exact .inl file
      · rcases mem_set_of_mem found .gone still with ⟨⟨⟩⟩ | still
        · exact absurd rfl same
        · exact .inr (.inl ⟨bytes, still⟩)
      · rcases mem_set_of_mem found .gone member with rfl | member
        · cases keeps
        · exact .inr (.inr ⟨task, member, pending, keeps, same'⟩)

/-- A new item, under a new name. -/
theorem Inv.reserve {owner : PrincipalId} {params : UploadParams} {upload : Bool} {store : Store}
    (inv : plane.Inv) (fresh : id ∉ plane.drawn)
    (admitted : plane.store.reserve setting owner params upload id = .ok store) :
    ({ plane with store, drawn := id :: plane.drawn } : Plane).Inv := by
  obtain ⟨room, share, -, uri, rfl⟩ := Store.reserve_ok admitted
  have missing : plane.store.items.lookup id = none := by
    by_contra present
    exact fresh (inv.drawn id present)
  have absent : id ∉ plane.store.items := AList.lookup_eq_none.mp missing
  have elsewhere {key : String} {item : Item}
      (found : plane.store.items.lookup key = some item) : key ≠ id := by
    rintro rfl
    exact nomatch missing.symm.trans found
  constructor
  case size =>
    change Table.size (AList.insert id _ plane.store.items) ≤ maxItems
    rw [Table.size_insert_of_notMem absent]
    exact room
  case share =>
    intro who
    change Table.count _ (AList.insert id _ plane.store.items) ≤ ownerItems
    rw [Table.count_insert_of_notMem _ absent]
    by_cases mine : owner = who
    · subst mine
      rw [if_pos (by simp [Item.reserved])]
      exact share
    · rw [if_neg (by simp [Item.reserved, mine])]
      exact inv.share who
  case drawn =>
    intro key present
    by_cases same : key = id
    · exact same ▸ List.mem_cons_self
    · rw [AList.lookup_insert_ne same] at present
      exact List.mem_cons_of_mem _ (inv.drawn key present)
  case sound =>
    intro key item found
    by_cases same : key = id
    · subst same
      rw [AList.lookup_insert] at found
      cases found
      constructor
      case held =>
        rintro disk (active | ⟨snapshot, ready, -⟩)
        · cases active
        · cases ready
      case idle => exact fun _ _ => rfl
      case cleaned => exact fun cleaning => nomatch cleaning
      case file => exact fun name file => nomatch file
    · rw [AList.lookup_insert_ne same] at found
      exact inv.sound key item found
  case order => exact inv.order
  case pinned =>
    intro task member key pin pins
    obtain ⟨item, found, needs⟩ := inv.pinned task member key pin pins
    exact ⟨item, by rw [AList.lookup_insert_ne (elsewhere found)]; exact found, needs⟩
  case begun =>
    intro task member key mine
    obtain ⟨known, shut⟩ := inv.begun task member key mine
    refine ⟨List.mem_cons_of_mem _ known, fun item found => ?_⟩
    have differ : key ≠ id := by
      rintro rfl
      exact fresh known
    rw [AList.lookup_insert_ne differ] at found
    exact shut item found
  case swept =>
    intro task member pending mine
    obtain ⟨item, found, rest⟩ := inv.swept task member pending mine
    exact ⟨item, by rw [AList.lookup_insert_ne (elsewhere found)]; exact found, rest⟩
  case published =>
    intro name named
    obtain ⟨item, found, tracks⟩ := inv.published name named
    exact ⟨item, by rw [AList.lookup_insert_ne (elsewhere found)]; exact found, tracks⟩

end Plane

/-! ## Steps -/

/-- Only a local store publishes. -/
theorem Step.published_remote (step : Step setting plane act next)
    (remote : setting.isLocal = false) (none' : plane.published = []) : next.published = [] := by
  cases step with
  | publish here => exact nomatch remote.symm.trans here
  | orphan =>
    dsimp only
    rw [none']
    split <;> rfl
  | unlink =>
    dsimp only
    rw [none']
    split <;> rfl
  | _ => exact none'

/-- A change of one item's ticket, or of what may begin with it. -/
theorem Plane.Inv.mark {f : Item → Item} (inv : plane.Inv)
    (found : plane.store.items.lookup id = some item)
    (same : ∀ item, (f item).owner = item.owner ∧ (f item).localFile = item.localFile ∧
      (f item).content = item.content ∧ (f item).active = item.active ∧
      (f item).cleaning = item.cleaning ∧ (item.withdrawn = true → (f item).withdrawn = true)) :
    ({ plane with
      store := { plane.store with items := plane.store.items.modify id f } } : Plane).Inv := by
  obtain ⟨-, file, content, active, cleaning, withdrawn⟩ := same item
  have shut (open' : (f item).withdrawn = false) : item.withdrawn = false := by
    cases was : item.withdrawn with
    | false => rfl
    | true => exact nomatch (withdrawn was).symm.trans open'
  have sound := inv.sound id item found
  have holds {disk : Nat} (holds : (f item).Holds disk) : item.Holds disk := by
    rwa [Item.Holds, content, active] at holds
  apply inv.modify found
  case owner => exact fun item => (same item).1
  case sound =>
    constructor
    case held => exact fun disk has => sound.held disk (holds has)
    case idle =>
      rw [content, active]
      exact fun pending open' => sound.idle pending (shut open')
    case cleaned =>
      rw [content, active, file, cleaning]
      exact sound.cleaned
    case file =>
      rw [content, active, file]
      exact sound.file
  case pins =>
    intro task member pin pins needs
    cases pin with
    | receiving => rwa [Pin.Of, content, active]
    | active => rwa [Pin.Of, active]
    | ready => rwa [Pin.Of, content]
    | holds => rwa [Pin.Of, Item.Holds, content, active]
  case shut =>
    rw [Item.Open, content, cleaning]
    exact fun open' => ⟨open'.1, shut open'.2.1, open'.2.2⟩
  case swept =>
    rw [cleaning]
    refine fun cleans => ⟨cleans, fun pending restored => ?_⟩
    exact { restored with idle := fun pends open' => restored.idle pends (shut open') }
  case file => exact fun name has => file.trans has

/-- Receiving begins with an item that is open. -/
theorem Plane.Inv.begin {f : Item → Item} (inv : plane.Inv)
    (found : plane.store.items.lookup id = some item) (open' : item.Open)
    (same : ∀ item, (f item).owner = item.owner ∧ (f item).localFile = item.localFile ∧
      (f item).content = .receiving ∧ (f item).active = item.active ∧
      (f item).cleaning = item.cleaning) :
    ({ plane with
      store := { plane.store with items := plane.store.items.modify id f }
      tasks := plane.tasks ++ [.receiving id .starting] } : Plane).Inv := by
  obtain ⟨-, file, content, active, cleaning⟩ := same item
  have sound := inv.sound id item found
  have idle := sound.idle open'.1 open'.2.1
  have shut (open'' : (f item).Open) : item.Open := nomatch content.symm.trans open''.1
  have marked : ({ plane with
      store := { plane.store with items := plane.store.items.modify id f } } : Plane).Inv := by
    apply inv.modify found
    case owner => exact fun item => (same item).1
    case sound =>
      constructor
      case held =>
        rintro disk (has | ⟨snapshot, has, -⟩)
        · exact sound.held disk (.inl (active.symm.trans has))
        · exact nomatch content.symm.trans has
      case idle => exact fun pending => nomatch content.symm.trans pending
      case cleaned => exact fun cleans => nomatch open'.2.2.symm.trans (cleaning.symm.trans cleans)
      case file =>
        intro name has
        rcases (sound.file name (file.symm.trans has)).2 with busy | ⟨snapshot, ready⟩
        · exact absurd idle busy
        · exact nomatch open'.1.symm.trans ready
    case pins =>
      intro task member pin pins needs
      cases pin with
      | receiving other => exact nomatch open'.1.symm.trans needs.1
      | active disk => exact active.trans needs
      | ready snapshot => exact nomatch open'.1.symm.trans needs
      | holds disk =>
        rcases needs with has | ⟨snapshot, ready, -⟩
        · exact .inl (active.trans has)
        · exact nomatch open'.1.symm.trans ready
    case shut => exact shut
    case swept => exact fun cleans => nomatch open'.2.2.symm.trans cleans
    case file => exact fun name has => file.trans has
  have found' : (plane.store.items.modify id f).lookup id = some (f item) := by
    rw [Table.lookup_modify, found]
    rfl
  apply marked.append
  case quiet => trivial
  case receives =>
    intro key mine task member theirs
    rw [List.mem_singleton.mp mine] at theirs
    exact (inv.begun task member id theirs).2 item found open'
  case receives' => exact List.nodup_singleton _
  case carries =>
    intro key mine task member theirs
    rw [List.mem_singleton.mp mine] at theirs
    -- Whoever carries it pins what an open item does not have.
    cases task with
    | receiving key stage =>
      have : key = id := by cases stage <;> simp_all [Task.carries]
      subst this
      exact (inv.begun _ member key (List.mem_singleton_self _)).2 item found open'
    | publishing key snapshot published =>
      cases List.mem_singleton.mp theirs
      obtain ⟨other, found'', needs⟩ := inv.pinned _ member id (.active snapshot.disk) rfl
      cases found.symm.trans found''
      exact nomatch idle.symm.trans needs
    | _ => cases theirs
  case carries' => exact List.nodup_singleton _
  case pinned =>
    intro key pin pins
    cases pins
    exact ⟨f item, found', content, active.trans idle⟩
  case begun =>
    intro key mine
    rw [List.mem_singleton.mp mine]
    refine ⟨inv.drawn id (by rw [found]; exact nofun), fun other found'' open'' => ?_⟩
    cases found'.symm.trans found''
    exact nomatch content.symm.trans open''.1

/-- What a task works on is what it pins. -/
theorem Plane.Inv.works {task : Task} {disk : Nat} (inv : plane.Inv)
    (listed : task ∈ plane.tasks) (works : task.works = some (id, disk)) :
    ∃ item, plane.store.items.lookup id = some item ∧ item.Holds disk := by
  unfold Task.works at works
  split at works <;> cases works
  · obtain ⟨item, found, needs⟩ := inv.pinned _ listed id (.receiving (some disk)) rfl
    exact ⟨item, found, .inl needs.2⟩
  · rename_i snapshot release
    obtain ⟨item, found, needs⟩ := inv.pinned _ listed id (.ready snapshot) rfl
    exact ⟨item, found, .inr ⟨snapshot, needs, rfl⟩⟩
  · rename_i snapshot sent release
    obtain ⟨item, found, needs⟩ := inv.pinned _ listed id (.ready snapshot) rfl
    exact ⟨item, found, .inr ⟨snapshot, needs, rfl⟩⟩

theorem Plane.Inv.step (inv : plane.Inv)
    (remote : setting.isLocal = false → plane.published = []) (step : Step setting plane act next) :
    next.Inv := by
  cases step with
  | tick later => exact { inv with published := inv.published }
  | @reserve owner params upload id store fresh remote' admitted =>
    apply (inv.reserve fresh admitted).spawn
    all_goals cases upload
    all_goals first | trivial | rfl | exact nofun
  | @authorizeUpload i owner id ticket credential result store task fresh fresh' issued =>
    obtain ⟨item, found, rfl⟩ := Store.authorizeUpload_ok issued
    have marked := inv.mark found (f := (·.issue setting ticket credential))
      fun item => ⟨rfl, rfl, rfl, rfl, rfl, fun same => same⟩
    exact (((marked.gone task trivial).draw ticket).draw credential).recall _ _ _ _
  | @authorizeDownload owner uri id ticket credential result store fresh fresh' issued =>
    obtain ⟨item, snapshot, owns, content, rfl⟩ := Store.authorizeDownload_ok issued
    have marked := inv.mark (Store.owned_ok owns).2.1 (f := (·.issue setting ticket credential))
      fun item => ⟨rfl, rfl, rfl, rfl, rfl, fun same => same⟩
    exact ((marked.draw ticket).draw credential).recall _ _ _ _
  | @input owner uri id snapshot release item remote' served found =>
    obtain ⟨other, owns, content, -⟩ := Store.input_ok served
    have spawned : ({ plane with
        tasks := plane.tasks ++ [.prepared id snapshot release] } : Plane).Inv := by
      apply inv.spawn
      case quiet => trivial
      case receives => rfl
      case carries => rfl
      case pinned =>
        rintro key pin ⟨⟩
        exact ⟨other, (Store.owned_ok owns).2.1, content⟩
    exact spawned.recall _ _ _ _
  | @localInput uri id snapshot here served =>
    obtain ⟨item, found, content⟩ := Store.localSource_ok served
    apply inv.spawn
    case quiet => trivial
    case receives => rfl
    case carries => rfl
    case pinned =>
      rintro key pin ⟨⟩
      exact ⟨item, found, content⟩
  | @put ticket credential id release store remote' took =>
    obtain ⟨item, held, found, cleaning, withdrawn, -, -, -, -, used⟩ := Store.takeTicket_ok took
    rcases used with ⟨-, -, content, -, rfl⟩ | ⟨snapshot, missing, -⟩
    · have began := inv.begin found ⟨content, withdrawn, cleaning⟩
        (f := ({ · with ticket := none, content := .receiving }))
        fun item => ⟨rfl, rfl, rfl, rfl, rfl⟩
      exact began.recall _ _ _ _
    · cases missing
  | @get ticket credential id snapshot release store item remote' took found =>
    obtain ⟨other, held, found', -, -, -, -, -, -, used⟩ := Store.takeTicket_ok took
    rcases used with ⟨missing, -⟩ | ⟨bytes, -, content, same, -, rfl⟩
    · cases missing
    · cases same
      have marked := inv.mark found' (f := ({ · with ticket := none }))
        fun item => ⟨rfl, rfl, rfl, rfl, rfl, fun same => same⟩
      have spawned : ({ plane with
          store := { plane.store with items := plane.store.items.modify id ({ · with ticket := none }) }
          tasks := plane.tasks ++ [.delivering id snapshot 0 release false] } : Plane).Inv := by
        apply marked.spawn
        case quiet => trivial
        case receives => rfl
        case carries => rfl
        case pinned =>
          rintro key pin ⟨⟩
          exact ⟨{ other with ticket := none }, by rw [Table.lookup_modify, found']; rfl, content⟩
      exact spawned.recall _ _ _ _
  | @receive i id store task began =>
    obtain ⟨item, found, cleaning, withdrawn, content, -, rfl⟩ := Store.begin_some began
    exact inv.begin found ⟨content, withdrawn, cleaning⟩ fun item => ⟨rfl, rfl, rfl, rfl, rfl⟩
  | @drop i id task idle =>
    apply (inv.gone task trivial).abandon
    intro other member mine
    rcases mem_set_cases member with rfl | ⟨j, -, at_j⟩
    · cases mine
    · cases other with
      | receiving key stage =>
        cases List.mem_singleton.mp mine
        exact idle stage (List.mem_of_getElem? at_j)
      | _ => cases mine
  | @activate i id store task active => exact inv.activate task active
  | @fill i id disk got data task within =>
    exact inv.set task trivial trivial (.refl _) (.refl _)
      fun key pin pins => inv.pinned _ (List.mem_of_getElem? task) key pin pins
  | @finish i id disk got task =>
    exact inv.set task trivial trivial (.refl _) (.refl _)
      fun key pin pins => inv.pinned _ (List.mem_of_getElem? task) key pin pins
  | @check i id snapshot task agrees =>
    have pinned := inv.pinned _ (List.mem_of_getElem? task)
    have waits : ({ plane with
        tasks := plane.tasks.set i (.receiving id .waiting) } : Plane).Inv :=
      inv.set task trivial trivial (.refl _) (List.nil_sublist _) nofun
    apply waits.append
    case quiet => trivial
    case receives => exact nofun
    case receives' => exact List.nodup_nil
    case carries =>
      intro key mine other member theirs
      rw [List.mem_singleton.mp mine] at theirs
      rcases mem_set_cases member with rfl | ⟨j, differ, at_j⟩
      · cases theirs
      · exact differ (eq_of_flatMap_nodup inv.order.carries at_j task theirs
          (List.mem_singleton_self _))
    case carries' => exact List.nodup_singleton _
    case pinned =>
      rintro key pin ⟨⟩
      obtain ⟨item, found, needs⟩ := pinned id _ rfl
      exact ⟨item, found, needs.2⟩
    case begun => exact nofun
  | @stop i id stage task =>
    exact inv.set task trivial trivial (.refl _) (List.nil_sublist _) nofun
  | @giveUp i id task =>
    apply (inv.gone task trivial).abandon
    intro other member mine
    rcases mem_set_cases member with rfl | ⟨j, differ, at_j⟩
    · cases mine
    · exact differ (eq_of_flatMap_nodup inv.order.receives at_j task mine
        (List.mem_singleton_self _))
  | @publish i id snapshot here task unused =>
    refine inv.replace task (.refl _) (.refl _) (.refl _) rfl
      (fun key pin pins => inv.pinned _ (List.mem_of_getElem? task) key pin pins) ?_
    intro name named
    rcases List.mem_cons.mp named with rfl | before
    · obtain ⟨item, found, -⟩ :=
        inv.pinned _ (List.mem_of_getElem? task) name (.active snapshot.disk) rfl
      exact ⟨item, found, .inr (.inl ⟨snapshot, mem_set_self task _⟩)⟩
    · exact (inv.published name before).mono (Plane.mem_set_of_quiet task trivial _)
  | @complete i id snapshot file item task done found =>
    have completed := inv.complete task done remote found
    exact completed.recall _ _ _ _
  | @orphan i id snapshot file removed task missing =>
    obtain ⟨item, found, -⟩ :=
      inv.pinned _ (List.mem_of_getElem? task) id (.active snapshot.disk) rfl
    exact nomatch missing.symm.trans found
  | @straggle i task id disk task' works =>
    obtain ⟨item, found, holds⟩ := inv.works (List.mem_of_getElem? task') works
    apply inv.spawn
    case quiet => trivial
    case receives => rfl
    case carries => rfl
    case pinned =>
      rintro key pin ⟨⟩
      exact ⟨item, found, holds⟩
  | @settle i id disk task => exact inv.gone task trivial
  | @close i task task' closes =>
    apply inv.gone task'
    cases task with
    | publishing id snapshot file =>
      cases file with
      | some file => cases closes
      | none => trivial
    | cleaning => cases closes
    | reconciling => cases closes
    | _ => trivial
  | @place i id snapshot release task =>
    cases release with
    | true => exact inv.set task trivial trivial (.refl _) (.refl _) nofun
    | false => exact inv.gone task trivial
  | @deliver i id snapshot sent release count task some' there unread =>
    exact inv.set task trivial trivial (.refl _) (.refl _)
      fun key pin pins => inv.pinned _ (List.mem_of_getElem? task) key pin pins
  | @fail i id snapshot sent release task unread =>
    exact inv.set task trivial trivial (.refl _) (.refl _) nofun
  | @exhaust i id snapshot sent release broken task over' =>
    split
    · exact inv.set task trivial trivial (.refl _) (.refl _) nofun
    · exact inv.gone task trivial
  | @release i id task =>
    rcases plane.store.withdrawDelivered_cases id with
      ⟨⟨item, snapshot, found, -⟩, done⟩ | ⟨-, done⟩
    · rw [done]
      have marked := inv.mark found (f := ({ · with withdrawn := true }))
        fun item => ⟨rfl, rfl, rfl, rfl, rfl, fun _ => rfl⟩
      exact marked.gone task trivial
    · rw [done]
      exact inv.gone task trivial
  | sweep past some' => exact inv.sweep _
  | @unlink i first todo removed task named =>
    refine inv.replace task (.refl _) (.refl _) (.refl _) ?_ ?_ ?_
    · cases removed with
      | true => trivial
      | false => exact (named rfl).2
    · cases removed <;> exact nofun
    · intro name listed
      have before : name ∈ plane.published ∧ (removed = true → some name ≠ first.file) := by
        cases removed with
        | true =>
          rw [if_pos rfl, List.mem_filter] at listed
          exact ⟨listed.1, fun _ => of_decide_eq_true listed.2⟩
        | false => exact ⟨listed, nofun⟩
      obtain ⟨item, found, tracks⟩ := inv.published name before.1
      refine ⟨item, found, ?_⟩
      rcases tracks with file | ⟨snapshot, still⟩ | ⟨other, member, pending, keeps, same, file⟩
      · exact .inl file
      · rcases mem_set_of_mem task (.reconciling removed first todo) still with ⟨⟨⟩⟩ | still
        exact .inr (.inl ⟨snapshot, still⟩)
      · rcases mem_set_of_mem task (.reconciling removed first todo) member with rfl | member
        · refine .inr (.inr ⟨_, mem_set_self task _, pending, ?_, same, file⟩)
          cases removed with
          | false => exact keeps
          | true =>
            rcases List.mem_cons.mp keeps with rfl | later
            · exact absurd file.symm (before.2 rfl)
            · exact later
        · exact .inr (.inr ⟨other, member, pending, keeps, same, file⟩)
  | @reconcile i first todo removed task =>
    cases removed with
    | true => exact inv.reconcile_removed task
    | false => exact inv.reconcile_kept task

theorem Plane.inv_new (clock : Nat) : (Plane.new clock).Inv where
  size := Nat.zero_le _
  share _ := Nat.zero_le _
  drawn _ present := absurd rfl present
  sound _ _ found := nomatch found
  order :=
    { receives := List.nodup_nil
      carries := List.nodup_nil
      apart := List.nodup_nil
      proper := nofun }
  pinned := nofun
  begun := nofun
  swept := nofun
  published := nofun

theorem Reaches.inv (reaches : Reaches setting plane next) (inv : plane.Inv)
    (remote : setting.isLocal = false → plane.published = []) :
    next.Inv ∧ (setting.isLocal = false → next.published = []) := by
  induction reaches with
  | refl => exact ⟨inv, remote⟩
  | tail _ step ih =>
    obtain ⟨act, step⟩ := step
    exact ⟨ih.1.step ih.2 step, fun here => step.published_remote here (ih.2 here)⟩

theorem Reachable.inv (reachable : Reachable setting plane) : plane.Inv := by
  obtain ⟨clock, reaches⟩ := reachable
  exact (reaches.inv (Plane.inv_new clock) fun _ => rfl).1

end McpSsh.Transfers
