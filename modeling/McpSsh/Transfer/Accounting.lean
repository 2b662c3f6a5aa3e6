import McpSsh.Transfer.Steps

/-!
# What the transfer store is charged with
-/

namespace McpSsh.Transfers

variable {setting : Setting} {plane next : Plane} {id : String} {item : Item} {act : Act}

/-- The disk files a task has a handle of, be it through a snapshot. -/
def Task.handles (task : Task) : List Nat := task.files ++ task.snapshots.map Snapshot.disk

/-- What a sweep took has a disk file. -/
def Pending.Holds (pending : Pending) (disk : Nat) : Prop :=
  pending.disk = some disk ∨ ∃ snapshot, pending.content = .ready snapshot ∧ snapshot.disk = disk

theorem Content.mem_bytes {content : Content} {snapshot : Snapshot}
    (has : snapshot ∈ content.bytes.toList) : content = .ready snapshot := by
  cases content with
  | ready bytes =>
    rw [Content.bytes, Option.toList_some, List.mem_singleton] at has
    rw [has]
  | pending => cases has
  | receiving => cases has

theorem Pending.holds_of_handles {todo : List Pending} {disk : Nat}
    (has : disk ∈ todo.flatMap (·.disk.toList) ++
      (todo.flatMap Pending.snapshots).map Snapshot.disk) :
    ∃ pending ∈ todo, pending.Holds disk := by
  rcases List.mem_append.mp has with file | shared
  · obtain ⟨pending, listed, mine⟩ := List.mem_flatMap.mp file
    exact ⟨pending, listed, .inl (Option.mem_toList.mp mine)⟩
  · obtain ⟨snapshot, listed, rfl⟩ := List.mem_map.mp shared
    obtain ⟨pending, listed, mine⟩ := List.mem_flatMap.mp listed
    exact ⟨pending, listed, .inr ⟨snapshot, Content.mem_bytes mine, rfl⟩⟩

/-- Whoever has a handle pins the item, or is removing what it had. -/
theorem Task.pin_or_keeps {task : Task} {disk : Nat} (has : disk ∈ task.handles) :
    (∃ id pin, task.pin = some (id, pin) ∧ ∀ item, pin.Of item → item.Holds disk) ∨
      ∃ pending ∈ task.keeps, pending.Holds disk := by
  cases task with
  | receiving id stage =>
    cases stage with
    | filling file got =>
      left
      cases List.mem_singleton.mp has
      exact ⟨id, _, rfl, fun item needs => .inl needs.2⟩
    | received snapshot =>
      left
      cases List.mem_singleton.mp has
      exact ⟨id, _, rfl, fun item needs => .inl needs.2⟩
    | starting => cases has
    | waiting => cases has
    | ending => cases has
  | publishing id snapshot file =>
    left
    cases List.mem_singleton.mp has
    exact ⟨id, _, rfl, fun item needs => .inl needs⟩
  | prepared id snapshot release =>
    left
    cases List.mem_singleton.mp has
    exact ⟨id, _, rfl, fun item needs => .inr ⟨snapshot, needs, rfl⟩⟩
  | delivering id snapshot sent release broken =>
    cases broken with
    | true => cases has
    | false =>
      left
      cases List.mem_singleton.mp has
      exact ⟨id, _, rfl, fun item needs => .inr ⟨snapshot, needs, rfl⟩⟩
  | stray id file =>
    left
    cases List.mem_singleton.mp has
    exact ⟨id, _, rfl, fun item needs => needs⟩
  | cleaning todo => exact .inr (Pending.holds_of_handles has)
  | reconciling removed first todo =>
    cases removed <;> exact .inr (Pending.holds_of_handles has)
  | authorizing owner id => cases has
  | destination id => cases has
  | releasing id => cases has
  | gone => cases has

/-- Each handle of a disk file is charged: to the item it was taken for, which
has it, or had it when the sweep took it that holds the handle. -/
theorem Plane.Inv.charged (inv : plane.Inv) {task : Task} (listed : task ∈ plane.tasks)
    {disk : Nat} (has : disk ∈ task.handles) :
    ∃ id item, plane.disks[disk]? = some id ∧ plane.store.items.lookup id = some item ∧
      (item.Holds disk ∨ item.cleaning = true ∧ ∃ pending ∈ task.swept, pending.id = id) := by
  rcases Task.pin_or_keeps has with ⟨id, pin, pins, holds⟩ | ⟨pending, keeps, holds⟩
  · obtain ⟨item, found, needs⟩ := inv.pinned task listed id pin pins
    have mine := holds item needs
    exact ⟨id, item, (inv.sound id item found).held disk mine, found, .inl mine⟩
  · have swept := Task.keeps_subset keeps
    obtain ⟨item, found, cleaning, sound⟩ := inv.swept task listed pending swept
    exact ⟨pending.id, item, sound.held disk holds, found, .inr ⟨cleaning, pending, swept, rfl⟩⟩

/-- In every state a store comes to, its table is within the bounds; every disk
file that somebody has is charged to the item that took it; an item that a step
takes from the table leaves no handle behind; and every published file is some
item's, is about to be, or is on its way out with a sweep. -/
theorem accounting (reachable : Reachable setting plane) :
    plane.store.items.size ≤ 16 ∧
    (∀ owner, plane.store.items.count (fun item => item.owner = owner) ≤ 4) ∧
    (∀ task ∈ plane.tasks, ∀ disk ∈ task.handles, ∃ id item,
      plane.disks[disk]? = some id ∧ plane.store.items.lookup id = some item ∧
      (item.Holds disk ∨ item.cleaning = true ∧ ∃ pending ∈ task.swept, pending.id = id)) ∧
    (∀ act next, Step setting plane act next → ∀ id, plane.store.items.lookup id ≠ none →
      next.store.items.lookup id = none →
      ∀ task ∈ next.tasks, ∀ disk ∈ task.handles, next.disks[disk]? ≠ some id) ∧
    ∀ name ∈ plane.published, plane.Tracked name := by
  have inv := reachable.inv
  refine ⟨inv.size, inv.share, fun task listed disk has => inv.charged listed has, ?_,
    inv.published⟩
  intro act next step id _ left task listed disk has mine
  have inv' : next.Inv := by
    obtain ⟨clock, reaches⟩ := reachable
    have later : Reachable setting next := ⟨clock, reaches.tail ⟨act, step⟩⟩
    exact later.inv
  obtain ⟨other, item, theirs, found, -⟩ := inv'.charged listed has
  cases mine.symm.trans theirs
  exact nomatch left.symm.trans found

namespace Sample

def remote : Setting where
  maxBytes := 1000
  origin := "https://files.example"
  isLocal := false
  localUri := fun _ => none
  outputId := fun _ => none
  sha256 := fun bytes => bytes
  encode := fun _ => "digest"
  decode := fun _ => none

def agent : PrincipalId := ⟨"agent", by decide⟩

def output : Item := .reserved agent .default false 0 "mcp-file://mcp-ssh/a"

def reserved : Plane :=
  { Plane.new 0 with
    store := ⟨0, (∅ : Table String Item).insert "a" output⟩
    drawn := ["a"]
    tasks := [.destination "a"] }

def begun : Plane :=
  { reserved with
    store := ⟨0, (∅ : Table String Item).insert "a" { output with content := .receiving }⟩
    tasks := [.destination "a", .receiving "a" .starting] }

def receiving : Plane :=
  { begun with
    store := ⟨0, (∅ : Table String Item).insert "a"
      { output with content := .receiving, active := some 0 }⟩
    disks := ["a"]
    tasks := [.destination "a", .receiving "a" (.filling 0 [])] }

theorem receiving_reaches : Reaches remote (.new 0) receiving := by
  have reserve : Step remote (.new 0) (.reserve agent .default false "a") reserved :=
    .reserve List.not_mem_nil nofun rfl
  have receive : Step remote reserved (.receive 0) begun := .receive rfl rfl
  have activate : Step remote begun (.activate 1) receiving := .activate rfl rfl
  exact ((Relation.ReflTransGen.single ⟨_, reserve⟩).tail ⟨_, receive⟩).tail ⟨_, activate⟩

theorem accounting_sample :
    ∃ id item, receiving.disks[0]? = some id ∧ receiving.store.items.lookup id = some item ∧
      item.Holds 0 := by
  obtain ⟨-, -, charged, -⟩ := accounting ⟨0, receiving_reaches⟩
  obtain ⟨id, item, mine, found, holds | ⟨-, pending, swept, -⟩⟩ :=
    charged (.receiving "a" (.filling 0 [])) (by decide) 0 (by decide)
  · exact ⟨id, item, mine, found, holds⟩
  · cases swept

end Sample

end McpSsh.Transfers
