import McpSsh.Transfer.Plane

/-!
# What holds of transfers in flight

Each task that has a disk file or a snapshot pins its item: the item is in the
table, with that file, and a sweep that counts the shares spares it. So what a
sweep takes nobody else has, and what is removed from the table is nobody's.
-/

namespace McpSsh.Transfers

/-! ## Lists of tasks -/

section

variable {α β : Type} {g : α → List β} {l : List α} {i j : Nat} {old new a b : α} {x : β}

theorem flatMap_set_sublist (found : l[i]? = some old) (less : (g new).Sublist (g old)) :
    ((l.set i new).flatMap g).Sublist (l.flatMap g) := by
  induction l generalizing i with
  | nil => cases found
  | cons first rest ih =>
    cases i with
    | zero =>
      cases found
      exact less.append_right _
    | succ i => exact (List.Sublist.refl _).append (ih found)

/-- What one of them has is no other's. -/
theorem eq_of_flatMap_nodup (nodup : (l.flatMap g).Nodup) (at_i : l[i]? = some a)
    (at_j : l[j]? = some b) (mine : x ∈ g a) (yours : x ∈ g b) : i = j := by
  induction l generalizing i j with
  | nil => cases at_i
  | cons first rest ih =>
    rw [List.flatMap_cons, List.nodup_append] at nodup
    obtain ⟨-, later, differ⟩ := nodup
    have elsewhere {k : Nat} {c : α} (found : rest[k]? = some c) (has : x ∈ g c) :
        x ∈ rest.flatMap g :=
      List.mem_flatMap.mpr ⟨c, List.mem_of_getElem? found, has⟩
    cases i with
    | zero =>
      cases at_i
      cases j with
      | zero => rfl
      | succ j => exact absurd rfl (differ x mine x (elsewhere at_j yours))
    | succ i =>
      cases j with
      | zero =>
        cases at_j
        exact absurd rfl (differ x yours x (elsewhere at_i mine))
      | succ j => rw [ih later at_i at_j]

theorem mem_set_cases (member : a ∈ l.set i new) : a = new ∨ ∃ j, j ≠ i ∧ l[j]? = some a := by
  obtain ⟨j, found⟩ := List.mem_iff_getElem?.mp member
  rw [List.getElem?_set] at found
  split at found
  · split at found
    · exact .inl (Option.some.inj found).symm
    · cases found
  · rename_i differ
    exact .inr ⟨j, Ne.symm differ, found⟩

theorem mem_set_of_mem (found : l[i]? = some old) (new : α) (member : a ∈ l) :
    a = old ∨ a ∈ l.set i new := by
  obtain ⟨j, found'⟩ := List.mem_iff_getElem?.mp member
  by_cases same : i = j
  · subst same
    rw [found] at found'
    exact .inl (Option.some.inj found').symm
  · right
    apply List.mem_of_getElem?
    rw [List.getElem?_set_ne same]
    exact found'

theorem mem_set_self (found : l[i]? = some old) (new : α) : new ∈ l.set i new :=
  List.mem_set (List.getElem?_eq_some_iff.mp found).1 new

end

/-! ## Items -/

/-- An item has a disk file: the one it receives into, or its snapshot's. -/
def Item.Holds (item : Item) (disk : Nat) : Prop :=
  item.active = some disk ∨ ∃ snapshot, item.content = .ready snapshot ∧ snapshot.disk = disk

/-- Nothing has begun with it, and something may. -/
def Item.Open (item : Item) : Prop :=
  item.content = .pending ∧ item.withdrawn = false ∧ item.cleaning = false

/-- An item has its own files only, and none while it is being cleaned. -/
structure Item.Sound (disks : List String) (id : String) (item : Item) : Prop where
  held : ∀ disk, item.Holds disk → disks[disk]? = some id
  idle : item.content = .pending → item.withdrawn = false → item.active = none
  cleaned : item.cleaning = true →
    item.active = none ∧ item.localFile = none ∧ item.content = .pending
  file : ∀ name, item.localFile = some name →
    name = id ∧ (item.active ≠ none ∨ ∃ snapshot, item.content = .ready snapshot)

/-! ## Tasks -/

/-- What a task needs of its item. -/
inductive Pin
  | receiving (active : Option Nat)
  | active (disk : Nat)
  | ready (snapshot : Snapshot)
  | holds (disk : Nat)

def Pin.Of (item : Item) : Pin → Prop
  | .receiving file => item.content = .receiving ∧ item.active = file
  | .active disk => item.active = some disk
  | .ready bytes => item.content = .ready bytes
  | .holds disk => item.Holds disk

namespace Task

def pin : Task → Option (String × Pin)
  | .receiving id .starting => some (id, .receiving none)
  | .receiving id (.filling disk _) => some (id, .receiving (some disk))
  | .receiving id (.received snapshot) => some (id, .receiving (some snapshot.disk))
  | .publishing id snapshot _ => some (id, .active snapshot.disk)
  | .prepared id snapshot _ | .delivering id snapshot _ _ false => some (id, .ready snapshot)
  | .stray id disk => some (id, .holds disk)
  | _ => none

def Pinned (items : Table String Item) (task : Task) : Prop :=
  ∀ id pin, task.pin = some (id, pin) → ∃ item, items.lookup id = some item ∧ pin.Of item

/-- The item it receives, or has received. -/
def receives : Task → List String
  | .receiving id _ => [id]
  | _ => []

/-- The item whose content it is about to make. -/
def carries : Task → List String
  | .receiving id .starting | .receiving id (.filling ..) | .receiving id (.received _)
  | .publishing id .. => [id]
  | _ => []

/-- What it has to remove, or could not. -/
def keeps : Task → List Pending
  | .cleaning todo => todo
  | .reconciling false first todo => first :: todo
  | .reconciling true _ todo => todo
  | _ => []

/-- A published file has its item's name, and only files stay. -/
def Proper : Task → Prop
  | .publishing id _ (some file) => file = id
  | .reconciling false first _ => first.disk.isSome = true ∨ first.file.isSome = true
  | _ => True

end Task

/-- One receipt for an item, one maker of its content, and one sweep. -/
structure Orderly (tasks : List Task) : Prop where
  receives : (tasks.flatMap Task.receives).Nodup
  carries : (tasks.flatMap Task.carries).Nodup
  apart : ((tasks.flatMap Task.swept).map Pending.id).Nodup
  proper : ∀ task ∈ tasks, task.Proper

section

variable {tasks : List Task} {i : Nat} {old new : Task}

theorem Orderly.set (order : Orderly tasks) (found : tasks[i]? = some old)
    (receives : new.receives.Sublist old.receives) (carries : new.carries.Sublist old.carries)
    (swept : new.swept.Sublist old.swept) (proper : new.Proper) : Orderly (tasks.set i new) where
  receives := (flatMap_set_sublist found receives).nodup order.receives
  carries := (flatMap_set_sublist found carries).nodup order.carries
  apart := ((flatMap_set_sublist found swept).map _).nodup order.apart
  proper task member := by
    rcases mem_set_cases member with rfl | ⟨j, -, found'⟩
    · exact proper
    · exact order.proper task (List.mem_of_getElem? found')

theorem Orderly.append (order : Orderly tasks)
    (receives : ∀ id ∈ new.receives, ∀ task ∈ tasks, id ∉ task.receives)
    (receives' : new.receives.Nodup)
    (carries : ∀ id ∈ new.carries, ∀ task ∈ tasks, id ∉ task.carries)
    (carries' : new.carries.Nodup)
    (swept : ∀ pending ∈ new.swept, ∀ task ∈ tasks, ∀ other ∈ task.swept, other.id ≠ pending.id)
    (swept' : (new.swept.map Pending.id).Nodup) (proper : new.Proper) :
    Orderly (tasks ++ [new]) where
  receives := by
    rw [List.flatMap_append, List.flatMap_singleton, List.nodup_append]
    refine ⟨order.receives, receives', ?_⟩
    rintro id before _ now rfl
    obtain ⟨task, listed, has⟩ := List.mem_flatMap.mp before
    exact receives id now task listed has
  carries := by
    rw [List.flatMap_append, List.flatMap_singleton, List.nodup_append]
    refine ⟨order.carries, carries', ?_⟩
    rintro id before _ now rfl
    obtain ⟨task, listed, has⟩ := List.mem_flatMap.mp before
    exact carries id now task listed has
  apart := by
    rw [List.flatMap_append, List.flatMap_singleton, List.map_append, List.nodup_append]
    refine ⟨order.apart, swept', ?_⟩
    rintro id before _ now rfl
    obtain ⟨other, listed, rfl⟩ := List.mem_map.mp before
    obtain ⟨pending, listed', same⟩ := List.mem_map.mp now
    obtain ⟨task, mine, has⟩ := List.mem_flatMap.mp listed
    exact swept pending listed' task mine other has same.symm
  proper task member := by
    rcases List.mem_append.mp member with before | now
    · exact order.proper task before
    · rw [List.mem_singleton.mp now]
      exact proper

end

/-! ## The store and its tasks -/

/-- Some item has a published file, or will, or had and a sweep is on it. -/
def Plane.Tracked (plane : Plane) (name : String) : Prop :=
  ∃ item, plane.store.items.lookup name = some item ∧
    (item.localFile = some name ∨
      (∃ snapshot, .publishing name snapshot (some name) ∈ plane.tasks) ∨
      ∃ task ∈ plane.tasks, ∃ pending ∈ task.keeps,
        pending.id = name ∧ pending.file = some name)

structure Plane.Inv (plane : Plane) : Prop where
  size : plane.store.items.size ≤ maxItems
  share : ∀ owner, plane.store.items.count (fun item => item.owner = owner) ≤ ownerItems
  drawn : ∀ id, plane.store.items.lookup id ≠ none → id ∈ plane.drawn
  sound : ∀ id item, plane.store.items.lookup id = some item → item.Sound plane.disks id
  order : Orderly plane.tasks
  pinned : ∀ task ∈ plane.tasks, task.Pinned plane.store.items
  begun : ∀ task ∈ plane.tasks, ∀ id ∈ task.receives, id ∈ plane.drawn ∧ ∀ item,
    plane.store.items.lookup id = some item → ¬ item.Open
  swept : ∀ task ∈ plane.tasks, ∀ pending ∈ task.swept, ∃ item,
    plane.store.items.lookup pending.id = some item ∧ item.cleaning = true ∧
      (item.restored pending).Sound plane.disks pending.id
  published : ∀ name ∈ plane.published, plane.Tracked name

end McpSsh.Transfers
