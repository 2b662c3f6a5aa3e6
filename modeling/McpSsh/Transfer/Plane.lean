import Mathlib.Data.List.Dedup
import Mathlib.Logic.Relation
import McpSsh.Transfer.Store

/-!
# Transfers in flight

The store with the tasks that share its files, and one step for each hold of its
lock and each thing that happens between two of them. A task can be stopped
wherever it waits. What it has handed to a worker of its own goes on: a write or
a read of a disk file, a publication, the removal of what a sweep took. What a
call is refused changes nothing, so it is no step.

A disk file has its number from when an item takes it. `disks`, `drawn`,
`issued`, `taken`, `handed` and `completed` are history variables: the item each
disk file was for, the tokens that were made, the credentials given out, the
tickets used, the bytes that began to be handed over, and the items completed.
-/

namespace McpSsh.Transfers

/-- Where a receipt has got to, under the guard that gives the item up when it
is dropped. -/
inductive Stage
  | starting
  | filling (disk : Nat) (got : List UInt8)
  | received (snapshot : Snapshot)
  | waiting
  | ending
  deriving DecidableEq

/-- What holds, or will use, something of an item outside the table. -/
inductive Task
  /-- An upload that is reserved and has no ticket yet. -/
  | authorizing (owner : PrincipalId) (id : String)
  | destination (id : String)
  | receiving (id : String) (stage : Stage)
  /-- The worker that publishes and completes, and the file it has published. -/
  | publishing (id : String) (snapshot : Snapshot) (file : Option String)
  /-- A reader for a placement on a target. -/
  | prepared (id : String) (snapshot : Snapshot) (release : Bool)
  /-- A download's body. Its reader is gone once a read has failed. -/
  | delivering (id : String) (snapshot : Snapshot) (sent : Nat) (release broken : Bool)
  /-- A read or a write that outlives who asked for it. -/
  | stray (id : String) (disk : Nat)
  /-- What a placement or a delivery does last. -/
  | releasing (id : String)
  | cleaning (todo : List Pending)
  | reconciling (removed : Bool) (first : Pending) (todo : List Pending)
  | gone
  deriving DecidableEq

def Pending.snapshots (pending : Pending) : List Snapshot := pending.content.bytes.toList

namespace Task

/-- The disk files it holds an `Arc` of. -/
def files : Task → List Nat
  | .receiving _ (.filling disk _) | .stray _ disk => [disk]
  | .cleaning todo => todo.flatMap (·.disk.toList)
  | .reconciling false first todo => (first :: todo).flatMap (·.disk.toList)
  | .reconciling true _ todo => todo.flatMap (·.disk.toList)
  | _ => []

/-- The snapshots it holds an `Arc` of. -/
def snapshots : Task → List Snapshot
  | .receiving _ (.received snapshot) | .publishing _ snapshot _ | .prepared _ snapshot _
  | .delivering _ snapshot _ _ false => [snapshot]
  | .cleaning todo => todo.flatMap Pending.snapshots
  | .reconciling false first todo => (first :: todo).flatMap Pending.snapshots
  | .reconciling true _ todo => todo.flatMap Pending.snapshots
  | _ => []

/-- The items a sweep has taken for it. -/
def swept : Task → List Pending
  | .cleaning todo => todo
  | .reconciling _ first todo => first :: todo
  | _ => []

/-- The file it reads or writes, and whose. -/
def works : Task → Option (String × Nat)
  | .receiving id (.filling disk _) => some (id, disk)
  | .prepared id snapshot _ | .delivering id snapshot _ _ false => some (id, snapshot.disk)
  | _ => none

end Task

/-- A credential, and who was given it for which item. -/
structure Issue where
  ticket : String
  credential : String
  principal : PrincipalId
  id : String
  deriving DecidableEq

/-- Whom bytes are handed to: a caller, or whoever has a ticket. -/
inductive Recipient
  | caller (principal : PrincipalId)
  | bearer (ticket credential : String)
  deriving DecidableEq

/-- Bytes that begin to be handed over, and their item as it was then. -/
structure Handing where
  id : String
  item : Item
  snapshot : Snapshot
  moment : Nat
  recipient : Recipient
  deriving DecidableEq

structure Plane where
  store : Store
  tasks : List Task
  published : List String
  disks : List String
  drawn : List String
  issued : List Issue
  taken : List String
  handed : List Handing
  completed : List String

namespace Plane

/-- A store that has just been made. -/
def new (clock : Nat) : Plane where
  store := ⟨clock, ∅⟩
  tasks := []
  published := []
  disks := []
  drawn := []
  issued := []
  taken := []
  handed := []
  completed := []

/-- Every `Arc` of a snapshot. -/
def snapshots (plane : Plane) : List Snapshot :=
  plane.store.items.entries.filterMap (·.2.content.bytes) ++ plane.tasks.flatMap Task.snapshots

/-- Every `Arc` of a disk file: those of items and tasks, and one of each
snapshot. -/
def files (plane : Plane) : List Nat :=
  plane.store.items.entries.filterMap (·.2.active) ++ plane.tasks.flatMap Task.files ++
    plane.snapshots.dedup.map Snapshot.disk

def counts (plane : Plane) : Counts where
  disk disk := plane.files.count disk
  snapshot snapshot := plane.snapshots.count snapshot

end Plane

/-- What `disk::receive` makes of a file that was filled. -/
def Snapshot.whole (setting : Setting) (disk : Nat) (got : List UInt8) : Snapshot :=
  ⟨disk, UInt64.ofNat got.length, setting.sha256 got, got⟩

inductive Act
  | tick (now : Nat)
  | reserve (owner : PrincipalId) (params : UploadParams) (upload : Bool) (id : String)
  | authorizeUpload (task : Nat) (ticket credential : String)
  | authorizeDownload (owner : PrincipalId) (uri ticket credential : String)
  | input (owner : PrincipalId) (uri : String)
  | localInput (uri : String)
  | put (ticket credential : String)
  | get (ticket credential : String)
  | receive (task : Nat)
  | drop (task : Nat)
  | activate (task : Nat)
  | fill (task : Nat) (data : List UInt8)
  | finish (task : Nat)
  | check (task : Nat)
  | stop (task : Nat)
  | giveUp (task : Nat)
  | publish (task : Nat)
  | complete (task : Nat)
  | orphan (task : Nat) (removed : Bool)
  | straggle (task : Nat)
  | settle (task : Nat)
  | close (task : Nat)
  | place (task : Nat)
  | deliver (task : Nat) (count : Nat)
  | fail (task : Nat)
  | exhaust (task : Nat)
  | release (task : Nat)
  | sweep (now : Nat)
  | unlink (task : Nat) (removed : Bool)
  | reconcile (task : Nat)

section

variable (setting : Setting)

/-- One step. The tokens it draws are new: they are 256 random bits. -/
inductive Step (plane : Plane) : Act → Plane → Prop
  | tick {now} (later : plane.store.clock ≤ now) :
    Step plane (.tick now) { plane with store := { plane.store with clock := now } }
  | reserve {owner params upload id store} (fresh : id ∉ plane.drawn)
    (remote : upload = true → setting.isLocal = false)
    (admitted : plane.store.reserve setting owner params upload id = .ok store) :
    Step plane (.reserve owner params upload id)
      { plane with
        store
        drawn := id :: plane.drawn
        tasks := plane.tasks ++ [if upload then .authorizing owner id else .destination id] }
  | authorizeUpload {i owner id ticket credential result store}
    (task : plane.tasks[i]? = some (.authorizing owner id))
    (fresh : ticket ∉ plane.drawn) (fresh' : credential ∉ ticket :: plane.drawn)
    (issued : plane.store.authorizeUpload setting id ticket credential = .ok (result, store)) :
    Step plane (.authorizeUpload i ticket credential)
      { plane with
        store
        drawn := credential :: ticket :: plane.drawn
        issued := ⟨ticket, credential, owner, id⟩ :: plane.issued
        tasks := plane.tasks.set i .gone }
  | authorizeDownload {owner uri id ticket credential result store}
    (fresh : ticket ∉ plane.drawn) (fresh' : credential ∉ ticket :: plane.drawn)
    (issued : plane.store.authorizeDownload setting owner uri ticket credential =
      .ok (id, result, store)) :
    Step plane (.authorizeDownload owner uri ticket credential)
      { plane with
        store
        drawn := credential :: ticket :: plane.drawn
        issued := ⟨ticket, credential, owner, id⟩ :: plane.issued }
  | input {owner uri id snapshot release item} (remote : setting.isLocal = false)
    (served : plane.store.input owner uri = .ok (id, snapshot, release))
    (found : plane.store.items.lookup id = some item) :
    Step plane (.input owner uri)
      { plane with
        tasks := plane.tasks ++ [.prepared id snapshot release]
        handed := ⟨id, item, snapshot, plane.store.clock, .caller owner⟩ :: plane.handed }
  | localInput {uri id snapshot} (here : setting.isLocal = true)
    (served : plane.store.localSource setting uri = .ok (some (id, snapshot))) :
    Step plane (.localInput uri)
      { plane with tasks := plane.tasks ++ [.prepared id snapshot false] }
  | put {ticket credential id release store} (remote : setting.isLocal = false)
    (took : plane.store.takeTicket setting ticket credential true =
      .ok (⟨id, none, release⟩, store)) :
    Step plane (.put ticket credential)
      { plane with
        store
        tasks := plane.tasks ++ [.receiving id .starting]
        taken := ticket :: plane.taken }
  | get {ticket credential id snapshot release store item} (remote : setting.isLocal = false)
    (took : plane.store.takeTicket setting ticket credential false =
      .ok (⟨id, some snapshot, release⟩, store))
    (found : plane.store.items.lookup id = some item) :
    Step plane (.get ticket credential)
      { plane with
        store
        tasks := plane.tasks ++ [.delivering id snapshot 0 release false]
        taken := ticket :: plane.taken
        handed :=
          ⟨id, item, snapshot, plane.store.clock, .bearer ticket credential⟩ :: plane.handed }
  | receive {i id store} (task : plane.tasks[i]? = some (.destination id))
    (began : plane.store.begin id = some store) :
    Step plane (.receive i)
      { plane with store, tasks := plane.tasks ++ [.receiving id .starting] }
  /-- A destination outlives what it receives. -/
  | drop {i id} (task : plane.tasks[i]? = some (.destination id))
    (idle : ∀ stage, .receiving id stage ∉ plane.tasks) :
    Step plane (.drop i)
      { plane with store := plane.store.abandon id, tasks := plane.tasks.set i .gone }
  | activate {i id store} (task : plane.tasks[i]? = some (.receiving id .starting))
    (active : plane.store.activate id plane.disks.length = some store) :
    Step plane (.activate i)
      { plane with
        store
        disks := plane.disks ++ [id]
        tasks := plane.tasks.set i (.receiving id (.filling plane.disks.length [])) }
  | fill {i id disk got data} (task : plane.tasks[i]? = some (.receiving id (.filling disk got)))
    (within : (got ++ data).length ≤ setting.maxBytes.toNat) :
    Step plane (.fill i data)
      { plane with tasks := plane.tasks.set i (.receiving id (.filling disk (got ++ data))) }
  | finish {i id disk got} (task : plane.tasks[i]? = some (.receiving id (.filling disk got))) :
    Step plane (.finish i)
      { plane with
        tasks := plane.tasks.set i (.receiving id (.received (.whole setting disk got))) }
  | check {i id snapshot} (task : plane.tasks[i]? = some (.receiving id (.received snapshot)))
    (agrees : plane.store.agrees setting id snapshot = true) :
    Step plane (.check i)
      { plane with
        tasks := plane.tasks.set i (.receiving id .waiting) ++ [.publishing id snapshot none] }
  /-- A receipt that fails, is cancelled, or is over. -/
  | stop {i id stage} (task : plane.tasks[i]? = some (.receiving id stage)) :
    Step plane (.stop i) { plane with tasks := plane.tasks.set i (.receiving id .ending) }
  | giveUp {i id} (task : plane.tasks[i]? = some (.receiving id .ending)) :
    Step plane (.giveUp i)
      { plane with store := plane.store.abandon id, tasks := plane.tasks.set i .gone }
  | publish {i id snapshot} (here : setting.isLocal = true)
    (task : plane.tasks[i]? = some (.publishing id snapshot none))
    (unused : id ∉ plane.published) :
    Step plane (.publish i)
      { plane with
        published := id :: plane.published
        tasks := plane.tasks.set i (.publishing id snapshot (some id)) }
  | complete {i id snapshot file item}
    (task : plane.tasks[i]? = some (.publishing id snapshot file))
    (done : file.isSome = setting.isLocal)
    (found : plane.store.items.lookup id = some item) :
    Step plane (.complete i)
      { plane with
        store := (plane.store.complete setting id snapshot file).2
        tasks := plane.tasks.set i .gone
        completed :=
          if item.content = .receiving then id :: plane.completed else plane.completed }
  /-- A completion without its item drops the published file. -/
  | orphan {i id snapshot file removed}
    (task : plane.tasks[i]? = some (.publishing id snapshot file))
    (missing : plane.store.items.lookup id = none) :
    Step plane (.orphan i removed)
      { plane with
        tasks := plane.tasks.set i .gone
        published :=
          if removed then plane.published.filter (some · ≠ file) else plane.published }
  | straggle {i task id disk} (task' : plane.tasks[i]? = some task)
    (works : task.works = some (id, disk)) :
    Step plane (.straggle i) { plane with tasks := plane.tasks ++ [.stray id disk] }
  | settle {i id disk} (task : plane.tasks[i]? = some (.stray id disk)) :
    Step plane (.settle i) { plane with tasks := plane.tasks.set i .gone }
  /-- Whoever has no more use for it: an upload without a ticket, a publication
  that failed, a reader or a body that is dropped. -/
  | close {i task} (task' : plane.tasks[i]? = some task)
    (closes : match task with
      | .authorizing .. | .publishing _ _ none | .prepared .. | .delivering .. => True
      | _ => False) :
    Step plane (.close i) { plane with tasks := plane.tasks.set i .gone }
  /-- `PreparedUpload::succeeded`, which closes the reader first. -/
  | place {i id snapshot release}
    (task : plane.tasks[i]? = some (.prepared id snapshot release)) :
    Step plane (.place i)
      { plane with tasks := plane.tasks.set i (if release then .releasing id else .gone) }
  | deliver {i id snapshot sent release count}
    (task : plane.tasks[i]? = some (.delivering id snapshot sent release false))
    (some' : 0 < count) (there : sent + count ≤ snapshot.content.length)
    (unread : sent < snapshot.size.toNat) :
    Step plane (.deliver i count)
      { plane with
        tasks := plane.tasks.set i (.delivering id snapshot (sent + count) release false) }
  /-- A read that fails, before the end. -/
  | fail {i id snapshot sent release}
    (task : plane.tasks[i]? = some (.delivering id snapshot sent release false))
    (unread : sent < snapshot.size.toNat) :
    Step plane (.fail i)
      { plane with tasks := plane.tasks.set i (.delivering id snapshot sent release true) }
  /-- A body polled to its end: after a failure, or after all of the file. -/
  | exhaust {i id snapshot sent release broken}
    (task : plane.tasks[i]? = some (.delivering id snapshot sent release broken))
    (over' : broken = false → snapshot.size.toNat ≤ sent) :
    Step plane (.exhaust i)
      { plane with
        tasks := plane.tasks.set i
          (if release && sent = snapshot.size.toNat then .releasing id else .gone) }
  | release {i id} (task : plane.tasks[i]? = some (.releasing id)) :
    Step plane (.release i)
      { plane with store := plane.store.withdrawDelivered id, tasks := plane.tasks.set i .gone }
  | sweep {now} (past : now ≤ plane.store.clock)
    (some' : (plane.store.sweep plane.counts now).1 ≠ []) :
    Step plane (.sweep now)
      { plane with
        store := (plane.store.sweep plane.counts now).2
        tasks := plane.tasks ++ [.cleaning (plane.store.sweep plane.counts now).1] }
  /-- Only a file with a name can be in the way of its removal. -/
  | unlink {i first todo removed} (task : plane.tasks[i]? = some (.cleaning (first :: todo)))
    (named : removed = false →
      setting.isLocal = true ∧ (first.disk.isSome = true ∨ first.file.isSome = true)) :
    Step plane (.unlink i removed)
      { plane with
        tasks := plane.tasks.set i (.reconciling removed first todo)
        published :=
          if removed then plane.published.filter (some · ≠ first.file) else plane.published }
  | reconcile {i first todo removed}
    (task : plane.tasks[i]? = some (.reconciling removed first todo)) :
    Step plane (.reconcile i)
      { plane with
        store := plane.store.reconcile first removed
        tasks := plane.tasks.set i (.cleaning todo) }

/-- Any number of steps. -/
def Reaches : Plane → Plane → Prop :=
  Relation.ReflTransGen fun plane next => ∃ act, Step setting plane act next

/-- What a store can come to, whatever its tasks do and in whatever order. -/
def Reachable (plane : Plane) : Prop := ∃ clock, Reaches setting (.new clock) plane

end

end McpSsh.Transfers
