import McpSsh.Lib.Table
import McpSsh.Runs.Outcome
import McpSsh.Transfer.Reference

/-!
# The transfer store

`Transfers`, one function for each hold of its lock. What is charged is an item;
what holds bytes is a disk file, or a snapshot of a complete one, which the item
shares with whoever is writing or reading.
-/

namespace McpSsh.Transfers

/-- `MAX_ITEMS`. -/
def maxItems : Nat := 16

/-- `OWNER_ITEMS`. -/
def ownerItems : Nat := 4

/-- `TTL`, in milliseconds. -/
def ttl : Nat := 300000

def uriPrefix : String := "mcp-file://mcp-ssh/"

/-- `HEADER`. -/
def header : String := "x-mcp-transfer-credential"

/-- What the store was built with, and what it uses of libraries: SHA-256,
unpadded URL-safe base64, and the paths of a local store as URIs. -/
structure Setting where
  maxBytes : UInt64
  origin : String
  isLocal : Bool
  localUri : String → Option String
  outputId : String → Option String
  sha256 : List UInt8 → List UInt8
  encode : List UInt8 → String
  decode : String → Option (List UInt8)

/-- A complete file. `content` is what is on the disk. -/
structure Snapshot where
  disk : Nat
  size : UInt64
  digest : List UInt8
  content : List UInt8
  deriving DecidableEq

def Snapshot.identity (snapshot : Snapshot) (uri : String) : FileIdentity :=
  ⟨uri, snapshot.size, hex snapshot.digest⟩

/-- What a complete snapshot is declared by. -/
def Snapshot.fileDigest (setting : Setting) (snapshot : Snapshot) : FileDigest :=
  ⟨"sha-256", setting.encode snapshot.digest⟩

inductive Content
  | pending
  | receiving
  | ready (snapshot : Snapshot)
  deriving DecidableEq

/-- The snapshot an item shares. -/
def Content.bytes : Content → Option Snapshot
  | .ready snapshot => some snapshot
  | .pending | .receiving => none

structure Ticket where
  id : String
  credential : List UInt8
  deriving DecidableEq

/-- One reserved item. `localFile` is the name of its published file, and
`declared`, a history variable, the reference it was reserved with. -/
structure Item where
  localFile : Option String
  owner : PrincipalId
  created : Nat
  reference : Reference
  content : Content
  upload : Bool
  active : Option Nat
  ticket : Option Ticket
  cleaning : Bool
  withdrawn : Bool
  declared : Reference
  deriving DecidableEq

structure UploadParams where
  name : Option String
  mimeType : Option String
  size : Option UInt64
  digest : Option FileDigest
  deriving DecidableEq

/-- `UploadParams::default`. -/
def UploadParams.default : UploadParams := ⟨none, none, none, none⟩

structure Descriptor where
  transport : String
  method : String
  url : String
  headers : List (String × String)
  deriving DecidableEq

structure UploadResult where
  file : Reference
  upload : Descriptor
  deriving DecidableEq

structure DownloadResult where
  file : Reference
  download : Descriptor
  sensitivity : String
  deriving DecidableEq

structure Ticketed where
  id : String
  bytes : Option Snapshot
  releaseOnDelivery : Bool
  deriving DecidableEq

/-- What a sweep takes from an item to be removed outside the lock. -/
structure Pending where
  id : String
  disk : Option Nat
  file : Option String
  content : Content
  deriving DecidableEq

structure Store where
  clock : Nat
  items : Table String Item

/-- `Arc::strong_count`, of a disk file and of a snapshot. -/
structure Counts where
  disk : Nat → Nat
  snapshot : Snapshot → Nat

/-- What of a declaration the store does not take. -/
def UploadParams.refused (setting : Setting) (params : UploadParams) : Option TransferError :=
  if params.size.any (setting.maxBytes < ·) || params.name.any (255 < ·.utf8ByteSize) ||
      params.mimeType.any (255 < ·.utf8ByteSize) then
    some .limit
  else
    match params.digest with
    | none => none
    | some digest =>
      if digest.algorithm ≠ "sha-256" then some .integrity
      else
        match setting.decode digest.value with
        | none => some .integrity
        | some bytes => if bytes.length ≠ 32 then some .integrity else none

namespace Item

/-- Whether its time is up. -/
def expired (item : Item) (now : Nat) : Bool := ttl ≤ now - item.created

/-- `retained`. -/
def retained (counts : Counts) (item : Item) (now : Nat) : Bool :=
  (!item.withdrawn && !item.expired now) || item.content = .receiving ||
    item.active.any (fun disk => 1 < counts.disk disk) ||
    match item.content with
    | .ready bytes => 1 < counts.snapshot bytes || 1 < counts.disk bytes.disk
    | .pending | .receiving => false

def reserved (owner : PrincipalId) (params : UploadParams) (upload : Bool) (now : Nat)
    (uri : String) : Item :=
  let reference : Reference := ⟨uri, params.name, params.mimeType, params.size, params.digest⟩
  { localFile := none
    owner
    created := now
    reference
    content := .pending
    upload
    active := none
    ticket := none
    cleaning := false
    withdrawn := false
    declared := reference }

/-- The first half of `issue`. -/
def issue (setting : Setting) (item : Item) (ticket credential : String) : Item :=
  { item with ticket := some ⟨ticket, setting.sha256 (asBytes credential)⟩ }

/-- `Item::complete`, with what it makes of the item whether it fails or not. -/
def complete (setting : Setting) (item : Item) (snapshot : Snapshot) (localFile : Option String)
    (now : Nat) : Except Failure FileIdentity × Item :=
  let item := { item with localFile }
  if item.content ≠ .receiving then (.error .publicationUnavailable, item)
  else
    (.ok (snapshot.identity item.reference.uri),
      { item with
        reference :=
          { item.reference with
            size := some snapshot.size
            digest := some (snapshot.fileDigest setting) }
        content := .ready snapshot
        active := none
        created := now })

/-- What a sweep leaves of an item it takes. -/
def swept (item : Item) : Item :=
  { item with cleaning := true, active := none, localFile := none, content := .pending }

/-- And what it takes. -/
def pending (id : String) (item : Item) : Pending := ⟨id, item.active, item.localFile, item.content⟩

/-- What a sweep gives back that could not remove the files. -/
def restored (item : Item) (pending : Pending) : Item :=
  { item with
    active := pending.disk
    localFile := pending.file
    content := pending.content
    cleaning := false }

end Item

/-- The second half of `issue`. -/
def descriptor (setting : Setting) (method ticket credential : String) : Descriptor where
  transport := "http"
  method
  url := setting.origin ++ "/files/bytes/" ++ ticket
  headers := [(header, credential)]

/-- `str::strip_prefix`, of the prefix of a reference. -/
def stripPrefix (uri : String) : Option String :=
  if uriPrefix.toList <+: uri.toList then some (String.ofList (uri.toList.drop uriPrefix.length))
  else none

namespace Store

def reserve (setting : Setting) (store : Store) (owner : PrincipalId) (params : UploadParams)
    (upload : Bool) (id : String) : Except TransferError Store :=
  match params.refused setting with
  | some error => .error error
  | none =>
    if maxItems ≤ store.items.size || ownerItems ≤ store.items.count (fun item => item.owner = owner)
    then .error .capacity
    else
      match if setting.isLocal then setting.localUri id else some (uriPrefix ++ id) with
      | none => .error .limit
      | some uri =>
        .ok { store with
          items := store.items.insert id (Item.reserved owner params upload store.clock uri) }

def owned (store : Store) (owner : PrincipalId) (uri : String) :
    Except TransferError (String × Item) :=
  match stripPrefix uri with
  | none => .error .unknown
  | some id =>
    match store.items.lookup id with
    | none => .error .unknown
    | some item =>
      if item.cleaning || item.withdrawn || item.owner ≠ owner || item.expired store.clock then
        .error .unknown
      else .ok (id, item)

/-- What is left of `authorize_upload` once the item is reserved. -/
def authorizeUpload (setting : Setting) (store : Store) (id ticket credential : String) :
    Except TransferError (UploadResult × Store) :=
  match store.items.lookup id with
  | none => .error .unknown
  | some item =>
    .ok (⟨item.reference, descriptor setting "PUT" ticket credential⟩,
      { store with items := store.items.modify id (·.issue setting ticket credential) })

def authorizeDownload (setting : Setting) (store : Store) (owner : PrincipalId)
    (uri ticket credential : String) : Except TransferError (String × DownloadResult × Store) :=
  match store.owned owner uri with
  | .error error => .error error
  | .ok (id, item) =>
    match item.content with
    | .pending | .receiving => .error .unknown
    | .ready _ =>
      .ok (id, ⟨item.reference, descriptor setting "GET" ticket credential, "secret"⟩,
        { store with items := store.items.modify id (·.issue setting ticket credential) })

/-- `input` of a store that is not local: the item, its bytes, and whether a
placement of them releases it. -/
def input (store : Store) (owner : PrincipalId) (uri : String) :
    Except TransferError (String × Snapshot × Bool) :=
  match store.owned owner uri with
  | .error error => .error error
  | .ok (id, item) =>
    match item.content with
    | .pending | .receiving => .error .unknown
    | .ready bytes => .ok (id, bytes, item.upload)

/-- `local_source`. -/
def localSource (setting : Setting) (store : Store) (uri : String) :
    Except TransferError (Option (String × Snapshot)) :=
  match setting.outputId uri with
  | none => .ok none
  | some id =>
    match store.items.lookup id with
    | none => .error .unknown
    | some item =>
      if item.cleaning || item.expired store.clock then .error .unknown
      else
        match item.content with
        | .pending | .receiving => .error .unknown
        | .ready snapshot => .ok (some (id, snapshot))

/-- `Destination::receive`, up to the receiving. -/
def begin (store : Store) (id : String) : Option Store :=
  match store.items.lookup id with
  | none => none
  | some item =>
    if item.cleaning || item.withdrawn || item.content ≠ .pending || item.upload ||
        item.expired store.clock then none
    else some { store with items := store.items.modify id ({ · with content := .receiving }) }

/-- A disk file becomes its item's. -/
def activate (store : Store) (id : String) (disk : Nat) : Option Store :=
  match store.items.lookup id with
  | none => none
  | some item =>
    if item.content ≠ .receiving then none
    else some { store with items := store.items.modify id ({ · with active := some disk }) }

/-- Whether what came in is what was declared. -/
def agrees (setting : Setting) (store : Store) (id : String) (snapshot : Snapshot) : Bool :=
  match store.items.lookup id with
  | none => false
  | some item =>
    !(item.reference.size.any (· ≠ snapshot.size) ||
      item.reference.digest.any (· ≠ snapshot.fileDigest setting))

/-- The end of `receive`. Without an item there is nothing to complete. -/
def complete (setting : Setting) (store : Store) (id : String) (snapshot : Snapshot)
    (localFile : Option String) : Except Failure FileIdentity × Store :=
  match store.items.lookup id with
  | none => (.error .publicationUnavailable, store)
  | some item =>
    ((item.complete setting snapshot localFile store.clock).1,
      { store with
        items := store.items.modify id fun item =>
          (item.complete setting snapshot localFile store.clock).2 })

/-- `take_ticket`. -/
def takeTicket (setting : Setting) (store : Store) (ticket credential : String) (upload : Bool) :
    Except TransferError (Ticketed × Store) :=
  match store.items.entries.find? fun entry => entry.2.ticket.any (·.id = ticket) with
  | none => .error .unknown
  | some ⟨id, item⟩ =>
    if item.cleaning || item.withdrawn || item.expired store.clock ||
        item.ticket.all (·.credential ≠ setting.sha256 (asBytes credential)) then
      .error .unknown
    else
      match item.content, upload, item.upload with
      | .pending, true, true =>
        .ok (⟨id, none, false⟩,
          { store with
            items := store.items.modify id ({ · with ticket := none, content := .receiving }) })
      | .ready bytes, false, reserved =>
        .ok (⟨id, some bytes, !reserved⟩,
          { store with items := store.items.modify id ({ · with ticket := none }) })
      | _, _, _ => .error .unknown

def abandon (store : Store) (id : String) : Store :=
  match store.items.lookup id with
  | none => store
  | some item =>
    match item.content with
    | .ready _ => store
    | .pending | .receiving =>
      if item.active.isNone && !item.cleaning then
        { store with items := store.items.erase id }
      else
        { store with
          items := store.items.modify id ({ · with content := .pending, withdrawn := true }) }

/-- The first half of `sweep`: what is no longer retained, and the table with
that being cleaned. It reads the clock before it has the lock. -/
def sweep (store : Store) (counts : Counts) (now : Nat) : List Pending × Store :=
  let spares (item : Item) : Bool := item.cleaning || item.retained counts now
  (store.items.entries.filterMap fun entry =>
      if spares entry.2 then none else some (entry.2.pending entry.1),
    { store with
      items := store.items.mapValues fun _ item => if spares item then item else item.swept })

/-- The second half, for one item: its files were removed, or not. -/
def reconcile (store : Store) (pending : Pending) (removed : Bool) : Store :=
  if removed then { store with items := store.items.erase pending.id }
  else { store with items := store.items.modify pending.id (·.restored pending) }

/-- `withdraw_delivered`. -/
def withdrawDelivered (store : Store) (id : String) : Store :=
  match store.items.lookup id with
  | none => store
  | some item =>
    match item.content with
    | .pending | .receiving => store
    | .ready _ => { store with items := store.items.modify id ({ · with withdrawn := true }) }

/-! ## What each of them does -/

variable {setting : Setting} {store next : Store} {owner : PrincipalId} {params : UploadParams}
  {upload release removed : Bool} {id uri ticket credential : String} {item : Item} {disk : Nat}
  {snapshot : Snapshot}

theorem reserve_ok (done : store.reserve setting owner params upload id = .ok next) :
    store.items.size < maxItems ∧ store.items.count (fun item => item.owner = owner) < ownerItems ∧
      params.refused setting = none ∧
      ∃ uri, next = { store with
        items := store.items.insert id (Item.reserved owner params upload store.clock uri) } := by
  unfold reserve at done
  cases refused : params.refused setting with
  | some error =>
    rw [refused] at done
    cases done
  | none =>
    rw [refused] at done
    dsimp only at done
    split at done
    · cases done
    · rename_i room
      simp only [Bool.or_eq_true, decide_eq_true_eq, not_or, Nat.not_le] at room
      split at done
      · cases done
      · rename_i uri _
        exact ⟨room.1, room.2, rfl, uri, (Except.ok.inj done).symm⟩

theorem owned_ok (done : store.owned owner uri = .ok (id, item)) :
    stripPrefix uri = some id ∧ store.items.lookup id = some item ∧ item.cleaning = false ∧
      item.withdrawn = false ∧ item.owner = owner ∧ item.expired store.clock = false := by
  unfold owned at done
  cases name : stripPrefix uri with
  | none =>
    rw [name] at done
    cases done
  | some id' =>
    rw [name] at done
    dsimp only at done
    cases found : store.items.lookup id' with
    | none =>
      rw [found] at done
      cases done
    | some item' =>
      rw [found] at done
      dsimp only at done
      split at done
      · cases done
      · rename_i live
        cases done
        simp only [Bool.or_eq_true, decide_eq_true_eq, not_or, Bool.not_eq_true, ne_eq,
          Decidable.not_not] at live
        obtain ⟨⟨⟨cleaning, withdrawn⟩, owns⟩, expired⟩ := live
        exact ⟨rfl, found, cleaning, withdrawn, owns, expired⟩

theorem authorizeUpload_ok {result : UploadResult}
    (done : store.authorizeUpload setting id ticket credential = .ok (result, next)) :
    ∃ item, store.items.lookup id = some item ∧ next = { store with
      items := store.items.modify id (·.issue setting ticket credential) } := by
  unfold authorizeUpload at done
  cases found : store.items.lookup id with
  | none =>
    rw [found] at done
    cases done
  | some item =>
    rw [found] at done
    cases done
    exact ⟨item, rfl, rfl⟩

theorem authorizeDownload_ok {result : DownloadResult}
    (done : store.authorizeDownload setting owner uri ticket credential = .ok (id, result, next)) :
    ∃ item snapshot, store.owned owner uri = .ok (id, item) ∧ item.content = .ready snapshot ∧
      next = { store with items := store.items.modify id (·.issue setting ticket credential) } := by
  unfold authorizeDownload at done
  cases owns : store.owned owner uri with
  | error error =>
    rw [owns] at done
    cases done
  | ok found =>
    obtain ⟨id', item⟩ := found
    rw [owns] at done
    dsimp only at done
    cases content : item.content with
    | pending => simp [content] at done
    | receiving => simp [content] at done
    | ready snapshot =>
      rw [content] at done
      cases done
      exact ⟨item, snapshot, rfl, content, rfl⟩

theorem input_ok (done : store.input owner uri = .ok (id, snapshot, release)) :
    ∃ item, store.owned owner uri = .ok (id, item) ∧ item.content = .ready snapshot ∧
      release = item.upload := by
  unfold input at done
  cases owns : store.owned owner uri with
  | error error =>
    rw [owns] at done
    cases done
  | ok found =>
    obtain ⟨id', item⟩ := found
    rw [owns] at done
    dsimp only at done
    cases content : item.content with
    | pending => simp [content] at done
    | receiving => simp [content] at done
    | ready snapshot' =>
      rw [content] at done
      cases done
      exact ⟨item, rfl, content, rfl⟩

theorem localSource_ok (done : store.localSource setting uri = .ok (some (id, snapshot))) :
    ∃ item, store.items.lookup id = some item ∧ item.content = .ready snapshot := by
  unfold localSource at done
  cases name : setting.outputId uri with
  | none =>
    rw [name] at done
    cases done
  | some id' =>
    rw [name] at done
    dsimp only at done
    cases found : store.items.lookup id' with
    | none =>
      rw [found] at done
      cases done
    | some item =>
      rw [found] at done
      dsimp only at done
      split at done
      · cases done
      · cases content : item.content with
        | pending => simp [content] at done
        | receiving => simp [content] at done
        | ready snapshot' =>
          rw [content] at done
          cases done
          exact ⟨item, found, content⟩

theorem begin_some (done : store.begin id = some next) :
    ∃ item, store.items.lookup id = some item ∧ item.cleaning = false ∧
      item.withdrawn = false ∧ item.content = .pending ∧ item.upload = false ∧
      next = { store with items := store.items.modify id ({ · with content := .receiving }) } := by
  unfold begin at done
  cases found : store.items.lookup id with
  | none =>
    rw [found] at done
    cases done
  | some item =>
    rw [found] at done
    dsimp only at done
    split at done
    · cases done
    · rename_i live
      simp only [Bool.or_eq_true, decide_eq_true_eq, not_or, Bool.not_eq_true, ne_eq,
        Decidable.not_not] at live
      obtain ⟨⟨⟨⟨cleaning, withdrawn⟩, content⟩, upload⟩, -⟩ := live
      exact ⟨item, rfl, cleaning, withdrawn, content, upload, (Option.some.inj done).symm⟩

theorem activate_some (done : store.activate id disk = some next) :
    ∃ item, store.items.lookup id = some item ∧ item.content = .receiving ∧
      next = { store with items := store.items.modify id ({ · with active := some disk }) } := by
  unfold activate at done
  cases found : store.items.lookup id with
  | none =>
    rw [found] at done
    cases done
  | some item =>
    rw [found] at done
    dsimp only at done
    split at done
    · cases done
    · rename_i content
      exact ⟨item, rfl, Decidable.not_not.mp content, (Option.some.inj done).symm⟩

theorem agrees_iff : store.agrees setting id snapshot = true ↔
    ∃ item, store.items.lookup id = some item ∧
      (∀ size, item.reference.size = some size → size = snapshot.size) ∧
      ∀ digest, item.reference.digest = some digest → digest = snapshot.fileDigest setting := by
  unfold agrees
  cases found : store.items.lookup id with
  | none => simp
  | some item =>
    simp only [Option.some.injEq, exists_eq_left']
    cases item.reference.size <;> cases item.reference.digest <;> simp

/-- What was received completes its item, unless that was given up meanwhile. -/
theorem complete_cases (setting : Setting) (snapshot : Snapshot) (localFile : Option String)
    (found : store.items.lookup id = some item) :
    (item.content = .receiving ∧ (store.complete setting id snapshot localFile).2 = { store with
        items := store.items.modify id fun item =>
          { item with
            localFile
            reference :=
              { item.reference with
                size := some snapshot.size
                digest := some (snapshot.fileDigest setting) }
            content := .ready snapshot
            active := none
            created := store.clock } }) ∨
      (item.content ≠ .receiving ∧ (store.complete setting id snapshot localFile).2 =
        { store with items := store.items.modify id ({ · with localFile }) }) := by
  rw [complete, found]
  dsimp only
  by_cases receiving : item.content = .receiving
  · left
    refine ⟨receiving, ?_⟩
    rw [Table.modify_congr found]
    simp [Item.complete, receiving]
  · right
    refine ⟨receiving, ?_⟩
    rw [Table.modify_congr found]
    simp [Item.complete, receiving]

/-- A used ticket was its item's, which served. -/
theorem takeTicket_ok {ticketed : Ticketed}
    (done : store.takeTicket setting ticket credential upload = .ok (ticketed, next)) :
    ∃ item held, store.items.lookup ticketed.id = some item ∧ item.cleaning = false ∧
      item.withdrawn = false ∧ item.expired store.clock = false ∧ item.ticket = some held ∧
      held.id = ticket ∧ held.credential = setting.sha256 (asBytes credential) ∧
      ((upload = true ∧ item.upload = true ∧ item.content = .pending ∧ ticketed.bytes = none ∧
        next = { store with
          items := store.items.modify ticketed.id
            ({ · with ticket := none, content := .receiving }) }) ∨
      ∃ snapshot, upload = false ∧ item.content = .ready snapshot ∧
        ticketed.bytes = some snapshot ∧ ticketed.releaseOnDelivery = !item.upload ∧
        next = { store with
          items := store.items.modify ticketed.id ({ · with ticket := none }) }) := by
  unfold takeTicket at done
  split at done
  · cases done
  · rename_i id item entry
    have found : store.items.lookup id = some item :=
      AList.mem_lookup_iff.mpr (List.mem_of_find?_eq_some entry)
    have named := List.find?_some entry
    split at done
    · cases done
    · rename_i live
      simp only [Bool.or_eq_true, not_or, Bool.not_eq_true] at live
      obtain ⟨⟨⟨cleaning, withdrawn⟩, expired⟩, same⟩ := live
      obtain ⟨held, has, named⟩ := (Option.any_eq_true _ _).mp named
      rw [has] at same
      simp only [Option.all_some, ne_eq, decide_not, Bool.not_eq_eq_eq_not, Bool.not_false,
        decide_eq_true_eq] at same
      split at done
      · rename_i content upload'
        cases done
        exact ⟨item, held, found, cleaning, withdrawn, expired, has, of_decide_eq_true named,
          same, .inl ⟨rfl, upload', content, rfl, rfl⟩⟩
      · rename_i snapshot content
        cases done
        exact ⟨item, held, found, cleaning, withdrawn, expired, has, of_decide_eq_true named,
          same, .inr ⟨snapshot, rfl, content, rfl, rfl, rfl⟩⟩
      · cases done

/-- Nothing is given up of a complete item. What holds no file goes, and the
rest is withdrawn. -/
theorem abandon_cases (found : store.items.lookup id = some item) :
    ((∃ snapshot, item.content = .ready snapshot) ∧ store.abandon id = store) ∨
      ((∀ snapshot, item.content ≠ .ready snapshot) ∧ item.active = none ∧
        item.cleaning = false ∧
        store.abandon id = { store with items := store.items.erase id }) ∨
      ((∀ snapshot, item.content ≠ .ready snapshot) ∧
        ¬ (item.active = none ∧ item.cleaning = false) ∧
        store.abandon id = { store with
          items := store.items.modify id ({ · with content := .pending, withdrawn := true }) }) := by
  unfold abandon
  rw [found]
  dsimp only
  cases content : item.content with
  | ready snapshot => exact .inl ⟨⟨snapshot, rfl⟩, rfl⟩
  | pending =>
    by_cases empty : item.active = none ∧ item.cleaning = false
    · exact .inr (.inl ⟨nofun, empty.1, empty.2, by simp [empty.1, empty.2]⟩)
    · refine .inr (.inr ⟨nofun, empty, if_neg ?_⟩)
      simpa using empty
  | receiving =>
    by_cases empty : item.active = none ∧ item.cleaning = false
    · exact .inr (.inl ⟨nofun, empty.1, empty.2, by simp [empty.1, empty.2]⟩)
    · refine .inr (.inr ⟨nofun, empty, if_neg ?_⟩)
      simpa using empty

theorem abandon_of_none (missing : store.items.lookup id = none) : store.abandon id = store := by
  rw [abandon, missing]

/-- Only a complete item is withdrawn once it was delivered. -/
theorem withdrawDelivered_cases (store : Store) (id : String) :
    ((∃ item snapshot, store.items.lookup id = some item ∧ item.content = .ready snapshot) ∧
        store.withdrawDelivered id = { store with
          items := store.items.modify id ({ · with withdrawn := true }) }) ∨
      ((∀ item snapshot, store.items.lookup id = some item → item.content ≠ .ready snapshot) ∧
        store.withdrawDelivered id = store) := by
  unfold withdrawDelivered
  cases found : store.items.lookup id with
  | none =>
    right
    constructor
    · intro item snapshot absent
      cases absent
    · rfl
  | some item =>
    cases content : item.content with
    | ready snapshot =>
      left
      exact ⟨⟨item, snapshot, rfl, content⟩, by simp only [content]⟩
    | pending =>
      right
      constructor
      · rintro other snapshot ⟨⟩
        simp [content]
      · simp only [content]
    | receiving =>
      right
      constructor
      · rintro other snapshot ⟨⟩
        simp [content]
      · simp only [content]

/-- Whether a sweep leaves an item alone. -/
theorem mem_sweep {counts : Counts} {now : Nat} {pending : Pending} :
    pending ∈ (store.sweep counts now).1 ↔ ∃ id item, store.items.lookup id = some item ∧
      item.cleaning = false ∧ item.retained counts now = false ∧
      pending = item.pending id := by
  unfold sweep
  simp only [List.mem_filterMap]
  constructor
  · rintro ⟨⟨id, item⟩, listed, taken⟩
    split at taken
    · cases taken
    · rename_i spared
      simp only [Bool.or_eq_true, not_or, Bool.not_eq_true] at spared
      exact ⟨id, item, AList.mem_lookup_iff.mpr listed, spared.1, spared.2,
        (Option.some.inj taken).symm⟩
  · rintro ⟨id, item, found, cleaning, lapsed, rfl⟩
    refine ⟨⟨id, item⟩, AList.mem_lookup_iff.mp found, ?_⟩
    simp [cleaning, lapsed]

theorem sweep_ids_nodup (store : Store) (counts : Counts) (now : Nat) :
    ((store.sweep counts now).1.map Pending.id).Nodup := by
  have kept : List.Sublist ((store.sweep counts now).1.map Pending.id)
      (store.items.entries.map Sigma.fst) := by
    unfold sweep
    dsimp only
    generalize store.items.entries = entries
    induction entries with
    | nil => exact .slnil
    | cons entry entries ih =>
      rw [List.filterMap_cons]
      split
      · exact .cons _ ih
      · rename_i pending taken
        split at taken
        · cases taken
        · cases taken
          exact .cons_cons _ ih
  exact kept.nodup store.items.nodupKeys

theorem sweep_lookup (store : Store) (counts : Counts) (now : Nat) (id : String) :
    (store.sweep counts now).2.items.lookup id = (store.items.lookup id).map fun item =>
      if (item.cleaning || item.retained counts now) = true then item else item.swept :=
  Table.lookup_mapValues _ _ _

theorem reconcile_kept (store : Store) (pending : Pending) :
    store.reconcile pending false =
      { store with items := store.items.modify pending.id (·.restored pending) } := rfl

end Store

end McpSsh.Transfers
