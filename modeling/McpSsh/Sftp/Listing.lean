import McpSsh.Runs.Outcome
import McpSsh.SecretShape

/-!
# Directory listings

`files/info.rs`: the loop that reads a directory in the packets the peer cuts it
into, and the check that a recorded listing has to pass when it is read back.
The peer decides how long its packets are, what is in them and whether they ever
end.
-/

namespace McpSsh

/-- `MAX_DIRECTORY_ENTRIES`, which bounds the packets as well. -/
def maxDirectoryEntries : Nat := 128

/-- `MAX_DIRECTORY_BYTES`. -/
def maxDirectoryBytes : Nat := 64 <<< 10

/-- What a listing is charged before it has an entry. -/
def baseCharge : Nat := 128

/-- What an entry is charged for a name of so many bytes. -/
def entryCharge (nameBytes : Nat) : Nat := nameBytes * 6 + 256

/-- A name that no directory can have. -/
def invalidName (name : String) : Bool :=
  4096 < name.utf8ByteSize || name.toList.any (fun char => char = '/' || char = '\x00')

/-! ## The check -/

/-- The name that is checked of an entry. -/
def DirectoryEntry.shown (entry : DirectoryEntry) : String := entry.name.getD ""

/-- `try_fold` over the entries, from a charge. -/
def chargeOf : Nat → List DirectoryEntry → Option Nat
  | charge, [] => some charge
  | charge, entry :: entries =>
    if invalidName entry.shown || (secretShape entry.shown).isSome then none
    else chargeOf (charge + entryCharge entry.shown.utf8ByteSize) entries

/-- A lower-case hexadecimal digit. -/
def isLowerHex (char : Char) : Bool := char.isDigit || ('a' ≤ char && char ≤ 'f')

/-- `FileInfo::is_bounded`. -/
def FileInfo.isBounded : FileInfo → Bool
  | .stat _ => true
  | .list entries _ =>
    entries.length ≤ maxDirectoryEntries &&
      (chargeOf baseCharge entries).any (· ≤ maxDirectoryBytes)
  | .checksum _ sha256 => sha256.utf8ByteSize = 64 && sha256.toList.all isLowerHex

/-! ## The loop -/

namespace Sftp

/-- What the peer says of a file. -/
structure FileAttributes where
  size : Option UInt64
  permissions : Option UInt32
  mtime : Option UInt32
  deriving DecidableEq, Repr

/-- `Metadata::from`. -/
def FileAttributes.metadata (attributes : FileAttributes) : Metadata where
  kind :=
    let format := attributes.permissions.map (· &&& (0o170000 : UInt32))
    if format = some 0o100000 then .file
    else if format = some 0o040000 then .directory
    else .other
  bytes := attributes.size
  permissions := attributes.permissions.map (· &&& 0o7777)
  modified := attributes.mtime

structure PeerFile where
  filename : String
  attrs : FileAttributes
  deriving DecidableEq, Repr

/-- What comes of a READDIR request: a packet, the end, or anything else as the
category it becomes. -/
inductive ReadDir
  | name (files : List PeerFile)
  | eof
  | failed (cause : Failure)
  deriving DecidableEq

/-- The directory itself and the one above it. -/
def PeerFile.isDot (file : PeerFile) : Bool := file.filename = "." || file.filename = ".."

/-- An entry as it is listed, its name withheld where it has a secret's shape. -/
def PeerFile.entry (file : PeerFile) : DirectoryEntry where
  name := if secretShape file.filename = none then some file.filename else none
  metadata := file.attrs.metadata

/-- What has been listed, and what it is charged. -/
structure Listing where
  entries : List DirectoryEntry
  charge : Nat
  deriving DecidableEq

/-- What the files of a packet come to. -/
inductive Listed
  | more (listing : Listing)
  | truncated (listing : Listing)
  | invalid
  deriving DecidableEq

namespace Listing

def empty : Listing := ⟨[], baseCharge⟩

/-- The loop over a packet's files. -/
def take (listing : Listing) : List PeerFile → Listed
  | [] => .more listing
  | file :: files =>
    if file.isDot then listing.take files
    else if invalidName file.filename then .invalid
    else if listing.entries.length = maxDirectoryEntries ∨
        maxDirectoryBytes < listing.charge + entryCharge file.entry.shown.utf8ByteSize then
      .truncated listing
    else
      take ⟨listing.entries ++ [file.entry],
        listing.charge + entryCharge file.entry.shown.utf8ByteSize⟩ files

/-- The loop over the packets, with as many requests as are left; it says as
well how many were sent. -/
def read (listing : Listing) (peer : Nat → ReadDir) : Nat → Nat → Except Failure FileInfo × Nat
  | 0, sent => (.ok (.list listing.entries true), sent)
  | left + 1, sent =>
    match peer sent with
    | .eof => (.ok (.list listing.entries false), sent + 1)
    | .failed cause => (.error cause, sent + 1)
    | .name [] => (.error .remoteIo, sent + 1)
    | .name files =>
      match listing.take files with
      | .invalid => (.error .remoteIo, sent + 1)
      | .truncated listing => (.ok (.list listing.entries true), sent + 1)
      | .more listing => listing.read peer left (sent + 1)

end Listing

/-- The listing of a directory whose handle was opened. -/
def list (peer : Nat → ReadDir) : Except Failure FileInfo × Nat :=
  Listing.empty.read peer maxDirectoryEntries 0

/-! ## What is listed -/

/-- The files of a packet. -/
def ReadDir.files : ReadDir → List PeerFile
  | .name files => files
  | .eof | .failed _ => []

/-- What the peer has sent in so many packets, without the dots. -/
def offered (peer : Nat → ReadDir) (packets : Nat) : List PeerFile :=
  ((List.range packets).flatMap fun packet => (peer packet).files).filter (!·.isDot)

/-- What some entries are charged. -/
def charged (files : List PeerFile) : Nat :=
  (files.map fun file => entryCharge file.entry.shown.utf8ByteSize).sum

/-- Files that are within the bounds of a listing, and have names. -/
structure Fits (files : List PeerFile) : Prop where
  names : ∀ file ∈ files, invalidName file.filename = false
  count : files.length ≤ maxDirectoryEntries
  charge : baseCharge + charged files ≤ maxDirectoryBytes

/-- The listing of some files that fit. -/
structure Lists (files : List PeerFile) (listing : Listing) : Prop where
  entries : listing.entries = files.map PeerFile.entry
  charge : listing.charge = baseCharge + charged files
  fits : Fits files

variable {files more : List PeerFile} {file : PeerFile} {listing : Listing}

theorem fits_nil : Fits [] where
  names _ listed := absurd listed List.not_mem_nil
  count := Nat.zero_le _
  charge := by
    rw [show charged [] = 0 from rfl]
    decide +kernel

theorem lists_empty : Lists [] .empty where
  entries := rfl
  charge := (Nat.add_zero _).symm
  fits := fits_nil

theorem charged_append (files more : List PeerFile) :
    charged (files ++ more) = charged files + charged more := by
  simp [charged]

theorem charged_singleton (file : PeerFile) :
    charged [file] = entryCharge file.entry.shown.utf8ByteSize := by
  rw [charged, List.map_singleton, List.sum_singleton]

theorem Fits.front (fits : Fits (files ++ more)) : Fits files where
  names file listed := fits.names file (List.mem_append_left _ listed)
  count := by
    have count := fits.count
    rw [List.length_append] at count
    omega
  charge := by
    have charge := fits.charge
    rw [charged_append] at charge
    omega

/-- One more file is listed exactly if it fits too. -/
theorem Lists.room (lists : Lists files listing) (named : invalidName file.filename = false) :
    (listing.entries.length = maxDirectoryEntries ∨
      maxDirectoryBytes < listing.charge + entryCharge file.entry.shown.utf8ByteSize) ↔
      ¬ Fits (files ++ [file]) := by
  have count := lists.fits.count
  rw [lists.entries, List.length_map, lists.charge]
  constructor
  · rintro full fits
    have count := fits.count
    have charge := fits.charge
    rw [List.length_append, List.length_singleton] at count
    rw [charged_append, charged_singleton] at charge
    omega
  · intro full
    by_contra room
    rw [not_or] at room
    apply full
    constructor
    case names =>
      intro other listed
      rcases List.mem_append.mp listed with listed | listed
      · exact lists.fits.names other listed
      · rw [List.mem_singleton.mp listed]
        exact named
    case count =>
      rw [List.length_append, List.length_singleton]
      omega
    case charge =>
      rw [charged_append, charged_singleton]
      omega

theorem Lists.snoc (lists : Lists files listing) (fits : Fits (files ++ [file])) :
    Lists (files ++ [file]) ⟨listing.entries ++ [file.entry],
      listing.charge + entryCharge file.entry.shown.utf8ByteSize⟩ where
  entries := by rw [lists.entries, List.map_append, List.map_singleton]
  charge := by rw [lists.charge, charged_append, charged_singleton, Nat.add_assoc]
  fits := fits

/-- What the files of a packet come to, after some that are listed. -/
theorem Listing.take_cases (lists : Lists files listing) (packet : List PeerFile) :
    (∃ after, listing.take packet = .more after ∧
        Lists (files ++ packet.filter (!·.isDot)) after) ∨
      (∃ after some' rest, listing.take packet = .truncated after ∧
        packet.filter (!·.isDot) = some' ++ rest ∧ Lists (files ++ some') after) ∨
      (listing.take packet = .invalid ∧
        ∃ file ∈ packet, file.isDot = false ∧ invalidName file.filename = true) := by
  induction packet generalizing files listing with
  | nil => exact .inl ⟨listing, rfl, by simpa using lists⟩
  | cons file packet ih =>
    rw [take]
    by_cases dot : file.isDot = true
    · rw [if_pos dot, List.filter_cons_of_neg (by simp [dot])]
      rcases ih lists with more | truncated | ⟨invalid, bad, listed, rest⟩
      · exact .inl more
      · exact .inr (.inl truncated)
      · exact .inr (.inr ⟨invalid, bad, List.mem_cons_of_mem _ listed, rest⟩)
    · have plain : file.isDot = false := Bool.eq_false_iff.mpr dot
      rw [if_neg dot, List.filter_cons_of_pos (by simp [plain])]
      by_cases bad : invalidName file.filename = true
      · rw [if_pos bad]
        exact .inr (.inr ⟨rfl, file, List.mem_cons_self, plain, bad⟩)
      · rw [if_neg bad]
        have room := lists.room (Bool.eq_false_iff.mpr bad)
        by_cases fits : Fits (files ++ [file])
        · rw [if_neg (fun full => room.mp full fits)]
          rcases ih (lists.snoc fits) with ⟨after, took, lists⟩ |
            ⟨after, some', rest, took, split, lists⟩ | ⟨invalid, bad, listed, rest⟩
          · refine .inl ⟨after, took, ?_⟩
            rwa [List.append_assoc] at lists
          · refine .inr (.inl ⟨after, file :: some', rest, took, by rw [split]; rfl, ?_⟩)
            rwa [List.append_assoc] at lists
          · exact .inr (.inr ⟨invalid, bad, List.mem_cons_of_mem _ listed, rest⟩)
        · rw [if_pos (room.mpr fits)]
          exact .inr (.inl ⟨listing, [], _, rfl, rfl, by rwa [List.append_nil]⟩)

/-- Files that all fit are all listed. -/
theorem Listing.take_fits (lists : Lists files listing) {packet : List PeerFile}
    (fits : Fits (files ++ packet.filter (!·.isDot))) (rest : List PeerFile) :
    ∃ after, listing.take (packet ++ rest) = after.take rest ∧
      Lists (files ++ packet.filter (!·.isDot)) after := by
  induction packet generalizing files listing with
  | nil => exact ⟨listing, rfl, by simpa using lists⟩
  | cons file packet ih =>
    rw [List.cons_append, take]
    by_cases dot : file.isDot = true
    · rw [List.filter_cons_of_neg (by simp [dot])] at fits ⊢
      rw [if_pos dot]
      exact ih lists fits
    · rw [List.filter_cons_of_pos (by simp [Bool.eq_false_iff.mpr dot])] at fits ⊢
      rw [List.append_cons files] at fits ⊢
      have fits' := fits.front
      have named := fits'.names file (List.mem_append_right _ List.mem_cons_self)
      rw [if_neg dot, if_neg (Bool.eq_false_iff.mp named),
        if_neg (fun full => (lists.room named).mp full fits')]
      exact ih (lists.snoc fits') fits

/-! ## The whole loop -/

section

variable {peer : Nat → ReadDir} {left sent : Nat}

/-- So many packets with something in them. -/
def Filled (peer : Nat → ReadDir) (packets : Nat) : Prop :=
  ∀ packet < packets, ∃ files, peer packet = .name files ∧ files ≠ []

theorem offered_succ (peer : Nat → ReadDir) (packets : Nat) :
    offered peer (packets + 1) =
      offered peer packets ++ (peer packets).files.filter (!·.isDot) := by
  unfold offered
  rw [List.range_succ, List.flatMap_append, List.filter_append, List.flatMap_singleton]

/-- What the loop comes to where it succeeds: the beginning of what was offered
is listed, and all of it if the listing is not truncated. -/
def Succeeds (peer : Nat → ReadDir) (info : FileInfo) (requests : Nat) : Prop :=
  ∃ some' rest listing truncated, info = .list listing.entries truncated ∧
    Lists some' listing ∧ offered peer requests = some' ++ rest ∧
    (truncated = false → rest = [] ∧ ∃ last, requests = last + 1 ∧ peer last = .eof)

theorem Listing.read_name {files : List PeerFile} (named : peer sent = .name files)
    (filled : files ≠ []) (listing : Listing) :
    listing.read peer (left + 1) sent =
      match listing.take files with
      | .invalid => (.error .remoteIo, sent + 1)
      | .truncated listing => (.ok (.list listing.entries true), sent + 1)
      | .more listing => listing.read peer left (sent + 1) := by
  rw [read, named]
  cases files with
  | nil => exact absurd rfl filled
  | cons file files => rfl

theorem Lists.read_cases (lists : Lists (offered peer sent) listing) (left : Nat) :
    (listing.read peer left sent).2 ≤ sent + left ∧
      ∀ info, (listing.read peer left sent).1 = .ok info →
        Succeeds peer info (listing.read peer left sent).2 := by
  induction left generalizing sent listing with
  | zero =>
    refine ⟨Nat.le_refl _, ?_⟩
    rintro info ⟨⟩
    exact ⟨_, [], listing, true, rfl, lists, (List.append_nil _).symm, nofun⟩
  | succ left ih =>
    have offers := offered_succ peer sent
    cases packet : peer sent with
    | eof =>
      have ends : listing.read peer (left + 1) sent =
          (.ok (.list listing.entries false), sent + 1) := by rw [Listing.read, packet]
      rw [ends]
      refine ⟨by omega, ?_⟩
      rintro info ⟨⟩
      rw [packet, ReadDir.files, List.filter_nil, List.append_nil] at offers
      exact ⟨_, [], listing, false, rfl, lists, by rw [offers, List.append_nil],
        fun _ => ⟨rfl, sent, rfl, packet⟩⟩
    | failed cause =>
      have fails : listing.read peer (left + 1) sent = (.error cause, sent + 1) := by
        rw [Listing.read, packet]
      rw [fails]
      exact ⟨by omega, fun _ succeeds => nomatch succeeds⟩
    | name files =>
      rw [packet, ReadDir.files] at offers
      by_cases filled : files = []
      · have fails : listing.read peer (left + 1) sent = (.error .remoteIo, sent + 1) := by
          rw [Listing.read, packet, filled]
        rw [fails]
        exact ⟨by omega, fun _ succeeds => nomatch succeeds⟩
      · rw [Listing.read_name packet filled]
        rcases Listing.take_cases lists files with ⟨after, took, lists'⟩ |
          ⟨after, some', rest, took, split, lists'⟩ | ⟨took, -⟩
        · rw [took]
          rw [← offers] at lists'
          obtain ⟨few, succeeds⟩ := ih lists'
          exact ⟨by dsimp only; omega, succeeds⟩
        · rw [took]
          refine ⟨by dsimp only; omega, ?_⟩
          rintro info ⟨⟩
          refine ⟨_, rest, after, true, rfl, lists', ?_, nofun⟩
          rw [offers, split, List.append_assoc]
        · rw [took]
          exact ⟨by dsimp only; omega, fun _ succeeds => nomatch succeeds⟩

/-- As long as everything fits, the loop goes on. -/
theorem Listing.read_reaches {packets : Nat} (filled : Filled peer packets)
    (fits : Fits (offered peer packets)) (left : Nat) :
    ∃ after, Listing.empty.read peer (packets + left) 0 = after.read peer left packets ∧
      Lists (offered peer packets) after := by
  induction packets generalizing left with
  | zero => exact ⟨.empty, by rw [Nat.zero_add], lists_empty⟩
  | succ packets ih =>
    rw [offered_succ] at fits
    obtain ⟨after, reached, lists⟩ :=
      ih (fun packet less => filled packet (by omega)) fits.front (left + 1)
    obtain ⟨files, packet, some'⟩ := filled packets (Nat.lt_succ_self packets)
    rw [packet, ReadDir.files] at fits
    obtain ⟨next, took, lists'⟩ := take_fits lists fits []
    rw [List.append_nil] at took
    refine ⟨next, ?_, ?_⟩
    · rw [Nat.add_right_comm, Nat.add_assoc, reached, read_name packet some', took]
      rfl
    · rw [offered_succ, packet]
      exact lists'

/-- A packet without files is an error. -/
theorem Listing.read_empty {packets : Nat} (soon : packets < maxDirectoryEntries)
    (filled : Filled peer packets) (fits : Fits (offered peer packets))
    (empty : peer packets = .name []) : (list peer).1 = .error .remoteIo := by
  obtain ⟨left, more⟩ : ∃ left, maxDirectoryEntries = packets + (left + 1) :=
    ⟨maxDirectoryEntries - packets - 1, by omega⟩
  obtain ⟨after, reached, -⟩ := read_reaches filled fits (left + 1)
  rw [list, more, reached, read, empty]

/-- And so is a name that no directory can have. -/
theorem Listing.read_invalid {packets : Nat} {before later : List PeerFile} {bad : PeerFile}
    (soon : packets < maxDirectoryEntries) (filled : Filled peer packets)
    (packet : peer packets = .name (before ++ bad :: later))
    (fits : Fits (offered peer packets ++ before.filter (!·.isDot))) (plain : bad.isDot = false)
    (invalid : invalidName bad.filename = true) : (list peer).1 = .error .remoteIo := by
  obtain ⟨left, more⟩ : ∃ left, maxDirectoryEntries = packets + (left + 1) :=
    ⟨maxDirectoryEntries - packets - 1, by omega⟩
  obtain ⟨after, reached, lists⟩ := read_reaches filled fits.front (left + 1)
  obtain ⟨next, took, -⟩ := take_fits lists fits (bad :: later)
  rw [list, more, reached, read_name packet (by simp), took, take,
    if_neg (Bool.eq_false_iff.mp plain), if_pos invalid]

end

/-! ## What is recorded can be read back -/

theorem secretShape_nil : secretShape "" = none := by decide +kernel

/-- An entry's name, shown or withheld, passes the check. -/
theorem PeerFile.shown_named (named : invalidName file.filename = false) :
    invalidName file.entry.shown = false ∧ secretShape file.entry.shown = none := by
  unfold PeerFile.entry DirectoryEntry.shown
  by_cases plain : secretShape file.filename = none
  · rw [if_pos plain]
    exact ⟨named, plain⟩
  · rw [if_neg plain]
    exact ⟨show invalidName "" = false by decide +kernel, secretShape_nil⟩

theorem chargeOf_entries (names : ∀ file ∈ files, invalidName file.filename = false)
    (charge : Nat) : chargeOf charge (files.map PeerFile.entry) = some (charge + charged files) := by
  induction files generalizing charge with
  | nil => rfl
  | cons file files ih =>
    obtain ⟨named, plain⟩ := PeerFile.shown_named (names file List.mem_cons_self)
    rw [List.map_cons, chargeOf, named, plain, Option.isSome_none, Bool.or_false,
      if_neg Bool.false_ne_true, ih fun file listed => names file (List.mem_cons_of_mem _ listed),
      ← List.singleton_append, charged_append, charged_singleton, Nat.add_assoc]

theorem Lists.bounded (lists : Lists files listing) (truncated : Bool) :
    (FileInfo.list listing.entries truncated).isBounded = true := by
  have count := lists.fits.count
  rw [← List.length_map (f := PeerFile.entry), ← lists.entries] at count
  rw [FileInfo.isBounded, lists.entries, chargeOf_entries lists.fits.names, ← lists.entries]
  simp only [Option.any_some, Bool.and_eq_true, decide_eq_true_eq]
  exact ⟨count, lists.fits.charge⟩

/-- **Listing.** Whatever packets the peer sends, and however long it goes on,
at most so many are asked for; what is listed is the beginning of what was sent,
and all of it if the listing says so; it passes the check that its record has to
pass; and an empty packet or a name that cannot be is an error where the loop
comes to it. -/
theorem listing_faithful (peer : Nat → ReadDir) :
    (list peer).2 ≤ 128 ∧
    (∀ info, (list peer).1 = .ok info → ∃ entries truncated, info = .list entries truncated ∧
      entries <+: (offered peer (list peer).2).map PeerFile.entry ∧
      entries.length ≤ 128 ∧
      (truncated = false → entries = (offered peer (list peer).2).map PeerFile.entry ∧
        ∃ last, (list peer).2 = last + 1 ∧ peer last = .eof) ∧
      info.isBounded = true) ∧
    (∀ packets, packets < 128 → Filled peer packets →
      (Fits (offered peer packets) → peer packets = .name [] →
        (list peer).1 = .error .remoteIo) ∧
      ∀ before bad later, peer packets = .name (before ++ bad :: later) →
        Fits (offered peer packets ++ before.filter (!·.isDot)) → bad.isDot = false →
        invalidName bad.filename = true → (list peer).1 = .error .remoteIo) := by
  have none : Lists (offered peer 0) .empty := lists_empty
  obtain ⟨few, succeeds⟩ := none.read_cases maxDirectoryEntries
  refine ⟨few.trans (Nat.le_of_eq (Nat.zero_add _)), ?_, ?_⟩
  · intro info succeeded
    obtain ⟨some', rest, listing, truncated, rfl, lists, offers, whole⟩ := succeeds info succeeded
    refine ⟨_, _, rfl, ?_, ?_, ?_, lists.bounded truncated⟩
    · rw [lists.entries, show offered peer (list peer).2 = some' ++ rest from offers,
        List.map_append]
      exact List.prefix_append _ _
    · rw [lists.entries, List.length_map]
      exact lists.fits.count
    · intro complete
      obtain ⟨none, ended⟩ := whole complete
      refine ⟨?_, ended⟩
      rw [lists.entries, show offered peer (list peer).2 = some' ++ rest from offers, none,
        List.append_nil]
  · intro packets soon filled
    refine ⟨fun fits empty => Listing.read_empty soon filled fits empty, ?_⟩
    intro before bad later packet fits plain invalid
    exact Listing.read_invalid soon filled packet fits plain invalid

namespace Sample

def named (filename : String) : PeerFile := ⟨filename, ⟨some 3, some 0o100644, none⟩⟩

/-- Two packets, and then the end. -/
def directory : Nat → ReadDir
  | 0 => .name [named ".", named "a"]
  | 1 => .name [named "-----BEGIN"]
  | _ => .eof

/-- Both names are listed, one of them withheld. -/
theorem listing_faithful_sample :
    (list directory).2 = 3 ∧
      ∃ entries, (list directory).1 = .ok (.list entries false) ∧
        entries.map DirectoryEntry.name = [some "a", none] ∧
        (FileInfo.list entries false).isBounded = true := by
  have read : list directory =
      (.ok (.list [(named "a").entry, (named "-----BEGIN").entry] false), 3) := by
    decide +kernel
  obtain ⟨-, succeeds, -⟩ := listing_faithful directory
  obtain ⟨entries, truncated, shape, -, -, -, bounded⟩ :=
    succeeds _ (congrArg Prod.fst read)
  refine ⟨congrArg Prod.snd read, _, congrArg Prod.fst read, by decide +kernel, bounded⟩

end Sample

end Sftp

end McpSsh
