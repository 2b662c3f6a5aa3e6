import McpSsh.Audit.Bounds
import McpSsh.Audit.Forks
import McpSsh.AuditRoundTrip

/-!
# From the ledger to its reader

A ledger ships lines, and long after the audit history parses them. Along every
run of the ledger, its worker and the sink, what the sink has whole reads back
entry by entry, and no two entries have one line.
-/

namespace McpSsh.Shipped

open Ledger (Record Limits)

variable {sha256 : List UInt8 → Digest} {format : Format} {limits : Limits} {genesis : Digest}
variable {operation : Ledger.Operation} {now : Nat} {entry : Entry} {accepted : Bool}
variable {before after shipping : Shipping}

/-! ## Runs within bounds -/

/-- A move whose operation, if it is a call, can be asked for and is handed what
the source's types allow, at a time the clock can show. -/
def Shipping.BoundedStep (format : Format) (limits : Limits) (before after : Shipping) : Prop :=
  ∃ move, (∀ operation now, move = .call operation now →
      before.record.Offers operation ∧ operation.Bounded ∧ now < 2 ^ 64) ∧
    before.move format limits move = some after

/-- What a new ledger and a new output can come to in such moves. -/
def Shipping.WithinBounds (format : Format) (limits : Limits) (genesis : Digest) :
    Shipping → Prop :=
  Relation.ReflTransGen (BoundedStep format limits) (new genesis)

theorem Shipping.BoundedStep.step (step : BoundedStep format limits before after) :
    Step format limits before after := by
  obtain ⟨move, calls, moved⟩ := step
  exact ⟨move, fun operation now is => (calls operation now is).1, moved⟩

theorem Shipping.WithinBounds.reachable (run : WithinBounds format limits genesis shipping) :
    Reachable format limits genesis shipping :=
  Relation.ReflTransGen.mono (fun _ _ step => step.step) _ _ run

/-- A call that was asked for within bounds, and asks for an entry that is. -/
structure Call.Attested (record : Record) (call : Call) : Prop where
  offers : record.Offers call.operation
  bounded : call.operation.Bounded
  time : call.now < 2 ^ 64
  entry : Ledger.Attested call.now call.entry

/-- Everything a ledger committed, asks for or was refused is within bounds. -/
structure Keeps (shipping : Shipping) : Prop where
  record : shipping.record.Attests
  call : ∀ call ∈ shipping.call, call.Attested shipping.record
  refused : ∀ entry ∈ shipping.refused, ∃ now < 2 ^ 64, Ledger.Attested now entry

/-- Only the output is another. -/
theorem Keeps.congr (keeps : Keeps before) (record : after.record = before.record)
    (call : after.call = before.call) (refused : after.refused = before.refused) : Keeps after where
  record := record ▸ keeps.record
  call := by rw [call, record]; exact keeps.call
  refused := refused ▸ keeps.refused

theorem Keeps.returns {call : Call} (keeps : Keeps before) (attested : call.Attested before.record) :
    Keeps (before.returns format limits call accepted) where
  record := keeps.record.performs attested.offers attested.bounded attested.time
  call := fun _ none' => by cases none'
  refused := by
    unfold Shipping.returns
    dsimp only
    split
    · exact keeps.refused
    · exact List.forall_mem_cons.mpr ⟨⟨_, attested.time, attested.entry⟩, keeps.refused⟩

theorem Keeps.wrote {call : Call} (keeps : Keeps before) (attested : call.Attested before.record) :
    Keeps (before.wrote format limits call) := by
  unfold Shipping.wrote
  split
  · exact keeps.returns attested
  split
  · exact keeps.returns attested
  · refine ⟨keeps.record, fun other is => ?_, keeps.refused⟩
    cases is
    exact attested

/-- The worker by itself refuses nothing. -/
theorem worker_refused {move : Move} (workers : move.isWorkers = true)
    (moved : before.move format limits move = some after) : after.refused = before.refused := by
  cases move with
  | call | answer | timeout => cases workers
  | die =>
    cases moved
    rfl
  | take =>
    simp only [Shipping.move] at moved
    split at moved
    · cases moved
      rfl
    · cases moved
  | write count =>
    simp only [Shipping.move] at moved
    split at moved
    · split at moved
      · cases moved
        rfl
      · cases moved
    · cases moved
  | writeFails count =>
    simp only [Shipping.move] at moved
    split at moved
    · cases moved
      rfl
    · cases moved
  | flush ok =>
    simp only [Shipping.move] at moved
    split at moved
    · split at moved
      · cases moved
        rfl
      · cases moved
        rfl
    · cases moved

/-- **Step.** -/
theorem Keeps.step (keeps : Keeps before)
    (reached : Record.Reachable format limits genesis before.record)
    (step : Shipping.BoundedStep format limits before after) : Keeps after := by
  obtain ⟨move, calls, moved⟩ := step
  cases move with
  | call operation now =>
    obtain ⟨offers, bounded, time⟩ := calls operation now rfl
    simp only [Shipping.move] at moved
    split at moved
    · cases moved
    rename_i alone
    split at moved
    · cases moved
      refine ⟨keeps.record.performs offers bounded time, fun other is => ?_, keeps.refused⟩
      rw [alone] at is
      cases is
    · rename_i entry asked
      cases moved
      have attested := keeps.record.adds offers bounded (asks_some reached asked).2
      exact keeps.wrote ⟨offers, bounded, time, attested⟩
  | answer =>
    simp only [Shipping.move] at moved
    split at moved
    · split at moved
      · rename_i call waits
        split at moved
        · cases moved
          exact (keeps.returns (keeps.call call waits)).congr rfl rfl rfl
        · cases moved
          exact keeps.congr rfl rfl rfl
      · cases moved
        exact keeps.congr rfl rfl rfl
    · cases moved
  | timeout =>
    simp only [Shipping.move] at moved
    obtain ⟨call, waits, rfl⟩ := Option.map_eq_some_iff.mp moved
    exact keeps.returns (keeps.call call waits)
  | _ =>
    obtain ⟨record, call, -⟩ := worker_frame rfl moved
    exact keeps.congr record call (worker_refused rfl moved)

/-- **Run.** -/
theorem Shipping.WithinBounds.keeps (run : WithinBounds format limits genesis shipping) :
    Keeps shipping := by
  induction run with
  | refl =>
    refine ⟨Ledger.Record.Attests.new genesis, ?_, ?_⟩
    · intro call is
      cases is
    · intro entry is
      cases is
  | tail earlier step ih => exact ih.step (WithinBounds.reachable earlier).phase.1 step

/-- A first call that nothing disturbs commits its entry. -/
theorem Shipping.WithinBounds.first (offers : (Record.new genesis).Offers operation)
    (bounded : operation.Bounded) (time : now < 2 ^ 64)
    (asked : asks format limits (Record.new genesis) operation now = some entry) :
    ∃ shipping, WithinBounds format limits genesis shipping ∧
      shipping.record = (Record.new genesis).perform format limits operation now true ∧
      shipping.record.committed = [entry] := by
  let line : Line := ⟨lineOf format entry, 0⟩
  let call : Call := ⟨operation, now, entry, 0⟩
  have quiet {move : Move} {record : Record} (own : ∀ operation now, move ≠ .call operation now) :
      ∀ operation now, move = .call operation now →
        record.Offers operation ∧ operation.Bounded ∧ now < 2 ^ 64 :=
    fun operation now is => absurd is (own operation now)
  have filled : 0 < line.bytes.length := by simp [line, lineOf]
  let asking : Shipping :=
    ⟨Record.new genesis, some call, ⟨[line], .idle, ⟨[], 0⟩, false⟩, 1, [], false⟩
  let taken : Shipping :=
    ⟨Record.new genesis, some call, ⟨[], .writing line line.bytes, ⟨[], 0⟩, false⟩, 1, [], false⟩
  let written : Shipping := (taken.receives (line.bytes.take line.bytes.length)).working
    (.writing line (line.bytes.drop line.bytes.length))
  let flushed : Shipping :=
    { written with output := { written.output with
        worker := .answering line true
        sink := ⟨written.output.sink.received, written.output.sink.received.length⟩ } }
  have called : BoundedStep format limits (new genesis) asking := by
    refine ⟨.call operation now, fun _ _ is => ?_, ?_⟩
    · cases is
      exact ⟨offers, bounded, time⟩
    · simp only [move, new, asked, wrote]
      rfl
  have takes : BoundedStep format limits asking taken :=
    ⟨.take, quiet (fun _ _ is => by cases is), rfl⟩
  have writes : BoundedStep format limits taken written :=
    ⟨.write line.bytes.length, quiet (fun _ _ is => by cases is), if_pos ⟨filled, Nat.le_refl _⟩⟩
  have flushes : BoundedStep format limits written flushed := by
    refine ⟨.flush true, quiet (fun _ _ is => by cases is), ?_⟩
    simp only [move, written, working, List.drop_length]
    rfl
  have answers : BoundedStep format limits flushed
      ((returns format limits flushed call true).working .idle) :=
    ⟨.answer, quiet (fun _ _ is => by cases is), rfl⟩
  refine ⟨_, .tail (.tail (.tail (.tail (.single called) takes) writes) flushes) answers, rfl, ?_⟩
  exact (asks_some .refl asked).2

/-! ## What the lines are -/

/-- A line is one line. -/
theorem newline_not_mem_json (sha256 : List UInt8 → Digest) (entry : Entry) :
    newline ∉ (Format.json sha256).encode entry := by
  intro listed
  change newline ∈ asBytes entry.line at listed
  rw [asBytes_eq_flatMap] at listed
  obtain ⟨c, inside, byte⟩ := List.mem_flatMap.mp listed
  have ascii : newline.toNat < 0x80 := by decide
  have is := (utf8EncodeChar_of_ascii byte ascii).2
  have printable := Json.text_printable entry.toJson c (by
    rw [Entry.line, String.toList_ofList] at inside
    exact inside)
  rw [is] at printable
  exact absurd printable (by decide)

/-- The line an entry is hashed as. -/
def hashedLine (entry : Entry) : String := { entry with digest := ⟨[]⟩ }.line

/-- Two lines that differ and have one hash. -/
def Collide (sha256 : List UInt8 → Digest) (line other : String) : Prop :=
  line ≠ other ∧ sha256 (asBytes line) = sha256 (asBytes other)

/-- What is hashed of an entry determines it, apart from its digest. -/
theorem separates_json {found : Entry} (identified : found.Identified)
    (identified' : entry.Identified)
    (apart : ¬ Collide sha256 (hashedLine found) (hashedLine entry)) :
    Ledger.Separates (Format.json sha256) found entry := by
  intro same
  by_cases lines : hashedLine found = hashedLine entry
  · have equal : { found with digest := ⟨[]⟩ } = { entry with digest := ⟨[]⟩ } :=
      Entry.line_inj ⟨identified.session, identified.event⟩ ⟨identified'.session, identified'.event⟩
        lines
    exact congrArg (fun blanked => { blanked with digest := entry.digest }) equal
  · exact absurd ⟨lines, same⟩ apart

/-- What is chained is within bounds, if what was put in it is. -/
theorem bounded_of_chained {entries : List Entry}
    (hashes : ∀ bytes, (sha256 bytes).bytes.length = 32) (rooted : genesis.bytes.length = 32)
    (chained : Ledger.Chained (Format.json sha256) genesis entries)
    (bound : entries.length ≤ 2 ^ 64)
    (attested : ∀ entry ∈ entries, ∃ now < 2 ^ 64, Ledger.Attested now entry) :
    ∀ entry ∈ entries, entry.Bounded := by
  have hashed (entry : Entry) (listed : entry ∈ entries) : entry.digest.bytes.length = 32 := by
    obtain ⟨index, at'⟩ := List.mem_iff_getElem?.mp listed
    rw [← (chained index entry at').2.2]
    exact hashes _
  intro entry listed
  obtain ⟨index, at'⟩ := List.mem_iff_getElem?.mp listed
  obtain ⟨place, link, -⟩ := chained index entry at'
  obtain ⟨now, time, made⟩ := attested entry listed
  refine ⟨?_, made.atMillis ▸ time, made.session, made.event, ?_, hashed entry listed⟩
  · rw [place]
    exact Nat.lt_of_lt_of_le (List.getElem?_eq_some_iff.mp at').1 bound
  · rw [link]
    cases index with
    | zero => exact rooted
    | succ earlier =>
      simp only [Ledger.linkBefore]
      cases before : entries[earlier]? with
      | none => exact rooted
      | some first => exact hashed first (List.mem_of_getElem? before)

theorem mapM_readLine {entries : List Entry} (bounded : ∀ entry ∈ entries, entry.Bounded) :
    (entries.map Entry.line).mapM AuditHistory.readLine =
      some (entries.map AuditHistory.AuditLine.of) := by
  induction entries with
  | nil => rfl
  | cons entry entries ih =>
    obtain ⟨first, rest⟩ := List.forall_mem_cons.mp bounded
    rw [List.map_cons, List.mapM_cons, AuditHistory.readLine_line first, ih rest]
    rfl

/-- What was committed, and what is out beyond it, is within bounds. -/
theorem Keeps.attested {further : Option Entry} (keeps : Keeps shipping)
    (beyond : Beyond format genesis shipping further) :
    ∀ entry ∈ shipping.record.committed ++ further.toList,
      ∃ now < 2 ^ 64, Ledger.Attested now entry := by
  intro entry listed
  cases List.mem_append.mp listed with
  | inl committed => exact keeps.record.committed entry committed
  | inr extra =>
    cases beyond.told entry (Option.mem_toList.mp extra) with
    | inl refused => exact keeps.refused entry refused
    | inr waiting =>
      obtain ⟨call, waits, rfl⟩ := waiting
      have attested := keeps.call call waits
      exact ⟨_, attested.time, attested.entry⟩

/-- What the sink has whole is of entries within bounds. -/
theorem Shipping.WithinBounds.bounded (hashes : ∀ bytes, (sha256 bytes).bytes.length = 32)
    (rooted : genesis.bytes.length = 32)
    (run : Shipping.WithinBounds (Format.json sha256) limits genesis shipping) {further : Option Entry}
    (beyond : Beyond (Format.json sha256) genesis shipping further) :
    ∀ entry ∈ shipping.record.committed ++ further.toList, entry.Bounded := by
  have bound : (shipping.record.committed ++ further.toList).length ≤ 2 ^ 64 := by
    have fits : Ledger.maxCount + 1 ≤ 2 ^ 64 := by decide
    have committed := run.reachable.phase.1.represents.bound
    have one : further.toList.length ≤ 1 := by cases further <;> simp
    rw [List.length_append]
    omega
  exact bounded_of_chained hashes rooted beyond.chained bound (run.keeps.attested beyond)

/-- **What the sink has reads back.** At every moment of every run the lines
that reached the sink whole are those of the committed entries, in order, and of
at most one more that was refused or whose call still waits. The audit history
reads each as the entry it was written for, and it is the line of no other. -/
theorem reads_back (hashes : ∀ bytes, (sha256 bytes).bytes.length = 32)
    (rooted : genesis.bytes.length = 32)
    (run : Shipping.WithinBounds (Format.json sha256) limits genesis shipping) :
    ∃ further : Option Entry, ∃ texts : List String,
      completeLines shipping.output.sink.received = texts.map asBytes ∧
      texts.mapM AuditHistory.readLine =
        some ((shipping.record.committed ++ further.toList).map AuditHistory.AuditLine.of) ∧
      (∀ entry ∈ further, entry ∈ shipping.refused ∨
        ∃ call, shipping.call = some call ∧ call.entry = entry) ∧
      ∀ entry ∈ shipping.record.committed ++ further.toList, entry.line ∈ texts ∧
        ∀ other : Entry, other.Identified → other.line = entry.line → other = entry := by
  obtain ⟨reached, phase⟩ := run.reachable.phase
  obtain ⟨further, beyond⟩ := phase.beyond (newline_not_mem_json sha256) reached
  have bounded := run.bounded hashes rooted beyond
  refine ⟨further, (shipping.record.committed ++ further.toList).map Entry.line, ?_,
    mapM_readLine bounded, beyond.told, ?_⟩
  · rw [beyond.lines, List.map_map]
    rfl
  · intro entry listed
    refine ⟨List.mem_map_of_mem listed, fun other identified same => ?_⟩
    exact Entry.line_inj identified (bounded entry listed).identified same

namespace Sample

def zeros : Digest := ⟨List.replicate 32 0⟩

/-- A hash of the right length. -/
def constant : List UInt8 → Digest := fun _ => zeros

/-- One permitted command, recorded. -/
def decided : Record :=
  (Record.new zeros).perform (Format.json constant) .default
    (.recordIntent Ledger.Sample.permitted default) 0 true

/-- An entry that says it was written later. -/
def postdated : Ledger.Held → Ledger.Held
  | .intact entry => .intact { entry with atMillis := entry.atMillis + 1 }
  | sealed => sealed

/-- The record takes the command and holds its entry, which it cannot tell from a
postdated one. -/
theorem decided_held :
    (asks (Format.json constant) .default (Record.new zeros)
      (.recordIntent Ledger.Sample.permitted default) 0).isSome = true ∧
    decided.state.entries = decided.committed.map .intact ∧
    ((decided.state.holding (decided.state.entries.map postdated)).verify
      (Format.json constant)).isOk = true := by
  decide +kernel

theorem one_within : ∃ shipping, ∃ entry,
    Shipping.WithinBounds (Format.json constant) .default zeros shipping ∧
      shipping.record = decided ∧ shipping.record.committed = [entry] := by
  obtain ⟨entry, asked⟩ := Option.isSome_iff_exists.mp decided_held.1
  have bounded :
      Ledger.Operation.Bounded (.recordIntent Ledger.Sample.permitted default) := by
    refine ⟨?_, fun policy listed => by cases listed⟩
    unfold Drawn
    decide
  have offers : (Record.new zeros).Offers (.recordIntent Ledger.Sample.permitted default) := trivial
  obtain ⟨shipping, run, record, committed⟩ :=
    Shipping.WithinBounds.first offers bounded (Nat.two_pow_pos 64) asked
  exact ⟨shipping, entry, run, record, committed⟩

/-- The one line the sink has reads back as the one entry that was committed. -/
theorem one_reads_back : ∃ shipping : Shipping, ∃ entry : Entry, ∃ further : Option Entry,
    shipping.record.committed = [entry] ∧
      ∃ texts : List String, completeLines shipping.output.sink.received = texts.map asBytes ∧
        texts.mapM AuditHistory.readLine =
          some (([entry] ++ further.toList).map AuditHistory.AuditLine.of) := by
  obtain ⟨shipping, entry, run, -, committed⟩ := one_within
  have hashes : ∀ bytes, (constant bytes).bytes.length = 32 := fun _ => List.length_replicate
  obtain ⟨further, texts, lines, read, -⟩ := reads_back hashes List.length_replicate run
  rw [committed] at read
  exact ⟨shipping, entry, further, committed, texts, lines, read⟩

end Sample

/-- **What verifies is what was committed, or a collision.** A window that
verifies after any tampering shows what was committed, place by place; else it
holds an entry whose line differs from a committed one's and has its hash. -/
theorem verifies_or_collides
    (run : Shipping.WithinBounds (Format.json sha256) limits genesis shipping)
    (altered : List Ledger.Held)
    (identified : ∀ read, .intact read ∈ altered → read.Identified)
    (ok : ((shipping.record.state.holding altered).verify (Format.json sha256)).isOk = true) :
    (altered.length = shipping.record.state.entries.length ∧
      ∀ index held, altered[index]? = some held →
        ∃ entry, shipping.record.committed[shipping.record.state.issued.retired + index]? =
          some entry ∧ held.Shows entry) ∨
    ∃ read, .intact read ∈ altered ∧ ∃ entry ∈ shipping.record.committed,
      Collide sha256 (hashedLine read) (hashedLine entry) := by
  by_cases collides : ∃ read, .intact read ∈ altered ∧ ∃ entry ∈ shipping.record.committed,
      Collide sha256 (hashedLine read) (hashedLine entry)
  · exact .inr collides
  · left
    refine run.reachable.phase.1.represents.holding_shows ok fun read held entry committed => ?_
    obtain ⟨now, -, attested⟩ := run.keeps.record.committed entry committed
    refine separates_json (identified read held) ⟨attested.session, attested.event.identified⟩ ?_
    exact fun collide => collides ⟨read, held, entry, committed, collide⟩

namespace Sample

/-- Under a hash with one value a forged window verifies, and it is the forged
entry that collides with the committed one. -/
theorem one_verifies : ∃ shipping : Shipping, ∃ entry : Entry,
    shipping.record.committed = [entry] ∧
    ((shipping.record.state.holding (shipping.record.state.entries.map postdated)).verify
      (Format.json constant)).isOk = true ∧
    ∃ read, .intact read ∈ shipping.record.state.entries.map postdated ∧
      Collide constant (hashedLine read) (hashedLine entry) := by
  obtain ⟨shipping, entry, run, same, committed⟩ := one_within
  obtain ⟨-, held, ok⟩ := decided_held
  rw [← same, committed] at held
  rw [← same] at ok
  have altered : shipping.record.state.entries.map postdated =
      [.intact { entry with atMillis := entry.atMillis + 1 }] := by
    rw [held]
    rfl
  have identified : ∀ read, .intact read ∈ shipping.record.state.entries.map postdated →
      read.Identified := by
    intro read listed
    rw [altered, List.mem_singleton] at listed
    obtain ⟨now, -, attested⟩ := run.keeps.record.committed entry (committed ▸ List.mem_cons_self)
    rw [Ledger.Held.intact.inj listed]
    exact ⟨attested.session, attested.event.identified⟩
  refine ⟨shipping, entry, committed, ok, ?_⟩
  rcases verifies_or_collides run _ identified ok with ⟨-, shown⟩ | ⟨read, listed, other, among, collide⟩
  · obtain ⟨own, at', shows⟩ := shown 0 _ (by rw [altered]; rfl)
    rw [committed] at at'
    obtain rfl := List.mem_singleton.mp (List.mem_of_getElem? at')
    rcases shows with is | is
    · have time := congrArg Entry.atMillis (Ledger.Held.intact.inj is)
      exact absurd time (Nat.succ_ne_self own.atMillis)
    · cases is
  · rw [committed, List.mem_singleton] at among
    exact ⟨read, listed, among ▸ collide⟩

end Sample

end McpSsh.Shipped
