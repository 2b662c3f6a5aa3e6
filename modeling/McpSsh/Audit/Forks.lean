import McpSsh.Audit.Shipped
import McpSsh.Audit.Tampering

/-!
# The shipped log never forks

Whatever the worker, the sink and the deadlines do, the lines that reached the
sink whole are those of the committed entries and at most one more, which
follows the same link as nothing else there. After a failure the record commits
nothing further, so that line stays the last.
-/

namespace McpSsh.Shipped

open Ledger (Record Limits)

variable {format : Format} {limits : Limits} {genesis : Digest} {record : Record}
variable {entry : Entry} {shipping : Shipping}

/-! ## What the sink has -/

theorem completeLines_line (line rest : List UInt8) (plain : newline ∉ line) :
    completeLines (line ++ newline :: rest) = line :: completeLines rest := by
  unfold completeLines
  rw [List.splitOn_append_cons_self_of_not_mem plain,
    List.dropLast_cons_of_ne_nil (List.splitOn_ne_nil _ _)]

theorem completeLines_part (part : List UInt8) (plain : newline ∉ part) : completeLines part = [] := by
  unfold completeLines
  rw [List.splitOn_eq_singleton plain]
  rfl

/-- The lines of what was shipped are its entries'. -/
theorem completeLines_shipped (plain : ∀ entry, newline ∉ format.encode entry)
    (entries : List Entry) (rest : List UInt8) :
    completeLines (entries.flatMap (lineOf format) ++ rest) =
      entries.map format.encode ++ completeLines rest := by
  induction entries with
  | nil => rfl
  | cons entry entries ih =>
    simp only [List.flatMap_cons, lineOf, List.append_assoc, List.map_cons,
      List.cons_append]
    rw [completeLines_line _ _ (plain entry)]
    exact congrArg _ ih

/-- Of one line that is out, the sink has all or nothing that counts. -/
theorem completeLines_out (plain : ∀ entry, newline ∉ format.encode entry) {tail : List UInt8}
    (part : tail <+: lineOf format entry) :
    completeLines tail = [] ∨ completeLines tail = [format.encode entry] := by
  rcases List.prefix_concat_iff.mp part with rfl | short
  · right
    rw [completeLines_line _ _ (plain entry), completeLines_part _ List.not_mem_nil]
  · left
    refine completeLines_part _ fun member => plain entry ?_
    exact short.subset member

/-- No two entries of a chain have one place. -/
theorem chained_sequences {entries : List Entry} (chained : Ledger.Chained format genesis entries) :
    (entries.map Entry.sequence).Nodup := by
  refine List.pairwise_iff_getElem.mpr fun first second within within' less same => ?_
  rw [List.length_map] at within within'
  simp only [List.getElem_map] at same
  have place := (chained _ _ (List.getElem?_eq_getElem within)).1
  have place' := (chained _ _ (List.getElem?_eq_getElem within')).1
  omega

/-- No two entries of a chain follow one digest, if digests tell its entries
apart and none is the one it starts from. -/
theorem chained_previous {entries : List Entry} (chained : Ledger.Chained format genesis entries)
    (apart : ∀ a ∈ entries, ∀ b ∈ entries, Ledger.Separates format a b)
    (fresh : ∀ a ∈ entries, format.digestOf a ≠ genesis) :
    (entries.map Entry.previous).Nodup := by
  refine List.pairwise_iff_getElem.mpr fun first second within within' less same => ?_
  rw [List.length_map] at within within'
  simp only [List.getElem_map] at same
  have link := (chained _ _ (List.getElem?_eq_getElem within)).2.1
  have link' := (chained _ _ (List.getElem?_eq_getElem within')).2.1
  rw [link, link'] at same
  obtain ⟨before, rfl⟩ := Nat.exists_eq_add_of_lt less
  have at' := List.getElem?_eq_getElem (show first + before < entries.length by omega)
  obtain ⟨place, -, hashed⟩ := chained _ _ at'
  simp only [Ledger.linkBefore, at', Option.map_some, Option.getD_some] at same
  cases first with
  | zero => exact fresh _ (List.mem_of_getElem? at') (hashed.trans same.symm)
  | succ earlier =>
    have at'' := List.getElem?_eq_getElem (show earlier < entries.length by omega)
    obtain ⟨place', -, hashed'⟩ := chained _ _ at''
    simp only [at'', Option.map_some, Option.getD_some] at same
    have equal := apart _ (List.mem_of_getElem? at'') _ (List.mem_of_getElem? at')
      (hashed'.trans (same.trans hashed.symm))
    have places := congrArg Entry.sequence equal
    simp only at places
    omega

/-- What the sink has whole, beyond what was committed. -/
structure Beyond (format : Format) (genesis : Digest) (shipping : Shipping)
    (further : Option Entry) : Prop where
  lines : completeLines shipping.output.sink.received =
    (shipping.record.committed ++ further.toList).map format.encode
  told : ∀ entry ∈ further, entry ∈ shipping.refused ∨
    ∃ call, shipping.call = some call ∧ call.entry = entry
  chained : Ledger.Chained format genesis (shipping.record.committed ++ further.toList)

theorem Phase.beyond (plain : ∀ entry, newline ∉ format.encode entry)
    (reached : Record.Reachable format limits genesis shipping.record)
    (phase : Phase format limits genesis shipping) :
    ∃ further, Beyond format genesis shipping further := by
  have chained := reached.represents.chained
  have lines := completeLines_shipped plain shipping.record.committed
  -- One line is out: the sink has nothing of it that counts, or all of it.
  have out : ∀ extra tail, Next format genesis shipping.record extra →
      tail <+: lineOf format extra →
      shipping.output.sink.received = shipped format shipping.record ++ tail →
      (extra ∈ shipping.refused ∨ ∃ call, shipping.call = some call ∧ call.entry = extra) →
      ∃ further, Beyond format genesis shipping further := by
    intro extra tail next part received told
    rcases completeLines_out plain part with nothing | all
    · refine ⟨none, ?_, fun entry same => (by cases same), by simpa using chained⟩
      rw [received, shipped, lines, nothing]
      simp
    · refine ⟨some extra, ?_, fun entry same => ?_, chained.concat next.1 next.2.1 next.2.2.symm⟩
      · rw [received, shipped, lines, all]
        simp
      · cases same
        exact told
  cases phase with
  | resting _ _ _ _ _ received =>
    refine ⟨none, ?_, fun entry same => (by cases same), by simpa using chained⟩
    have whole := lines []
    rw [List.append_nil] at whole
    rw [received, shipped, whole, completeLines_part _ List.not_mem_nil]
    simp
  | asking waits _ _ _ asked carries received =>
    exact out _ _ (asks_some reached asked).1 carries.part received (.inr ⟨_, waits, rfl⟩)
  | @ended extra tail _ _ _ told next at_ received =>
    have part : tail <+: lineOf format extra := by
      rcases at_ with ⟨-, -, part⟩ | ⟨_, carries⟩
      · exact part
      · exact carries.part
    exact out extra tail next part received (.inl told)

theorem Phase.flushed (phase : Phase format limits genesis shipping) :
    shipped format shipping.record <+:
      shipping.output.sink.received.take shipping.output.sink.flushed := by
  have upTo : ∀ tail, shipping.output.sink.received = shipped format shipping.record ++ tail →
      (shipped format shipping.record).length ≤ shipping.output.sink.flushed →
      shipped format shipping.record <+:
        shipping.output.sink.received.take shipping.output.sink.flushed := by
    intro tail received flushed
    rw [received]
    exact List.prefix_take_iff.mpr ⟨List.prefix_append _ _, flushed⟩
  cases phase with
  | resting _ _ _ _ _ received flushed =>
    exact upTo [] (by rw [received, List.append_nil]) (Nat.le_of_eq flushed.symm)
  | asking _ _ _ _ _ _ received flushed => exact upTo _ received flushed
  | ended _ _ _ _ _ _ received flushed => exact upTo _ received flushed

theorem Phase.failed_of_refused (phase : Phase format limits genesis shipping)
    (refused : shipping.refused ≠ []) : shipping.failed = true := by
  cases phase with
  | resting _ _ _ none' => exact absurd none' refused
  | asking _ _ _ none' => exact absurd none' refused
  | ended _ _ failed => exact failed

/-- **The shipped log never forks.** At every moment the sink has whole the lines
of the committed entries, in order, and at most one more, whose call still
waits or was refused; no two of their entries have one place or follow one
digest. Every committed entry was written and flushed, a waiting call ends with
its entry committed or refused, and after a failure nothing is committed. -/
theorem never_forks (plain : ∀ entry, newline ∉ format.encode entry)
    (reached : Shipping.Reachable format limits genesis shipping) :
    (∃ further : Option Entry,
      completeLines shipping.output.sink.received =
        (shipping.record.committed ++ further.toList).map format.encode ∧
      (∀ entry ∈ further, entry ∈ shipping.refused ∨
        ∃ call, shipping.call = some call ∧ call.entry = entry) ∧
      ((shipping.record.committed ++ further.toList).map Entry.sequence).Nodup ∧
      ((∀ a ∈ shipping.record.committed ++ further.toList,
          ∀ b ∈ shipping.record.committed ++ further.toList, Ledger.Separates format a b) →
        (∀ a ∈ shipping.record.committed ++ further.toList, format.digestOf a ≠ genesis) →
        ((shipping.record.committed ++ further.toList).map Entry.previous).Nodup)) ∧
    shipping.record.committed.flatMap (lineOf format) <+:
      shipping.output.sink.received.take shipping.output.sink.flushed ∧
    (∀ next, Shipping.Step format limits shipping next → ∀ call, shipping.call = some call →
      next.call = some call ∨
      next.record.committed = shipping.record.committed ++ [call.entry] ∨
      next.record.committed = shipping.record.committed ∧ call.entry ∈ next.refused) ∧
    (shipping.refused ≠ [] → shipping.failed = true) ∧
    (shipping.failed = true → ∀ later, Shipping.Later format limits shipping later →
      later.record.committed = shipping.record.committed) := by
  obtain ⟨record, phase⟩ := reached.phase
  obtain ⟨further, beyond⟩ := phase.beyond plain record
  exact ⟨⟨further, beyond.lines, beyond.told, chained_sequences beyond.chained,
      chained_previous beyond.chained⟩,
    phase.flushed, fun _ step => (phase.effect record step).waits, phase.failed_of_refused,
    fun failed _ run => (run.failed reached failed).2⟩

/-! ## A line that finishes after its caller left -/

namespace Sample

/-- Entries told apart by the length of their lines. -/
def unary : Format := ⟨fun bytes => ⟨bytes⟩, fun entry => List.replicate (entry.sequence + 1) 65⟩

def decides : Move := .call (.recordIntent Ledger.Sample.permitted default) 0

/-- Two decisions: one is written, flushed and answered for; the deadline of the
other passes while it is being written, and its line finishes all the same. -/
def moves : List Move :=
  [decides, .take, .write 2, .flush true, .answer,
    decides, .take, .write 1, .timeout, .write 2, .flush true, .answer]

def finished : Shipping :=
  (moves.foldlM (Shipping.move unary .default) (.new ⟨[]⟩)).getD (.new ⟨[]⟩)

theorem later_of_moves {shipping : Shipping} (moves : List Move)
    (decisions : ∀ operation now, .call operation now ∈ moves →
      ∃ decision profile, operation = .recordIntent decision profile)
    {after : Shipping} (made : moves.foldlM (Shipping.move unary .default) shipping = some after) :
    Shipping.Later unary .default shipping after := by
  induction moves generalizing shipping with
  | nil =>
    cases made
    exact .refl
  | cons move rest ih =>
    obtain ⟨next, first, made⟩ := Option.bind_eq_some_iff.mp made
    refine .head ⟨move, ?_, first⟩
      (ih (fun operation now among => decisions operation now (List.mem_cons_of_mem _ among)) made)
    rintro operation now rfl
    obtain ⟨decision, profile, rfl⟩ := decisions operation now List.mem_cons_self
    exact trivial

theorem finished_reachable : Shipping.Reachable unary .default ⟨[]⟩ finished := by
  obtain ⟨after, made⟩ := Option.isSome_iff_exists.mp (show
    (moves.foldlM (Shipping.move unary .default) (.new ⟨[]⟩)).isSome = true by decide +kernel)
  rw [finished, made]
  refine later_of_moves moves (fun operation now among => ?_) made
  simp only [moves, decides, List.mem_cons, Move.call.injEq, List.not_mem_nil, reduceCtorEq,
    or_false, false_or] at among
  rcases among with ⟨rfl, -⟩ | ⟨rfl, -⟩ <;> exact ⟨_, _, rfl⟩

/-- The sink has both lines, one was committed, and nothing is committed later. -/
theorem finished_ends :
    (completeLines finished.output.sink.received).length = 2 ∧
      finished.record.committed.length = 1 ∧
      ∀ later, Shipping.Later unary .default finished later →
        later.record.committed = finished.record.committed := by
  refine ⟨by decide +kernel, by decide +kernel, ?_⟩
  have plain : ∀ entry, newline ∉ unary.encode entry := fun entry among =>
    absurd (List.eq_of_mem_replicate among) (by decide)
  obtain ⟨-, -, -, -, ended⟩ := never_forks plain finished_reachable
  exact ended (by decide +kernel)

end Sample

end McpSsh.Shipped
