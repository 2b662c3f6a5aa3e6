import McpSsh.Bastion.Preserved.Sessions

/-!
# Request steps keep the invariant

An ask raises a request under a number nobody has drawn, for a decision its own
call recorded. An answer is given to a request that waits, so it is the only
one. What is found to be collectable is an agreement in the record whose window
lasts, and what is spent is the request that was being collected.
-/

namespace McpSsh.Bastion

open Approvals (Requests AskCase)

variable {deployment : Deployment} {tid : Nat} {choice : Choice} {service after : Service}
variable {journal : Journal} {β : Type} {answer : β}

/-- What a request step has to leave for the invariant to hold of the rest. -/
structure RequestsKept (deployment : Deployment) (tid : Nat) (service : Service)
    (effect : Effect RequestPart β) : Prop where
  history : HistoryOk deployment (service.journal ++ effect.notes)
  requests : RequestsOk deployment (service.journal ++ effect.notes) effect.part
  needed : ∀ sequence, Needed effect.part.requests
    (effect.proofs.map (tid, ·) ++ service.proofs) sequence →
      Needed service.approvals.requests service.proofs sequence
  collecting : effect.holds = false → effect.part.collecting = none
  notes : ∀ note ∈ effect.notes, note.entry = none ∧ ∀ id, note ≠ .withdrew id

/-! ## Forgetting -/

theorem RequestsOk.fewer {part : RequestPart} (ok : RequestsOk deployment journal part)
    {requests : Requests} (sub : requests.Sublist part.requests) :
    RequestsOk deployment journal { part with requests } where
  tidy := by
    obtain ⟨owner, tidy, owns⟩ := ok.tidy
    exact ⟨owner, tidy.sublist sub, owns⟩
  held := fun held member => ok.held held (sub.subset member)
  unspent := fun held member => ok.unspent held (sub.subset member)

theorem Needed.fewer {requests fewer : Requests} {proofs : List (Nat × Nat)} {sequence : Nat}
    (sub : fewer.Sublist requests) (needed : Needed fewer proofs sequence) :
    Needed requests proofs sequence := by
  rcases needed with ⟨held, member, proof⟩ | mine
  · exact .inl ⟨held, sub.subset member, proof⟩
  · exact .inr mine

/-- A step that changes nothing but forgets. -/
theorem RequestsKept.still (inv : Inv deployment service) {answer : β} {requests : Requests}
    (sub : requests.Sublist service.approvals.requests)
    (collecting : service.approvals.collecting = none) {holds : Bool} :
    RequestsKept deployment tid service
      ⟨answer, { service.approvals with requests }, holds, [], []⟩ where
  history := by simpa using inv.history
  requests := by simpa using inv.requests.fewer sub
  needed := fun sequence needed => needed.fewer sub
  collecting := fun _ => collecting
  notes := by simp

/-! ## Asking -/

section
variable {intended : Intended} {now : Nat}

/-- A request nobody knew, for a decision its call recorded. -/
theorem HistoryOk.raise (history : HistoryOk deployment journal)
    (unused : journal.unused choice.draw = true)
    (recorded : Note.recorded tid intended ∈ journal)
    (held : intended.decision.verdict = .needsApproval) (now : Nat) :
    HistoryOk deployment (journal ++
      [.raised tid intended (deployment.approvals.raise now ⟨choice.draw⟩ intended)]) :=
  history.append ⟨recorded, held, now, rfl⟩ (fun draw same => by cases same; exact unused)
    (by simp [Note.answers]) (by simp [Note.collects]) (by simp [Note.mints])
    (by simp [Note.registers])

theorem HeldOk.new (history : HistoryOk deployment journal)
    (unused : journal.unused choice.draw = true)
    (proof : intended.proof = some intended.entry.sequence) :
    HeldOk deployment
      (journal ++ [.raised tid intended (deployment.approvals.raise now ⟨choice.draw⟩ intended)])
      (deployment.approvals.raised now ⟨choice.draw⟩ intended) where
  raised := ⟨tid, intended, List.mem_append_right _ (List.mem_singleton_self _), rfl⟩
  proof := fun _ => proof
  waiting := by
    intro _ note member
    rcases List.mem_append.mp member with old | new
    · exact (history.unraised unused old).1
    · rw [List.mem_singleton] at new
      subst new
      simp [Note.answers]
  approved := by
    intro by_ recorded state
    cases state

/-- The store with a request nobody knew in it, but for what is forgotten. -/
theorem RequestsOk.raise {part : RequestPart} (ok : RequestsOk deployment journal part)
    (history : HistoryOk deployment journal) (unused : journal.unused choice.draw = true)
    (proof : intended.proof = some intended.entry.sequence) {requests : Requests}
    (sub : requests.Sublist
      (deployment.approvals.raised now ⟨choice.draw⟩ intended :: part.requests))
    {owner : Approvals.Owner} (tidy : requests.Tidy deployment.waitingPerSession owner)
    (owns : ∀ session, journal.Opened session → owner session.id = session.principal) :
    RequestsOk deployment
      (journal ++ [.raised tid intended (deployment.approvals.raise now ⟨choice.draw⟩ intended)])
      { part with requests } where
  tidy := ⟨owner, tidy, fun session opened =>
    owns session (Opened_of_quiet (by simp [Note.quiet]) opened)⟩
  held := by
    intro held member
    rcases List.mem_cons.mp (sub.subset member) with rfl | old
    · exact HeldOk.new history unused proof
    · exact (ok.held held old).grow (by simp [Note.answers])
  unspent := by
    intro held member opened note inside collects
    rcases List.mem_append.mp inside with before | new
    · rcases List.mem_cons.mp (sub.subset member) with rfl | old
      · exact absurd collects (history.unraised unused before).2
      · exact ok.unspent held old opened note before collects
    · rw [List.mem_singleton] at new
      subst new
      cases collects

/-- The proof of a request nobody knew is one its call holds. -/
theorem Needed.raise {requests fewer : Requests} {proofs : List (Nat × Nat)}
    (proof : intended.proof = some intended.entry.sequence)
    (mine : (tid, intended.entry.sequence) ∈ proofs)
    (sub : fewer.Sublist (deployment.approvals.raised now ⟨choice.draw⟩ intended :: requests))
    {sequence : Nat} (needed : Needed fewer proofs sequence) : Needed requests proofs sequence := by
  rcases needed with ⟨held, member, holds⟩ | called
  · rcases List.mem_cons.mp (sub.subset member) with rfl | old
    · have same : intended.proof = some sequence := holds
      rw [proof] at same
      cases same
      exact .inr ⟨tid, mine⟩
    · exact .inl ⟨held, old, holds⟩
  · exact .inr called

end

/-- Who a session belongs to is who opened it. -/
theorem RequestsOk.owner {part : RequestPart} (ok : RequestsOk deployment journal part)
    (history : HistoryOk deployment journal) (unused : journal.unused choice.draw = true)
    {intended : Intended} (recorded : Note.recorded tid intended ∈ journal) (now : Nat) :
    ∃ owner, Requests.Tidy deployment.waitingPerSession owner
        (deployment.approvals.ask now ⟨choice.draw⟩ intended part.requests).2 ∧
      ∀ session, journal.Opened session → owner session.id = session.principal := by
  obtain ⟨owner, tidy, owns⟩ := ok.tidy
  have tidy : part.requests.Tidy deployment.approvals.waitingPerSession owner := tidy
  obtain ⟨-, -, -, opened, -⟩ := history.recorded recorded
  refine ⟨owner, tidy.ask now (fun held member same => ?_) (owns _ opened).symm, owns⟩
  obtain ⟨raiser, root, raised, -⟩ := (ok.held held member).raised
  exact history.unused unused raised (by simp [Note.drawn, same])

/-- An agreement found in time is in the record. -/
theorem HeldOk.found {held : Approvals.Held} {by_ : Approver} {now : Nat}
    (ok : HeldOk deployment journal held) (state : held.state = .approved by_ true)
    (within : now < held.redeemBy) :
    Warrant deployment journal (.found tid held.asked.id now) := by
  obtain ⟨answerer, answer, answered, asked, approver, agreed, recorded⟩ := ok.approved _ _ state
  exact ⟨answer, held.redeemBy, recorded rfl, by rw [asked], within⟩

/-- A note that a request was found changes nothing known of requests. -/
theorem RequestsOk.found {part : RequestPart} (ok : RequestsOk deployment journal part)
    (id : RequestId) (now : Nat) :
    RequestsOk deployment (journal ++ [.found tid id now]) part :=
  ok.grow (by simp [Note.quiet])

/-- While nothing is collected, any request may be. -/
theorem RequestsOk.collecting {part : RequestPart} (ok : RequestsOk deployment journal part)
    (none' : part.collecting = none) (id : RequestId) (now : Nat) :
    RequestsOk deployment (journal ++ [.found tid id now]) { part with collecting := some id } where
  tidy := (ok.found id now).tidy
  held := (ok.found id now).held
  unspent := by
    intro held member opened note inside collects
    have before := (ok.found id now).unspent held member opened note inside collects
    rw [none'] at before
    cases before

theorem RequestStep.ask_keeps (inv : Inv deployment service) {intended : Intended}
    (unused : service.journal.unused choice.draw = true)
    (free : service.locks .requests = none)
    (guard : (RequestStep.ask intended).Guard tid service) :
    RequestsKept deployment tid service
      ((RequestStep.ask intended).effect deployment.approvals tid service.clock choice.draw
        service.approvals) := by
  obtain ⟨recorded, verdict, proof, mine⟩ := guard
  have idle := inv.collecting free
  have history := inv.history.raise unused recorded verdict service.clock
  obtain ⟨owner, tidy, owns⟩ := inv.requests.owner inv.history unused recorded service.clock
  have sub : (service.approvals.requests.retain service.clock).Sublist service.approvals.requests :=
    List.filter_sublist
  have kept := inv.requests.fewer sub
  have outcome := deployment.approvals.ask_case service.clock ⟨choice.draw⟩ intended
    service.approvals.requests
  simp only [RequestStep.effect]
  generalize deployment.approvals.ask service.clock ⟨choice.draw⟩ intended
    service.approvals.requests = result at outcome tidy
  obtain ⟨asking, requests⟩ := result
  simp only at outcome tidy
  cases outcome with
  | @collect held by_ member _ within state =>
    exact ⟨inv.history.append_plain ((kept.held held member).found state within) rfl rfl rfl rfl rfl,
      kept.collecting idle _ _, fun _ needed => needed.fewer sub, by simp, by simp [Note.entry]⟩
  | refused => exact .still inv sub idle
  | @pending found member =>
    obtain ⟨raiser, root, raised, -⟩ := (kept.held found member).raised
    exact ⟨inv.history.append_plain ⟨raiser, root, _, raised, rfl⟩ rfl rfl rfl rfl rfl,
      kept.grow (by simp [askNotes, Note.quiet]), fun _ needed => needed.fewer sub,
      fun _ => idle, by simp [askNotes, Note.entry]⟩
  | full => exact .still inv sub idle
  | raised =>
    exact ⟨history, kept.raise inv.history unused proof (List.Sublist.refl _) tidy owns,
      fun _ needed => (Needed.raise proof mine (List.Sublist.refl _) needed).fewer sub,
      fun _ => idle, by simp [askNotes, Note.entry]⟩
  | @lapsed gone by_ _ _ _ _ found =>
    have sub' : (List.filter (fun held => decide (held.asked.id ≠ gone.asked.id))
        (deployment.approvals.raised service.clock ⟨choice.draw⟩ intended ::
          service.approvals.requests.retain service.clock)).Sublist _ := List.filter_sublist
    have notes : askNotes deployment.approvals tid service.clock intended service.approvals.requests
        (.answered (.ok (.lapsed (.new
          (deployment.approvals.raise service.clock ⟨choice.draw⟩ intended)) by_))) =
        [.raised tid intended (deployment.approvals.raise service.clock ⟨choice.draw⟩ intended)] ++
          [.lapsed tid gone.asked.id by_] := by
      simp [askNotes, found, Ask.asked]
    simp only [notes]
    refine ⟨?_, ?_, fun _ needed => (Needed.raise proof mine sub' needed).fewer sub, fun _ => idle,
      by simp [Note.entry]⟩
    · rw [← List.append_assoc]
      exact history.append_plain trivial rfl rfl rfl rfl rfl
    · rw [← List.append_assoc]
      exact (kept.raise inv.history unused proof sub' tidy owns).grow (by simp [Note.quiet])

/-! ## Collecting -/

theorem RequestStep.redeem_keeps (inv : Inv deployment service) {id : RequestId}
    {principal : PrincipalId} {action : Digest} (free : service.locks .requests = none) :
    RequestsKept deployment tid service
      ((RequestStep.redeem id principal action).effect deployment.approvals tid service.clock
        choice.draw service.approvals) := by
  have idle := inv.collecting free
  simp only [RequestStep.effect]
  split
  · exact .still inv (List.Sublist.refl _) idle
  · rename_i grant redeemed
    obtain ⟨held, member, by_, rfl, -, -, within, state, rfl⟩ :=
      Approvals.Requests.redeem_eq_ok redeemed
    exact ⟨inv.history.append_plain ((inv.requests.held held member).found state within)
        rfl rfl rfl rfl rfl,
      inv.requests.collecting idle _ _, fun _ needed => needed, by simp, by simp [Note.entry]⟩

/-- A change to one request, under the others' eyes. -/
theorem RequestsOk.update {part : RequestPart} (ok : RequestsOk deployment journal part)
    {id : RequestId} {change : Approvals.Held → Approvals.Held} {collecting : Option RequestId}
    (tidy : ∀ owner, part.requests.Tidy deployment.waitingPerSession owner →
      Requests.Tidy deployment.waitingPerSession owner (part.requests.update id change))
    (changed : ∀ held ∈ part.requests, held.asked.id = id → HeldOk deployment journal (change held))
    (unspent : ∀ held ∈ part.requests.update id change, held.isOpen = true →
      ∀ note ∈ journal, note.collects = some held.asked.id → collecting = some held.asked.id) :
    RequestsOk deployment journal ⟨part.requests.update id change, collecting⟩ where
  tidy := by
    obtain ⟨owner, tidy', owns⟩ := ok.tidy
    exact ⟨owner, tidy owner tidy', owns⟩
  held := by
    intro held member
    obtain ⟨before, mb, rfl⟩ := List.mem_map.mp member
    split
    · exact changed before mb ‹_›
    · exact ok.held before mb
  unspent := unspent

/-- A change that makes no proof needs no other. -/
theorem Needed.update {requests : Requests} {proofs : List (Nat × Nat)} {id : RequestId}
    {change : Approvals.Held → Approvals.Held}
    (proof : ∀ held sequence, (change held).proof = some sequence → held.proof = some sequence)
    {sequence : Nat} (needed : Needed (requests.update id change) proofs sequence) :
    Needed requests proofs sequence := by
  rcases needed with ⟨held, member, holds⟩ | called
  · obtain ⟨before, mb, rfl⟩ := List.mem_map.mp member
    split at holds
    · exact .inl ⟨before, mb, proof before sequence holds⟩
    · exact .inl ⟨before, mb, holds⟩
  · exact .inr called

theorem RequestStep.spend_keeps (inv : Inv deployment service) {id : RequestId}
    (guard : (RequestStep.spend id).Guard tid service) :
    RequestsKept deployment tid service
      ((RequestStep.spend id).effect deployment.approvals tid service.clock choice.draw
        service.approvals) := by
  obtain ⟨collecting, -⟩ := guard
  simp only [RequestStep.effect, Effect.plain]
  refine ⟨by simpa using inv.history, ?_, fun _ needed => needed.update (by simp), fun _ => rfl,
    by simp⟩
  rw [List.append_nil]
  refine inv.requests.update (fun owner tidy => tidy.spend id) ?_ ?_
  · intro held member _
    exact { (inv.requests.held held member) with
      proof := by simp [Approvals.State.isWaiting, Approvals.State.agreedBy]
      waiting := by simp [Approvals.State.isWaiting]
      approved := by simp }
  · intro held member opened note inside collects
    obtain ⟨before, mb, rfl⟩ := List.mem_map.mp member
    split at opened
    · simp [Approvals.Held.isOpen, Approvals.State.isRedeemed] at opened
    · rename_i other
      rw [if_neg other] at collects
      have same := inv.requests.unspent before mb opened note inside collects
      rw [collecting] at same
      exact absurd (Option.some.inj same).symm other

theorem RequestStep.unlock_keeps (inv : Inv deployment service)
    (guard : RequestStep.unlock.Guard tid service) :
    RequestsKept deployment tid service
      (RequestStep.unlock.effect deployment.approvals tid service.clock choice.draw
        service.approvals) := by
  simp only [RequestStep.effect, Effect.plain]
  refine ⟨by simpa using inv.history, ?_, fun _ needed => needed, fun _ => rfl, by simp⟩
  rw [List.append_nil]
  refine { inv.requests with unspent := fun held member opened note inside collects => ?_ }
  exact absurd collects
    (guard _ (inv.requests.unspent held member opened note inside collects) note inside)

/-! ## Answering -/

theorem RequestStep.answer_keeps (inv : Inv deployment service) {held : Approvals.Held}
    {reading : Nat} {approver : Approver} {agreed : Bool}
    (guard : (RequestStep.answer held reading approver agreed).Guard tid service) :
    RequestsKept deployment tid service
      ((RequestStep.answer held reading approver agreed).effect deployment.approvals tid
        service.clock choice.draw service.approvals) := by
  obtain ⟨idle, member, waiting, stated, pursues, speaks⟩ := guard
  have waits : held.state.isWaiting = true := by simp [waiting, Approvals.State.isWaiting]
  have ok := inv.requests.held held member
  have unanswered := ok.waiting waits
  simp only [RequestStep.effect]
  generalize same : (⟨held.asked, approver, agreed, held.proof⟩ : Answer) = answer
  have history : HistoryOk deployment (service.journal ++
      [.answered tid answer (satAdd reading deployment.windows.redeemWithin)]) := by
    obtain ⟨raiser, root, raised, -⟩ := ok.raised
    refine inv.history.append ⟨⟨raiser, root, same ▸ raised⟩, ⟨reading, rfl⟩,
      by rw [← same]; exact stated, ?_⟩
      (by simp [Note.drawn]) ?_ (by simp [Note.collects]) (by simp [Note.mints])
      (by simp [Note.registers])
    · intro id named
      obtain ⟨-, agreement, -, -, answersAs, about, selectedAt, selected⟩ :=
        speaks id (by rw [← same] at named; exact named)
      rw [← same] at named ⊢
      exact ⟨pursues (by simp [named]), agreement, selectedAt, selected, answersAs, about⟩
    · intro id named earlier inside
      rw [← same] at named
      cases named
      exact unanswered earlier inside
  refine ⟨history, ?_, ?_, fun _ => idle, by simp [Note.entry]⟩
  · -- Another request is not under this identifier, so the answer is not its.
    obtain ⟨owner, tidy, owns⟩ := inv.requests.tidy
    have alone : ∀ other ∈ service.approvals.requests, other.asked.id = held.asked.id →
        other = held := fun other mo id => tidy.eq_of_id mo member id
    refine ⟨⟨owner, tidy.answer member waits reading approver agreed, fun session opened =>
      owns session ?_⟩, ?_, ?_⟩
    · obtain ⟨opener, lastUsed, inside⟩ := opened
      rcases List.mem_append.mp inside with old | new
      · exact ⟨opener, lastUsed, old⟩
      · simp at new
    · intro changed inside
      obtain ⟨before, mb, rfl⟩ := List.mem_map.mp inside
      split
      · rename_i here
        rw [alone before mb here]
        obtain ⟨raiser, root, raised, action⟩ := ok.raised
        unfold Approvals.Config.answer
        cases agreed with
        | true =>
          refine ⟨⟨raiser, root, List.mem_append_left _ raised, action⟩,
            fun _ => ok.proof (.inl waits), by simp [Approvals.State.isWaiting], ?_⟩
          intro by_ recorded state
          simp only [if_true] at state
          cases state
          exact ⟨tid, answer, by simp [Deployment.approvals], by rw [← same]; rfl, by rw [← same],
            by rw [← same], by simp⟩
        | false =>
          exact ⟨⟨raiser, root, List.mem_append_left _ raised, action⟩,
            by simp [Approvals.State.isWaiting, Approvals.State.agreedBy],
            by simp [Approvals.State.isWaiting], by simp⟩
      · rename_i elsewhere
        have older := inv.requests.held before mb
        refine ⟨?_, older.proof, ?_, ?_⟩
        · obtain ⟨raiser, root, raised, action⟩ := older.raised
          exact ⟨raiser, root, List.mem_append_left _ raised, action⟩
        · intro waits' note inside'
          rcases List.mem_append.mp inside' with old | new
          · exact older.waiting waits' note old
          · rw [List.mem_singleton] at new
            subst new
            rw [← same]
            simpa [Note.answers] using fun id => elsewhere id.symm
        · intro by_ recorded state
          obtain ⟨answerer, given, answered, asked, approver', yes, inRecord⟩ :=
            older.approved by_ recorded state
          exact ⟨answerer, given, List.mem_append_left _ answered, asked, approver', yes,
            fun done => (inRecord done).grow (List.prefix_append _ _)⟩
    · intro changed inside opened note stands collects
      rcases List.mem_append.mp stands with old | new
      · obtain ⟨before, mb, rfl⟩ := List.mem_map.mp inside
        split at collects
        · rename_i here
          rw [alone before mb here] at collects
          have wasOpen : held.isOpen = true := by
            simp [Approvals.Held.isOpen, waiting, Approvals.State.isRedeemed]
          have id : (deployment.approvals.answer reading approver agreed held).asked = held.asked := by
            unfold Approvals.Config.answer
            split <;> rfl
          rw [id] at collects
          have already := inv.requests.unspent held member wasOpen note old collects
          rw [idle] at already
          cases already
        · rename_i elsewhere
          rw [if_neg elsewhere] at opened
          have already := inv.requests.unspent before mb opened note old collects
          rw [idle] at already
          cases already
      · rw [List.mem_singleton] at new
        subst new
        cases collects
  · intro sequence needed
    rcases needed with ⟨changed, inside, holds⟩ | ⟨caller, mine⟩
    · have changedNeeds : Needed (service.approvals.requests.update held.asked.id
          (deployment.approvals.answer reading approver agreed)) service.proofs sequence :=
        .inl ⟨changed, inside, holds⟩
      refine changedNeeds.update (fun other sequence same' => ?_)
      unfold Approvals.Config.answer at same'
      split at same'
      · exact same'
      · cases same'
    · rcases List.mem_append.mp mine with new | old
      · obtain ⟨sequence', has, eq⟩ := List.mem_map.mp new
        cases eq
        exact .inl ⟨held, member, Option.mem_toList.mp has⟩
      · exact .inr ⟨caller, old⟩

/-- An answer that is in the record is marked on the request it was given to. -/
theorem RequestStep.markRecorded_keeps (inv : Inv deployment service) {id : RequestId}
    (free : service.locks .requests = none)
    (guard : (RequestStep.markRecorded id).Guard tid service) :
    RequestsKept deployment tid service
      ((RequestStep.markRecorded id).effect deployment.approvals tid service.clock choice.draw
        service.approvals) := by
  obtain ⟨answer, redeemBy, -, recorded, about, -⟩ := guard
  have idle := inv.collecting free
  obtain ⟨owner, tidy, owns⟩ := inv.requests.tidy
  simp only [RequestStep.effect, Effect.plain, Approvals.Requests.markRecorded]
  split
  · rename_i by_ found
    obtain ⟨held, foundAt, agreedBy⟩ := Option.bind_eq_some_iff.mp found
    obtain ⟨member, rfl⟩ := Approvals.Requests.find_eq_some foundAt
    have kept := tidy.markRecorded held.asked.id
    simp only [Approvals.Requests.markRecorded, found] at kept
    refine ⟨by simpa using inv.history, ?_, fun _ needed => needed.update (by simp),
      fun _ => idle, by simp⟩
    rw [List.append_nil]
    refine ⟨⟨owner, kept, owns⟩, fun changed inside => ?_, fun changed inside opened note stands collects => ?_⟩
    · obtain ⟨before, mb, rfl⟩ := List.mem_map.mp inside
      have older := inv.requests.held before mb
      split
      · rename_i here
        cases tidy.eq_of_id mb member here
        have was : ∃ wasRecorded, held.state = .approved by_ wasRecorded := by
          cases state : held.state <;> simp_all [Approvals.State.agreedBy]
        obtain ⟨wasRecorded, was⟩ := was
        obtain ⟨answerer, given, answered, asked, approver, yes, -⟩ := older.approved _ _ was
        have inRecord := recorded
        obtain ⟨-, ⟨answerer', answered'⟩, -⟩ := inRecord
        obtain ⟨-, rfl, rfl⟩ := inv.history.answered_unique answered answered'
          (by rw [asked]; exact about.symm)
        refine ⟨older.raised, fun _ => older.proof (.inr (by simp [was, Approvals.State.agreedBy])),
          by simp [Approvals.State.isWaiting], ?_⟩
        intro approver' recorded' state
        cases state
        exact ⟨answerer, given, answered, asked, approver, yes, fun _ => recorded⟩
      · exact older
    · obtain ⟨before, mb, rfl⟩ := List.mem_map.mp inside
      have sameId : (if before.asked.id = held.asked.id then
          { before with state := .approved by_ true } else before).asked = before.asked := by
        split <;> rfl
      have wasOpen : before.isOpen = true := by
        split at opened
        · rename_i here
          cases tidy.eq_of_id mb member here
          cases state : held.state <;>
            simp_all [Approvals.State.agreedBy, Approvals.Held.isOpen, Approvals.State.isRedeemed]
        · exact opened
      rw [sameId] at collects ⊢
      exact inv.requests.unspent before mb wasOpen note stands collects
  · exact .still inv (List.Sublist.refl _) idle

/-! ## All of them -/

theorem RequestStep.keeps {step : RequestStep β} (inv : Inv deployment service)
    (unused : service.journal.unused choice.draw = true)
    (permits : service.permits tid step.use = true) (guard : step.Guard tid service) :
    RequestsKept deployment tid service
      (step.effect deployment.approvals tid service.clock choice.draw service.approvals) := by
  cases step with
  | ask intended => exact RequestStep.ask_keeps inv unused (of_decide_eq_true permits) guard
  | redeem => exact RequestStep.redeem_keeps inv (of_decide_eq_true permits)
  | spend => exact RequestStep.spend_keeps inv guard
  | unlock => exact RequestStep.unlock_keeps inv guard
  | decidable id =>
    have idle := inv.collecting (of_decide_eq_true permits)
    simp only [RequestStep.effect]
    split <;> exact .still inv (List.Sublist.refl _) idle
  | answer => exact RequestStep.answer_keeps inv guard
  | markRecorded => exact RequestStep.markRecorded_keeps inv (of_decide_eq_true permits) guard
  | lock => exact .still inv (List.Sublist.refl _) (inv.collecting (of_decide_eq_true permits))
  | retain kept => exact .still inv List.filter_sublist guard.1

/-- **Request steps keep the invariant.** -/
theorem RequestStep.preserves {step : RequestStep β} (inv : Inv deployment service)
    (guard : (Step.requests step).Guard deployment tid service)
    (ran : (Step.requests step).run deployment tid choice service = some (answer, after)) :
    Inv deployment after := by
  obtain ⟨unused, permits, rfl, rfl⟩ := Step.ran ran
  have kept := RequestStep.keeps inv unused permits guard.2
  have grows : service.journal <+: service.journal ++ _ := List.prefix_append service.journal
    (step.effect deployment.approvals tid service.clock choice.draw service.approvals).notes
  exact {
    history := kept.history
    sessions := inv.sessions.grow grows
    requests := kept.requests
    collecting := by
      intro free
      apply kept.collecting
      cases holds : (step.effect deployment.approvals tid service.clock choice.draw
          service.approvals).holds with
      | false => rfl
      | true =>
        have held : service.locksAfter tid true (Step.requests step).use .requests = some tid := by
          cases step <;> simp [Service.locksAfter, Step.use, RequestStep.use]
        simp only [Step.effect, holds] at free
        rw [held] at free
        cases free
    standing := inv.standing.grow (fun note new => (kept.notes note new).2)
    record := (inv.record.fewer kept.needed).grow (fun note new => (kept.notes note new).1)
    links := inv.links.grow grows
    runs := inv.runs.grow grows }

end McpSsh.Bastion
