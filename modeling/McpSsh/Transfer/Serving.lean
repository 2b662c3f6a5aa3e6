import McpSsh.Transfer.Accounting
import McpSsh.Transfer.Served

/-!
# What a transfer serves
-/

namespace McpSsh.Transfers

variable {setting : Setting} {plane next : Plane} {act : Act} {i : Nat} {id : String}
  {item : Item} {snapshot : Snapshot}

/-! ## Over whole runs -/

theorem Plane.served_new (clock : Nat) : (Plane.new clock).Served setting where
  items _ _ found := nomatch found
  tasks _ listed := absurd listed List.not_mem_nil
  handed _ listed := absurd listed List.not_mem_nil
  known := List.nil_subset _
  once := List.nodup_nil
  taken := List.nodup_nil
  used := List.nil_subset _
  issued := List.nodup_nil
  issues _ listed := absurd listed List.not_mem_nil

theorem Reachable.served (reachable : Reachable setting plane) (remote : setting.isLocal = false) :
    plane.Served setting := by
  obtain ⟨clock, reaches⟩ := reachable
  induction reaches with
  | refl => exact Plane.served_new clock
  | tail before step ih =>
    obtain ⟨act, step⟩ := step
    exact ih.step (Reachable.inv ⟨clock, before⟩) remote step

/-- An item that serves nobody any more: it was withdrawn, is being cleaned, or
is gone. -/
def Plane.Spent (plane : Plane) (id : String) : Prop :=
  id ∈ plane.drawn ∧ ∀ item, plane.store.items.lookup id = some item →
    item.withdrawn = true ∨ item.cleaning = true

theorem Plane.Spent.step (spent : plane.Spent id) (step : Step setting plane act next)
    (served : plane.Served setting) :
    next.Spent id ∧ ∀ handing ∈ next.handed, handing.id = id → handing ∈ plane.handed := by
  refine ⟨⟨step.draws spent.1, fun after now => ?_⟩, fun handing listed mine => ?_⟩
  · obtain ⟨item, found, follows⟩ := step.keeps served spent.1 now
    exact (spent.2 item found).imp follows.withdrawn follows.cleaning
  · rcases step.hands served with same | ⟨new, more, found, rightful⟩
    · exact same ▸ listed
    · rw [more] at listed
      rcases List.mem_cons.mp listed with rfl | before
      · rw [mine] at found
        rcases spent.2 handing.item found with withdrawn | cleaning
        · exact nomatch withdrawn.symm.trans rightful.kept
        · exact nomatch cleaning.symm.trans rightful.clean
      · exact before

theorem Plane.Spent.run {later : Plane} (spent : plane.Spent id)
    (reachable : Reachable setting plane) (remote : setting.isLocal = false)
    (reaches : Reaches setting plane later) :
    later.Spent id ∧ ∀ handing ∈ later.handed, handing.id = id → handing ∈ plane.handed := by
  obtain ⟨clock, first⟩ := reachable
  induction reaches with
  | refl => exact ⟨spent, fun handing listed _ => listed⟩
  | tail before step ih =>
    obtain ⟨act, step⟩ := step
    have here : Reachable setting _ := ⟨clock, first.trans before⟩
    obtain ⟨still, none'⟩ := ih.1.step step (here.served remote)
    exact ⟨still, fun handing listed mine => ih.2 handing (none' handing listed mine) mine⟩

/-! ## Deliveries -/

/-- Every byte of a download or an output was sent, or an upload was placed. -/
def Plane.Delivered (plane : Plane) (act : Act) (id : String) : Prop :=
  ∃ i snapshot item, plane.store.items.lookup id = some item ∧ item.content = .ready snapshot ∧
    ((act = .exhaust i ∧ item.upload = false ∧ ∃ release, plane.tasks[i]? =
        some (.delivering id snapshot snapshot.content.length release false)) ∨
      (act = .place i ∧ item.upload = true ∧ ∃ release, plane.tasks[i]? =
        some (.prepared id snapshot release)))

theorem releasing_set {tasks : List Task} {j : Nat} {old : Task}
    (mine : tasks[i]? = some (.releasing id)) (found : tasks[j]? = some old)
    (other : old ≠ .releasing id) (new : Task) : (tasks.set j new)[i]? = some (.releasing id) := by
  rw [List.getElem?_set_ne]
  · exact mine
  · rintro rfl
    exact other (Option.some.inj (found.symm.trans mine))

theorem releasing_append {tasks : List Task} (mine : tasks[i]? = some (.releasing id))
    (more : List Task) : (tasks ++ more)[i]? = some (.releasing id) := by
  rw [List.getElem?_append_left (List.getElem?_eq_some_iff.mp mine).1]
  exact mine

/-- What releases an item does nothing else before. -/
theorem Step.releasing_stays (step : Step setting plane act next)
    (mine : plane.tasks[i]? = some (.releasing id)) :
    act = .release i ∨ next.tasks[i]? = some (.releasing id) := by
  cases step with
  | tick => exact .inr mine
  | reserve => exact .inr (releasing_append mine _)
  | authorizeUpload task => exact .inr (releasing_set mine task nofun _)
  | authorizeDownload => exact .inr mine
  | input => exact .inr (releasing_append mine _)
  | localInput => exact .inr (releasing_append mine _)
  | put => exact .inr (releasing_append mine _)
  | get => exact .inr (releasing_append mine _)
  | receive => exact .inr (releasing_append mine _)
  | drop task => exact .inr (releasing_set mine task nofun _)
  | activate task => exact .inr (releasing_set mine task nofun _)
  | fill task => exact .inr (releasing_set mine task nofun _)
  | finish task => exact .inr (releasing_set mine task nofun _)
  | check task => exact .inr (releasing_append (releasing_set mine task nofun _) _)
  | stop task => exact .inr (releasing_set mine task nofun _)
  | giveUp task => exact .inr (releasing_set mine task nofun _)
  | publish here task => exact .inr (releasing_set mine task nofun _)
  | complete task => exact .inr (releasing_set mine task nofun _)
  | orphan task => exact .inr (releasing_set mine task nofun _)
  | straggle => exact .inr (releasing_append mine _)
  | settle task => exact .inr (releasing_set mine task nofun _)
  | close task closes =>
    refine .inr (releasing_set mine task ?_ _)
    rintro rfl
    cases closes
  | place task => exact .inr (releasing_set mine task nofun _)
  | deliver task => exact .inr (releasing_set mine task nofun _)
  | fail task => exact .inr (releasing_set mine task nofun _)
  | exhaust task => exact .inr (releasing_set mine task nofun _)
  | @release j key task =>
    by_cases same : j = i
    · exact .inl (congrArg Act.release same)
    · refine .inr ?_
      rw [List.getElem?_set_ne same]
      exact mine
  | sweep => exact .inr (releasing_append mine _)
  | unlink task => exact .inr (releasing_set mine task nofun _)
  | reconcile task => exact .inr (releasing_set mine task nofun _)

/-- What is about to release an item has delivered all of it. -/
theorem Step.releasing_new (step : Step setting plane act next) (inv : plane.Inv)
    (served : plane.Served setting) (listed : .releasing id ∈ next.tasks) :
    .releasing id ∈ plane.tasks ∨ plane.Delivered act id := by
  have set {j : Nat} {new : Task} (listed : .releasing id ∈ plane.tasks.set j new)
      (other : new ≠ .releasing id) : .releasing id ∈ plane.tasks := by
    rcases mem_set_cases listed with same | ⟨k, -, found⟩
    · exact absurd same.symm other
    · exact List.mem_of_getElem? found
  have append {new : Task} (listed : .releasing id ∈ plane.tasks ++ [new])
      (other : new ≠ .releasing id) : .releasing id ∈ plane.tasks := by
    rcases List.mem_append.mp listed with before | now
    · exact before
    · exact absurd (List.mem_singleton.mp now).symm other
  cases step with
  | tick => exact .inl listed
  | @reserve owner params upload key =>
    refine .inl (append listed ?_)
    cases upload <;> exact nofun
  | authorizeUpload => exact .inl (set listed nofun)
  | authorizeDownload => exact .inl listed
  | input => exact .inl (append listed nofun)
  | localInput => exact .inl (append listed nofun)
  | put => exact .inl (append listed nofun)
  | get => exact .inl (append listed nofun)
  | receive => exact .inl (append listed nofun)
  | drop => exact .inl (set listed nofun)
  | activate => exact .inl (set listed nofun)
  | fill => exact .inl (set listed nofun)
  | finish => exact .inl (set listed nofun)
  | check =>
    rcases List.mem_append.mp listed with before | now
    · exact .inl (set before nofun)
    · cases List.mem_singleton.mp now
  | stop => exact .inl (set listed nofun)
  | giveUp => exact .inl (set listed nofun)
  | publish => exact .inl (set listed nofun)
  | complete => exact .inl (set listed nofun)
  | orphan => exact .inl (set listed nofun)
  | straggle => exact .inl (append listed nofun)
  | settle => exact .inl (set listed nofun)
  | close => exact .inl (set listed nofun)
  | @place i key snapshot release task =>
    rcases mem_set_cases listed with same | ⟨k, -, found⟩
    · right
      cases release with
      | false => cases same
      | true =>
        cases same
        have member := List.mem_of_getElem? task
        obtain ⟨-, -, due⟩ := served.tasks _ member
        obtain ⟨item, found, ready⟩ := inv.pinned _ member id _ rfl
        exact ⟨i, snapshot, item, found, ready, .inr ⟨rfl, (due item found).symm, _, task⟩⟩
    · exact .inl (List.mem_of_getElem? found)
  | deliver => exact .inl (set listed nofun)
  | fail => exact .inl (set listed nofun)
  | @exhaust i key snapshot sent release broken task over' =>
    rcases mem_set_cases listed with same | ⟨k, -, found⟩
    · right
      split at same
      · rename_i all
        cases same
        obtain ⟨rfl, all⟩ := Bool.and_eq_true_iff.mp all
        have member := List.mem_of_getElem? task
        obtain ⟨⟨-, -, due⟩, complete, -, short⟩ := served.tasks _ member
        cases broken with
        | true => exact absurd (short rfl) (of_decide_eq_true all ▸ Nat.lt_irrefl _)
        | false =>
          obtain ⟨item, found, ready⟩ := inv.pinned _ member id _ rfl
          have kind : item.upload = false := by
            apply (Bool.not_eq_true' item.upload).mp
            exact (due item found).symm
          have whole : sent = snapshot.content.length := (of_decide_eq_true all).trans complete.1
          rw [whole] at task
          exact ⟨i, snapshot, item, found, ready, .inl ⟨rfl, kind, _, task⟩⟩
      · cases same
    · exact .inl (List.mem_of_getElem? found)
  | release => exact .inl (set listed nofun)
  | sweep => exact .inl (append listed nofun)
  | unlink => exact .inl (set listed nofun)
  | reconcile => exact .inl (set listed nofun)

/-- And what has delivered all of an item is about to release it. -/
theorem Step.releasing_due (step : Step setting plane act next) (served : plane.Served setting)
    (delivered : plane.Delivered act id) : ∃ i : Nat, next.tasks[i]? = some (Task.releasing id) := by
  obtain ⟨i, snapshot, item, found, ready, ⟨rfl, kind, release, task⟩ | ⟨rfl, kind, release, task⟩⟩ :=
    delivered
  · obtain ⟨⟨-, -, due⟩, complete, -⟩ := served.tasks _ (List.mem_of_getElem? task)
    have released : release = true := (due item found).trans (congrArg not kind)
    cases step with
    | exhaust task' over' =>
      cases task.symm.trans task'
      refine ⟨i, ?_⟩
      rw [List.getElem?_set_self (List.getElem?_eq_some_iff.mp task).1, released, complete.1]
      simp
  · obtain ⟨-, -, due⟩ := served.tasks _ (List.mem_of_getElem? task)
    have released : release = true := (due item found).trans kind
    cases step with
    | place task' =>
      cases task.symm.trans task'
      refine ⟨i, ?_⟩
      rw [List.getElem?_set_self (List.getElem?_eq_some_iff.mp task).1, released, if_pos rfl]

/-- A release withdraws its item, and no other. -/
theorem Step.releases (step : Step setting plane (.release i) next) (served : plane.Served setting)
    (task : plane.tasks[i]? = some (.releasing id)) :
    next.Spent id ∧ ∀ other, other ≠ id →
      next.store.items.lookup other = plane.store.items.lookup other := by
  cases step with
  | release task' =>
    cases task.symm.trans task'
    have done : id ∈ plane.completed := served.tasks _ (List.mem_of_getElem? task)
    rcases plane.store.withdrawDelivered_cases id with
      ⟨⟨item, snapshot, found, ready⟩, changed⟩ | ⟨unready, same⟩
    · rw [changed]
      refine ⟨⟨served.known done, fun after now => ?_⟩, fun other differ =>
        Table.lookup_modify_ne differ ..⟩
      rw [Table.lookup_modify, found] at now
      cases now
      exact .inl rfl
    · rw [same]
      refine ⟨⟨served.known done, fun after now => ?_⟩, fun other _ => rfl⟩
      rcases (served.items id after now).done done with ⟨snapshot, ready⟩ | cleaning
      · exact absurd ready (unready after snapshot now)
      · exact .inr cleaning

/-- Whose bytes a task reads to hand them over. -/
def Task.serves : Task → Option (String × Snapshot)
  | .prepared id snapshot _ | .delivering id snapshot _ _ _ => some (id, snapshot)
  | _ => none

theorem Plane.Served.serves (served : plane.Served setting) {task : Task}
    (listed : task ∈ plane.tasks) (serves : task.serves = some (id, snapshot)) :
    ∃ handing ∈ plane.handed, handing.id = id ∧ handing.snapshot = snapshot := by
  have honest := served.tasks task listed
  cases task with
  | prepared key bytes release =>
    cases serves
    exact honest.2.1
  | delivering key bytes sent release broken =>
    cases serves
    exact honest.1.2.1
  | _ => cases serves

theorem Step.uses {ticket credential : String} (step : Step setting plane act next)
    (served : plane.Served setting) (use : act = .put ticket credential ∨ act = .get ticket credential) :
    next.taken = ticket :: plane.taken ∧
      ∃ issue ∈ plane.issued, issue.ticket = ticket ∧ issue.Admits setting credential := by
  rcases step.takes with same | ⟨ticket', credential', id, item, held, use', more, found, has, rfl, hash⟩
  · rcases use with rfl | rfl
    · cases step with
      | put => exact (List.cons_ne_self _ _ same).elim
    · cases step with
      | get => exact (List.cons_ne_self _ _ same).elim
  · have equal : held.id = ticket ∧ credential' = credential := by
      rcases use with rfl | rfl <;> rcases use' with use' | use' <;> cases use' <;> exact ⟨rfl, rfl⟩
    obtain ⟨rfl, rfl⟩ := equal
    obtain ⟨-, issue, listed, named, hash', -⟩ := (served.items id item found).ticket held has
    exact ⟨more, issue, listed, named, hash.symm.trans hash'⟩

/-- An item is complete from its completion on. -/
theorem Step.readies (step : Step setting plane act next) (inv : plane.Inv)
    (served : plane.Served setting) {after : Item} (now : next.store.items.lookup id = some after)
    (ready : after.content = .ready snapshot) :
    (∃ item, plane.store.items.lookup id = some item ∧ item.content = .ready snapshot) ∨
      next.completed = id :: plane.completed := by
  rcases step.follows served after now with ⟨item, found, follows⟩ | new
  · rcases follows.content with same | ⟨unready, -⟩ | ⟨_, _, receiving, -, -, done⟩
    · exact .inl ⟨item, found, same.symm.trans ready⟩
    · exact absurd ready (unready snapshot)
    · right
      have before : id ∉ plane.completed := by
        intro had
        rcases (served.items id item found).done had with ⟨bytes, ready⟩ | cleaning
        · exact nomatch receiving.symm.trans ready
        · exact nomatch receiving.symm.trans ((inv.sound id item found).cleaned cleaning).2.2
      rcases step.fulfils with same | ⟨key, _, _, _, more, -⟩
      · exact absurd (same ▸ done) before
      · rw [more] at done
        rcases List.mem_cons.mp done with rfl | had
        · exact more
        · exact absurd had before
  · exact nomatch new.content.symm.trans ready

/-- In every state that a store comes to which is not local: what was handed over
was complete, live, as declared, and for whom it was, and every reader has bytes
that were handed over; what is spent is handed to nobody any more; a ticket is
used once, by who has what it was issued with; an item is completed once; and
what delivered all of an item releases it, withdrawing that item only, and
nothing else withdraws what is complete. -/
theorem serving (remote : setting.isLocal = false) (reachable : Reachable setting plane) :
    (∀ handing ∈ plane.handed, handing.Rightful setting plane.issued) ∧
    (∀ task ∈ plane.tasks, ∀ id snapshot, task.serves = some (id, snapshot) →
      ∃ handing ∈ plane.handed, handing.id = id ∧ handing.snapshot = snapshot) ∧
    (∀ id, plane.Spent id → ∀ later, Reaches setting plane later →
      ∀ handing ∈ later.handed, handing.id = id → handing ∈ plane.handed) ∧
    (plane.taken.Nodup ∧ (plane.issued.map Issue.ticket).Nodup) ∧
    plane.completed.Nodup ∧
    ∀ act next, Step setting plane act next →
      (∀ ticket credential, act = .put ticket credential ∨ act = .get ticket credential →
        next.taken = ticket :: plane.taken ∧
          ∃ issue ∈ plane.issued, issue.ticket = ticket ∧ issue.Admits setting credential) ∧
      (∀ id after snapshot, next.store.items.lookup id = some after →
        after.content = .ready snapshot →
        (∃ item, plane.store.items.lookup id = some item ∧ item.content = .ready snapshot) ∨
          next.completed = id :: plane.completed) ∧
      (∀ id item after snapshot, plane.store.items.lookup id = some item →
        next.store.items.lookup id = some after → item.content = .ready snapshot →
        item.withdrawn = false → after.withdrawn = true →
        ∃ i, act = .release i ∧ plane.tasks[i]? = some (.releasing id)) ∧
      (∀ id, .releasing id ∈ next.tasks → .releasing id ∈ plane.tasks ∨ plane.Delivered act id) ∧
      (∀ id, plane.Delivered act id → ∃ i : Nat, next.tasks[i]? = some (Task.releasing id)) ∧
      ∀ i id, plane.tasks[i]? = some (.releasing id) →
        next.tasks[i]? = some (.releasing id) ∨
          act = .release i ∧ next.Spent id ∧ ∀ other, other ≠ id →
            next.store.items.lookup other = plane.store.items.lookup other := by
  have inv := reachable.inv
  have served := reachable.served remote
  refine ⟨served.handed, fun task listed id snapshot => served.serves listed, ?_,
    ⟨served.taken, served.issued⟩, served.once, ?_⟩
  · intro id spent later reaches
    exact (spent.run reachable remote reaches).2
  · intro act next step
    refine ⟨fun ticket credential => step.uses served,
      fun id after snapshot now => step.readies inv served now, ?_,
      fun id => step.releasing_new inv served, fun id => step.releasing_due served, ?_⟩
    · intro id item after snapshot found now ready kept withdrawn
      have drawn : id ∈ plane.drawn := inv.drawn id (by rw [found]; exact nofun)
      obtain ⟨before, found', follows⟩ := step.keeps served drawn now
      cases found.symm.trans found'
      rcases follows.withdrawal withdrawn with had | unready | releases
      · exact nomatch kept.symm.trans had
      · exact absurd ready (unready snapshot)
      · exact releases
    · intro i id mine
      rcases step.releasing_stays mine with rfl | stays
      · exact .inr ⟨rfl, step.releases served mine⟩
      · exact .inl stays

namespace Sample

/-- The output, once it is complete and its agent uses a ticket for it. -/
theorem serving_sample : ∃ plane, Reachable remote plane ∧ ∃ handing ∈ plane.handed,
    handing.recipient = .bearer "t" "c" ∧ handing.Rightful remote plane.issued := by
  have run := ((((receiving_reaches.tail ⟨.finish 1, .finish rfl⟩).tail
    ⟨.check 1, .check rfl rfl⟩).tail ⟨.complete 2, .complete rfl rfl rfl⟩).tail
    ⟨.authorizeDownload agent "mcp-file://mcp-ssh/a" "t" "c",
      .authorizeDownload (by decide) (by decide) rfl⟩).tail
    ⟨.get "t" "c", .get rfl rfl rfl⟩
  refine ⟨_, ⟨0, run⟩, _, List.mem_cons_self .., rfl, ?_⟩
  exact (serving rfl ⟨0, run⟩).1 _ (List.mem_cons_self ..)

end Sample

end McpSsh.Transfers
