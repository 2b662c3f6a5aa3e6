import McpSsh.Bastion.Publishing.Links

/-!
# Publishing, as a layer over the discipline of the service
-/

namespace McpSsh.Bastion

open Interleaving History

variable {deployment : Deployment} {lost : Nat → Prop} {tid other : Nat} {choice : Choice}
variable {service after : Service} {β : Type} {answer : β}

/-- **Every step that minds what it has to keeps sessions, ends and connections
together.** -/
theorem Step.keeps {step : Step β} (inv : Inv deployment service)
    (guard : step.Guard deployment tid service) (ok : Published lost service)
    (minds : step.Minds lost tid service)
    (ran : step.run deployment tid choice service = some (answer, after)) :
    Keeps lost tid service after := by
  by_cases idles : step.Idles
  · have idle := idles.idle inv ran
    exact ⟨idle.published ok, fun other _ => idle.leaves⟩
  · cases step with
    | service step =>
      cases step with
      | unlock which =>
        obtain rfl : which = .publishing := by
          by_contra differ
          exact idles differ
        exact ServiceStep.unlock_published ok minds ran
      | _ => exact absurd trivial idles
    | sessions step =>
      cases step with
      | publish => exact SessionStep.publish_published inv ok minds ran
      | _ => exact absurd trivial idles
    | ledger step =>
      cases step with
      | record who event =>
        have ends : event.isEnd = true := by
          cases is : event.isEnd with
          | true => rfl
          | false => exact absurd is idles
        exact LedgerStep.end_published inv ok ends minds ran
      | _ => exact absurd trivial idles
    | links step =>
      cases step with
      | insert => exact LinkStep.insert_published ok inv guard minds ran
      | remove => exact LinkStep.remove_published ok minds ran
      | removeOrphans => exact LinkStep.removeOrphans_published ok minds ran
      | replace => exact LinkStep.replace_published ok inv guard minds ran
      | hangUp => exact LinkStep.hangUp_published ok inv minds ran
      | _ => exact absurd trivial idles
    | _ => exact absurd trivial idles

/-- What no step undoes, its own call's steps included. -/
theorem Step.lasts {step : Step β} (inv : Inv deployment service)
    (guard : step.Guard deployment tid service) (ok : Published lost service)
    (minds : step.Minds lost tid service)
    (ran : step.run deployment tid choice service = some (answer, after)) : Lasts service after :=
  ((Step.keeps inv guard ok minds ran).2 (tid + 1) (Nat.succ_ne_self tid)).lasts

theorem Leaves.trans {a b c : Service} (moved : Rely tid a b) (first : Leaves tid a b)
    (second : Leaves tid b c) : Leaves tid a c where
  lasts := first.lasts.trans second.lasts
  sheltered := fun locked =>
    (first.sheltered locked).trans (second.sheltered ((moved.locks _).mp locked))
  fresh := fun connection fresh => second.fresh connection (first.fresh connection fresh)
  spared := fun holder held locked found unclosed => by
    have same : held.id = holder := by simpa using List.find?_some found
    subst same
    exact second.spared _ held ((moved.locks _).mp locked) (moved.holders held locked found)
      (first.spared _ held locked found unclosed)

/-- Publishing, as a layer over the discipline of the service. -/
def publishing (deployment : Deployment) (lost : Nat → Prop) : Layer (discipline deployment) where
  inv := Published lost
  rely := Leaves
  guard := fun tid step service => step.Minds lost tid service
  allowed := fun _ choice step service => step.Finds lost service choice
  refl := fun _ service => ⟨.refl service, fun _ => .refl service, fun _ fresh => fresh,
    fun _ _ _ _ unclosed => unclosed⟩
  trans := Leaves.trans
  step := fun inv guard ok minds _ ran _ =>
    let ⟨kept, others⟩ := Step.keeps inv guard ok minds ran
    ⟨kept, fun other differ _ => others other differ⟩
  environment := fun _ ok happened =>
    let idle := Happening.idle happened
    ⟨idle.published ok, fun _ => idle.leaves⟩

end McpSsh.Bastion
