import McpSsh.Action
import McpSsh.Session

/-!
# Local review

Optional human review of configured accounts, independent of command text. A
decision keeps the session and the action it was made about.
-/

namespace McpSsh

inductive ReviewMode
  | disabled
  | all
  | privileged
  deriving DecidableEq, Repr

inductive Verdict
  | permit
  | needsApproval
  | deny
  deriving DecidableEq, Repr, Inhabited

structure Decision where
  verdict : Verdict
  policies : List String
  explanation : String
  action : Action
  session : Session
  deriving DecidableEq, Inhabited

/-- Whether a review mode holds the commands of an account. -/
def ReviewMode.holds (review : ReviewMode) (accessClass : AccessClass) : Bool :=
  match review with
  | .disabled => false
  | .all => true
  | .privileged => accessClass = .privileged

/-- `Engine::decide_action`. -/
def ReviewMode.decideAction (review : ReviewMode) (session : Session) (action : Action) :
    Decision :=
  if review.holds session.accessClass then {
    verdict := .needsApproval
    policies := ["local-human-review"]
    explanation := "This account requires human approval."
    action, session }
  else {
    verdict := .permit
    policies := ["configured-account"]
    explanation := "The configured account does not require local human approval."
    action, session }

variable (review : ReviewMode) (session : Session) (action : Action)

@[simp] theorem ReviewMode.decideAction_action :
    (review.decideAction session action).action = action := by
  unfold decideAction
  split <;> rfl

@[simp] theorem ReviewMode.decideAction_session :
    (review.decideAction session action).session = session := by
  unfold decideAction
  split <;> rfl

/-- Only the review mode and the account's class decide. -/
theorem ReviewMode.decideAction_verdict :
    (review.decideAction session action).verdict =
      if review.holds session.accessClass then .needsApproval else .permit := by
  unfold decideAction
  split <;> rfl

end McpSsh
