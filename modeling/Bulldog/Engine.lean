import Bulldog.Lib.Action
import Bulldog.Policy

/-!
# The engine

`BulldogEngine.evaluate` of `engine.py` with the `SessionGuard` of `session_guard.py`: the policy's
verdict, tightened by the advisory model and by what the guard remembers of the session.
-/

namespace Bulldog

/-! ## The session guard -/

/-- `SessionEvent`. -/
structure SessionEvent where
  action : ActionRequest
  evaluation : Evaluation
  deriving DecidableEq

/-- `SessionGuard.history`, by key. -/
abbrev History := List (Str × List SessionEvent)

namespace SessionGuard

/-- `PROJECT_CAPABILITIES`. -/
def projectCapabilities : List Capability := [.fsReadProject, .fsWriteProject]

/-- `PRIVILEGED_CAPABILITIES`. -/
def privilegedCapabilities : List Capability :=
  [.credentialRead, .processExec, .networkPost, .packageInstall, .agentSpawn, .securityControlWrite]

/-- `session_key(action)`. -/
def sessionKey (action : ActionRequest) : Str :=
  match action.metadata.get "security_context_id" with
  | some (c :: context) => "security-context:" ++ c :: context
  | _ => "actor:" ++ action.actor

/-- The last `n` elements: `xs[-n:]` for a positive `n`. -/
def lastN {α : Type} (n : ℕ) (xs : List α) : List α := xs.drop (xs.length - n)

/-- The flags that `enforce` raises after these events. -/
def flags (events : List SessionEvent) (capability : Capability) : List String :=
  let previous := events.map (·.action.capability)
  (if capability = .credentialRead ∧ previous.any (· ∈ projectCapabilities) ∧
      .credentialRead ∉ previous then ["GOAL_DRIFT"] else []) ++
  (if capability ∈ privilegedCapabilities ∧ previous ≠ [] ∧
      (lastN 3 previous).all (· ∉ privilegedCapabilities) then ["AUTHORITY_SHIFT"] else []) ++
  (if events.getLast?.any fun event => event.evaluation.decision ≠ .allow ∧
      capability ≠ event.action.capability then ["ALTERNATE_PATH_AFTER_RESTRICTION"] else []) ++
  (if 4 ≤ (lastN 3 previous ++ [capability]).length ∧
      4 ≤ (lastN 3 previous ++ [capability]).dedup.length then ["TOOL_SHOPPING"] else [])

/-- The evaluation that `enforce` returns after these events. -/
def judge (events : List SessionEvent) (action : ActionRequest) (evaluation : Evaluation) :
    Evaluation :=
  if evaluation.hardBlock ∨ flags events action.capability = [] then evaluation
  else
    { evaluation with
      decision := evaluation.decision.max .escalate
      risk := max evaluation.risk (90 / 100)
      reasons := evaluation.reasons ++
        (flags events action.capability).map ("session behavior: " ++ ·) }

/-- `history.setdefault(key, [])`. -/
def events (history : History) (key : Str) : List SessionEvent := (history.lookup key).getD []

/-- `_remember(events, action, evaluation)`, where `del events[:-0]` deletes nothing. -/
def remember (maxHistory : ℕ) (events : List SessionEvent) (event : SessionEvent) :
    List SessionEvent :=
  if events.length + 1 > maxHistory ∧ maxHistory ≠ 0 then lastN maxHistory (events ++ [event])
  else events ++ [event]

/-- The history with these events at a key. -/
def store (history : History) (key : Str) (events : List SessionEvent) : History :=
  if (history.lookup key).isSome then history.map fun e => if e.1 = key then (key, events) else e
  else history ++ [(key, events)]

/-- `enforce(action, evaluation)`: what it returns, and the history after it. -/
def enforce (maxHistory : ℕ) (history : History) (action : ActionRequest) (evaluation : Evaluation) :
    Evaluation × History :=
  let key := sessionKey action
  let result := judge (events history key) action evaluation
  (result, store history key (remember maxHistory (events history key) ⟨action, result⟩))

end SessionGuard

/-! ## The engine -/

/-- `Advisory`. Its risk is `none` for a NaN. -/
structure Advisory where
  risk : Option ℚ
  recommendation : Decision
  reason : String

/-- `BulldogEngine`, less its history. -/
structure BulldogEngine where
  urllib : Urllib
  policy : DeterministicPolicy
  maxHistory : ℕ

namespace BulldogEngine

/-- `max(hard.risk, min(max(advisory.risk, 0.0), 1.0))`, where a NaN never wins a comparison. -/
def combineRisk (hard : ℚ) : Option ℚ → ℚ
  | some risk => max hard (min (max risk 0) 1)
  | none => hard

/-- The verdict before the session guard, with what the advisory model says. -/
def combine (engine : BulldogEngine) (action : ActionRequest) (advisory : Advisory) : Evaluation :=
  let hard := Policy.evaluate engine.urllib engine.policy action
  if hard.hardBlock then hard
  else
    ⟨hard.decision.max advisory.recommendation, combineRisk hard.risk advisory.risk,
      if advisory.reason ≠ "" ∧ advisory.reason ≠ "no advisory model configured" then
        hard.reasons ++ ["advisory: " ++ advisory.reason]
      else hard.reasons, false⟩

/-- `self.advisory.evaluate(action)`, which is asked only where the policy does not block. -/
def advisoryFor (engine : BulldogEngine) (advise : ActionRequest → Except Exc Advisory)
    (action : ActionRequest) : Except Exc Advisory :=
  if (Policy.evaluate engine.urllib engine.policy action).hardBlock then .ok ⟨none, .allow, ""⟩
  else advise action

/-- `evaluate(action)`, on the session history. What the advisory model and the ledger do is part of
the call. -/
def evaluate (engine : BulldogEngine) (advise : ActionRequest → Except Exc Advisory)
    (append : ActionRequest → Evaluation → Except Exc Unit) (action : ActionRequest) :
    Action History Exc Evaluation := do
  let advisory ← engine.advisoryFor advise action
  let history ← .read
  let (result, history) :=
    SessionGuard.enforce engine.maxHistory history action (engine.combine action advisory)
  .update fun _ => history
  append action result
  return result

end BulldogEngine

end Bulldog
