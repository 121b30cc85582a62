import Bulldog.Lib.Text

/-!
# Agents

The built-in agents of `multiagent/agents.py`. The policy agent gives out a token with every `ALLOW`,
and the executor runs an action only against a token that it takes back from the policy agent. Values
of payloads are what the code makes of them: an action is its `str`, and a token is nothing where it is
no string.
-/

namespace Bulldog.MultiAgent

/-- `Verdict`. -/
inductive Verdict where
  | allow
  | deny
  | challenge
  deriving DecidableEq

/-- `Severity`. -/
inductive Severity where
  | info
  | low
  | medium
  | high
  | critical
  deriving DecidableEq

/-- `Finding`. -/
structure Finding where
  agentId : Str
  severity : Severity
  code : String
  summary : Str
  detail : Str := []
  deriving DecidableEq

/-- `AgentResult`, less its duration. -/
structure AgentResult (ω : Type) where
  agentId : Str
  success : Bool
  verdict : Verdict
  output : Option ω
  findings : List Finding
  deriving DecidableEq

variable {ω : Type}

/-- The result of `handle` where `process` raises an ordinary exception of this type. -/
def agentError (agentId errorType : Str) : AgentResult ω where
  agentId := agentId
  success := false
  verdict := .deny
  output := none
  findings := [⟨agentId, .high, "agent.error", errorType ++ ": agent handler failed".toList, []⟩]

/-! ## The policy agent -/

/-- `PolicyRule`, with `pattern.fullmatch` as a test. -/
structure PolicyRule where
  fullmatch : Str → Bool
  verdict : Verdict

/-- `PolicyAgent`. -/
structure PolicyAgent where
  agentId : Str
  rules : List PolicyRule
  /-- `_tokens`: the action of each token that has not been used. -/
  tokens : List (Str × Str)

/-- `output` of the policy agent. -/
structure PolicyOutput where
  action : Str
  verdict : Verdict
  token : Option Str
  deriving DecidableEq

namespace PolicyAgent

/-- `decide(action)`. -/
def decide (agent : PolicyAgent) (action : Str) : Verdict :=
  match agent.rules.find? fun rule => rule.fullmatch action with
  | some rule => rule.verdict
  | none => .deny

/-- `consume(token, action)`, with the agent after it. -/
def consume (agent : PolicyAgent) (token : Option Str) (action : Str) : Bool × PolicyAgent :=
  match token with
  | some token =>
    if agent.tokens.lookup token = some action then
      (true, { agent with tokens := agent.tokens.filter fun e => e.1 ≠ token })
    else (false, agent)
  | none => (false, agent)

/-- `self._tokens[token] = action`. -/
def mint (agent : PolicyAgent) (token action : Str) : PolicyAgent :=
  { agent with tokens := agent.tokens.filter (fun e => e.1 ≠ token) ++ [(token, action)] }

/-- `process(envelope)` for an action, where `uuid4` gives `uuid`. -/
def process (agent : PolicyAgent) (action uuid : Str) : AgentResult PolicyOutput × PolicyAgent :=
  match agent.decide action with
  | .allow =>
    (⟨agent.agentId, true, .allow, some ⟨action, .allow, some uuid⟩, []⟩, agent.mint uuid action)
  | verdict =>
    (⟨agent.agentId, true, verdict, some ⟨action, verdict, none⟩,
      [⟨agent.agentId, .medium, "policy.denied",
        "action '".toList ++ action ++ "' not allowed".toList, []⟩]⟩, agent)

end PolicyAgent

/-! ## The executor -/

/-- `ExecutorAgent`, with the names of its registered callables. -/
structure ExecutorAgent where
  agentId : Str
  actions : List Str
  /-- `_approver is not None`. -/
  hasApprover : Bool

/-- What the executor makes of an envelope. -/
structure ExecuteMessage where
  action : Str
  token : Option Str
  /-- `dict(payload.get("args") or {})`, or the type of what it raises. -/
  args : Except Str Unit

namespace ExecutorAgent

/-- How far `process` comes before it would call the action. -/
inductive Stage where
  | missingApproval
  | badArgs (errorType : Str)
  | unknownAction
  | invoke
  deriving DecidableEq

/-- The part of `process` in front of the call, with the policy agent after it. -/
def stage (agent : ExecutorAgent) (policy : PolicyAgent) (message : ExecuteMessage) :
    Stage × PolicyAgent :=
  if agent.hasApprover then
    match policy.consume message.token message.action with
    | (false, policy) => (.missingApproval, policy)
    | (true, policy) =>
      match message.args with
      | .error errorType => (.badArgs errorType, policy)
      | .ok () => if message.action ∈ agent.actions then (.invoke, policy) else (.unknownAction, policy)
  else (.missingApproval, policy)

/-- The result of `handle`, where the action, if it is called, returns or raises this. -/
def result (agent : ExecutorAgent) (message : ExecuteMessage) (outcome : Except Str ω) :
    Stage → AgentResult ω
  | .missingApproval =>
    ⟨agent.agentId, false, .deny, none, [⟨agent.agentId, .high, "executor.missing-approval",
      "step reached the executor without a valid one-time approval token".toList, []⟩]⟩
  | .badArgs errorType => agentError agent.agentId errorType
  | .unknownAction =>
    ⟨agent.agentId, false, .deny, none,
      [⟨agent.agentId, .medium, "executor.unknown-action", message.action, []⟩]⟩
  | .invoke =>
    match outcome with
    | .ok output => ⟨agent.agentId, true, .allow, some output, []⟩
    | .error errorType => agentError agent.agentId errorType

end ExecutorAgent

end Bulldog.MultiAgent
