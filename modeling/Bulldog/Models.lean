import Mathlib
import Bulldog.Platform

/-!
# Actions and evaluations

The values of `models.py`. A `frozenset` is a `Finset`, and the `metadata` of an action the list of
its entries. A risk is a rational number: the policy adds up at most five of its constants and
compares the sum with two others, and no such sum of floats falls on the other side of them.
-/

namespace Bulldog

/-- `Decision`. -/
inductive Decision where
  | allow
  | sandbox
  | deny
  | escalate
  deriving DecidableEq

/-- `Provenance`. -/
inductive Provenance where
  | human
  | localTrusted
  | repository
  | internet
  | externalAgent
  | unknown
  deriving DecidableEq

/-- `Capability`. -/
inductive Capability where
  | fsReadProject
  | fsWriteProject
  | fsReadHome
  | fsWriteHome
  | credentialRead
  | processExec
  | networkOutbound
  | networkPost
  | packageInstall
  | agentSpawn
  | agentMessage
  | securityControlWrite
  deriving DecidableEq

/-- `decision.value`. -/
def Decision.value : Decision → String
  | .allow => "ALLOW"
  | .sandbox => "SANDBOX"
  | .deny => "DENY"
  | .escalate => "ESCALATE"

/-- `provenance.value`. -/
def Provenance.value : Provenance → String
  | .human => "human"
  | .localTrusted => "local_trusted"
  | .repository => "repository"
  | .internet => "internet"
  | .externalAgent => "external_agent"
  | .unknown => "unknown"

/-- `_DECISION_ORDER[decision]`. -/
def Decision.order : Decision → ℕ
  | .allow => 0
  | .sandbox => 1
  | .escalate => 2
  | .deny => 3

/-- `max(a, b, key=lambda d: _DECISION_ORDER[d])`. -/
def Decision.max (a b : Decision) : Decision := if a.order < b.order then b else a

/-- `capability.value`. -/
def Capability.value : Capability → String
  | .fsReadProject => "fs.read.project"
  | .fsWriteProject => "fs.write.project"
  | .fsReadHome => "fs.read.home"
  | .fsWriteHome => "fs.write.home"
  | .credentialRead => "credential.read"
  | .processExec => "process.exec"
  | .networkOutbound => "network.outbound"
  | .networkPost => "network.post"
  | .packageInstall => "package.install"
  | .agentSpawn => "agent.spawn"
  | .agentMessage => "agent.message"
  | .securityControlWrite => "security_control.write"

/-- The capabilities, sorted by their values. -/
def Capability.byValue : List Capability :=
  [.agentMessage, .agentSpawn, .credentialRead, .fsReadHome, .fsReadProject, .fsWriteHome,
    .fsWriteProject, .networkOutbound, .networkPost, .packageInstall, .processExec,
    .securityControlWrite]

/-- `sorted(capability.value for capability in capabilities)`. -/
def Capability.sortedValues (capabilities : Finset Capability) : List String :=
  (Capability.byValue.filter (· ∈ capabilities)).map Capability.value

/-- `metadata: dict[str, str]`. -/
abbrev Metadata := List (String × Str)

/-- `metadata.get(key)`. -/
def Metadata.get (metadata : Metadata) (key : String) : Option Str := metadata.lookup key

/-- `metadata[key] = value`. -/
def Metadata.set (metadata : Metadata) (key : String) (value : Str) : Metadata :=
  if (metadata.lookup key).isSome then metadata.map fun e => if e.1 = key then (key, value) else e
  else metadata ++ [(key, value)]

/-- `ActionRequest`. -/
structure ActionRequest where
  actor : Str
  task : Str
  operation : Str
  resource : Str
  capability : Capability
  grantedCapabilities : Finset Capability
  provenance : List Provenance
  parentCapabilities : Option (Finset Capability)
  irreversible : Bool
  externalSideEffect : Bool
  metadata : Metadata
  deriving DecidableEq

/-- `Evaluation`. -/
structure Evaluation where
  decision : Decision
  risk : ℚ
  reasons : List String
  hardBlock : Bool
  deriving DecidableEq

/-- `has_external_provenance(values)`. -/
def hasExternalProvenance (values : List Provenance) : Bool :=
  values.any fun v => v = .internet || v = .externalAgent || v = .unknown

end Bulldog
