import Mathlib

/-!
# The TLA+ module of the runtime

`BullRuntime.tla`, action for action and with its frame conditions as they are written there. TLA+ is
untyped, so that a state gives any value to a variable, and a variable that an action neither sets nor
lists under `UNCHANGED` may take any value.
-/

namespace Bulldog.Tla

/-- The variables. -/
inductive Var where
  | phase
  | decision
  | scanned
  | malwareClean
  | executed
  | sandboxed
  | seccomp
  | reviewRequired
  | parentHasCapability
  | childHasCapability
  | secretGranted
  | secretReturned
  | brokerGranted
  | egressOccurred
  | directNetwork
  deriving DecidableEq

/-- The values that the module uses. -/
inductive Value where
  | str (s : String)
  | bool (b : Bool)
  deriving DecidableEq

/-- A state. -/
abbrev State := Var → Value

/-- `BOOLEAN`. -/
def booleans : List Value := [.bool true, .bool false]

/-- `DecisionValues`. -/
def decisionValues : List Value :=
  [.str "PENDING", .str "ALLOW", .str "SANDBOX", .str "ESCALATE", .str "DENY"]

/-- `PhaseValues`. -/
def phaseValues : List Value :=
  [.str "start", .str "evaluated", .str "scanned", .str "blocked", .str "review", .str "executed"]

/-- `ExecutableDecisions`. -/
def executableDecisions : List Value := [.str "ALLOW", .str "SANDBOX"]

/-- `FinalDecisions`. -/
def finalDecisions : List Value := [.str "ALLOW", .str "SANDBOX", .str "ESCALATE", .str "DENY"]

/-- `UNCHANGED << vars >>`. -/
def Unchanged (vars : List Var) (s s' : State) : Prop := ∀ v ∈ vars, s' v = s v

/-! ## Actions -/

/-- `Init`. -/
def Init (s : State) : Prop :=
  s .phase = .str "start" ∧ s .decision = .str "PENDING" ∧ s .scanned = .bool false ∧
    s .malwareClean = .bool false ∧ s .executed = .bool false ∧ s .sandboxed = .bool false ∧
    s .seccomp = .bool false ∧ s .reviewRequired = .bool false ∧
    s .parentHasCapability ∈ booleans ∧ s .childHasCapability = .bool false ∧
    s .secretGranted = .bool false ∧ s .secretReturned = .bool false ∧
    s .brokerGranted = .bool false ∧ s .egressOccurred = .bool false ∧
    s .directNetwork = .bool false

/-- `Evaluate(d)`. -/
def evaluate (d : Value) (s s' : State) : Prop :=
  s .phase = .str "start" ∧ d ∈ finalDecisions ∧ s' .phase = .str "evaluated" ∧
    s' .decision = d ∧
    Unchanged
      [.scanned, .malwareClean, .executed, .sandboxed, .seccomp, .reviewRequired,
        .parentHasCapability, .childHasCapability, .secretGranted, .secretReturned,
        .brokerGranted, .egressOccurred, .directNetwork] s s'

/-- `ScanClean`. -/
def scanClean (s s' : State) : Prop :=
  s .phase = .str "evaluated" ∧ s .decision ∈ executableDecisions ∧ s' .phase = .str "scanned" ∧
    s' .scanned = .bool true ∧ s' .malwareClean = .bool true ∧
    Unchanged
      [.decision, .executed, .sandboxed, .seccomp, .reviewRequired, .parentHasCapability,
        .childHasCapability, .secretGranted, .secretReturned, .brokerGranted, .egressOccurred,
        .directNetwork] s s'

/-- `ScanMalware`. -/
def scanMalware (s s' : State) : Prop :=
  s .phase = .str "evaluated" ∧ s .decision ∈ executableDecisions ∧ s' .phase = .str "scanned" ∧
    s' .scanned = .bool true ∧ s' .malwareClean = .bool false ∧
    Unchanged
      [.decision, .executed, .sandboxed, .seccomp, .reviewRequired, .parentHasCapability,
        .childHasCapability, .secretGranted, .secretReturned, .brokerGranted, .egressOccurred,
        .directNetwork] s s'

/-- `BlockMalware`. -/
def blockMalware (s s' : State) : Prop :=
  s .phase = .str "scanned" ∧ s .scanned = .bool true ∧ s .malwareClean = .bool false ∧
    s' .phase = .str "blocked" ∧
    Unchanged
      [.decision, .scanned, .malwareClean, .executed, .sandboxed, .seccomp, .reviewRequired,
        .parentHasCapability, .childHasCapability, .secretGranted, .secretReturned,
        .brokerGranted, .egressOccurred, .directNetwork] s s'

/-- `Execute`. -/
def execute (s s' : State) : Prop :=
  s .phase = .str "scanned" ∧ s .decision ∈ executableDecisions ∧ s .scanned = .bool true ∧
    s .malwareClean = .bool true ∧ s .executed = .bool false ∧ s' .phase = .str "executed" ∧
    s' .executed = .bool true ∧ s' .sandboxed = .bool true ∧ s' .seccomp = .bool true ∧
    Unchanged
      [.decision, .scanned, .malwareClean, .reviewRequired, .parentHasCapability,
        .childHasCapability, .secretGranted, .secretReturned, .brokerGranted, .egressOccurred,
        .directNetwork] s s'

/-- `ResolveDeny`. -/
def resolveDeny (s s' : State) : Prop :=
  s .phase = .str "evaluated" ∧ s .decision = .str "DENY" ∧ s' .phase = .str "blocked" ∧
    Unchanged
      [.decision, .scanned, .malwareClean, .executed, .sandboxed, .seccomp, .reviewRequired,
        .parentHasCapability, .childHasCapability, .secretGranted, .secretReturned,
        .brokerGranted, .egressOccurred, .directNetwork] s s'

/-- `ResolveEscalate`. -/
def resolveEscalate (s s' : State) : Prop :=
  s .phase = .str "evaluated" ∧ s .decision = .str "ESCALATE" ∧ s' .phase = .str "review" ∧
    s' .reviewRequired = .bool true ∧
    Unchanged
      [.decision, .scanned, .malwareClean, .executed, .sandboxed, .seccomp, .parentHasCapability,
        .childHasCapability, .secretGranted, .secretReturned, .brokerGranted, .egressOccurred,
        .directNetwork] s s'

/-- `GrantChildCapability`. -/
def grantChildCapability (s s' : State) : Prop :=
  s .parentHasCapability = .bool true ∧ s .childHasCapability = .bool false ∧
    s' .childHasCapability = .bool true ∧
    Unchanged
      [.phase, .decision, .scanned, .malwareClean, .executed, .sandboxed, .seccomp,
        .reviewRequired, .parentHasCapability, .secretGranted, .secretReturned, .brokerGranted,
        .egressOccurred, .directNetwork] s s'

/-- `GrantSecret`. -/
def grantSecret (s s' : State) : Prop :=
  s .secretGranted = .bool false ∧ s' .secretGranted = .bool true ∧
    Unchanged
      [.phase, .decision, .scanned, .malwareClean, .executed, .sandboxed, .seccomp,
        .reviewRequired, .parentHasCapability, .childHasCapability, .secretReturned,
        .brokerGranted, .egressOccurred, .directNetwork] s s'

/-- `ReturnSecret`. -/
def returnSecret (s s' : State) : Prop :=
  s .secretGranted = .bool true ∧ s .secretReturned = .bool false ∧
    s' .secretReturned = .bool true ∧
    Unchanged
      [.phase, .decision, .scanned, .malwareClean, .executed, .sandboxed, .seccomp,
        .reviewRequired, .parentHasCapability, .childHasCapability, .secretGranted,
        .brokerGranted, .egressOccurred, .directNetwork] s s'

/-- `GrantBroker`. -/
def grantBroker (s s' : State) : Prop :=
  s .brokerGranted = .bool false ∧ s' .brokerGranted = .bool true ∧
    Unchanged
      [.phase, .decision, .scanned, .malwareClean, .executed, .sandboxed, .seccomp,
        .reviewRequired, .parentHasCapability, .childHasCapability, .secretGranted,
        .secretReturned, .egressOccurred, .directNetwork] s s'

/-- `BrokerEgress`. -/
def brokerEgress (s s' : State) : Prop :=
  s .brokerGranted = .bool true ∧ s .egressOccurred = .bool false ∧
    s' .egressOccurred = .bool true ∧
    Unchanged
      [.phase, .decision, .scanned, .malwareClean, .executed, .sandboxed, .seccomp,
        .reviewRequired, .parentHasCapability, .childHasCapability, .secretGranted,
        .secretReturned, .brokerGranted, .directNetwork] s s'

/-- The disjuncts of `Next`. -/
inductive Act where
  | evaluate (d : Value)
  | scanClean
  | scanMalware
  | blockMalware
  | execute
  | resolveDeny
  | resolveEscalate
  | grantChildCapability
  | grantSecret
  | returnSecret
  | grantBroker
  | brokerEgress

/-- The steps of `Next`, by disjunct. -/
def Act.step : Act → State → State → Prop
  | .evaluate d => Tla.evaluate d
  | .scanClean => Tla.scanClean
  | .scanMalware => Tla.scanMalware
  | .blockMalware => Tla.blockMalware
  | .execute => Tla.execute
  | .resolveDeny => Tla.resolveDeny
  | .resolveEscalate => Tla.resolveEscalate
  | .grantChildCapability => Tla.grantChildCapability
  | .grantSecret => Tla.grantSecret
  | .returnSecret => Tla.returnSecret
  | .grantBroker => Tla.grantBroker
  | .brokerEgress => Tla.brokerEgress

/-! ## Invariants -/

/-- `TypeOK`. -/
def typeOK (s : State) : Prop :=
  s .phase ∈ phaseValues ∧ s .decision ∈ decisionValues ∧
    ∀ v, v ≠ .phase → v ≠ .decision → s v ∈ booleans

/-- `DenyNeverExecutes`. -/
def denyNeverExecutes (s : State) : Prop := s .decision = .str "DENY" → s .executed = .bool false

/-- `EscalateNeverExecutes`. -/
def escalateNeverExecutes (s : State) : Prop :=
  s .decision = .str "ESCALATE" → s .executed = .bool false

/-- `ExecutionRequiresApprovedDecision`. -/
def executionRequiresApprovedDecision (s : State) : Prop :=
  s .executed = .bool true → s .decision ∈ executableDecisions

/-- `ExecutionRequiresCleanScan`. -/
def executionRequiresCleanScan (s : State) : Prop :=
  s .executed = .bool true → s .scanned = .bool true ∧ s .malwareClean = .bool true

/-- `ExecutionAlwaysSandboxed`. -/
def executionAlwaysSandboxed (s : State) : Prop :=
  s .executed = .bool true → s .sandboxed = .bool true

/-- `ExecutionAlwaysSeccomp`. -/
def executionAlwaysSeccomp (s : State) : Prop := s .executed = .bool true → s .seccomp = .bool true

/-- `MalwareNeverExecutes`. -/
def malwareNeverExecutes (s : State) : Prop :=
  s .scanned = .bool true ∧ s .malwareClean = .bool false → s .executed = .bool false

/-- `ChildAuthorityBound`. -/
def childAuthorityBound (s : State) : Prop :=
  s .childHasCapability = .bool true → s .parentHasCapability = .bool true

/-- `SecretRequiresGrant`. -/
def secretRequiresGrant (s : State) : Prop :=
  s .secretReturned = .bool true → s .secretGranted = .bool true

/-- `EgressRequiresBroker`. -/
def egressRequiresBroker (s : State) : Prop :=
  s .egressOccurred = .bool true → s .brokerGranted = .bool true

/-- `DirectNetworkAlwaysBlocked`. -/
def directNetworkAlwaysBlocked (s : State) : Prop := s .directNetwork = .bool false

/-- `ReviewStateIsEscalated`. -/
def reviewStateIsEscalated (s : State) : Prop :=
  s .phase = .str "review" → s .decision = .str "ESCALATE" ∧ s .reviewRequired = .bool true

/-- Every invariant of the module. -/
structure Invariants (s : State) : Prop where
  typeOK : typeOK s
  denyNeverExecutes : denyNeverExecutes s
  escalateNeverExecutes : escalateNeverExecutes s
  executionRequiresApprovedDecision : executionRequiresApprovedDecision s
  executionRequiresCleanScan : executionRequiresCleanScan s
  executionAlwaysSandboxed : executionAlwaysSandboxed s
  executionAlwaysSeccomp : executionAlwaysSeccomp s
  malwareNeverExecutes : malwareNeverExecutes s
  childAuthorityBound : childAuthorityBound s
  secretRequiresGrant : secretRequiresGrant s
  egressRequiresBroker : egressRequiresBroker s
  directNetworkAlwaysBlocked : directNetworkAlwaysBlocked s
  reviewStateIsEscalated : reviewStateIsEscalated s

end Bulldog.Tla
