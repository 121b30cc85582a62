import Bulldog.Lib.Action
import Bulldog.Models

/-!
# The runtime trace

`apply_transition` and `validate_invariants` of `trace_model.py` and the online verifier of
`trace_runtime.py`, for the transitions of `TRANSITIONS` and the data that the code gives them.
-/

namespace Bulldog

/-- `state.phase`. -/
inductive Phase where
  | start
  | evaluated
  | scanned
  | blocked
  | review
  | executed
  deriving DecidableEq

/-- `BullTraceState`, whose decision is `none` while it is pending. -/
structure BullTraceState where
  phase : Phase := .start
  decision : Option Decision := none
  scanned : Bool := false
  malwareClean : Bool := false
  executed : Bool := false
  sandboxed : Bool := false
  seccomp : Bool := false
  reviewRequired : Bool := false
  parentHasCapability : Bool := false
  childHasCapability : Bool := false
  secretGranted : Bool := false
  secretReturned : Bool := false
  brokerGranted : Bool := false
  egressOccurred : Bool := false
  directNetwork : Bool := false
  deriving DecidableEq

/-- A transition with its data. -/
inductive TraceEvent where
  | evaluate (decision : Decision)
  | scanClean
  | scanMalware
  | blockMalware
  | execute (sandboxed seccomp : Bool)
  | resolveDeny
  | resolveEscalate
  | grantChildCapability
  | grantSecret
  | returnSecret
  | grantBroker
  | brokerEgress
  deriving DecidableEq

namespace BullTraceState

/-- `raise TraceViolation(message)`. -/
def violation (message : String) : Exc := .raised .traceViolation message

/-- `state.decision in EXECUTABLE_DECISIONS`. -/
def executable (state : BullTraceState) : Bool :=
  state.decision = some .allow || state.decision = some .sandbox

/-- `validate_invariants(state)`. -/
def validateInvariants (state : BullTraceState) : Except Exc Unit := do
  raiseIf (state.decision = some .deny ∧ state.executed) (violation "DENY state executed")
  raiseIf (state.decision = some .escalate ∧ state.executed) (violation "ESCALATE state executed")
  raiseIf (state.executed ∧ !state.executable)
    (violation "execution occurred without ALLOW/SANDBOX")
  raiseIf (state.executed ∧ !(state.scanned && state.malwareClean))
    (violation "execution occurred without clean malware scan")
  raiseIf (state.executed ∧ !state.sandboxed) (violation "executed workload was not sandboxed")
  raiseIf (state.executed ∧ !state.seccomp) (violation "executed workload lacked seccomp")
  raiseIf (state.scanned ∧ !state.malwareClean ∧ state.executed)
    (violation "malware-detected workload executed")
  raiseIf (state.childHasCapability ∧ !state.parentHasCapability)
    (violation "child authority exceeded parent authority")
  raiseIf (state.secretReturned ∧ !state.secretGranted) (violation "secret returned without grant")
  raiseIf (state.egressOccurred ∧ !state.brokerGranted)
    (violation "egress occurred without broker grant")
  raiseIf state.directNetwork (violation "direct network became enabled")
  raiseIf (state.phase = .review ∧ !(state.decision = some .escalate ∧ state.reviewRequired))
    (violation "review phase does not correspond to ESCALATE")

/-- The branch of `apply_transition` for one transition: its guard, the message where it fails, and
the next state. -/
def transition (state : BullTraceState) : TraceEvent → Bool × String × BullTraceState
  | .evaluate decision => (state.phase = .start, "Evaluate requires start phase",
      { state with phase := .evaluated, decision := some decision })
  | .scanClean => (state.phase = .evaluated && state.executable,
      "ScanClean illegal from current state",
      { state with phase := .scanned, scanned := true, malwareClean := true })
  | .scanMalware => (state.phase = .evaluated && state.executable,
      "ScanMalware illegal from current state",
      { state with phase := .scanned, scanned := true, malwareClean := false })
  | .blockMalware => (state.phase = .scanned && state.scanned && !state.malwareClean,
      "BlockMalware illegal from current state", { state with phase := .blocked })
  | .execute sandboxed seccomp =>
      (state.phase = .scanned && state.executable && state.scanned && state.malwareClean &&
          !state.executed, "Execute illegal from current state",
      { state with phase := .executed, executed := true, sandboxed, seccomp })
  | .resolveDeny => (state.phase = .evaluated && state.decision = some .deny,
      "ResolveDeny illegal from current state", { state with phase := .blocked })
  | .resolveEscalate => (state.phase = .evaluated && state.decision = some .escalate,
      "ResolveEscalate illegal from current state",
      { state with phase := .review, reviewRequired := true })
  | .grantChildCapability => (state.parentHasCapability && !state.childHasCapability,
      "child capability grant exceeds parent authority", { state with childHasCapability := true })
  | .grantSecret => (!state.secretGranted, "secret grant already exists",
      { state with secretGranted := true })
  | .returnSecret => (state.secretGranted && !state.secretReturned,
      "ReturnSecret requires active grant", { state with secretReturned := true })
  | .grantBroker => (!state.brokerGranted, "broker grant already exists",
      { state with brokerGranted := true })
  | .brokerEgress => (state.brokerGranted && !state.egressOccurred,
      "BrokerEgress requires broker grant", { state with egressOccurred := true })

/-- `apply_transition(state, event)`. -/
def applyTransition (state : BullTraceState) (event : TraceEvent) : Except Exc BullTraceState := do
  let (guard, message, next) := state.transition event
  raiseIf (!guard) (violation message)
  validateInvariants next
  return next

end BullTraceState

/-- `RuntimeTraceVerifier`. -/
structure RuntimeTraceVerifier where
  state : BullTraceState
  events : List TraceEvent
  deriving DecidableEq

namespace RuntimeTraceVerifier

/-- `emit(transition, **data)`. -/
def emit (event : TraceEvent) : Action RuntimeTraceVerifier Exc Unit := do
  let verifier ← .read
  let next ← verifier.state.applyTransition event
  .update fun verifier => { state := next, events := verifier.events ++ [event] }

/-- `reset(parent_has_capability=parent_has_capability)`. -/
def reset (parentHasCapability : Bool) : Action RuntimeTraceVerifier Exc Unit :=
  .update fun _ => { state := { parentHasCapability }, events := [] }

end RuntimeTraceVerifier

end Bulldog
