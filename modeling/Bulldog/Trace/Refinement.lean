import Bulldog.Trace
import Bulldog.Trace.Spec

/-!
# The trace verifier and the TLA+ module

`verify_trace` of `trace_model.py` takes any names and data. It accepts the events exactly where the
TLA+ module has a behaviour with these actions, and it is in the same state at every event.
-/

namespace Bulldog

/-! ## Events as they come -/

/-- What the code reads of a value: `str(value)` and `bool(value)`. -/
structure DataValue where
  str : String
  truthy : Bool

/-- `TraceEvent`. -/
structure RawEvent where
  transition : String
  data : List (String × DataValue)

namespace RawEvent

/-- `str(data.get(key, ""))`. -/
def str (event : RawEvent) (key : String) : String :=
  match event.data.lookup key with
  | some value => value.str
  | none => ""

/-- `bool(data.get(key, False))`. -/
def truthy (event : RawEvent) (key : String) : Bool :=
  match event.data.lookup key with
  | some value => value.truthy
  | none => false

end RawEvent

/-- The decision of `Evaluate` with this value. -/
def finalDecision : String → Option Decision
  | "ALLOW" => some .allow
  | "SANDBOX" => some .sandbox
  | "ESCALATE" => some .escalate
  | "DENY" => some .deny
  | _ => none

namespace BullTraceState

/-- `apply_transition(state, event)` for any event. -/
def applyEvent (state : BullTraceState) (event : RawEvent) : Except Exc BullTraceState :=
  match event.transition with
  | "Evaluate" => do
    raiseIf (state.phase ≠ .start) (violation "Evaluate requires start phase")
    let decision ← orRaise (finalDecision (event.str "decision"))
      (violation ("invalid Evaluate decision: " ++ event.str "decision"))
    state.applyTransition (.evaluate decision)
  | "ScanClean" => state.applyTransition .scanClean
  | "ScanMalware" => state.applyTransition .scanMalware
  | "BlockMalware" => state.applyTransition .blockMalware
  | "Execute" =>
    state.applyTransition (.execute (event.truthy "sandboxed") (event.truthy "seccomp"))
  | "ResolveDeny" => state.applyTransition .resolveDeny
  | "ResolveEscalate" => state.applyTransition .resolveEscalate
  | "GrantChildCapability" => state.applyTransition .grantChildCapability
  | "GrantSecret" => state.applyTransition .grantSecret
  | "ReturnSecret" => state.applyTransition .returnSecret
  | "GrantBroker" => state.applyTransition .grantBroker
  | "BrokerEgress" => state.applyTransition .brokerEgress
  | name => .error (violation ("unknown transition: " ++ name))

/-- The loop of `verify_trace`. -/
def verifyEvents (state : BullTraceState) (index : ℕ) : List RawEvent → Except Exc BullTraceState
  | [] => .ok state
  | event :: events =>
    match state.applyEvent event with
    | .ok next => next.verifyEvents (index + 1) events
    | .error (.raised cls message) =>
      .error (.raised cls ("trace event " ++ toString index ++ " (" ++ event.transition ++
        ") violated model: " ++ message))
    | .error e => .error e

/-- `verify_trace(events, initial=initial)`. -/
def verifyTrace (initial : BullTraceState) (events : List RawEvent) : Except Exc BullTraceState := do
  initial.validateInvariants
  initial.verifyEvents 0 events

end BullTraceState

/-! ## The module's view -/

/-- The action of the module that an event names: `Evaluate` with its decision, and `Execute` where
the workload is in the sandbox and under seccomp. -/
def RawEvent.act (event : RawEvent) : Option Tla.Act :=
  match event.transition with
  | "Evaluate" => some (.evaluate (.str (event.str "decision")))
  | "ScanClean" => some .scanClean
  | "ScanMalware" => some .scanMalware
  | "BlockMalware" => some .blockMalware
  | "Execute" => if event.truthy "sandboxed" && event.truthy "seccomp" then some .execute else none
  | "ResolveDeny" => some .resolveDeny
  | "ResolveEscalate" => some .resolveEscalate
  | "GrantChildCapability" => some .grantChildCapability
  | "GrantSecret" => some .grantSecret
  | "ReturnSecret" => some .returnSecret
  | "GrantBroker" => some .grantBroker
  | "BrokerEgress" => some .brokerEgress
  | _ => none

/-- `phase` as a string. -/
def Phase.value : Phase → String
  | .start => "start"
  | .evaluated => "evaluated"
  | .scanned => "scanned"
  | .blocked => "blocked"
  | .review => "review"
  | .executed => "executed"

/-- The state of the module that has the same fields. -/
def BullTraceState.tla (state : BullTraceState) : Tla.State
  | .phase => .str state.phase.value
  | .decision => .str (match state.decision with
    | some decision => decision.value
    | none => "PENDING")
  | .scanned => .bool state.scanned
  | .malwareClean => .bool state.malwareClean
  | .executed => .bool state.executed
  | .sandboxed => .bool state.sandboxed
  | .seccomp => .bool state.seccomp
  | .reviewRequired => .bool state.reviewRequired
  | .parentHasCapability => .bool state.parentHasCapability
  | .childHasCapability => .bool state.childHasCapability
  | .secretGranted => .bool state.secretGranted
  | .secretReturned => .bool state.secretReturned
  | .brokerGranted => .bool state.brokerGranted
  | .egressOccurred => .bool state.egressOccurred
  | .directNetwork => .bool state.directNetwork

/-- A behaviour of the module from a state, whose actions are the ones that the events name, with the
states that it goes through. -/
def Tla.Behaviour (s : Tla.State) : List RawEvent → List Tla.State → Prop
  | [], [] => True
  | event :: events, s' :: states =>
    (∃ a, event.act = some a ∧ a.step s s') ∧ Tla.Behaviour s' events states
  | _, _ => False

/-- An `Execute` has its workload in the sandbox and under seccomp. -/
def TraceEvent.secure : TraceEvent → Bool
  | .execute sandboxed seccomp => sandboxed && seccomp
  | _ => true

/-! ## The shape of states -/

/-- What holds of every state that the verifier reaches. -/
structure BullTraceState.Shape (s : BullTraceState) : Prop where
  start : s.phase = .start → s.decision = none
  review : s.phase = .review → s.decision = some .escalate ∧ s.reviewRequired = true
  executed : s.executed = true → s.phase = .executed ∧ s.executable = true ∧ s.scanned = true ∧
    s.malwareClean = true ∧ s.sandboxed = true ∧ s.seccomp = true
  child : s.childHasCapability = true → s.parentHasCapability = true
  secret : s.secretReturned = true → s.secretGranted = true
  egress : s.egressOccurred = true → s.brokerGranted = true
  network : s.directNetwork = false

namespace BullTraceState

variable {s s' : BullTraceState} {event : TraceEvent}

theorem Shape.initial (b : Bool) : Shape { parentHasCapability := b } := by
  constructor <;> simp

theorem Shape.validateInvariants (h : s.Shape) : s.validateInvariants = .ok () := by
  have hexecuted := h.executed
  have hexecutable : s.executable = true → s.decision ≠ some .deny ∧ s.decision ≠ some .escalate := by
    intro hexecutable
    unfold executable at hexecutable
    constructor <;> intro hdecision <;> rw [hdecision] at hexecutable <;> cases hexecutable
  unfold BullTraceState.validateInvariants
  refine bind_eq_ok.2 ⟨(), raiseIf_eq_ok.2 ?_, ?_⟩
  · rintro ⟨hdeny, he⟩
    exact (hexecutable (hexecuted he).2.1).1 hdeny
  refine bind_eq_ok.2 ⟨(), raiseIf_eq_ok.2 ?_, ?_⟩
  · rintro ⟨hescalate, he⟩
    exact (hexecutable (hexecuted he).2.1).2 hescalate
  refine bind_eq_ok.2 ⟨(), raiseIf_eq_ok.2 ?_, ?_⟩
  · rintro ⟨he, hnot⟩
    simp [(hexecuted he).2.1] at hnot
  refine bind_eq_ok.2 ⟨(), raiseIf_eq_ok.2 ?_, ?_⟩
  · rintro ⟨he, hnot⟩
    simp [(hexecuted he).2.2.1, (hexecuted he).2.2.2.1] at hnot
  refine bind_eq_ok.2 ⟨(), raiseIf_eq_ok.2 ?_, ?_⟩
  · rintro ⟨he, hnot⟩
    simp [(hexecuted he).2.2.2.2.1] at hnot
  refine bind_eq_ok.2 ⟨(), raiseIf_eq_ok.2 ?_, ?_⟩
  · rintro ⟨he, hnot⟩
    simp [(hexecuted he).2.2.2.2.2] at hnot
  refine bind_eq_ok.2 ⟨(), raiseIf_eq_ok.2 ?_, ?_⟩
  · rintro ⟨-, hnot, he⟩
    simp [(hexecuted he).2.2.2.1] at hnot
  refine bind_eq_ok.2 ⟨(), raiseIf_eq_ok.2 ?_, ?_⟩
  · rintro ⟨hchild, hnot⟩
    simp [h.child hchild] at hnot
  refine bind_eq_ok.2 ⟨(), raiseIf_eq_ok.2 ?_, ?_⟩
  · rintro ⟨hsecret, hnot⟩
    simp [h.secret hsecret] at hnot
  refine bind_eq_ok.2 ⟨(), raiseIf_eq_ok.2 ?_, ?_⟩
  · rintro ⟨hegress, hnot⟩
    simp [h.egress hegress] at hnot
  refine bind_eq_ok.2 ⟨(), raiseIf_eq_ok.2 ?_, raiseIf_eq_ok.2 ?_⟩
  · simp [h.network]
  · rintro ⟨hreview, hnot⟩
    simp [h.review hreview] at hnot

/-- A transition that is not refused keeps the shape. -/
theorem Shape.transition (h : s.Shape) (hguard : (s.transition event).1 = true)
    (hsecure : event.secure = true) : (s.transition event).2.2.Shape := by
  have hexecuted := h.executed
  cases event with
  | evaluate decision =>
    have hphase : s.phase = .start := by simpa [BullTraceState.transition] using hguard
    refine ⟨nofun, nofun, fun he => ?_, h.child, h.secret, h.egress, h.network⟩
    exact absurd (hphase.symm.trans (hexecuted he).1) (by decide)
  | scanClean =>
    obtain ⟨hphase, -⟩ : s.phase = .evaluated ∧ s.executable = true := by
      simpa [BullTraceState.transition] using hguard
    refine ⟨nofun, nofun, fun he => ?_, h.child, h.secret, h.egress, h.network⟩
    exact absurd (hphase.symm.trans (hexecuted he).1) (by decide)
  | scanMalware =>
    obtain ⟨hphase, -⟩ : s.phase = .evaluated ∧ s.executable = true := by
      simpa [BullTraceState.transition] using hguard
    refine ⟨nofun, nofun, fun he => ?_, h.child, h.secret, h.egress, h.network⟩
    exact absurd (hphase.symm.trans (hexecuted he).1) (by decide)
  | blockMalware =>
    obtain ⟨⟨hphase, -⟩, -⟩ : (s.phase = .scanned ∧ s.scanned = true) ∧ s.malwareClean = false := by
      simpa [BullTraceState.transition] using hguard
    refine ⟨nofun, nofun, fun he => ?_, h.child, h.secret, h.egress, h.network⟩
    exact absurd (hphase.symm.trans (hexecuted he).1) (by decide)
  | execute sandboxed seccomp =>
    obtain ⟨⟨⟨⟨-, hexecutable⟩, hscanned⟩, hclean⟩, -⟩ : (((s.phase = .scanned ∧
        s.executable = true) ∧ s.scanned = true) ∧ s.malwareClean = true) ∧ s.executed = false := by
      simpa [BullTraceState.transition] using hguard
    obtain ⟨hsandboxed, hseccomp⟩ : sandboxed = true ∧ seccomp = true := by
      simpa [TraceEvent.secure] using hsecure
    exact ⟨nofun, nofun, fun _ => ⟨rfl, hexecutable, hscanned, hclean, hsandboxed, hseccomp⟩, h.child,
      h.secret, h.egress, h.network⟩
  | resolveDeny =>
    obtain ⟨hphase, -⟩ : s.phase = .evaluated ∧ s.decision = some .deny := by
      simpa [BullTraceState.transition] using hguard
    refine ⟨nofun, nofun, fun he => ?_, h.child, h.secret, h.egress, h.network⟩
    exact absurd (hphase.symm.trans (hexecuted he).1) (by decide)
  | resolveEscalate =>
    obtain ⟨hphase, hdecision⟩ : s.phase = .evaluated ∧ s.decision = some .escalate := by
      simpa [BullTraceState.transition] using hguard
    refine ⟨nofun, fun _ => ⟨hdecision, rfl⟩, fun he => ?_, h.child, h.secret, h.egress, h.network⟩
    exact absurd (hphase.symm.trans (hexecuted he).1) (by decide)
  | grantChildCapability =>
    obtain ⟨hparent, -⟩ : s.parentHasCapability = true ∧ s.childHasCapability = false := by
      simpa [BullTraceState.transition] using hguard
    exact ⟨h.start, h.review, hexecuted, fun _ => hparent, h.secret, h.egress, h.network⟩
  | grantSecret => exact ⟨h.start, h.review, hexecuted, h.child, fun _ => rfl, h.egress, h.network⟩
  | returnSecret =>
    obtain ⟨hgranted, -⟩ : s.secretGranted = true ∧ s.secretReturned = false := by
      simpa [BullTraceState.transition] using hguard
    exact ⟨h.start, h.review, hexecuted, h.child, fun _ => hgranted, h.egress, h.network⟩
  | grantBroker => exact ⟨h.start, h.review, hexecuted, h.child, h.secret, fun _ => rfl, h.network⟩
  | brokerEgress =>
    obtain ⟨hgranted, -⟩ : s.brokerGranted = true ∧ s.egressOccurred = false := by
      simpa [BullTraceState.transition] using hguard
    exact ⟨h.start, h.review, hexecuted, h.child, h.secret, fun _ => hgranted, h.network⟩

/-- A state that passes `validate_invariants` with an executed workload has it confined. -/
theorem validateInvariants_confined (h : s.validateInvariants = .ok ()) (he : s.executed = true) :
    s.sandboxed = true ∧ s.seccomp = true := by
  unfold BullTraceState.validateInvariants at h
  obtain ⟨_, -, h⟩ := bind_eq_ok.1 h
  obtain ⟨_, -, h⟩ := bind_eq_ok.1 h
  obtain ⟨_, -, h⟩ := bind_eq_ok.1 h
  obtain ⟨_, -, h⟩ := bind_eq_ok.1 h
  obtain ⟨_, hsandboxed, h⟩ := bind_eq_ok.1 h
  obtain ⟨_, hseccomp, -⟩ := bind_eq_ok.1 h
  have hsandboxed := raiseIf_eq_ok.1 hsandboxed
  have hseccomp := raiseIf_eq_ok.1 hseccomp
  simp [he] at hsandboxed hseccomp
  exact ⟨hsandboxed, hseccomp⟩

/-- `apply_transition` on a state of this shape. -/
theorem Shape.applyTransition_eq_ok (h : s.Shape) :
    s.applyTransition event = .ok s' ↔
      event.secure = true ∧ (s.transition event).1 = true ∧ s' = (s.transition event).2.2 := by
  unfold applyTransition
  constructor
  · intro hok
    obtain ⟨_, hguard, hok⟩ := bind_eq_ok.1 hok
    obtain ⟨_, hvalid, hok⟩ := bind_eq_ok.1 hok
    have hguard : ¬ (!(s.transition event).1) = true := raiseIf_eq_ok.1 hguard
    refine ⟨?_, by simpa only [Bool.not_eq_true, Bool.not_eq_false'] using hguard,
      (Except.ok.inj hok).symm⟩
    cases event with
    | execute sandboxed seccomp =>
      obtain ⟨hsandboxed, hseccomp⟩ := validateInvariants_confined hvalid rfl
      exact Bool.and_eq_true_iff.2 ⟨hsandboxed, hseccomp⟩
    | _ => rfl
  · rintro ⟨hsecure, hguard, rfl⟩
    have hpasses : ¬ (!(s.transition event).1) = true := by
      rw [hguard]
      decide
    refine bind_eq_ok.2 ⟨(), raiseIf_eq_ok.2 hpasses, ?_⟩
    exact bind_eq_ok.2 ⟨(), (h.transition hguard hsecure).validateInvariants, rfl⟩

end BullTraceState

/-! ## One step -/

/-- The action of the module for a transition. -/
def TraceEvent.act : TraceEvent → Tla.Act
  | .evaluate decision => .evaluate (.str decision.value)
  | .scanClean => .scanClean
  | .scanMalware => .scanMalware
  | .blockMalware => .blockMalware
  | .execute _ _ => .execute
  | .resolveDeny => .resolveDeny
  | .resolveEscalate => .resolveEscalate
  | .grantChildCapability => .grantChildCapability
  | .grantSecret => .grantSecret
  | .returnSecret => .returnSecret
  | .grantBroker => .grantBroker
  | .brokerEgress => .brokerEgress

namespace BullTraceState

variable {s s' : BullTraceState} {event : TraceEvent}

theorem tla_phase {phase : Phase} : s.tla .phase = .str phase.value ↔ s.phase = phase := by
  change Tla.Value.str s.phase.value = .str phase.value ↔ _
  constructor
  · intro h
    rcases hp : s.phase <;> rw [hp] at h <;> cases phase <;> first | rfl | (revert h; decide)
  · rintro rfl
    rfl

theorem tla_decision {decision : Decision} :
    s.tla .decision = .str decision.value ↔ s.decision = some decision := by
  change Tla.Value.str (match s.decision with
    | some decision => decision.value
    | none => "PENDING") = .str decision.value ↔ _
  rcases s.decision with _ | d
  · cases decision <;> decide
  · cases d <;> cases decision <;> decide

theorem tla_executable : s.tla .decision ∈ Tla.executableDecisions ↔ s.executable = true := by
  have hallow : s.tla .decision = .str Decision.allow.value ↔ _ := tla_decision
  have hsandbox : s.tla .decision = .str Decision.sandbox.value ↔ _ := tla_decision
  unfold Tla.executableDecisions executable
  rw [List.mem_pair, Bool.or_eq_true, decide_eq_true_iff, decide_eq_true_iff, ← hallow, ← hsandbox]
  rfl

theorem tla_bool {b c : Bool} : Tla.Value.bool b = .bool c ↔ b = c := by
  rw [Tla.Value.bool.injEq]

theorem value_mem_finalDecisions (decision : Decision) :
    Tla.Value.str decision.value ∈ Tla.finalDecisions := by
  cases decision <;> decide

/-- A transition is a step of its action, with the same guard, effect and frame. -/
theorem step_iff (hsecure : event.secure = true) {t : Tla.State} :
    event.act.step s.tla t ↔
      (s.transition event).1 = true ∧ t = (s.transition event).2.2.tla := by
  cases event with
  | evaluate decision =>
    rw [show (s.transition (.evaluate decision)).1 = true ↔ s.phase = .start by
      simp [BullTraceState.transition]]
    constructor
    · rintro ⟨hphase, -, hphase', hdecision', hframe⟩
      refine ⟨tla_phase.1 hphase, funext fun v => ?_⟩
      cases v <;> first | assumption | exact hframe _ (by decide)
    · rintro ⟨hphase, rfl⟩
      refine ⟨tla_phase.2 hphase, value_mem_finalDecisions decision, rfl, rfl, fun v hv => ?_⟩
      cases v <;> first | rfl | exact absurd hv (by decide)
  | scanClean =>
    rw [show (s.transition .scanClean).1 = true ↔ s.phase = .evaluated ∧ s.executable = true by
      simp [BullTraceState.transition]]
    constructor
    · rintro ⟨hphase, hdecision, hphase', hscanned', hclean', hframe⟩
      refine ⟨⟨tla_phase.1 hphase, tla_executable.1 hdecision⟩, funext fun v => ?_⟩
      cases v <;> first | assumption | exact hframe _ (by decide)
    · rintro ⟨⟨hphase, hdecision⟩, rfl⟩
      refine ⟨tla_phase.2 hphase, tla_executable.2 hdecision, rfl, rfl, rfl, fun v hv => ?_⟩
      cases v <;> first | rfl | exact absurd hv (by decide)
  | scanMalware =>
    rw [show (s.transition .scanMalware).1 = true ↔ s.phase = .evaluated ∧ s.executable = true by
      simp [BullTraceState.transition]]
    constructor
    · rintro ⟨hphase, hdecision, hphase', hscanned', hclean', hframe⟩
      refine ⟨⟨tla_phase.1 hphase, tla_executable.1 hdecision⟩, funext fun v => ?_⟩
      cases v <;> first | assumption | exact hframe _ (by decide)
    · rintro ⟨⟨hphase, hdecision⟩, rfl⟩
      refine ⟨tla_phase.2 hphase, tla_executable.2 hdecision, rfl, rfl, rfl, fun v hv => ?_⟩
      cases v <;> first | rfl | exact absurd hv (by decide)
  | blockMalware =>
    rw [show (s.transition .blockMalware).1 = true ↔ (s.phase = .scanned ∧ s.scanned = true) ∧
        s.malwareClean = false by
      simp [BullTraceState.transition]]
    constructor
    · rintro ⟨hphase, hscanned, hclean, hphase', hframe⟩
      refine ⟨⟨⟨tla_phase.1 hphase, tla_bool.1 hscanned⟩, tla_bool.1 hclean⟩, funext fun v => ?_⟩
      cases v <;> first | assumption | exact hframe _ (by decide)
    · rintro ⟨⟨⟨hphase, hscanned⟩, hclean⟩, rfl⟩
      refine ⟨tla_phase.2 hphase, tla_bool.2 hscanned, tla_bool.2 hclean, rfl, fun v hv => ?_⟩
      cases v <;> first | rfl | exact absurd hv (by decide)
  | execute sandboxed seccomp =>
    obtain ⟨rfl, rfl⟩ : sandboxed = true ∧ seccomp = true := by
      simpa [TraceEvent.secure] using hsecure
    rw [show (s.transition (.execute true true)).1 = true ↔ (((s.phase = .scanned ∧
        s.executable = true) ∧ s.scanned = true) ∧ s.malwareClean = true) ∧ s.executed = false by
      simp [BullTraceState.transition]]
    constructor
    · rintro ⟨hphase, hdecision, hscanned, hclean, hexecuted, hphase', hexecuted', hsandboxed',
        hseccomp', hframe⟩
      refine ⟨⟨⟨⟨⟨tla_phase.1 hphase, tla_executable.1 hdecision⟩, tla_bool.1 hscanned⟩,
        tla_bool.1 hclean⟩, tla_bool.1 hexecuted⟩, funext fun v => ?_⟩
      cases v <;> first | assumption | exact hframe _ (by decide)
    · rintro ⟨⟨⟨⟨⟨hphase, hdecision⟩, hscanned⟩, hclean⟩, hexecuted⟩, rfl⟩
      refine ⟨tla_phase.2 hphase, tla_executable.2 hdecision, tla_bool.2 hscanned,
        tla_bool.2 hclean, tla_bool.2 hexecuted, rfl, rfl, rfl, rfl, fun v hv => ?_⟩
      cases v <;> first | rfl | exact absurd hv (by decide)
  | resolveDeny =>
    rw [show (s.transition .resolveDeny).1 = true ↔ s.phase = .evaluated ∧ s.decision = some .deny by
      simp [BullTraceState.transition]]
    constructor
    · rintro ⟨hphase, hdecision, hphase', hframe⟩
      refine ⟨⟨tla_phase.1 hphase, tla_decision.1 hdecision⟩, funext fun v => ?_⟩
      cases v <;> first | assumption | exact hframe _ (by decide)
    · rintro ⟨⟨hphase, hdecision⟩, rfl⟩
      refine ⟨tla_phase.2 hphase, tla_decision.2 hdecision, rfl, fun v hv => ?_⟩
      cases v <;> first | rfl | exact absurd hv (by decide)
  | resolveEscalate =>
    rw [show (s.transition .resolveEscalate).1 = true ↔ s.phase = .evaluated ∧ s.decision = some .escalate by
      simp [BullTraceState.transition]]
    constructor
    · rintro ⟨hphase, hdecision, hphase', hreview', hframe⟩
      refine ⟨⟨tla_phase.1 hphase, tla_decision.1 hdecision⟩, funext fun v => ?_⟩
      cases v <;> first | assumption | exact hframe _ (by decide)
    · rintro ⟨⟨hphase, hdecision⟩, rfl⟩
      refine ⟨tla_phase.2 hphase, tla_decision.2 hdecision, rfl, rfl, fun v hv => ?_⟩
      cases v <;> first | rfl | exact absurd hv (by decide)
  | grantChildCapability =>
    rw [show (s.transition .grantChildCapability).1 = true ↔ s.parentHasCapability = true ∧
        s.childHasCapability = false by
      simp [BullTraceState.transition]]
    constructor
    · rintro ⟨hparent, hchild, hchild', hframe⟩
      refine ⟨⟨tla_bool.1 hparent, tla_bool.1 hchild⟩, funext fun v => ?_⟩
      cases v <;> first | assumption | exact hframe _ (by decide)
    · rintro ⟨⟨hparent, hchild⟩, rfl⟩
      refine ⟨tla_bool.2 hparent, tla_bool.2 hchild, rfl, fun v hv => ?_⟩
      cases v <;> first | rfl | exact absurd hv (by decide)
  | grantSecret =>
    rw [show (s.transition .grantSecret).1 = true ↔ s.secretGranted = false by
      simp [BullTraceState.transition]]
    constructor
    · rintro ⟨hgranted, hgranted', hframe⟩
      refine ⟨tla_bool.1 hgranted, funext fun v => ?_⟩
      cases v <;> first | assumption | exact hframe _ (by decide)
    · rintro ⟨hgranted, rfl⟩
      refine ⟨tla_bool.2 hgranted, rfl, fun v hv => ?_⟩
      cases v <;> first | rfl | exact absurd hv (by decide)
  | returnSecret =>
    rw [show (s.transition .returnSecret).1 = true ↔ s.secretGranted = true ∧ s.secretReturned = false by
      simp [BullTraceState.transition]]
    constructor
    · rintro ⟨hgranted, hreturned, hreturned', hframe⟩
      refine ⟨⟨tla_bool.1 hgranted, tla_bool.1 hreturned⟩, funext fun v => ?_⟩
      cases v <;> first | assumption | exact hframe _ (by decide)
    · rintro ⟨⟨hgranted, hreturned⟩, rfl⟩
      refine ⟨tla_bool.2 hgranted, tla_bool.2 hreturned, rfl, fun v hv => ?_⟩
      cases v <;> first | rfl | exact absurd hv (by decide)
  | grantBroker =>
    rw [show (s.transition .grantBroker).1 = true ↔ s.brokerGranted = false by
      simp [BullTraceState.transition]]
    constructor
    · rintro ⟨hgranted, hgranted', hframe⟩
      refine ⟨tla_bool.1 hgranted, funext fun v => ?_⟩
      cases v <;> first | assumption | exact hframe _ (by decide)
    · rintro ⟨hgranted, rfl⟩
      refine ⟨tla_bool.2 hgranted, rfl, fun v hv => ?_⟩
      cases v <;> first | rfl | exact absurd hv (by decide)
  | brokerEgress =>
    rw [show (s.transition .brokerEgress).1 = true ↔ s.brokerGranted = true ∧ s.egressOccurred = false by
      simp [BullTraceState.transition]]
    constructor
    · rintro ⟨hgranted, hegress, hegress', hframe⟩
      refine ⟨⟨tla_bool.1 hgranted, tla_bool.1 hegress⟩, funext fun v => ?_⟩
      cases v <;> first | assumption | exact hframe _ (by decide)
    · rintro ⟨⟨hgranted, hegress⟩, rfl⟩
      refine ⟨tla_bool.2 hgranted, tla_bool.2 hegress, rfl, fun v hv => ?_⟩
      cases v <;> first | rfl | exact absurd hv (by decide)

theorem value_finalDecision {text : String} {decision : Decision}
    (h : finalDecision text = some decision) : decision.value = text := by
  unfold finalDecision at h
  split at h <;> first | (obtain rfl := Option.some.inj h; rfl) | cases h

theorem finalDecision_of_mem {text : String} (h : Tla.Value.str text ∈ Tla.finalDecisions) :
    ∃ decision, finalDecision text = some decision := by
  simp only [Tla.finalDecisions, List.mem_cons, Tla.Value.str.injEq, List.not_mem_nil, or_false] at h
  rcases h with rfl | rfl | rfl | rfl
  · exact ⟨.allow, rfl⟩
  · exact ⟨.sandbox, rfl⟩
  · exact ⟨.escalate, rfl⟩
  · exact ⟨.deny, rfl⟩

/-- An event is accepted exactly where the module has a step for it, to the same state. -/
theorem Shape.applyEvent_iff (h : s.Shape) (raw : RawEvent) {t : Tla.State} :
    (∃ a, raw.act = some a ∧ a.step s.tla t) ↔ ∃ s', s.applyEvent raw = .ok s' ∧ t = s'.tla := by
  -- the two sides for one transition
  have hstep : ∀ event : TraceEvent, event.secure = true →
      ((∃ a, some event.act = some a ∧ a.step s.tla t) ↔
        ∃ s', s.applyTransition event = .ok s' ∧ t = s'.tla) := by
    intro event hsecure
    simp only [Option.some.injEq, exists_eq_left']
    rw [step_iff hsecure]
    constructor
    · rintro ⟨hguard, rfl⟩
      exact ⟨_, h.applyTransition_eq_ok.2 ⟨hsecure, hguard, rfl⟩, rfl⟩
    · rintro ⟨s', hok, rfl⟩
      obtain ⟨-, hguard, rfl⟩ := h.applyTransition_eq_ok.1 hok
      exact ⟨hguard, rfl⟩
  unfold RawEvent.act applyEvent
  generalize raw.transition = name
  split
  · -- `Evaluate`, with a decision or with something else
    rcases hfinal : finalDecision (raw.str "decision") with _ | decision
    · constructor
      · rintro ⟨_, ⟨⟩, hstep⟩
        obtain ⟨decision, hdecision⟩ := finalDecision_of_mem hstep.2.1
        rw [hfinal] at hdecision
        cases hdecision
      · rintro ⟨s', hok, -⟩
        obtain ⟨_, -, hok⟩ := bind_eq_ok.1 hok
        cases hok
    · rw [← value_finalDecision hfinal]
      refine (hstep (.evaluate decision) rfl).trans ⟨?_, ?_⟩
      · rintro ⟨s', hok, rfl⟩
        have hguard := (h.applyTransition_eq_ok.1 hok).2.1
        have hphase : ¬ s.phase ≠ .start := by
          simpa [BullTraceState.transition] using hguard
        exact ⟨s', bind_eq_ok.2 ⟨(), raiseIf_eq_ok.2 hphase, hok⟩, rfl⟩
      · rintro ⟨s', hok, rfl⟩
        obtain ⟨_, -, hok⟩ := bind_eq_ok.1 hok
        exact ⟨s', hok, rfl⟩
  · exact hstep .scanClean rfl
  · exact hstep .scanMalware rfl
  · exact hstep .blockMalware rfl
  · rcases hsecure : raw.truthy "sandboxed" && raw.truthy "seccomp" with _ | _
    · -- an unconfined workload fails `validate_invariants`
      refine ⟨by rintro ⟨a, ⟨⟩, -⟩, ?_⟩
      rintro ⟨s', hok, -⟩
      have hcontra : (raw.truthy "sandboxed" && raw.truthy "seccomp") = true :=
        (h.applyTransition_eq_ok.1 hok).1
      rw [hsecure] at hcontra
      cases hcontra
    · exact hstep (.execute (raw.truthy "sandboxed") (raw.truthy "seccomp")) hsecure
  · exact hstep .resolveDeny rfl
  · exact hstep .resolveEscalate rfl
  · exact hstep .grantChildCapability rfl
  · exact hstep .grantSecret rfl
  · exact hstep .returnSecret rfl
  · exact hstep .grantBroker rfl
  · exact hstep .brokerEgress rfl
  · -- a name that is no transition
    exact ⟨by rintro ⟨a, ⟨⟩, -⟩, by rintro ⟨s', ⟨⟩, -⟩⟩

theorem Shape.applyTransition (h : s.Shape) (hok : s.applyTransition event = .ok s') : s'.Shape := by
  obtain ⟨hsecure, hguard, rfl⟩ := h.applyTransition_eq_ok.1 hok
  exact h.transition hguard hsecure

theorem Shape.applyEvent (h : s.Shape) {raw : RawEvent} (hok : s.applyEvent raw = .ok s') :
    s'.Shape := by
  unfold BullTraceState.applyEvent at hok
  split at hok
  · obtain ⟨_, -, hok⟩ := bind_eq_ok.1 hok
    obtain ⟨_, -, hok⟩ := bind_eq_ok.1 hok
    exact h.applyTransition hok
  all_goals first | exact h.applyTransition hok | cases hok

/-- The invariants of the module hold of every state of this shape. -/
theorem Shape.invariants (h : s.Shape) : Tla.Invariants s.tla := by
  have hexecuted : s.tla .executed = .bool true → s.phase = .executed ∧ s.executable = true ∧
      s.scanned = true ∧ s.malwareClean = true ∧ s.sandboxed = true ∧ s.seccomp = true :=
    fun he => h.executed (tla_bool.1 he)
  have hnot : ∀ {d : Decision}, s.decision = some d → d ≠ .allow → d ≠ .sandbox →
      s.tla .executed = .bool false := by
    intro d hd hallow hsandbox
    rcases he : s.executed with _ | _
    · exact congrArg Tla.Value.bool he
    · have hexecutable := (h.executed he).2.1
      unfold executable at hexecutable
      simp [hd, hallow, hsandbox] at hexecutable
  constructor
  · refine ⟨?_, ?_, ?_⟩
    · change Tla.Value.str s.phase.value ∈ _
      cases s.phase <;> decide
    · change Tla.Value.str (match s.decision with
        | some decision => decision.value
        | none => "PENDING") ∈ _
      rcases s.decision with _ | d
      · decide
      · cases d <;> decide
    · intro v hphase hdecision
      have hbool : ∀ b : Bool, Tla.Value.bool b ∈ Tla.booleans := by decide
      cases v <;> first | exact hbool _ | exact absurd rfl hphase | exact absurd rfl hdecision
  · intro hdeny
    have hdecision : s.decision = some .deny := tla_decision.1 hdeny
    exact hnot hdecision (by decide) (by decide)
  · intro hescalate
    have hdecision : s.decision = some .escalate := tla_decision.1 hescalate
    exact hnot hdecision (by decide) (by decide)
  · intro he
    exact tla_executable.2 (hexecuted he).2.1
  · intro he
    exact ⟨tla_bool.2 (hexecuted he).2.2.1, tla_bool.2 (hexecuted he).2.2.2.1⟩
  · intro he
    exact tla_bool.2 (hexecuted he).2.2.2.2.1
  · intro he
    exact tla_bool.2 (hexecuted he).2.2.2.2.2
  · rintro ⟨-, hclean⟩
    rcases he : s.executed with _ | _
    · exact congrArg Tla.Value.bool he
    · exact absurd ((tla_bool.1 hclean).symm.trans (h.executed he).2.2.2.1) (by decide)
  · intro hchild
    exact tla_bool.2 (h.child (tla_bool.1 hchild))
  · intro hsecret
    exact tla_bool.2 (h.secret (tla_bool.1 hsecret))
  · intro hegress
    exact tla_bool.2 (h.egress (tla_bool.1 hegress))
  · exact congrArg Tla.Value.bool h.network
  · intro hreview
    obtain ⟨hdecision, hrequired⟩ := h.review (tla_phase.1 hreview)
    exact ⟨tla_decision.2 hdecision, congrArg Tla.Value.bool hrequired⟩

/-! ## Runs -/

theorem verifyEvents_cons {raw : RawEvent} {raws : List RawEvent} {index : ℕ} :
    s.verifyEvents index (raw :: raws) = .ok s' ↔
      ∃ next, s.applyEvent raw = .ok next ∧ next.verifyEvents (index + 1) raws = .ok s' := by
  rw [verifyEvents]
  rcases s.applyEvent raw with e | next
  · refine ⟨fun hok => ?_, by rintro ⟨next, ⟨⟩, -⟩⟩
    cases e <;> cases hok
  · refine ⟨fun hok => ⟨next, rfl, hok⟩, ?_⟩
    rintro ⟨_, ⟨⟩, hok⟩
    exact hok

/-- The events are accepted exactly where there is a behaviour. -/
theorem Shape.verifyEvents_iff (h : s.Shape) (raws : List RawEvent) (index : ℕ) :
    (∃ final, s.verifyEvents index raws = .ok final) ↔ ∃ states, Tla.Behaviour s.tla raws states := by
  induction raws generalizing s index with
  | nil => exact ⟨fun _ => ⟨[], trivial⟩, fun _ => ⟨s, rfl⟩⟩
  | cons raw raws ih =>
    constructor
    · rintro ⟨final, hok⟩
      obtain ⟨next, hnext, hok⟩ := verifyEvents_cons.1 hok
      obtain ⟨states, hstates⟩ := (ih (h.applyEvent hnext) (index + 1)).1 ⟨final, hok⟩
      exact ⟨next.tla :: states, (h.applyEvent_iff raw).2 ⟨next, hnext, rfl⟩, hstates⟩
    · rintro ⟨_ | ⟨t, states⟩, hstates⟩
      · cases hstates
      · obtain ⟨hstep, hstates⟩ := hstates
        obtain ⟨next, hnext, rfl⟩ := (h.applyEvent_iff raw).1 hstep
        obtain ⟨final, hok⟩ := (ih (h.applyEvent hnext) (index + 1)).2 ⟨states, hstates⟩
        exact ⟨final, verifyEvents_cons.2 ⟨next, hnext, hok⟩⟩

/-- The states of a behaviour are the ones that the verifier goes through. -/
theorem Shape.behaviour_states (h : s.Shape) {raws : List RawEvent} {states : List Tla.State}
    (hb : Tla.Behaviour s.tla raws states) (index : ℕ) :
    states.length = raws.length ∧ ∀ k ≤ raws.length, ∃ state, state.Shape ∧
      s.verifyEvents index (raws.take k) = .ok state ∧ (s.tla :: states)[k]? = some state.tla := by
  induction raws generalizing s index states with
  | nil =>
    rcases states with _ | ⟨t, states⟩
    · refine ⟨rfl, fun k hk => ?_⟩
      obtain rfl := Nat.le_zero.1 hk
      exact ⟨s, h, rfl, rfl⟩
    · cases hb
  | cons raw raws ih =>
    rcases states with _ | ⟨t, states⟩
    · cases hb
    obtain ⟨hstep, hb⟩ := hb
    obtain ⟨next, hnext, rfl⟩ := (h.applyEvent_iff raw).1 hstep
    obtain ⟨hlength, hstates⟩ := ih (h.applyEvent hnext) hb (index + 1)
    refine ⟨congrArg (· + 1) hlength, fun k hk => ?_⟩
    rcases k with _ | k
    · exact ⟨s, h, rfl, rfl⟩
    · obtain ⟨state, hshape, hok, hget⟩ := hstates k (Nat.le_of_succ_le_succ hk)
      exact ⟨state, hshape, verifyEvents_cons.2 ⟨next, hnext, hok⟩, hget⟩

theorem init_iff {t : Tla.State} (b : Bool) :
    Tla.Init t ∧ t .parentHasCapability = .bool b ↔
      t = BullTraceState.tla { parentHasCapability := b } := by
  constructor
  · rintro ⟨⟨h1, h2, h3, h4, h5, h6, h7, h8, -, h10, h11, h12, h13, h14, h15⟩, hparent⟩
    funext v
    cases v <;> assumption
  · rintro rfl
    refine ⟨⟨rfl, rfl, rfl, rfl, rfl, rfl, rfl, rfl, ?_, rfl, rfl, rfl, rfl, rfl, rfl⟩, rfl⟩
    change Tla.Value.bool b ∈ _
    cases b <;> decide

theorem verifyTrace_initial (b : Bool) (raws : List RawEvent) :
    verifyTrace { parentHasCapability := b } raws =
      verifyEvents { parentHasCapability := b } 0 raws := by
  rw [verifyTrace, (Shape.initial b).validateInvariants]
  rfl

/-- `verify_trace` accepts the events exactly where the TLA+ module has a behaviour with these actions
from its initial state. The states correspond at every event, and the invariants of the module hold in
each of them. -/
theorem verifyTrace_refines (b : Bool) (events : List RawEvent) :
    ((∃ final, verifyTrace { parentHasCapability := b } events = .ok final) ↔
      ∃ s states, Tla.Init s ∧ s .parentHasCapability = .bool b ∧ Tla.Behaviour s events states) ∧
    ∀ s states, Tla.Init s → s .parentHasCapability = .bool b → Tla.Behaviour s events states →
      states.length = events.length ∧
      (∀ k ≤ events.length, ∃ state,
        verifyTrace { parentHasCapability := b } (events.take k) = .ok state ∧
          (s :: states)[k]? = some state.tla) ∧
      ∀ t ∈ s :: states, Tla.Invariants t := by
  have hshape := Shape.initial b
  constructor
  · rw [verifyTrace_initial, hshape.verifyEvents_iff]
    constructor
    · rintro ⟨states, hb⟩
      obtain ⟨hinit, hparent⟩ := (init_iff b).2 rfl
      exact ⟨_, states, hinit, hparent, hb⟩
    · rintro ⟨s, states, hinit, hparent, hb⟩
      obtain rfl := (init_iff b).1 ⟨hinit, hparent⟩
      exact ⟨states, hb⟩
  · intro s states hinit hparent hb
    obtain rfl := (init_iff b).1 ⟨hinit, hparent⟩
    obtain ⟨hlength, hstates⟩ := hshape.behaviour_states hb 0
    refine ⟨hlength, fun k hk => ?_, fun t ht => ?_⟩
    · obtain ⟨state, -, hok, hget⟩ := hstates k hk
      rw [verifyTrace_initial]
      exact ⟨state, hok, hget⟩
    · obtain ⟨k, hk⟩ := List.mem_iff_getElem?.1 ht
      have hle : k ≤ events.length := by
        have hlt := (List.getElem?_eq_some_iff.1 hk).1
        rw [List.length_cons, hlength] at hlt
        omega
      obtain ⟨state, hstate, -, hget⟩ := hstates k hle
      obtain rfl := Option.some.inj (hk.symm.trans hget)
      exact hstate.invariants

end BullTraceState

end Bulldog
