import Bulldog.Dispatch.Dispatcher
import Bulldog.Trace.Refinement

/-!
# The runtime keeps to its trace

`execute` has many exits, and each of them emits its own events. All of these are paths of the model
behind `verify_trace`: no event is refused, and the events that were recorded replay to the state in
the result, whatever the call before has left in the verifier.
-/

namespace Bulldog

/-- The event as `emit` builds it. -/
def TraceEvent.raw : TraceEvent → RawEvent
  | .evaluate decision => ⟨"Evaluate", [("decision", ⟨decision.value, true⟩)]⟩
  | .scanClean => ⟨"ScanClean", []⟩
  | .scanMalware => ⟨"ScanMalware", []⟩
  | .blockMalware => ⟨"BlockMalware", []⟩
  | .execute sandboxed seccomp =>
    ⟨"Execute", [("sandboxed", ⟨toString sandboxed, sandboxed⟩),
      ("seccomp", ⟨toString seccomp, seccomp⟩)]⟩
  | .resolveDeny => ⟨"ResolveDeny", []⟩
  | .resolveEscalate => ⟨"ResolveEscalate", []⟩
  | .grantChildCapability => ⟨"GrantChildCapability", []⟩
  | .grantSecret => ⟨"GrantSecret", []⟩
  | .returnSecret => ⟨"ReturnSecret", []⟩
  | .grantBroker => ⟨"GrantBroker", []⟩
  | .brokerEgress => ⟨"BrokerEgress", []⟩

namespace BullTraceState

variable {s s' : BullTraceState} {event : TraceEvent}

theorem finalDecision_value (decision : Decision) : finalDecision decision.value = some decision := by
  cases decision <;> rfl

theorem Shape.applyEvent_raw (h : s.Shape) (hok : s.applyTransition event = .ok s') :
    s.applyEvent event.raw = .ok s' := by
  cases event with
  | evaluate decision =>
    have hguard := (h.applyTransition_eq_ok.1 hok).2.1
    have hphase : ¬ s.phase ≠ .start := by
      simpa [BullTraceState.transition] using hguard
    refine bind_eq_ok.2 ⟨(), raiseIf_eq_ok.2 hphase, bind_eq_ok.2 ⟨decision, ?_, hok⟩⟩
    exact orRaise_eq_ok.2 (finalDecision_value decision)
  | _ => exact hok

theorem verifyEvents_concat {raws : List RawEvent} {raw : RawEvent} {next : BullTraceState}
    (hok : s.verifyEvents index raws = .ok s') (hraw : s'.applyEvent raw = .ok next) :
    s.verifyEvents index (raws ++ [raw]) = .ok next := by
  induction raws generalizing s index with
  | nil =>
    obtain rfl := Except.ok.inj hok
    exact verifyEvents_cons.2 ⟨next, hraw, rfl⟩
  | cons r raws ih =>
    obtain ⟨s₁, hs₁, hok⟩ := verifyEvents_cons.1 hok
    exact verifyEvents_cons.2 ⟨s₁, hs₁, ih hok⟩

end BullTraceState

namespace Dispatch

open BullTraceState

/-- What the rest of the host raises. -/
inductive Env.Raises (env : Env) (e : Exc) : Prop
  | advise {action : ActionRequest} (h : env.advise action = .error e)
  | append {action : ActionRequest} {evaluation : Evaluation}
      (h : env.append action evaluation = .error e)
  | resolve {path : Str} (h : env.resolve path = .error e)
  | createSnapshot {root : Str} (h : env.createSnapshot root = .error e)
  | buildManifest {root : Str} (h : env.buildManifest root = .error e)
  | hashTree {root : Str} (h : env.hashTree root = .error e)
  | sandboxRun {argv : List Str} {root : Str} (h : env.sandboxRun argv root = .error e)
  | destroySnapshot {snapshot : Snapshot} (h : env.destroySnapshot snapshot = .error e)

/-- The calls of `sandbox.run`. -/
def World.sandboxRuns (w : World) : ℕ :=
  w.log.countP fun
    | .sandboxRun _ _ => true
    | _ => false

/-- In the middle of a call: the trace is in this state, and its events replay to it. -/
structure Traced (b : Bool) (runs : ℕ) (s : BullTraceState) (w : World) : Prop where
  state : w.trace.state = s
  shape : s.Shape
  replay : verifyTrace { parentHasCapability := b } (w.trace.events.map TraceEvent.raw) = .ok s
  runs : w.sandboxRuns = runs

/-- What holds of a result: it agrees with the trace. -/
structure Conforms (b : Bool) (runs : ℕ) (result : ExecutionResult) (w : World) : Prop where
  replay : verifyTrace { parentHasCapability := b } (w.trace.events.map TraceEvent.raw) =
    .ok result.traceState
  executed : result.executed = result.traceState.executed
  review : result.reviewRequired = result.traceState.reviewRequired
  clean : result.executed = true → result.malwareClean = some true
  sandbox : w.sandboxRuns = runs + if result.executed then 1 else 0

/-- Only the host raises a `TraceViolation`. -/
def Blameless (env : Env) (e : Exc) : Prop := e.cls = .traceViolation → env.Raises e

/-! ## Rules -/

variable {b : Bool} {n : ℕ} {s : BullTraceState} {w : World} {env : Env} {event : TraceEvent}

theorem wp_emit {Q : Unit → World → Prop} {E : Exc → World → Prop} (h : Traced b n s w)
    (hguard : (s.transition event).1 = true) (hsecure : event.secure = true)
    (hQ : ∀ w', Traced b n (s.transition event).2.2 w' → Q () w') : (emit event).wp Q E w := by
  have hok : w.trace.state.applyTransition event = .ok (s.transition event).2.2 := by
    rw [h.state]
    exact h.shape.applyTransition_eq_ok.2 ⟨hsecure, hguard, rfl⟩
  unfold emit RuntimeTraceVerifier.emit
  simp only [Action.wp_zoom, Action.wp_bind, Action.wp_read, Action.wp_update]
  refine Action.wp_lift_of_ok hok (hQ _ ⟨rfl, h.shape.transition hguard hsecure, ?_, h.runs⟩)
  have hreplay := h.replay
  rw [verifyTrace_initial] at hreplay ⊢
  rw [List.map_append]
  rw [h.state] at hok
  exact verifyEvents_concat hreplay (h.shape.applyEvent_raw hok)

theorem wp_traceState {Q : BullTraceState → World → Prop} {E : Exc → World → Prop} :
    traceState.wp Q E w ↔ Q w.trace.state w := Iff.rfl

/-- An entry of the log that is no call of the sandbox. -/
theorem Traced.record (h : Traced b n s w) (entry : LogEntry)
    (hentry : ∀ argv root, entry ≠ .sandboxRun argv root) :
    Traced b n s { w with log := w.log ++ [entry] } := by
  refine ⟨h.state, h.shape, h.replay, ?_⟩
  rw [← h.runs, World.sandboxRuns, World.sandboxRuns, List.countP_append]
  cases entry with
  | sandboxRun argv root => exact absurd rfl (hentry argv root)
  | _ => rfl

/-- A refusal in a state without an execution. -/
theorem Traced.refused (h : Traced b n s w) (hexecuted : s.executed = false) {result : ExecutionResult}
    (hresult : result.executed = false) (hstate : result.traceState = s)
    (hreview : result.reviewRequired = s.reviewRequired) : Conforms b n result w := by
  refine ⟨?_, ?_, ?_, ?_, ?_⟩
  · rw [hstate]
    exact h.replay
  · rw [hstate, hresult, hexecuted]
  · rw [hstate, hreview]
  · rw [hresult]
    nofun
  · rw [hresult]
    exact h.runs

/-! ## The exits of a call -/

/-- The state after `Evaluate`. -/
def evaluated (b : Bool) (decision : Decision) : BullTraceState :=
  { phase := .evaluated, decision := some decision, parentHasCapability := b }

variable {rt : BulldogRuntime} {evaluation : Evaluation} {action : ActionRequest}
  {command : List Str} {projectRoot : Str} {decision : Decision}

theorem wp_denyBinding (h : Traced b n { parentHasCapability := b } w) (reason : String) :
    (BulldogRuntime.denyBinding env action reason).wp (Conforms b n) (fun e _ => Blameless env e)
      w := by
  unfold BulldogRuntime.denyBinding
  simp only [Action.wp_bind, Action.wp_pure, wp_traceState]
  refine wp_emit h rfl rfl fun w₁ h₁ => ?_
  refine wp_emit h₁ rfl rfl fun w₂ h₂ => ?_
  refine (Action.wp_lift _).2 ⟨fun _ _ => ?_, fun e he _ => .append he⟩
  exact h₂.refused rfl rfl h₂.state rfl

theorem wp_blockMalware (h : Traced b n (evaluated b decision) w)
    (hdecision : (evaluated b decision).executable = true) (stderr : String) (performed : Bool)
    (clean : Option Bool) (detections : List Str) :
    (BulldogRuntime.blockMalware evaluation stderr performed clean detections).wp (Conforms b n)
      (fun e _ => Blameless env e) w := by
  unfold BulldogRuntime.blockMalware
  simp only [Action.wp_bind, Action.wp_pure, wp_traceState]
  refine wp_emit h (by rw [BullTraceState.transition, hdecision]; rfl) rfl fun w₁ h₁ => ?_
  refine wp_emit h₁ rfl rfl fun w₂ h₂ => ?_
  exact h₂.refused rfl rfl h₂.state rfl

theorem wp_runSandbox
    (h : Traced b n { evaluated b decision with phase := .scanned, scanned := true, malwareClean := true }
      w) (hdecision : (evaluated b decision).executable = true) (root : Str) :
    (BulldogRuntime.runSandbox env evaluation command root).wp (Conforms b n)
      (fun e _ => Blameless env e) w := by
  unfold BulldogRuntime.runSandbox
  simp only [Action.wp_bind, Action.wp_pure, wp_traceState, wp_record]
  have hrun : Traced b (n + 1)
      { evaluated b decision with phase := .scanned, scanned := true, malwareClean := true }
      { w with log := w.log ++ [.sandboxRun command root] } := by
    refine ⟨h.state, h.shape, h.replay, ?_⟩
    rw [← h.runs, World.sandboxRuns, World.sandboxRuns, List.countP_append]
    rfl
  refine (Action.wp_lift _).2 ⟨fun result _ => ?_, fun e he _ => .sandboxRun he⟩
  refine wp_emit hrun ?_ rfl fun w₂ h₂ => ?_
  · have hexecutable : BullTraceState.executable
        { evaluated b decision with phase := .scanned, scanned := true, malwareClean := true } =
          true := hdecision
    rw [BullTraceState.transition, hexecutable]
    rfl
  · refine ⟨?_, ?_, ?_, fun _ => rfl, h₂.runs⟩
    · exact h₂.replay.trans (congrArg Except.ok h₂.state.symm)
    · exact (congrArg BullTraceState.executed h₂.state).symm
    · exact (congrArg BullTraceState.reviewRequired h₂.state).symm

theorem wp_runScanned (h : Traced b n (evaluated b decision) w)
    (hdecision : (evaluated b decision).executable = true) (snapshot : Snapshot) :
    (BulldogRuntime.runScanned env evaluation command snapshot).wp (Conforms b n)
      (fun e _ => Blameless env e) w := by
  unfold BulldogRuntime.runScanned
  simp only [Action.wp_bind, wp_record]
  refine wp_emit h (by rw [BullTraceState.transition, hdecision]; rfl) rfl fun w₁ h₁ => ?_
  refine (Action.wp_lift _).2 ⟨fun hash _ => ?_, fun e he _ => .hashTree he⟩
  have h₂ := h₁.record (.hashTree snapshot.snapshotRoot hash) fun _ _ h => by cases h
  split_ifs
  · exact h₂.refused rfl rfl h₂.state rfl
  · exact wp_runSandbox h₂ hdecision snapshot.snapshotRoot

theorem wp_runAdmitted (h : Traced b n (evaluated b decision) w)
    (hdecision : (evaluated b decision).executable = true) (snapshot : Snapshot) :
    (rt.runAdmitted env evaluation command snapshot).wp (Conforms b n) (fun e _ => Blameless env e)
      w := by
  unfold BulldogRuntime.runAdmitted
  split_ifs
  · exact fun h => by cases h
  · exact wp_blockMalware h hdecision _ _ _ _
  · split
    · exact wp_blockMalware h hdecision _ _ _ _
    · next scan _ =>
      simp only [Action.wp_bind, wp_record]
      have h₁ := h.record (.scan snapshot.snapshotRoot scan) fun _ _ h => by cases h
      split_ifs
      · exact wp_blockMalware h₁ hdecision _ _ _ _
      · exact wp_runScanned h₁ hdecision snapshot

theorem wp_runSnapshot (h : Traced b n (evaluated b decision) w)
    (hdecision : (evaluated b decision).executable = true) (snapshot : Snapshot) :
    (rt.runSnapshot env evaluation command snapshot).wp (Conforms b n) (fun e _ => Blameless env e)
      w := by
  unfold BulldogRuntime.runSnapshot
  split
  · next e he =>
    split_ifs
    · exact h.refused rfl rfl h.state rfl
    · exact fun _ => .buildManifest he
  · simp only [Action.wp_bind, wp_record]
    have h₁ := h.record (.manifest snapshot.snapshotRoot) fun _ _ h => by cases h
    exact wp_runAdmitted h₁ hdecision snapshot

theorem wp_runApproved (h : Traced b n (evaluated b decision) w)
    (hdecision : (evaluated b decision).executable = true) :
    (rt.runApproved env evaluation command projectRoot).wp (Conforms b n)
      (fun e _ => Blameless env e) w := by
  unfold BulldogRuntime.runApproved
  simp only [Action.wp_bind]
  refine (Action.wp_lift _).2 ⟨fun root _ => ?_, fun e he _ => .resolve he⟩
  split
  · next e he =>
    split_ifs
    · exact h.refused rfl rfl h.state rfl
    · exact fun _ => .createSnapshot he
  · next snapshot _ =>
    simp only [Action.wp_bind, wp_record, Action.wp_ensuring]
    have h₁ := h.record (.snapshot snapshot) fun _ _ h => by cases h
    refine Action.wp_mono (wp_runSnapshot h₁ hdecision snapshot)
      (fun result w' hconforms => ?_) fun e w' hblameless => ?_
    · exact (Action.wp_lift _).2 ⟨fun _ _ => hconforms, fun e he _ => .destroySnapshot he⟩
    · exact (Action.wp_lift _).2 ⟨fun _ _ => hblameless, fun e he _ => .destroySnapshot he⟩

theorem wp_engineEvaluate (engine : BulldogEngine) (history : History) :
    (engine.evaluate env.advise env.append action).wp (fun _ _ => True) (fun e _ => env.Raises e)
      history := by
  unfold BulldogEngine.evaluate
  simp only [Action.wp_bind, Action.wp_read, Action.wp_update, Action.wp_pure]
  refine (Action.wp_lift _).2 ⟨fun advisory _ => ?_, fun e he => ?_⟩
  · exact (Action.wp_lift _).2 ⟨fun _ _ => trivial, fun e he => .append he⟩
  · unfold BulldogEngine.advisoryFor at he
    split_ifs at he
    exact .advise he

/-- The engine leaves the trace alone. -/
theorem wp_evaluate_traced (h : Traced b n s w) (engine : BulldogEngine) :
    (BulldogRuntime.evaluate env engine action).wp (fun _ w' => Traced b n s w')
      (fun e _ => Blameless env e) w := by
  unfold BulldogRuntime.evaluate
  simp only [Action.wp_bind, Action.wp_zoom, wp_record, Action.wp_pure]
  refine Action.wp_mono (wp_engineEvaluate engine w.history) (fun evaluation history _ => ?_)
    fun e _ hraises _ => hraises
  have hzoomed : Traced b n s { w with history := history } := ⟨h.state, h.shape, h.replay, h.runs⟩
  exact hzoomed.record (.evaluated action evaluation) fun _ _ h => by cases h

theorem wp_executeVerdict (h : Traced b n { parentHasCapability := b } w) :
    (rt.executeVerdict env evaluation command projectRoot).wp (Conforms b n)
      (fun e _ => Blameless env e) w := by
  unfold BulldogRuntime.executeVerdict
  simp only [Action.wp_bind]
  refine wp_emit h rfl rfl fun w₁ h₁ => ?_
  have h₁ : Traced b n (evaluated b evaluation.decision) w₁ := h₁
  split
  · next hdeny =>
    rw [hdeny] at h₁
    simp only [Action.wp_bind, Action.wp_pure, wp_traceState]
    refine wp_emit h₁ rfl rfl fun w₂ h₂ => ?_
    exact h₂.refused rfl rfl h₂.state rfl
  · next hescalate =>
    rw [hescalate] at h₁
    simp only [Action.wp_bind, Action.wp_pure, wp_traceState]
    refine wp_emit h₁ rfl rfl fun w₂ h₂ => ?_
    exact h₂.refused rfl rfl h₂.state rfl
  · next hallow =>
    rw [hallow] at h₁
    exact wp_runApproved h₁ rfl
  · next hsandbox =>
    rw [hsandbox] at h₁
    exact wp_runApproved h₁ rfl

theorem wp_resetTrace {Q : Unit → World → Prop} {E : Exc → World → Prop} (b : Bool) (w : World)
    (hQ : ∀ w', Traced b w.sandboxRuns { parentHasCapability := b } w' → Q () w') :
    (resetTrace b).wp Q E w := by
  unfold resetTrace RuntimeTraceVerifier.reset
  simp only [Action.wp_zoom, Action.wp_update]
  refine hQ _ ⟨rfl, .initial b, ?_, rfl⟩
  rw [verifyTrace_initial]
  rfl

/-- Every call of `execute` conforms. -/
theorem wp_execute (rt : BulldogRuntime) (env : Env) (action : ActionRequest) (command : List Str)
    (projectRoot : Str) (w : World) :
    (rt.execute env action command projectRoot).wp
      (Conforms (BulldogRuntime.parentHas action) w.sandboxRuns) (fun e _ => Blameless env e) w := by
  unfold BulldogRuntime.execute
  simp only [Action.wp_bind]
  refine wp_resetTrace _ w fun w₁ h₁ => ?_
  split
  · exact wp_denyBinding h₁ _
  · simp only [Action.wp_bind]
    exact Action.wp_mono (wp_evaluate_traced h₁ rt.engine) (fun evaluation w₂ h₂ => wp_executeVerdict h₂)
      fun _ _ hblameless => hblameless

/-- `ProductionRuntime.execute` with whatever object is given as the permit. -/
def productionExecuteWith (rt : BulldogRuntime) (key : Bytes) (env : Env) (action : ActionRequest)
    (command : List Str) (projectRoot : Str) :
    Option ExecutionPermit → Action World Exc ExecutionResult
  | some permit => productionExecute rt key env action command projectRoot permit
  | none => do
    resetTrace (BulldogRuntime.parentHas action)
    BulldogRuntime.denyBinding env action
      "production runtime requires a dispatcher-minted execution permit"

theorem wp_productionExecute (rt : BulldogRuntime) (key : Bytes) (env : Env) (action : ActionRequest)
    (command : List Str) (projectRoot : Str) (permit : Option ExecutionPermit) (w : World) :
    (productionExecuteWith rt key env action command projectRoot permit).wp
      (Conforms (BulldogRuntime.parentHas action) w.sandboxRuns) (fun e _ => Blameless env e) w := by
  have hdeny : Action.wp (do
      resetTrace (BulldogRuntime.parentHas action)
      BulldogRuntime.denyBinding env action
        "production runtime requires a dispatcher-minted execution permit")
      (Conforms (BulldogRuntime.parentHas action) w.sandboxRuns) (fun e _ => Blameless env e) w := by
    simp only [Action.wp_bind]
    exact wp_resetTrace _ w fun w₁ h₁ => wp_denyBinding h₁ _
  cases permit with
  | none => exact hdeny
  | some permit =>
    change (productionExecute rt key env action command projectRoot permit).wp _ _ w
    unfold productionExecute
    split_ifs
    · exact hdeny
    · exact wp_execute rt env action command projectRoot w

/-- A call that keeps to its trace: a `TraceViolation` can only come from the host, and a result agrees
with the trace that the events replay to, and with what the sandbox was asked for. -/
def KeepsTrace (env : Env) (action : ActionRequest) (m : Action World Exc ExecutionResult)
    (w : World) : Prop :=
  (∀ e, (m w).1 = .error e → e.cls = .traceViolation → env.Raises e) ∧
    ∀ result, (m w).1 = .ok result →
      verifyTrace { parentHasCapability := BulldogRuntime.parentHas action }
          ((m w).2.trace.events.map TraceEvent.raw) = .ok result.traceState ∧
        result.executed = result.traceState.executed ∧
        result.reviewRequired = result.traceState.reviewRequired ∧
        (result.executed = true → result.malwareClean = some true) ∧
        (m w).2.sandboxRuns = w.sandboxRuns + if result.executed then 1 else 0

theorem keepsTrace_of_wp {m : Action World Exc ExecutionResult}
    (h : m.wp (Conforms (BulldogRuntime.parentHas action) w.sandboxRuns)
      (fun e _ => Blameless env e) w) : KeepsTrace env action m w := by
  unfold Action.wp at h
  constructor
  · intro e he
    split at h
    · next heq =>
      rw [heq] at he
      cases he
    · next heq =>
      rw [heq] at he
      obtain rfl := Except.error.inj he
      exact h
  · intro result hok
    split at h
    · next heq =>
      rw [heq] at hok ⊢
      obtain rfl := Except.ok.inj hok
      exact ⟨h.replay, h.executed, h.review, h.clean, h.sandbox⟩
    · next heq =>
      rw [heq] at hok
      cases hok

/-- Whatever state the verifier is in and whatever the host answers, both runtimes keep to their
trace. -/
theorem runtime_conforms (rt : BulldogRuntime) (key : Bytes) (env : Env) (action : ActionRequest)
    (command : List Str) (projectRoot : Str) (permit : Option ExecutionPermit) (w : World) :
    KeepsTrace env action (rt.execute env action command projectRoot) w ∧
      KeepsTrace env action
        (productionExecuteWith rt key env action command projectRoot permit) w :=
  ⟨keepsTrace_of_wp (wp_execute rt env action command projectRoot w),
    keepsTrace_of_wp (wp_productionExecute rt key env action command projectRoot permit w)⟩

end Dispatch

end Bulldog
