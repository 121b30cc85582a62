import Bulldog.Lib.Action
import Bulldog.MultiAgent.Agents

/-!
# The pipeline

`MultiAgentSystem.run` of `multiagent/system.py`: the coordinator makes a plan, and for each step the
policy agent, the executor, the agents with the audit capability and the verifier are asked in turn.
The report looks at the verdict of the policy agent, at the success of the executor and at the verdict
of the verifier. Of the audit results it keeps the findings only.
-/

namespace Bulldog.MultiAgent

/-- What `bus.deliver` raises: a leak that the boundary guard found, or a failed delivery. -/
inductive BusError where
  | leak (finding : Finding)
  | delivery (message : Str)
  deriving DecidableEq

/-- What the bus and its boundary guard do before and after the handler of one delivery. -/
structure Crossing where
  before : Except BusError Unit
  after : Except BusError Unit

/-- Nothing is raised. -/
def Crossing.silent : Crossing := ⟨.ok (), .ok ()⟩

variable {ω : Type}

/-- `bus.deliver(envelope)`, with what the handler does to the policy agent. -/
def deliver {β : Type} (crossing : Crossing)
    (handle : PolicyAgent → AgentResult β × PolicyAgent) :
    Action PolicyAgent BusError (AgentResult β) := do
  crossing.before
  let (result, policy) := handle (← .read)
  .update fun _ => policy
  crossing.after
  return result

/-! ## The system -/

/-- A task, as the coordinator reads it. -/
structure Task where
  /-- `str(task)`. -/
  raw : Str
  /-- The actions of `steps`. -/
  steps : List Str
  action : Option Str
  /-- The type of the exception where the steps are malformed. -/
  malformed : Option Str

/-- `MultiAgentSystem`, less its bus and the state of the policy agent. -/
structure MultiAgentSystem (ω : Type) where
  coordinatorId : Str
  executor : ExecutorAgent
  auditorId : Str
  verifierId : Str
  /-- `scan_text(text, agent_id)`. -/
  scanText : Str → Str → List Finding
  /-- `str(output)`. -/
  str : Option ω → Str
  /-- `str(payload)` of the message to the audit agents. -/
  auditText : Str → Str → Str

/-- What the host does in one step. -/
structure StepHost (ω : Type) where
  /-- What `uuid4` gives to the policy agent. -/
  uuid : Str
  /-- What the action returns or raises, if it is called. -/
  outcome : Except Str ω
  /-- The results of the further agents with the audit capability. -/
  further : List (Crossing × AgentResult Unit)
  policy : Crossing
  execution : Crossing
  auditor : Crossing
  verifier : Crossing

/-- `StepReport`. -/
structure StepReport (ω : Type) where
  action : Str
  policyVerdict : Verdict
  executed : Bool
  output : Option ω
  findings : List Finding

/-- The verdicts that the agents gave for a step. -/
structure Signatures where
  policy : Verdict
  executor : Option Verdict
  audits : List Verdict
  verifier : Option Verdict
  deriving DecidableEq

/-- Every agent signed off. -/
def Signatures.AllAllow (s : Signatures) : Prop :=
  s.policy = .allow ∧ s.executor = some .allow ∧ (∀ v ∈ s.audits, v = .allow) ∧
    s.verifier = some .allow

namespace MultiAgentSystem

variable (sys : MultiAgentSystem ω)

/-- `MAX_TASK_CHARS`. -/
def maxTaskChars : ℕ := 131072

/-- `MAX_PLAN_STEPS`. -/
def maxPlanSteps : ℕ := 64

/-- `raw_steps` of the coordinator. -/
def rawSteps (task : Task) : List Str :=
  if task.steps = [] then [task.action.getD "echo".toList] else task.steps

/-- The findings of the coordinator. -/
def taskFindings (task : Task) : List Finding :=
  (if task.raw.length > maxTaskChars then [⟨sys.coordinatorId, .medium, "input.too-large",
    "task payload exceeds 131072 characters".toList, []⟩] else []) ++
  sys.scanText task.raw sys.coordinatorId ++
  (if (rawSteps task).length > maxPlanSteps then [⟨sys.coordinatorId, .medium,
    "input.plan-too-large", "plan has ".toList ++ Nat.toDigits 10 (rawSteps task).length ++
      " steps, limit is 64".toList, []⟩] else [])

/-- `CoordinatorAgent.handle`. -/
def coordinate (task : Task) : AgentResult (List Str) :=
  match task.malformed with
  | some errorType => agentError sys.coordinatorId errorType
  | none => ⟨sys.coordinatorId, true, if sys.taskFindings task = [] then .allow else .deny,
      some ((rawSteps task).take maxPlanSteps), sys.taskFindings task⟩

/-- `AuditorAgent.process`. -/
def audit (action : Str) (output : Option ω) : AgentResult Unit :=
  let findings := sys.scanText (sys.auditText action (sys.str output)) sys.auditorId
  ⟨sys.auditorId, findings = [], if findings = [] then .allow else .deny, some (), findings⟩

/-- `VerifierAgent.process`. -/
def verify (executed : Bool) (output : Option ω) : AgentResult Unit :=
  let findings := sys.scanText (sys.str output) sys.verifierId
  let verified := executed && decide (findings = [])
  ⟨sys.verifierId, verified, if verified then .allow else .deny, some (), findings⟩

/-- `bus.broadcast(envelope, capability="audit")`. -/
def broadcast : List (Crossing × AgentResult Unit) → Action PolicyAgent BusError (List (AgentResult Unit))
  | [] => pure []
  | (crossing, result) :: targets => do
    let result ← deliver crossing fun policy => (result, policy)
    let results ← broadcast targets
    return result :: results

/-- `_run_step(envelope, step_spec)`, with the verdicts that it was given. -/
def runStep (host : StepHost ω) (action : Str) :
    Action PolicyAgent BusError (StepReport ω × Signatures) := do
  let policy ← deliver host.policy fun agent => agent.process action host.uuid
  if policy.verdict ≠ .allow then
    return (⟨action, policy.verdict, false, none, policy.findings⟩, ⟨policy.verdict, none, [], none⟩)
  else do
    let message : ExecuteMessage := ⟨action, policy.output.bind PolicyOutput.token, .ok ()⟩
    let execution ← deliver host.execution fun agent =>
      let (stage, agent) := sys.executor.stage agent message
      (sys.executor.result message host.outcome stage, agent)
    let audits ← broadcast ((host.auditor, sys.audit action execution.output) :: host.further)
    let verification ← deliver host.verifier fun agent =>
      (sys.verify execution.success execution.output, agent)
    let passed : Bool := verification.verdict = .allow
    return (⟨action, policy.verdict, execution.success && passed,
        if passed then execution.output else none,
        policy.findings ++ execution.findings ++ (audits.map AgentResult.findings).flatten ++
          verification.findings⟩,
      ⟨policy.verdict, some execution.verdict, audits.map AgentResult.verdict,
        some verification.verdict⟩)

end MultiAgentSystem

/-- `RunReport`, less the identifiers of the run, with the verdicts that the agents gave. -/
structure RunReport (ω : Type) where
  verdict : Verdict
  steps : List (StepReport ω)
  findings : List Finding
  signed : List Signatures

namespace MultiAgentSystem

variable (sys : MultiAgentSystem ω)

/-- What `run` does with the report of a step. -/
def addStep (report : RunReport ω) (step : StepReport ω × Signatures) : RunReport ω where
  verdict := if step.1.policyVerdict ≠ .allow ∨ step.1.executed = false then .deny else report.verdict
  steps := report.steps ++ [step.1]
  findings := report.findings ++ step.1.findings
  signed := report.signed ++ [step.2]

/-- The loop of `run`: the report, what was raised, and the policy agent. -/
def runSteps : List (Str × StepHost ω) → RunReport ω → PolicyAgent →
    RunReport ω × Option BusError × PolicyAgent
  | [], report, policy => (report, none, policy)
  | (action, host) :: rest, report, policy =>
    match sys.runStep host action policy with
    | (.ok step, policy) => runSteps rest (addStep report step) policy
    | (.error e, policy) => (report, some e, policy)

/-- The report after a leak. -/
def leaked (report : RunReport ω) (finding : Finding) : RunReport ω :=
  { report with
    verdict := .deny
    findings := if report.findings.any fun f => f.code = finding.code && f.detail = finding.detail then
        report.findings
      else report.findings ++ [finding]
    steps := report.steps.map fun step => { step with executed := false, output := none } }

/-- `run(task)`, where the steps of the plan meet these hosts one after another. -/
def run (coordinator : Crossing) (hosts : ℕ → StepHost ω) (task : Task) (policy : PolicyAgent) :
    Except BusError (RunReport ω) :=
  match deliver coordinator (fun policy => (sys.coordinate task, policy)) policy with
  | (.error (.leak finding), _) => .ok (leaked ⟨.allow, [], [], []⟩ finding)
  | (.error e, _) => .error e
  | (.ok planned, policy) =>
    if planned.verdict ≠ .allow then .ok ⟨.deny, [], planned.findings, []⟩
    else
      let plan := planned.output.getD []
      match sys.runSteps ((plan.zipIdx).map fun (action, i) => (action, hosts i))
        ⟨.allow, [], planned.findings, []⟩ policy with
      | (report, none, _) => .ok report
      | (report, some (.leak finding), _) => .ok (leaked report finding)
      | (_, some e, _) => .error e

/-! ## One step -/

variable {sys : MultiAgentSystem ω} {host : StepHost ω} {action : Str} {agent : PolicyAgent}

theorem wp_deliver {β : Type} {crossing : Crossing}
    {handle : PolicyAgent → AgentResult β × PolicyAgent} {Q : AgentResult β → PolicyAgent → Prop}
    {E : BusError → PolicyAgent → Prop} (hE : ∀ e p, crossing ≠ .silent → E e p)
    (hQ : crossing = .silent → Q (handle agent).1 (handle agent).2) :
    (deliver crossing handle).wp Q E agent := by
  obtain ⟨before, after⟩ := crossing
  unfold deliver
  simp only [Action.wp_bind, Action.wp_read, Action.wp_update, Action.wp_pure]
  rcases before with e | _
  · exact hE e agent fun h => by cases h
  · rcases after with e | _
    · exact hE e _ fun h => by cases h
    · exact hQ rfl

/-- The bus is silent in a step. -/
structure Silent (host : StepHost ω) : Prop where
  policy : host.policy = .silent
  execution : host.execution = .silent
  auditor : host.auditor = .silent
  further : ∀ x ∈ host.further, x.1 = .silent
  verifier : host.verifier = .silent

/-- A step that the policy agent, the executor and the verifier let pass. -/
structure Passes (sys : MultiAgentSystem ω) (rules : List PolicyRule) (host : StepHost ω)
    (action : Str) : Prop where
  allowed : PolicyAgent.decide ⟨[], rules, []⟩ action = .allow
  approver : sys.executor.hasApprover = true
  registered : action ∈ sys.executor.actions
  returns : ∃ output, host.outcome = .ok output ∧
    sys.scanText (sys.str (some output)) sys.verifierId = []
  silent : Silent host

/-- The verdicts of the agents with the audit capability. -/
def auditVerdicts (sys : MultiAgentSystem ω) (host : StepHost ω) (action : Str) : List Verdict :=
  (sys.audit action host.outcome.toOption).verdict :: host.further.map fun x => x.2.verdict

theorem wp_broadcast {targets : List (Crossing × AgentResult Unit)}
    {Q : List (AgentResult Unit) → PolicyAgent → Prop} {E : BusError → PolicyAgent → Prop}
    (hE : ∀ e p, (∃ x ∈ targets, x.1 ≠ .silent) → E e p)
    (hQ : (∀ x ∈ targets, x.1 = .silent) → Q (targets.map Prod.snd) agent) :
    (broadcast targets).wp Q E agent := by
  induction targets generalizing Q with
  | nil => exact hQ fun _ h => by cases h
  | cons target targets ih =>
    obtain ⟨crossing, result⟩ := target
    unfold broadcast
    simp only [Action.wp_bind, Action.wp_pure]
    refine wp_deliver (fun e p hnot => hE e p ⟨_, List.mem_cons_self, hnot⟩) fun hsilent => ?_
    refine ih (fun e p hbroken => ?_) fun hrest => hQ fun x hx => ?_
    · obtain ⟨x, hx, hnot⟩ := hbroken
      exact hE e p ⟨x, List.mem_cons_of_mem _ hx, hnot⟩
    · rcases List.mem_cons.1 hx with rfl | hx
      · exact hsilent
      · exact hrest x hx

/-- The token of an `ALLOW` can be used. -/
theorem consume_mint (agent : PolicyAgent) (token action : Str) :
    ∃ tokens, (agent.mint token action).consume (some token) action =
      (true, { agent with tokens := tokens }) := by
  have hlookup : (agent.mint token action).tokens.lookup token = some action := by
    unfold PolicyAgent.mint
    rw [List.lookup_append]
    have hnone : (agent.tokens.filter fun e => decide (e.1 ≠ token)).lookup token = none := by
      rw [List.lookup_eq_none_iff]
      intro e he
      have hne := (List.mem_filter.1 he).2
      exact bne_iff_ne.2 (Ne.symm (of_decide_eq_true hne))
    rw [hnone]
    simp
  unfold PolicyAgent.consume
  simp only [if_pos hlookup]
  exact ⟨_, rfl⟩

/-- How far the executor comes with the token of an `ALLOW`. -/
theorem stage_mint (executor : ExecutorAgent) (agent : PolicyAgent) (token action : Str) :
    ∃ tokens, executor.stage (agent.mint token action) ⟨action, some token, .ok ()⟩ =
      (if executor.hasApprover = true then
        if action ∈ executor.actions then .invoke else .unknownAction
      else .missingApproval, { agent with tokens := tokens }) := by
  unfold ExecutorAgent.stage
  rcases executor.hasApprover with _ | _
  · exact ⟨_, rfl⟩
  · obtain ⟨tokens, hconsume⟩ := consume_mint agent token action
    refine ⟨tokens, ?_⟩
    simp only [if_true, hconsume]
    split_ifs <;> rfl

/-- What the executor answers with the token of an `ALLOW`. -/
theorem result_mint (executor : ExecutorAgent) (outcome : Except Str ω) (message : ExecuteMessage)
    (action : Str) :
    let result := executor.result message outcome
      (if executor.hasApprover = true then
        if action ∈ executor.actions then .invoke else .unknownAction
      else .missingApproval)
    (result.success = true ∧ result.verdict = .allow ∧ result.output = outcome.toOption ∧
        executor.hasApprover = true ∧ action ∈ executor.actions ∧ ∃ output, outcome = .ok output) ∨
      (result.success = false ∧ ¬ (executor.hasApprover = true ∧ action ∈ executor.actions ∧
        ∃ output, outcome = .ok output)) := by
  intro result
  by_cases happrover : executor.hasApprover = true
  · by_cases hregistered : action ∈ executor.actions
    · simp only [result, if_pos happrover, if_pos hregistered]
      rcases outcome with e | output
      · exact .inr ⟨rfl, fun h => nomatch h.2.2.choose_spec⟩
      · exact .inl ⟨rfl, rfl, rfl, happrover, hregistered, output, rfl⟩
    · simp only [result, if_pos happrover, if_neg hregistered]
      exact .inr ⟨rfl, fun h => hregistered h.2.1⟩
  · simp only [result, if_neg happrover]
    exact .inr ⟨rfl, fun h => happrover h.1⟩

/-- A step that passes gets the verdicts of its agents, and only these steps do. -/
theorem wp_runStep (sys : MultiAgentSystem ω) (host : StepHost ω) (action : Str)
    (agent : PolicyAgent) :
    (sys.runStep host action).wp
      (fun step agent' => agent'.rules = agent.rules ∧
        (Passes sys agent.rules host action ↔
          step.1.policyVerdict = .allow ∧ step.1.executed = true) ∧
        (Passes sys agent.rules host action →
          step.2 = ⟨.allow, some .allow, auditVerdicts sys host action, some .allow⟩))
      (fun _ _ => ¬ Passes sys agent.rules host action) agent := by
  unfold runStep
  simp only [Action.wp_bind]
  refine wp_deliver (fun e p hnot hpasses => hnot hpasses.silent.policy) fun hpolicy => ?_
  rcases hdecide : agent.decide action with _ | _ | _
  · simp only [PolicyAgent.process, hdecide, ne_eq, not_true_eq_false, if_false, Action.wp_bind,
      Option.bind_some]
    refine wp_deliver (fun e p hnot hpasses => hnot hpasses.silent.execution) fun hexecution => ?_
    obtain ⟨tokens, hstage⟩ := stage_mint sys.executor agent host.uuid action
    simp only [hstage]
    have hresult := result_mint sys.executor host.outcome ⟨action, some host.uuid, .ok ()⟩ action
    generalize sys.executor.result _ host.outcome _ = execution at hresult ⊢
    refine wp_broadcast (fun e p hbroken hpasses => ?_) fun haudits => ?_
    · obtain ⟨x, hx, hnot⟩ := hbroken
      rcases List.mem_cons.1 hx with rfl | hx
      · exact hnot hpasses.silent.auditor
      · exact hnot (hpasses.silent.further x hx)
    refine wp_deliver (fun e p hnot hpasses => hnot hpasses.silent.verifier) fun hverifier => ?_
    refine ⟨rfl, ?_⟩
    have hsilent : Silent host := ⟨hpolicy, hexecution, haudits _ List.mem_cons_self,
      fun x hx => haudits x (List.mem_cons_of_mem _ hx), hverifier⟩
    rcases hresult with ⟨hsuccess, hverdict, houtput, happrover, hregistered, output, houtcome⟩ |
      ⟨hsuccess, hnot⟩
    · have houtput' : execution.output = some output := by rw [houtput, houtcome]; rfl
      by_cases hscan : sys.scanText (sys.str (some output)) sys.verifierId = []
      · have hpasses : Passes sys agent.rules host action :=
          ⟨hdecide, happrover, hregistered, ⟨output, houtcome, hscan⟩, hsilent⟩
        have hverified : (sys.verify execution.success execution.output).verdict = .allow := by
          simp [verify, hsuccess, houtput', hscan]
        refine ⟨⟨fun _ => ⟨rfl, ?_⟩, fun _ => hpasses⟩, fun _ => ?_⟩
        · simp only [hverified]
          simp only [hsuccess, decide_true, Bool.and_true]
        · simp only [hverified]
          simp only [hverdict, List.map_cons, List.map_map, houtput]
          rfl
      · have hfails : ¬ Passes sys agent.rules host action := by
          intro hpasses
          obtain ⟨output', houtcome', hclean⟩ := hpasses.returns
          obtain rfl := Except.ok.inj (houtcome.symm.trans houtcome')
          exact hscan hclean
        have hverified : (sys.verify execution.success execution.output).verdict = .deny := by
          simp [verify, hsuccess, houtput', hscan]
        refine ⟨⟨fun hpasses => absurd hpasses hfails, fun h => ?_⟩,
          fun hpasses => absurd hpasses hfails⟩
        have hexecuted := h.2
        simp only [hverified] at hexecuted
        simp at hexecuted
    · -- what was not executed is not verified
      have hfails : ¬ Passes sys agent.rules host action := by
        intro hpasses
        obtain ⟨output, houtcome, -⟩ := hpasses.returns
        exact hnot ⟨hpasses.approver, hpasses.registered, output, houtcome⟩
      refine ⟨⟨fun hpasses => absurd hpasses hfails, fun h => ?_⟩, fun hpasses => absurd hpasses hfails⟩
      have hexecuted := h.2
      simp [hsuccess] at hexecuted
  · simp only [PolicyAgent.process, hdecide]
    exact ⟨rfl, ⟨fun hpasses => absurd (hdecide.symm.trans hpasses.allowed) (by decide),
      fun h => by cases h.1⟩, fun hpasses => absurd (hdecide.symm.trans hpasses.allowed) (by decide)⟩
  · simp only [PolicyAgent.process, hdecide]
    exact ⟨rfl, ⟨fun hpasses => absurd (hdecide.symm.trans hpasses.allowed) (by decide),
      fun h => by cases h.1⟩, fun hpasses => absurd (hdecide.symm.trans hpasses.allowed) (by decide)⟩

/-! ## Runs -/

/-- The hosts of a plan. -/
def planned (plan : List Str) (hosts : ℕ → StepHost ω) : List (Str × StepHost ω) :=
  plan.zipIdx.map fun (action, i) => (action, hosts i)

/-- The signatures of steps that pass. -/
def signatures (sys : MultiAgentSystem ω) (x : Str × StepHost ω) : Signatures :=
  ⟨.allow, some .allow, auditVerdicts sys x.2 x.1, some .allow⟩

theorem addStep_allow (report : RunReport ω) (step : StepReport ω × Signatures) :
    (addStep report step).verdict = .allow ↔
      (step.1.policyVerdict = .allow ∧ step.1.executed = true) ∧ report.verdict = .allow := by
  unfold addStep
  split_ifs with h
  · refine ⟨nofun, fun ⟨⟨hpolicy, hexecuted⟩, _⟩ => ?_⟩
    rcases h with hnot | hnot
    · exact absurd hpolicy hnot
    · rw [hexecuted] at hnot
      cases hnot
  · obtain ⟨hpolicy, hexecuted⟩ := not_or.1 h
    have hexecuted : step.1.executed = true := by simpa using hexecuted
    exact ⟨fun hreport => ⟨⟨not_not.1 hpolicy, hexecuted⟩, hreport⟩, fun hreport => hreport.2⟩

/-- What a step does to the loop. -/
theorem runStep_cases (sys : MultiAgentSystem ω) (host : StepHost ω) (action : Str)
    (agent : PolicyAgent) :
    (∃ step agent', sys.runStep host action agent = (.ok step, agent') ∧
      agent'.rules = agent.rules ∧
      (Passes sys agent.rules host action ↔
        step.1.policyVerdict = .allow ∧ step.1.executed = true) ∧
      (Passes sys agent.rules host action → step.2 = signatures sys (action, host))) ∨
    ∃ e agent', sys.runStep host action agent = (.error e, agent') ∧
      ¬ Passes sys agent.rules host action := by
  have hwp := wp_runStep sys host action agent
  unfold Action.wp at hwp
  split at hwp
  · next step agent' heq => exact .inl ⟨step, agent', heq, hwp⟩
  · next e agent' heq => exact .inr ⟨e, agent', heq, hwp⟩

/-- A loop that ends allows exactly where every step passes. -/
theorem runSteps_allow_iff (sys : MultiAgentSystem ω) {steps : List (Str × StepHost ω)}
    {report report' : RunReport ω} {agent agent' : PolicyAgent}
    (h : sys.runSteps steps report agent = (report', none, agent')) :
    report'.verdict = .allow ↔
      report.verdict = .allow ∧ ∀ x ∈ steps, Passes sys agent.rules x.2 x.1 := by
  induction steps generalizing report agent with
  | nil =>
    obtain rfl : report = report' := (Prod.mk.inj h).1
    exact ⟨fun hallow => ⟨hallow, List.forall_mem_nil _⟩, fun hallow => hallow.1⟩
  | cons x steps ih =>
    obtain ⟨action, host⟩ := x
    unfold runSteps at h
    rcases runStep_cases sys host action agent with
      ⟨step, agent₁, heq, hrules, hpasses, -⟩ | ⟨e, agent₁, heq, -⟩
    · simp only [heq] at h
      rw [ih h, addStep_allow, hrules, List.forall_mem_cons, hpasses]
      exact ⟨fun ⟨⟨hstep, hreport⟩, hrest⟩ => ⟨hreport, hstep, hrest⟩,
        fun ⟨hreport, hstep, hrest⟩ => ⟨⟨hstep, hreport⟩, hrest⟩⟩
    · simp only [heq] at h
      cases h

/-- A loop whose steps all pass ends, with the signatures of the steps. -/
theorem runSteps_of_passes (sys : MultiAgentSystem ω) {steps : List (Str × StepHost ω)}
    (report : RunReport ω) (agent : PolicyAgent)
    (h : ∀ x ∈ steps, Passes sys agent.rules x.2 x.1) :
    ∃ report' agent', sys.runSteps steps report agent = (report', none, agent') ∧
      report'.signed = report.signed ++ steps.map (signatures sys) := by
  induction steps generalizing report agent with
  | nil => exact ⟨report, agent, rfl, (List.append_nil _).symm⟩
  | cons x steps ih =>
    obtain ⟨action, host⟩ := x
    obtain ⟨hfirst, hrest⟩ := List.forall_mem_cons.1 h
    rcases runStep_cases sys host action agent with
      ⟨step, agent₁, heq, hrules, -, hsigned⟩ | ⟨e, agent₁, -, hnot⟩
    · obtain ⟨report', agent', hrun, hsigns⟩ := ih (addStep report step) agent₁ (hrules ▸ hrest)
      refine ⟨report', agent', ?_, ?_⟩
      · simp only [runSteps, heq]
        exact hrun
      · rw [hsigns, List.map_cons, ← hsigned hfirst]
        exact List.append_assoc _ _ _
    · exact absurd hfirst hnot

/-- The run gets to its plan: nothing is raised around the coordinator, which finds nothing in the
task. -/
structure Starts (sys : MultiAgentSystem ω) (coordinator : Crossing) (task : Task) : Prop where
  silent : coordinator = .silent
  wellFormed : task.malformed = none
  clean : sys.taskFindings task = []

/-- The steps of a task, with their hosts. -/
def stepsOf (task : Task) (hosts : ℕ → StepHost ω) : List (Str × StepHost ω) :=
  planned ((rawSteps task).take maxPlanSteps) hosts

/-- A run that does not get to its plan does not allow. -/
theorem run_of_not_starts (sys : MultiAgentSystem ω) {coordinator : Crossing}
    (hosts : ℕ → StepHost ω) {task : Task} (policy : PolicyAgent)
    (h : ¬ Starts sys coordinator task) {report : RunReport ω}
    (hrun : sys.run coordinator hosts task policy = .ok report) : report.verdict = .deny := by
  unfold run at hrun
  obtain ⟨before, after⟩ := coordinator
  rcases before with e | _
  · rcases e with finding | message
    · rw [← Except.ok.inj hrun]
      rfl
    · cases hrun
  · rcases after with e | _
    · rcases e with finding | message
      · rw [← Except.ok.inj hrun]
        rfl
      · cases hrun
    · have hverdict : (sys.coordinate task).verdict ≠ .allow := by
        intro hallow
        unfold coordinate at hallow
        rcases hmalformed : task.malformed with _ | e
        · rw [hmalformed] at hallow
          refine h ⟨rfl, hmalformed, ?_⟩
          by_contra hfindings
          rw [if_neg hfindings] at hallow
          cases hallow
        · rw [hmalformed] at hallow
          cases hallow
      have hdelivered : deliver ⟨.ok (), .ok ()⟩ (fun policy => (sys.coordinate task, policy)) policy =
          (.ok (sys.coordinate task), policy) := rfl
      simp only [hdelivered, if_pos hverdict] at hrun
      rw [← Except.ok.inj hrun]

/-- A run that gets to its plan goes through the steps. -/
theorem run_of_starts (sys : MultiAgentSystem ω) {coordinator : Crossing} (hosts : ℕ → StepHost ω)
    {task : Task} (policy : PolicyAgent) (h : Starts sys coordinator task) :
    sys.run coordinator hosts task policy =
      match sys.runSteps (stepsOf task hosts) ⟨.allow, [], [], []⟩ policy with
      | (report, none, _) => .ok report
      | (report, some (.leak finding), _) => .ok (leaked report finding)
      | (_, some e, _) => .error e := by
  obtain ⟨rfl, hwellFormed, hclean⟩ := h
  have hcoordinate : sys.coordinate task =
      ⟨sys.coordinatorId, true, .allow, some ((rawSteps task).take maxPlanSteps), []⟩ := by
    unfold coordinate
    rw [hwellFormed, hclean]
    rfl
  unfold run
  simp only [hcoordinate]
  rfl

/-- `run` allows exactly where it gets to its plan and every step passes. -/
theorem run_allow_iff (sys : MultiAgentSystem ω) (coordinator : Crossing) (hosts : ℕ → StepHost ω)
    (task : Task) (policy : PolicyAgent) :
    ((∃ report, sys.run coordinator hosts task policy = .ok report ∧ report.verdict = .allow) ↔
      Starts sys coordinator task ∧
        ∀ x ∈ stepsOf task hosts, Passes sys policy.rules x.2 x.1) ∧
    ∀ report, sys.run coordinator hosts task policy = .ok report → report.verdict = .allow →
      report.signed = (stepsOf task hosts).map (signatures sys) := by
  -- what an `ALLOW` needs
  have hneeds : ∀ report, sys.run coordinator hosts task policy = .ok report →
      report.verdict = .allow → Starts sys coordinator task ∧
        ∀ x ∈ stepsOf task hosts, Passes sys policy.rules x.2 x.1 := by
    intro report hrun hallow
    by_cases hstarts : Starts sys coordinator task
    · refine ⟨hstarts, ?_⟩
      rw [run_of_starts sys hosts policy hstarts] at hrun
      split at hrun
      · next report' agent' heq =>
        obtain rfl := Except.ok.inj hrun
        exact ((runSteps_allow_iff sys heq).1 hallow).2
      · rw [← Except.ok.inj hrun] at hallow
        cases hallow
      · cases hrun
    · rw [run_of_not_starts sys hosts policy hstarts hrun] at hallow
      cases hallow
  -- what it gives
  have hgives : Starts sys coordinator task →
      (∀ x ∈ stepsOf task hosts, Passes sys policy.rules x.2 x.1) →
      ∃ report, sys.run coordinator hosts task policy = .ok report ∧ report.verdict = .allow ∧
        report.signed = (stepsOf task hosts).map (signatures sys) := by
    intro hstarts hpasses
    obtain ⟨report, agent, hsteps, hsigned⟩ :=
      runSteps_of_passes sys ⟨.allow, [], [], []⟩ policy hpasses
    refine ⟨report, ?_, (runSteps_allow_iff sys hsteps).2 ⟨rfl, hpasses⟩, hsigned⟩
    rw [run_of_starts sys hosts policy hstarts, hsteps]
  refine ⟨⟨fun ⟨report, hrun, hallow⟩ => hneeds report hrun hallow, fun ⟨hstarts, hpasses⟩ => ?_⟩,
    fun report hrun hallow => ?_⟩
  · obtain ⟨report, hrun, hallow, -⟩ := hgives hstarts hpasses
    exact ⟨report, hrun, hallow⟩
  · obtain ⟨hstarts, hpasses⟩ := hneeds report hrun hallow
    obtain ⟨report', hrun', -, hsigned⟩ := hgives hstarts hpasses
    obtain rfl := Except.ok.inj (hrun.symm.trans hrun')
    exact hsigned

/-- An `ALLOW` of the run means that all agents signed off every step of the plan, exactly where no
agent with the audit capability objects to a step of a plan that the other agents let pass. -/
theorem signed_off_iff (sys : MultiAgentSystem ω) (coordinator : Crossing) (hosts : ℕ → StepHost ω)
    (task : Task) (policy : PolicyAgent) :
    (∀ report, sys.run coordinator hosts task policy = .ok report → report.verdict = .allow →
      report.signed.length = (stepsOf task hosts).length ∧ ∀ s ∈ report.signed, s.AllAllow) ↔
    (Starts sys coordinator task → (∀ x ∈ stepsOf task hosts, Passes sys policy.rules x.2 x.1) →
      ∀ x ∈ stepsOf task hosts, ∀ v ∈ auditVerdicts sys x.2 x.1, v = .allow) := by
  obtain ⟨hallow_iff, hsigned⟩ := run_allow_iff sys coordinator hosts task policy
  constructor
  · intro hclaim hstarts hpasses x hx
    obtain ⟨report, hrun, hallow⟩ := hallow_iff.2 ⟨hstarts, hpasses⟩
    have hall := (hclaim report hrun hallow).2
    rw [hsigned report hrun hallow] at hall
    exact (hall _ (List.mem_map_of_mem hx)).2.2.1
  · intro hcondition report hrun hallow
    obtain ⟨hstarts, hpasses⟩ := hallow_iff.1 ⟨report, hrun, hallow⟩
    rw [hsigned report hrun hallow]
    refine ⟨List.length_map _, fun s hs => ?_⟩
    obtain ⟨x, hx, rfl⟩ := List.mem_map.1 hs
    exact ⟨rfl, rfl, hcondition hstarts hpasses x hx, rfl⟩

/-- A system whose policy allows `echo` and whose scanner finds nothing. -/
def echoSystem : MultiAgentSystem Unit where
  coordinatorId := "coordinator".toList
  executor := ⟨"executor".toList, ["echo".toList], true⟩
  auditorId := "auditor".toList
  verifierId := "verifier".toList
  scanText _ _ := []
  str _ := "()".toList
  auditText _ output := output

/-- A host with one further audit agent, which objects. -/
def objectingHost : StepHost Unit where
  uuid := "token".toList
  outcome := .ok ()
  further := [(.silent, ⟨"second-auditor".toList, false, .deny, some (),
    [⟨"second-auditor".toList, .high, "audit.objection", "no".toList, []⟩]⟩)]
  policy := .silent
  execution := .silent
  auditor := .silent
  verifier := .silent

/-- An audit agent objects to the only step, and the run is allowed. -/
theorem objection_ignored : ∃ report,
    echoSystem.run .silent (fun _ => objectingHost) ⟨"task".toList, [], none, none⟩
        ⟨"policy".toList, [⟨fun _ => true, .allow⟩], []⟩ = .ok report ∧
      report.verdict = .allow ∧
      report.signed = [⟨.allow, some .allow, [.allow, .deny], some .allow⟩] ∧
      ¬ ∀ s ∈ report.signed, s.AllAllow := by
  refine ⟨_, rfl, rfl, rfl, fun hall => ?_⟩
  have hsigned := hall _ List.mem_cons_self
  exact absurd (hsigned.2.2.1 .deny (by decide)) (by decide)

end MultiAgentSystem

end Bulldog.MultiAgent
