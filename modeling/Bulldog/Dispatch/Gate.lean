import Bulldog.Dispatch.Freeze

/-!
# The production execution gate

The log of a production dispatch that reaches the sandbox is one fixed sequence of entries, and each
of them was checked: what `record_dispatch` found, the engine's verdict, the snapshot, its manifest,
its scan, and its hash after the scan.
-/

namespace Bulldog

/-! ## Verdicts -/

namespace Policy

variable {L : Urllib} {policy : DeterministicPolicy} {action : ActionRequest}

/-- What an action that the policy does not block may do. -/
structure Permitted (policy : DeterministicPolicy) (action : ActionRequest) : Prop where
  granted : action.capability ∈ action.grantedCapabilities
  parent : ∀ ceiling ∈ action.parentCapabilities, action.capability ∈ ceiling
  global : ∀ ceiling ∈ policy.globalCapabilityCeiling, action.capability ∈ ceiling

theorem assess_deny (score : Score) (external : Bool)
    (h : (assess L action score external).hardBlock = true) :
    (assess L action score external).decision = .deny := by
  unfold assess at h ⊢
  dsimp only at h ⊢
  split_ifs at h ⊢ <;> rfl

/-- A hard block is a denial. -/
theorem evaluate_deny (h : (evaluate L policy action).hardBlock = true) :
    (evaluate L policy action).decision = .deny := by
  unfold evaluate at h ⊢
  dsimp only at h ⊢
  split_ifs at h ⊢
  all_goals first | rfl | exact assess_deny _ _ h

/-- What is not blocked is permitted. -/
theorem evaluate_permitted (h : (evaluate L policy action).hardBlock = false) :
    Permitted policy action := by
  unfold evaluate at h
  dsimp only at h
  split_ifs at h with hglobal hgranted hparent
  all_goals first
    | cases h
    | skip
  all_goals
    refine ⟨hgranted, fun ceiling hc => ?_, fun ceiling hc => ?_⟩
    · rw [Option.mem_def.1 hc] at hparent
      simpa using hparent
    · rw [Option.mem_def.1 hc] at hglobal
      simpa using hglobal

end Policy

/-- The guard keeps a hard block as it is, and makes none. -/
theorem SessionGuard.judge_hardBlock (events : List SessionEvent) (action : ActionRequest)
    (evaluation : Evaluation) :
    (judge events action evaluation).hardBlock = evaluation.hardBlock ∧
      (evaluation.hardBlock = true → judge events action evaluation = evaluation) := by
  unfold judge
  split_ifs with h
  · exact ⟨rfl, fun _ => rfl⟩
  · exact ⟨rfl, fun hblock => absurd (.inl hblock) h⟩

/-- An engine that allows an action, or sends it to the sandbox, was not stopped by its policy. -/
theorem BulldogEngine.evaluate_permitted (engine : BulldogEngine)
    (advise : ActionRequest → Except Exc Advisory)
    (append : ActionRequest → Evaluation → Except Exc Unit) (action : ActionRequest)
    (history : History) :
    (engine.evaluate advise append action).wp
      (fun evaluation _ => evaluation.decision = .allow ∨ evaluation.decision = .sandbox →
        evaluation.hardBlock = false ∧ Policy.Permitted engine.policy action)
      (fun _ _ => True) history := by
  unfold evaluate
  simp only [Action.wp_bind, Action.wp_read, Action.wp_update, Action.wp_pure]
  refine Action.wp_lift_intro (fun advisory _ => ?_) fun _ => trivial
  refine Action.wp_lift_intro (fun _ _ => ?_) fun _ => trivial
  intro hdecision
  obtain ⟨hhard, hkeep⟩ := SessionGuard.judge_hardBlock
    (SessionGuard.events history (SessionGuard.sessionKey action)) action
    (engine.combine action advisory)
  change (SessionGuard.judge _ action (engine.combine action advisory)).decision = _ ∨
    (SessionGuard.judge _ action (engine.combine action advisory)).decision = _ at hdecision
  change (SessionGuard.judge _ action (engine.combine action advisory)).hardBlock = false ∧ _
  rw [hhard]
  rcases hpolicy : (Policy.evaluate engine.urllib engine.policy action).hardBlock with _ | _
  · refine ⟨?_, Policy.evaluate_permitted hpolicy⟩
    simp [combine, hpolicy]
  · have hcombine : engine.combine action advisory =
        Policy.evaluate engine.urllib engine.policy action := by simp [combine, hpolicy]
    rw [hkeep (by rw [hcombine]; exact hpolicy), hcombine, Policy.evaluate_deny hpolicy] at hdecision
    rcases hdecision with h | h <;> cases h

namespace Dispatch

open Domain

variable {α : Type} {w : World} {rt : BulldogRuntime} {env : Env}

/-! ## The runtime -/

namespace BulldogRuntime

/-- No run of the sandbox. -/
def Quiet (es : List LogEntry) : Prop := ∀ argv root, .sandboxRun argv root ∉ es

theorem quiet_nil : Quiet [] := nofun

theorem Quiet.cons {e : LogEntry} {es : List LogEntry} (h : Quiet es)
    (he : ∀ argv root, e ≠ .sandboxRun argv root) : Quiet (e :: es) := by
  intro argv root hmem
  rcases List.mem_cons.1 hmem with heq | hmem
  · exact he argv root heq.symm
  · exact h argv root hmem

theorem silent_blockMalware (evaluation : Evaluation) (stderr : String) (performed : Bool)
    (clean : Option Bool) (detections : List Str) :
    Silent (blockMalware evaluation stderr performed clean detections) :=
  (silent_emit _).bind fun _ => (silent_emit _).bind fun _ => silent_traceState.bind fun _ =>
    silent_pure _

theorem silent_denyBinding (action : ActionRequest) (reason : String) :
    Silent (denyBinding env action reason) :=
  (silent_emit _).bind fun _ => (silent_emit _).bind fun _ => (silent_lift _).bind fun _ =>
    silent_traceState.bind fun _ => silent_pure _

theorem logs_runSandbox (evaluation : Evaluation) (command : List Str) (root : Str) :
    Logs (runSandbox env evaluation command root) (· = [.sandboxRun command root]) := by
  refine logs_record (P := (· = [])) (Silent.logs ?_ rfl) fun es hes => by rw [hes]
  exact (silent_lift _).bind fun _ => (silent_emit _).bind fun _ => silent_traceState.bind fun _ =>
    silent_pure _

theorem logs_runScanned (evaluation : Evaluation) (command : List Str) (snapshot : Snapshot) :
    Logs (runScanned env evaluation command snapshot) fun es => Quiet es ∨
      es = [.hashTree snapshot.snapshotRoot snapshot.snapshotHash,
        .sandboxRun command snapshot.snapshotRoot] := by
  refine (silent_emit _).bind_logs (.inl quiet_nil) fun _ =>
    (silent_lift _).bind_logs (.inl quiet_nil) fun hash => ?_
  split_ifs with hhash
  · refine logs_record (P := (· = [])) (Silent.logs (silent_traceState.bind fun _ => silent_pure _) rfl)
      fun es hes => .inl ?_
    rw [hes]
    exact quiet_nil.cons nofun
  · refine logs_record (logs_runSandbox evaluation command _) fun es hes => .inr ?_
    rw [hes, not_not.1 hhash]

theorem logs_runAdmitted (evaluation : Evaluation) (command : List Str) (snapshot : Snapshot) :
    Logs (rt.runAdmitted env evaluation command snapshot) fun es => Quiet es ∨
      ∃ scan, scan.clean = true ∧ es = [.scan snapshot.snapshotRoot scan,
        .hashTree snapshot.snapshotRoot snapshot.snapshotHash,
        .sandboxRun command snapshot.snapshotRoot] := by
  unfold runAdmitted
  split_ifs
  · exact (silent_raise _).logs (.inl quiet_nil)
  · exact Silent.logs (silent_blockMalware _ _ _ _ _) (.inl quiet_nil)
  · split
    · exact Silent.logs (silent_blockMalware _ _ _ _ _) (.inl quiet_nil)
    · next scan _ =>
      split_ifs with hclean
      · refine logs_record (P := (· = [])) (Silent.logs (silent_blockMalware _ _ _ _ _) rfl)
          fun es hes => .inl ?_
        rw [hes]
        exact quiet_nil.cons nofun
      · refine logs_record (logs_runScanned evaluation command snapshot) fun es hes => ?_
        rcases hes with hquiet | rfl
        · exact .inl (hquiet.cons nofun)
        · exact .inr ⟨scan, by simpa using hclean, rfl⟩

theorem logs_runSnapshot (evaluation : Evaluation) (command : List Str) (snapshot : Snapshot) :
    Logs (rt.runSnapshot env evaluation command snapshot) fun es => Quiet es ∨
      ∃ scan, scan.clean = true ∧ es = [.manifest snapshot.snapshotRoot,
        .scan snapshot.snapshotRoot scan, .hashTree snapshot.snapshotRoot snapshot.snapshotHash,
        .sandboxRun command snapshot.snapshotRoot] := by
  unfold runSnapshot
  split
  · split_ifs
    · exact Silent.logs (silent_traceState.bind fun _ => silent_pure _) (.inl quiet_nil)
    · exact (silent_raise _).logs (.inl quiet_nil)
  · refine logs_record (logs_runAdmitted evaluation command snapshot) fun es hes => ?_
    rcases hes with hquiet | ⟨scan, hclean, rfl⟩
    · exact .inl (hquiet.cons nofun)
    · exact .inr ⟨scan, hclean, rfl⟩

/-- The entries of an approved command that reaches the sandbox. -/
def ApprovedLog (command : List Str) (es : List LogEntry) : Prop :=
  ∃ (snapshot : Snapshot) (scan : ScanResult), scan.clean = true ∧
    es = [.snapshot snapshot, .manifest snapshot.snapshotRoot, .scan snapshot.snapshotRoot scan,
      .hashTree snapshot.snapshotRoot snapshot.snapshotHash,
      .sandboxRun command snapshot.snapshotRoot]

theorem logs_runApproved (evaluation : Evaluation) (command : List Str) (projectRoot : Str) :
    Logs (rt.runApproved env evaluation command projectRoot) fun es =>
      Quiet es ∨ ApprovedLog command es := by
  refine (silent_lift _).bind_logs (.inl quiet_nil) fun root => ?_
  split
  · split_ifs
    · exact Silent.logs (silent_traceState.bind fun _ => silent_pure _) (.inl quiet_nil)
    · exact (silent_raise _).logs (.inl quiet_nil)
  · next snapshot _ =>
    refine logs_record ((logs_runSnapshot evaluation command snapshot).ensuring (silent_lift _))
      fun es hes => ?_
    rcases hes with hquiet | ⟨scan, hclean, rfl⟩
    · exact .inl (hquiet.cons nofun)
    · exact .inr ⟨snapshot, scan, hclean, rfl⟩

/-- A verdict that lets a command run. -/
structure Approves (engine : BulldogEngine) (action : ActionRequest) (evaluation : Evaluation) :
    Prop where
  decision : evaluation.decision = .allow ∨ evaluation.decision = .sandbox
  hardBlock : evaluation.hardBlock = false
  permitted : Policy.Permitted engine.policy action

/-- The engine logs its verdict. -/
theorem wp_evaluate (engine : BulldogEngine) (action : ActionRequest) (w : World) :
    (evaluate env engine action).wp
      (fun evaluation w' => w'.log = w.log ++ [.evaluated action evaluation] ∧
        (evaluation.decision = .allow ∨ evaluation.decision = .sandbox →
          Approves engine action evaluation))
      (fun _ w' => w'.log = w.log) w := by
  unfold evaluate
  simp only [Action.wp_bind, Action.wp_zoom, wp_record, Action.wp_pure]
  refine Action.wp_mono (engine.evaluate_permitted env.advise env.append action w.history)
    (fun evaluation history h => ⟨trivial, fun hdecision => ?_⟩) fun _ _ _ => trivial
  obtain ⟨hhard, hpermitted⟩ := h hdecision
  exact ⟨hdecision, hhard, hpermitted⟩

/-- The entries of a command that the runtime lets through to the sandbox. -/
def GateLog (rt : BulldogRuntime) (env : Env) (action : ActionRequest) (command : List Str)
    (es : List LogEntry) : Prop :=
  rt.bindingFailure env action command = none ∧ ∃ evaluation es',
    Approves rt.engine action evaluation ∧ ApprovedLog command es' ∧
      es = .evaluated action evaluation :: es'

/-- What the runtime logs after the verdict. -/
theorem logs_verdict (action : ActionRequest) (command : List Str) (projectRoot : Str)
    (hbinding : rt.bindingFailure env action command = none) (evaluation : Evaluation)
    (happroves : evaluation.decision = .allow ∨ evaluation.decision = .sandbox →
      Approves rt.engine action evaluation) :
    Logs (rt.executeVerdict env evaluation command projectRoot) fun es =>
      Quiet es ∨ GateLog rt env action command (.evaluated action evaluation :: es) := by
  refine (silent_emit _).bind_logs (.inl quiet_nil) fun _ => ?_
  have hrun (hdecision : evaluation.decision = .allow ∨ evaluation.decision = .sandbox) :
      Logs (rt.runApproved env evaluation command projectRoot) fun es =>
        Quiet es ∨ GateLog rt env action command (.evaluated action evaluation :: es) :=
    (logs_runApproved evaluation command projectRoot).mono fun es hes =>
      hes.imp id fun hes => ⟨hbinding, evaluation, es, happroves hdecision, hes, rfl⟩
  split
  · exact Silent.logs ((silent_emit _).bind fun _ => silent_traceState.bind fun _ => silent_pure _)
      (.inl quiet_nil)
  · exact Silent.logs ((silent_emit _).bind fun _ => silent_traceState.bind fun _ => silent_pure _)
      (.inl quiet_nil)
  · next hallow => exact hrun (.inl hallow)
  · next hsandbox => exact hrun (.inr hsandbox)

/-- What the runtime logs. -/
theorem logs_execute (action : ActionRequest) (command : List Str) (projectRoot : Str) :
    Logs (rt.execute env action command projectRoot) fun es =>
      Quiet es ∨ GateLog rt env action command es := by
  refine (silent_resetTrace _).bind_logs (.inl quiet_nil) fun _ => ?_
  split
  · exact Silent.logs (silent_denyBinding action _) (.inl quiet_nil)
  · next hbinding =>
    intro w
    rw [Action.wp_bind]
    refine Action.wp_mono (wp_evaluate rt.engine action w) (fun evaluation w' h => ?_)
      fun _ w' hw => .nil hw (.inl quiet_nil)
    obtain ⟨hlog, happroves⟩ := h
    have hentry (es : List LogEntry)
        (hes : Quiet es ∨ GateLog rt env action command (.evaluated action evaluation :: es)) :
        Quiet (.evaluated action evaluation :: es) ∨
          GateLog rt env action command (.evaluated action evaluation :: es) :=
      hes.imp (Quiet.cons · nofun) id
    have hrest := logs_verdict action command projectRoot hbinding evaluation happroves w'
    rw [hlog] at hrest
    exact Action.wp_mono hrest (fun _ _ h => h.cons hentry) fun _ _ h => h.cons hentry

end BulldogRuntime

/-! ## The dispatcher -/

variable {R : Registry} {D : Dispatcher} {request : DispatchRequest} {command : List Str}

/-- Denials change the exception only. -/
theorem wp_denying {m : Action World Exc α} {Q : α → World → Prop} {E : World → Prop}
    (h : m.wp Q (fun _ => E) w) : (Dispatcher.denying m).wp Q (fun _ => E) w := by
  rw [Dispatcher.denying, wp_except]
  refine Action.wp_mono h (fun _ _ => id) fun e w' hw => ?_
  split_ifs
  · exact hw
  · exact hw

/-- The registry stands behind what an action claims: its granted capabilities are the domain's, and
its parent's are those of the domain's parent. -/
def Backed (id : Str) (granted : Finset Capability) (parent : Option (Finset Capability))
    (s : Domains) : Prop :=
  ∃ d, s.find? (·.domainId = id) = some d ∧ granted ⊆ d.capabilityCeiling ∧
    ∀ parentId, d.parentDomainId = some parentId →
      ∃ p, s.find? (·.domainId = parentId) = some p ∧ parent = some p.capabilityCeiling

/-- It goes on standing behind it. -/
theorem Backed.run {id : Str} {granted : Finset Capability} {parent : Option (Finset Capability)}
    {s s' : Domains} (h : Backed id granted parent s) (hrun : Relation.ReflTransGen R.Step s s') :
    Backed id granted parent s' := by
  obtain ⟨d, hd, hgranted, hparent⟩ := h
  obtain ⟨d', hd', hcharter⟩ := find?_run hrun hd
  refine ⟨d', hd', by rwa [hcharter], fun parentId hid => ?_⟩
  rw [hcharter] at hid
  obtain ⟨p, hp, heq⟩ := hparent parentId hid
  obtain ⟨p', hp', hcharter'⟩ := find?_run hrun hp
  exact ⟨p', hp', by rw [heq, hcharter']⟩

theorem assertCapabilities_eq_ok {id : Str} {requested : Finset Capability} {s : Domains}
    (h : Registry.assertCapabilities id requested s = .ok ()) :
    ∃ d, s.find? (·.domainId = id) = some d ∧ requested ⊆ d.capabilityCeiling := by
  obtain ⟨d, hd, hsubset⟩ := bind_eq_ok.1 h
  exact ⟨d, (Registry.requireActive_eq_ok.1 hd).1, not_not.1 (raiseIf_eq_ok.1 hsubset)⟩

theorem parentCapabilities_eq_ok {id : Str} {parent : Option (Finset Capability)} {s : Domains}
    (h : Registry.parentCapabilities id s = .ok parent) :
    ∃ d, s.find? (·.domainId = id) = some d ∧ ∀ parentId, d.parentDomainId = some parentId →
      ∃ p, s.find? (·.domainId = parentId) = some p ∧ parent = some p.capabilityCeiling := by
  obtain ⟨d, hd, hparent⟩ := bind_eq_ok.1 h
  refine ⟨d, (Registry.requireActive_eq_ok.1 hd).1, fun parentId hid => ?_⟩
  rw [hid] at hparent
  obtain ⟨p, hp, ⟨⟩⟩ := bind_eq_ok.1 hparent
  exact ⟨p, Registry.get_eq_ok.1 hp, rfl⟩

/-- What `_trusted_context_for` returns is backed by the registry. -/
theorem trustedContextFor_spec (henv : env.Calls R) (hregistry : D.registry = some R)
    (request : DispatchRequest) (w : World) :
    (D.trustedContextFor env request).wp
      (fun context w' => w'.log = w.log ∧ Backed (request.domainId.getD [])
        request.grantedCapabilities context.2 w'.domains)
      (fun _ w' => w'.log = w.log) w := by
  unfold Dispatcher.trustedContextFor
  rw [hregistry]
  simp only [Action.wp_bind]
  refine Action.wp_lift_intro (fun _ _ => ?_) fun _ => rfl
  refine wp_denying ?_
  rw [Action.wp_bind, wp_ask]
  refine ⟨fun _ hassert => ?_, fun _ _ => rfl⟩
  rw [Action.wp_bind, wp_ask]
  refine ⟨fun trusted _ => ?_, fun _ _ => rfl⟩
  rw [Action.wp_bind, wp_ask]
  refine ⟨fun parent hparent => ⟨rfl, ?_⟩, fun _ _ => rfl⟩
  -- Between the first answer and the last, the domain keeps its charter.
  obtain ⟨d, hd, hsubset⟩ := assertCapabilities_eq_ok hassert
  obtain ⟨d₂, hd₂, hcharter₂⟩ := find?_run (henv _ _) hd
  obtain ⟨d₃, hd₃, hcharter₃⟩ := find?_run (henv _ _) hd₂
  obtain ⟨e, he, hparents⟩ := parentCapabilities_eq_ok hparent
  obtain rfl : d₃ = e := Option.some.inj (hd₃.symm.trans he)
  exact ⟨d₃, hd₃, by rwa [hcharter₃, hcharter₂], hparents⟩

/-- What `canonicalize_action` returns. -/
structure Canonical (L : Urllib) (proposal : Proposal) (granted : Finset Capability)
    (parent : Option (Finset Capability)) (action : ActionRequest) : Prop where
  resource : Canonicalizer.canonicalizeResource L (Str.strip proposal.operation)
    (Str.strip proposal.resource) = .ok action.resource
  capability : Canonicalizer.deriveCapability L (Str.strip proposal.operation) action.resource =
    .ok action.capability
  granted : action.grantedCapabilities = granted
  parent : action.parentCapabilities = parent
  irreversible : action.irreversible = false
  externalSideEffect : action.externalSideEffect = false

theorem canonicalizeAction_eq_ok {L : Urllib} {proposal : Proposal}
    {trusted : TrustedExecutionContext} {granted : Finset Capability}
    {parent : Option (Finset Capability)} {action : ActionRequest}
    (h : Canonicalizer.canonicalizeAction L proposal trusted granted parent = .ok action) :
    Canonical L proposal granted parent action := by
  simp only [Canonicalizer.canonicalizeAction, bind_eq_ok] at h
  obtain ⟨-, -, resource, hresource, capability, hcapability, ⟨⟩⟩ := h
  exact ⟨hresource, hcapability, rfl, rfl, rfl, rfl⟩

/-- An action whose command is the authorised one. -/
structure Bound (D : Dispatcher) (request : DispatchRequest) (command : List Str)
    (action : ActionRequest) : Prop where
  capability : action.capability = .processExec
  executable : Canonicalizer.canonicalizeFilesystemResource D.runtime.engine.urllib
    (command.headD []) = .ok action.resource
  authorized : request.authorizedCommand = some command

/-- What `_bind_execution` checks in production. -/
theorem bindExecution_eq_ok (hproduction : D.productionMode = true) {action action' : ActionRequest}
    (h : D.bindExecution action command request = .ok action') :
    Bound D request command action ∧ ∃ metadata, action' = { action with metadata } := by
  simp only [Dispatcher.bindExecution, bind_eq_ok, raiseIf_eq_ok, not_not, hproduction,
    true_and] at h
  obtain ⟨-, hcapability, -, -, executable, hexecutable, -, hresource, -, hsome, h⟩ := h
  obtain ⟨authorized, hauthorized⟩ := Option.ne_none_iff_exists'.1 hsome
  rw [hauthorized] at h
  obtain ⟨_, hcommand, ⟨⟩⟩ := bind_eq_ok.1 h
  refine ⟨⟨hcapability, ?_, ?_⟩, _, rfl⟩
  · unfold Dispatcher.executable at hexecutable
    split at hexecutable
    · next heq =>
      cases hexecutable
      rw [heq, hresource]
    · cases hexecutable
  · rw [hauthorized, not_not.1 (raiseIf_eq_ok.1 hcommand)]

/-- `record_dispatch` logs the active domain that it found. -/
theorem recordDispatch_spec (D : Dispatcher) (env : Env) (id : Str) (action : ActionRequest)
    (command : List Str) (w : World) :
    (D.recordDispatch env id action command).wp
      (fun _ w' => ∃ d event, w'.log = w.log ++ [.recorded (w.interfere env).domains d event] ∧
        (w.interfere env).domains.find? (·.domainId = id) = some d ∧ d.frozen = false)
      (fun _ w' => w'.log = w.log) w := by
  unfold Dispatcher.recordDispatch
  refine wp_denying ?_
  rw [Action.wp_bind, wp_ask]
  refine ⟨fun d hd => ?_, fun _ _ => rfl⟩
  simp only [Action.wp_bind, Action.wp_read, wp_record]
  refine Action.wp_lift_intro (fun _ _ => ?_) fun _ => rfl
  exact ⟨d, _, rfl, Registry.requireActive_eq_ok.1 hd⟩

/-- What the runtime of a dispatcher logs, with or without a permit. -/
theorem logs_runtimeExecute (D : Dispatcher) (env : Env) (action : ActionRequest)
    (command : List Str) (projectRoot : Str) :
    Logs (D.runtimeExecute env action command projectRoot) fun es =>
      BulldogRuntime.Quiet es ∨ BulldogRuntime.GateLog D.runtime env action command es := by
  unfold Dispatcher.runtimeExecute
  split
  · exact BulldogRuntime.logs_execute action command projectRoot
  · unfold productionExecute
    split_ifs
    · exact Silent.logs ((silent_resetTrace _).bind fun _ =>
        BulldogRuntime.silent_denyBinding action _) (.inl BulldogRuntime.quiet_nil)
    · exact BulldogRuntime.logs_execute action command projectRoot

theorem silent_punish (id : Str) (evaluation : Evaluation) :
    Silent (Dispatcher.punish env id evaluation) :=
  silent_onlyIf _ ((silent_access env _).bind fun _ => silent_access env _)

/-- A dispatcher that the constructor of `ProductionDispatcher` lets through, with a registry. -/
structure IsProduction (D : Dispatcher) (R : Registry) (ceiling : Finset Capability) : Prop where
  kind : D.productionMode = true
  registry : D.registry = some R
  /-- `_verify_actual_production_runtime`: there is a signed ceiling. -/
  ceiling : D.runtime.engine.policy.globalCapabilityCeiling = some ceiling

/-- Everything that stands behind a run of the sandbox. The log of the call is exactly the recorded
domain, the verdict, the snapshot, its manifest, its scan, its hash, and the sandbox. -/
structure Gated (D : Dispatcher) (ceiling : Finset Capability) (request : DispatchRequest)
    (command argv : List Str) (root : Str) (es : List LogEntry) : Prop where
  command : argv = command ∧ request.authorizedCommand = some argv
  resource : ∃ resource, Canonicalizer.canonicalizeFilesystemResource D.runtime.engine.urllib
      (argv.headD []) = .ok resource ∧
    Canonicalizer.canonicalizeResource D.runtime.engine.urllib
      (Str.strip request.proposal.operation) (Str.strip request.proposal.resource) = .ok resource ∧
    Canonicalizer.deriveCapability D.runtime.engine.urllib
      (Str.strip request.proposal.operation) resource = .ok .processExec
  granted : .processExec ∈ request.grantedCapabilities
  ceiling : .processExec ∈ ceiling
  log : ∃ domains d event action evaluation snapshot scan,
    es = [.recorded domains d event, .evaluated action evaluation, .snapshot snapshot,
      .manifest root, .scan root scan, .hashTree root snapshot.snapshotHash, .sandboxRun argv root] ∧
    -- The domain, when the dispatch was recorded.
    domains.find? (·.domainId = request.domainId.getD []) = some d ∧ d.frozen = false ∧
    request.grantedCapabilities ⊆ d.capabilityCeiling ∧
    (∀ parentId, d.parentDomainId = some parentId → ∃ p,
      domains.find? (·.domainId = parentId) = some p ∧ .processExec ∈ p.capabilityCeiling) ∧
    -- The verdict.
    action.capability = .processExec ∧
    (evaluation.decision = .allow ∨ evaluation.decision = .sandbox) ∧
    evaluation.hardBlock = false ∧
    -- The snapshot that was scanned.
    snapshot.snapshotRoot = root ∧ scan.clean = true

/-- Every run of the sandbox among the entries of a call is gated. -/
def AllGated (D : Dispatcher) (ceiling : Finset Capability) (request : DispatchRequest)
    (command : List Str) (es : List LogEntry) : Prop :=
  ∀ argv root, .sandboxRun argv root ∈ es → Gated D ceiling request command argv root es

/-- What the runtime logs of a bound action of an active domain is what stands behind the sandbox. -/
theorem BulldogRuntime.GateLog.gated {ceiling : Finset Capability} {action : ActionRequest}
    {metadata : Metadata} {parent : Option (Finset Capability)} {es : List LogEntry}
    {domains : Domains} {d : SecurityDomain} {event : Event} {argv : List Str} {root : Str}
    (h : GateLog D.runtime env { action with metadata } command es) (hD : IsProduction D R ceiling)
    (hcanonical : Canonical D.runtime.engine.urllib request.proposal request.grantedCapabilities
      parent action)
    (hbound : Bound D request command action)
    (hbacked : Backed (request.domainId.getD []) request.grantedCapabilities parent domains)
    (hd : domains.find? (·.domainId = request.domainId.getD []) = some d) (hactive : d.frozen = false)
    (hrun : .sandboxRun argv root ∈ es) :
    Gated D ceiling request command argv root (.recorded domains d event :: es) := by
  obtain ⟨-, evaluation, _, happroves, ⟨snapshot, scan, hclean, rfl⟩, rfl⟩ := h
  obtain ⟨rfl, rfl⟩ : argv = command ∧ root = snapshot.snapshotRoot := by simpa using hrun
  obtain ⟨e, he, hsubset, hparents⟩ := hbacked
  obtain rfl : d = e := Option.some.inj (hd.symm.trans he)
  have hpermitted := happroves.permitted
  refine ⟨⟨rfl, hbound.authorized⟩, ⟨_, hbound.executable, hcanonical.resource, ?_⟩, ?_, ?_,
    domains, d, event, _, evaluation, snapshot, scan, rfl, hd, hactive, hsubset, fun id hid => ?_,
    hbound.capability, happroves.decision, happroves.hardBlock, rfl, hclean⟩
  · rw [← hbound.capability]
    exact hcanonical.capability
  · rw [← hbound.capability, ← hcanonical.granted]
    exact hpermitted.granted
  · rw [← hbound.capability]
    exact hpermitted.global ceiling hD.ceiling
  · obtain ⟨p, hp, hparent⟩ := hparents id hid
    refine ⟨p, hp, ?_⟩
    rw [← hbound.capability]
    exact hpermitted.parent _ (hcanonical.parent.trans hparent)

/-- What comes out of `canonicalize`. -/
theorem canonicalize_spec (henv : env.Calls R) (hregistry : D.registry = some R)
    (request : DispatchRequest) (w : World) :
    (D.canonicalize env request).wp
      (fun action w' => w'.log = w.log ∧ ∃ parent,
        Backed (request.domainId.getD []) request.grantedCapabilities parent w'.domains ∧
        Canonical D.runtime.engine.urllib request.proposal request.grantedCapabilities parent action)
      (fun _ w' => w'.log = w.log) w := by
  unfold Dispatcher.canonicalize
  rw [Action.wp_bind]
  refine Action.wp_mono (trustedContextFor_spec henv hregistry request w) (fun context w' h => ?_)
    fun _ _ => id
  obtain ⟨hlog, hbacked⟩ := h
  exact Action.wp_lift_intro (fun action haction =>
    ⟨hlog, context.2, hbacked, canonicalizeAction_eq_ok haction⟩) fun _ => hlog

/-- Every run of the sandbox by a production dispatcher went through the whole gate. -/
theorem production_gate {ceiling : Finset Capability} (hD : IsProduction D R ceiling)
    (henv : env.Calls R) (request : DispatchRequest) (command : List Str) (projectRoot : Str)
    (w : World) :
    ∃ es, (D.execute env request command projectRoot w).2.log = w.log ++ es ∧
      AllGated D ceiling request command es := by
  have hquiet (es : List LogEntry) (hes : BulldogRuntime.Quiet es) :
      AllGated D ceiling request command es := fun argv root hmem => absurd hmem (hes argv root)
  have hnil := hquiet [] BulldogRuntime.quiet_nil
  change Appends w.log (AllGated D ceiling request command) _
  rw [← Action.wp_state (P := Appends w.log _)]
  unfold Dispatcher.execute
  rw [Action.wp_bind]
  refine (silent_onlyIf _ (silent_lift _)).wp (fun _ w₀ hw₀ => ?_) fun _ _ hw => .nil hw hnil
  rw [Action.wp_bind]
  refine Action.wp_mono (canonicalize_spec henv hD.registry request w₀) (fun action w₁ h => ?_)
    fun _ _ hw => .nil (hw.trans hw₀) hnil
  obtain ⟨hw₁, parent, hbacked, hcanonical⟩ := h
  rw [Action.wp_bind]
  refine Action.wp_lift_intro (fun action' haction' => ?_) fun _ => .nil (hw₁.trans hw₀) hnil
  obtain ⟨hbound, metadata, rfl⟩ := bindExecution_eq_ok hD.kind haction'
  rw [Action.wp_bind, Action.wp_onlyIf]
  refine ⟨fun _ => ?_, fun hno => absurd (by rw [hD.registry]; rfl) hno⟩
  refine Action.wp_mono (recordDispatch_spec D env _ _ command w₁) (fun _ w₂ h => ?_)
    fun _ _ hw => .nil (hw.trans (hw₁.trans hw₀)) hnil
  obtain ⟨d, event, hw₂, hd, hactive⟩ := h
  rw [hw₁.trans hw₀] at hw₂
  -- From here on the log is the recorded domain, and what the runtime adds.
  have hentries (es : List LogEntry) (hes : BulldogRuntime.Quiet es ∨
      BulldogRuntime.GateLog D.runtime env { action with metadata } command es) :
      AllGated D ceiling request command
        (.recorded (w₁.interfere env).domains d event :: es) := by
    rcases hes with hes | hes
    · exact hquiet _ (hes.cons nofun)
    · intro argv root hmem
      exact hes.gated hD hcanonical hbound (hbacked.run (henv _ _)) hd hactive
        ((List.mem_cons.1 hmem).resolve_left nofun)
  have hrun := logs_runtimeExecute D env { action with metadata } command projectRoot w₂
  rw [hw₂] at hrun
  rw [Action.wp_bind]
  refine Action.wp_mono hrun (fun result w₃ h => ?_) fun _ _ h => h.cons hentries
  obtain ⟨es, hlog, hes⟩ := h.cons hentries
  rw [Action.wp_bind]
  exact (silent_onlyIf _ (silent_punish _ _)).wp (fun _ _ hw => ⟨es, hw.trans hlog, hes⟩)
    fun _ _ hw => ⟨es, hw.trans hlog, hes⟩

/-! ## A dispatch that reaches the sandbox -/

/-- A run of the sandbox. -/
def LogEntry.isSandboxRun : LogEntry → Bool
  | .sandboxRun .. => true
  | _ => false

/-- The small dispatcher runs its command in the sandbox, through the gate. -/
theorem small_dispatch_gated : ∃ es argv root,
    (smallDispatcher.execute calmHost smallRequest ["/bin/true"] "/project" smallWorld).2.log = es ∧
      .sandboxRun argv root ∈ es ∧
      Gated smallDispatcher {.processExec} smallRequest ["/bin/true"] argv root es := by
  have hcalm : calmHost.Calls smallRegistry := fun _ _ => .refl
  obtain ⟨es, hes, hgated⟩ := production_gate (D := smallDispatcher) (R := smallRegistry)
    ⟨rfl, rfl, rfl⟩ hcalm smallRequest ["/bin/true"] "/project" smallWorld
  have hany : (smallDispatcher.execute calmHost smallRequest ["/bin/true"] "/project"
      smallWorld).2.log.any LogEntry.isSandboxRun = true := by decide +kernel
  obtain ⟨entry, hentry, hrun⟩ := List.any_eq_true.1 hany
  rw [hes, show smallWorld.log = [] from rfl, List.nil_append] at hentry
  cases entry with
  | sandboxRun argv root => exact ⟨es, argv, root, hes, hentry, hgated argv root hentry⟩
  | _ => cases hrun

end Dispatch

end Bulldog
