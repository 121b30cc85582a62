import Bulldog.Domain.Freeze
import Bulldog.Dispatch.Dispatcher

/-!
# Dispatchers and frozen families

Every operation of a dispatcher asks the registry for an active domain before it does anything that
shows outside, so for a domain of a frozen family it raises and nothing is logged, with any
interference of other threads. And `execute` freezes the family of a domain whose evaluation it
returns as a violation.
-/

namespace Bulldog.Dispatch

open Domain

variable {R : Registry} {r id : Str} {w : World} {α : Type} {D : Dispatcher} {env : Env}

/-- Other threads only make calls of the registry, and `_new_id` does not return `r`. -/
def Env.Avoids (env : Env) (R : Registry) (r : Str) : Prop :=
  ∀ n s, Relation.ReflTransGen (R.StepAvoiding r) s (env.others n s)

/-- The domain is one of a frozen family. -/
structure Condemned (r id : Str) (w : World) : Prop where
  frozen : Frozen r w.domains
  member : ∃ d, w.domains.find? (·.domainId = id) = some d ∧ d.rootDomainId = r

theorem Condemned.interfere (h : Condemned r id w) (henv : env.Avoids R r) :
    Condemned r id (w.interfere env) := by
  have hrun : Relation.ReflTransGen (R.StepAvoiding r) w.domains (w.interfere env).domains :=
    henv w.accesses w.domains
  obtain ⟨d, hd, hroot⟩ := h.member
  obtain ⟨d', hd', hcharter⟩ :=
    find?_run (Relation.ReflTransGen.mono (fun _ _ => Registry.StepAvoiding.step) _ _ hrun) hd
  refine ⟨(h.frozen.run hrun).1, d', hd', ?_⟩
  rw [← hroot, ← hcharter]

/-- The registry refuses the domain. -/
theorem Condemned.requireActive (h : Condemned r id w) :
    ∃ e, Registry.requireActive id w.domains = .error e ∧ e.cls = .securityDomainError := by
  obtain ⟨d, hd, hroot⟩ := h.member
  have hfrozen := h.frozen d (List.mem_of_find?_eq_some hd) hroot
  refine ⟨securityDomainError (Registry.frozenMessage d.freezeReason), ?_, rfl⟩
  simp [Registry.requireActive, Registry.get_eq_ok.2 hd, hfrozen, raiseIf, bind, Except.bind]

/-- A method that first asks for the active domain. -/
def NeedsActive (id : Str) (f : Domains → Except Exc α) : Prop :=
  ∀ s e, Registry.requireActive id s = .error e → f s = .error e

theorem needsActive_bind {β : Type} (g : Domains → SecurityDomain → Except Exc β) :
    NeedsActive id fun s => Registry.requireActive id s >>= g s := by
  intro s e he
  simp [he, bind, Except.bind]

/-- The registry raises `SecurityDomainError`, and nothing else happens. -/
def Refuses (m : Action World Exc α) (r id : Str) (w : World) : Prop :=
  m.wp (fun _ _ => False)
    (fun e w' => e.cls = .securityDomainError ∧ Condemned r id w' ∧ w'.log = w.log) w

theorem Condemned.ask (h : Condemned r id w) (henv : env.Avoids R r) {f : Domains → Except Exc α}
    (hf : NeedsActive id f) : Refuses (ask env f) r id w := by
  obtain ⟨e, he, hcls⟩ := (h.interfere henv).requireActive
  have herror := hf _ _ he
  rw [Refuses, wp_ask, herror]
  refine ⟨nofun, ?_⟩
  rintro _ ⟨⟩
  exact ⟨hcls, h.interfere henv, rfl⟩

/-- An operation raises, and nothing is logged. -/
def Fails (m : Action World Exc α) (w : World) : Prop :=
  m.wp (fun _ _ => False) (fun _ w' => w'.log = w.log) w

theorem Fails.apply {m : Action World Exc α} (h : Fails m w) :
    ∃ e w', m w = (.error e, w') ∧ w'.log = w.log := by
  unfold Fails Action.wp at h
  rcases hm : m w with ⟨e | a, w'⟩
  · rw [hm] at h
    exact ⟨e, w', rfl, h⟩
  · rw [hm] at h
    exact h.elim

/-- What comes first fails. -/
theorem Fails.bind {β : Type} {m : Action World Exc β} (h : Fails m w) (f : β → Action World Exc α) :
    Fails (m >>= f) w := by
  rw [Fails, Action.wp_bind]
  exact Action.wp_mono h (fun _ _ => False.elim) fun _ _ h => h

theorem Refuses.bind {β : Type} {m : Action World Exc β} (h : Refuses m r id w)
    (f : β → Action World Exc α) : Refuses (m >>= f) r id w := by
  rw [Refuses, Action.wp_bind]
  exact Action.wp_mono h (fun _ _ => False.elim) fun _ _ h => h

/-- What comes after a check fails. -/
theorem Fails.lift_bind {β : Type} (x : Except Exc β) {f : β → Action World Exc α}
    (h : ∀ b, Fails (f b) w) : Fails (liftM x >>= f) w := by
  rw [Fails, Action.wp_bind, Action.wp_lift]
  exact ⟨fun b _ => h b, fun _ _ => rfl⟩

theorem Fails.onlyIf_bind (c : Prop) [Decidable c] (x : Except Exc Unit)
    {f : Unit → Action World Exc α} (h : ∀ b, Fails (f b) w) :
    Fails (Action.onlyIf c (liftM x) >>= f) w := by
  rw [Fails, Action.wp_bind, Action.wp_onlyIf, Action.wp_lift]
  exact ⟨fun _ => ⟨fun b _ => h b, fun _ _ => rfl⟩, fun _ => h ()⟩

/-- A refusal of the registry is a denial of the dispatcher. -/
theorem Refuses.denying {m : Action World Exc α} (h : Refuses m r id w) :
    Fails (Dispatcher.denying m) w := by
  rw [Fails, Dispatcher.denying, wp_except]
  refine Action.wp_mono h (fun _ _ => False.elim) fun e w' he => ?_
  rw [if_pos he.1]
  exact he.2.2

section Methods

variable (id)

theorem needsActive_requireActive : NeedsActive id (Registry.requireActive id) := fun _ _ h => h

theorem needsActive_assertCapabilities (requested : Finset Capability) :
    NeedsActive id (Registry.assertCapabilities id requested) := needsActive_bind _

theorem needsActive_assertEgress (L : Urllib) (url : Str) :
    NeedsActive id (Registry.assertEgress L id url) := needsActive_bind _

end Methods

/-- `execute` on a condemned domain. -/
theorem Condemned.execute (h : Condemned r id w) (henv : env.Avoids R r)
    (hregistry : D.registry = some R)
    {request : DispatchRequest} (hid : request.domainId = some id) (command : List Str)
    (projectRoot : Str) : Fails (D.execute env request command projectRoot) w := by
  unfold Dispatcher.execute
  refine Fails.onlyIf_bind _ _ fun _ => Fails.bind (Fails.bind ?_ _) _
  unfold Dispatcher.trustedContextFor
  rw [hregistry, hid]
  refine Fails.lift_bind _ fun _ => ?_
  exact ((h.ask henv (needsActive_assertCapabilities id _)).bind _).denying

/-- `issue_domain_secret_grant` on a condemned domain. -/
theorem Condemned.issueDomainSecretGrant (h : Condemned r id w) (henv : env.Avoids R r)
    (allowedNames : Finset Str) (maxUses : ℤ) : Fails (D.issueDomainSecretGrant env id allowedNames maxUses) w := by
  unfold Dispatcher.issueDomainSecretGrant
  refine Fails.lift_bind _ fun _ => Fails.lift_bind _ fun _ => ?_
  exact ((h.ask henv (needsActive_requireActive id)).bind _).denying.bind _

/-- `get_secret` on a condemned domain. -/
theorem Condemned.getSecret (h : Condemned r id w) (henv : env.Avoids R r)
    (hregistry : D.registry = some R)
    (token name : Str) (sandboxId : Option Str) (request : Option DispatchRequest)
    (approval : Bool) : Fails (D.getSecret env token name sandboxId (some id) request approval) w := by
  unfold Dispatcher.getSecret
  refine Fails.lift_bind _ fun _ => Fails.bind ?_ _
  unfold Dispatcher.authorizeSecret
  rw [hregistry]
  refine Fails.lift_bind _ fun _ => ?_
  exact (h.ask henv (needsActive_requireActive id)).denying.bind _

/-- `fetch_egress` on a condemned domain, whose own event is refused as well. -/
theorem Condemned.fetchEgress (h : Condemned r id w) (henv : env.Avoids R r)
    (hregistry : D.registry = some R)
    (url method : Str) (request : Option DispatchRequest) (approval : Bool) :
    Fails (D.fetchEgress env url method (some id) request approval) w := by
  unfold Dispatcher.fetchEgress
  refine Fails.lift_bind _ fun _ => Fails.bind ?_ _
  unfold Dispatcher.authorizeEgress
  rw [hregistry]
  refine Fails.lift_bind _ fun _ => Fails.bind ?_ _
  rw [Fails, Dispatcher.checkEgress, wp_except]
  refine Action.wp_mono (h.ask henv (needsActive_assertEgress id _ url)) (fun _ _ => False.elim)
    fun e w' he => ?_
  obtain ⟨hcls, hcondemned, hlog⟩ := he
  rw [if_pos hcls, Action.wp_bind, wp_except]
  refine Action.wp_mono ((hcondemned.ask henv (needsActive_requireActive id)).bind _)
    (fun _ _ => False.elim) fun e' w'' he' => ?_
  rw [if_pos he'.1]
  exact he'.2.2.trans hlog

/-! ## Violations -/

/-- Other threads only make calls of the registry. -/
def Env.Calls (env : Env) (R : Registry) : Prop :=
  ∀ n s, Relation.ReflTransGen R.Step s (env.others n s)

/-- The registry is as `freeze_root` left it for the family of the domain. -/
def Punished (id : Str) (domains : Domains) : Prop :=
  ∃ d s reason, domains.find? (·.domainId = id) = some d ∧
    domains = Registry.freezeFamily d.rootDomainId reason s

/-- The end of `execute` freezes the family after a violation. -/
theorem punish_spec (henv : env.Calls R) (evaluation : Evaluation) (w : World) :
    (Dispatcher.punish env id evaluation).wp
      (fun _ w' => Dispatcher.isViolation evaluation = true → Punished id w'.domains)
      (fun _ _ => True) w := by
  rw [Dispatcher.punish, Action.wp_onlyIf]
  refine ⟨fun _ => ?_, fun hno hv => absurd hv hno⟩
  rw [Action.wp_bind, wp_ask]
  refine ⟨fun d hd => ?_, fun _ _ => trivial⟩
  rw [wp_access]
  set w₂ := (w.interfere env).interfere env
  obtain ⟨d₂, hd₂, hcharter₂⟩ : ∃ d₂, w₂.domains.find? (·.domainId = id) = some d₂ ∧
      d₂.toCharter = d.toCharter :=
    find?_run (henv (w.interfere env).accesses _) (Registry.get_eq_ok.1 hd)
  generalize (if evaluation.hardBlock = true then "hard policy block".toList
    else "cross-agent behavioral violation".toList) = reason
  have hstate := Registry.freezeRoot_state env.sink d.rootDomainId reason w₂.domains
  rw [← Action.wp_state (P := (· = Registry.freezeFamily d.rootDomainId reason w₂.domains))] at hstate
  refine Action.wp_mono hstate (fun _ s hs _ => ?_) fun _ _ _ => trivial
  have hchange : Change R none w₂.domains (Registry.freezeFamily d.rootDomainId reason w₂.domains) :=
    Registry.change_freezeFamily
  obtain ⟨d₃, hd₃, hcharter₃⟩ := hchange.find? hd₂
  refine ⟨d₃, w₂.domains, reason, by rw [hs]; exact hd₃, ?_⟩
  rw [hcharter₃, hcharter₂]
  exact hs

/-- `execute` freezes the family of a domain whose evaluation it returns as a violation. -/
theorem execute_violation (henv : env.Calls R) (hregistry : D.registry = some R)
    (hfreeze : D.freezeOnViolation = true) {request : DispatchRequest}
    (hid : request.domainId = some id) (command : List Str) (projectRoot : Str) (w : World) :
    (D.execute env request command projectRoot).wp
      (fun result w' => Dispatcher.isViolation result.evaluation = true → Punished id w'.domains)
      (fun _ _ => True) w := by
  unfold Dispatcher.execute
  simp only [Action.wp_bind, Action.wp_pure]
  -- Whatever comes before, the last step decides.
  refine Action.wp_of_forall (fun _ w => ?_) fun _ _ => trivial
  refine Action.wp_of_forall (fun _ w => ?_) fun _ _ => trivial
  refine Action.wp_of_forall (fun _ w => ?_) fun _ _ => trivial
  refine Action.wp_of_forall (fun _ w => ?_) fun _ _ => trivial
  refine Action.wp_of_forall (fun result w => ?_) fun _ _ => trivial
  rw [hregistry, hfreeze, hid, Action.wp_onlyIf]
  exact ⟨fun _ => punish_spec henv result.evaluation w, fun hno => absurd ⟨rfl, rfl⟩ hno⟩

/-- Once the locked section of `freeze_root(r)` is over, whether or not its audit emission raises, in
every later state the domains of the family are frozen and are the same as before, and every
operation of a dispatcher for one of them raises and does nothing outside. And where `execute` with
`freeze_on_violation` returns a violation, the family of the domain has just gone through such a
section. -/
theorem root_freeze_complete (R : Registry) (sink : Event → Except Exc Unit) (r reason : Str)
    (s s' : Domains)
    (hrun : Relation.ReflTransGen (R.StepAvoiding r) (Registry.freezeRoot sink r reason s).2 s') :
    Frozen r s' ∧ family r s' = family r s ∧
      (∀ (D : Dispatcher) (env : Env) (w : World) (d : SecurityDomain), D.registry = some R →
        env.Avoids R r → w.domains = s' → s'.find? (·.domainId = d.domainId) = some d →
        d.rootDomainId = r →
        (∀ request command projectRoot, request.domainId = some d.domainId →
          Fails (D.execute env request command projectRoot) w) ∧
        (∀ names maxUses, Fails (D.issueDomainSecretGrant env d.domainId names maxUses) w) ∧
        (∀ token name sandboxId request approval,
          Fails (D.getSecret env token name sandboxId (some d.domainId) request approval) w) ∧
        ∀ url method request approval,
          Fails (D.fetchEgress env url method (some d.domainId) request approval) w) ∧
      ∀ (D : Dispatcher) (env : Env) (w w' : World) (id : Str) (request : DispatchRequest)
        (command : List Str) (projectRoot : Str) (result : ExecutionResult),
        D.registry = some R → D.freezeOnViolation = true → env.Calls R →
        request.domainId = some id →
        D.execute env request command projectRoot w = (.ok result, w') →
        Dispatcher.isViolation result.evaluation = true → Punished id w'.domains := by
  rw [Registry.freezeRoot_state] at hrun
  obtain ⟨hfrozen, hfamily⟩ := (frozen_freezeFamily r reason s).run hrun
  refine ⟨hfrozen, hfamily.trans (family_freezeFamily r reason s), ?_, ?_⟩
  · intro D env w d hregistry henv hw hd hroot
    have h : Condemned r d.domainId w := ⟨by rwa [hw], d, by rwa [hw], hroot⟩
    exact ⟨fun request command projectRoot hid =>
        h.execute henv hregistry hid command projectRoot,
      h.issueDomainSecretGrant henv, h.getSecret henv hregistry, h.fetchEgress henv hregistry⟩
  · intro D env w w' id request command projectRoot result hregistry hfreeze henv hid hexecute
    have h := execute_violation henv hregistry hfreeze hid command projectRoot w
    unfold Action.wp at h
    rw [hexecute] at h
    exact h

/-! ## A small family -/

/-- A host with one thread, on which everything works. -/
def calmHost : Env where
  others _ s := s
  str _ := ""
  sink _ := .ok ()
  advise _ := .ok ⟨some 0, .allow, ""⟩
  append _ _ := .ok ()
  verifyTrustedState := .ok ()
  resolve := .ok
  createSnapshot _ := .ok ⟨"/scratch/snapshot", "tree"⟩
  buildManifest _ := .ok ()
  scanProject _ := .ok ⟨true, []⟩
  hashTree _ := .ok "tree"
  sandboxRun _ _ := .ok ⟨0, [], []⟩
  destroySnapshot _ := .ok ()
  resolveHost _ _ := .ok "192.0.2.1"
  respond _ _ _ := .ok ⟨200, [], []⟩
  requestSecret := .ok "value"
  issueGrant := .ok ⟨"token", ∅, none, 1⟩
  approvalGate := .ok ⟨[], "digest"⟩
  consume := .ok "request"
  currentDigest := .ok "digest"
  finish _ _ := .ok ()

/-- A production dispatcher whose signed ceiling is `process.exec`. -/
def smallDispatcher : Dispatcher where
  kind := .production [1]
  registry := some smallRegistry
  runtime :=
    { crypto := .standard
      engine := ⟨⟨.ascii, fun _ => false⟩, ⟨"/workspace", some {.processExec}⟩, 8⟩
      malwareScanRequired := true
      hasScanner := true
      requireFullArgvBinding := true }
  hasSecretBroker := false
  egressBroker := none
  freezeOnViolation := true

/-- A host with one root domain that may execute commands. -/
def smallWorld : World where
  domains := (smallRegistry.perform (fun _ => .ok ()) (.createRoot "root"
    ⟨"agent", "goal", [.processExec], [.human], [], none, none⟩) []).2
  history := []
  trace := ⟨{}, []⟩
  log := []
  accesses := 0

/-- A request of that domain to run one command. -/
def smallRequest : DispatchRequest where
  proposal := ⟨"task", "execute", "/bin/true"⟩
  trusted := ⟨"agent", [.human], [], none, none, none, none, none, none, none, none, 0⟩
  grantedCapabilities := {.processExec}
  parentCapabilities := none
  domainId := some "root"
  authorizedCommand := some ["/bin/true"]

/-- The small family is frozen, and another root is created. -/
def laterDomains : Domains :=
  (smallRegistry.perform (fun _ => .ok ()) (.createRoot "other" spawner)
    (Registry.freezeRoot (fun _ => .ok ()) "root" "stop" smallFamily).2).2

/-- The family stays frozen, and a command of its root fails. -/
theorem small_family_frozen :
    (∃ d ∈ laterDomains, d.rootDomainId = "other".toList) ∧
      (family "root" laterDomains).length = 2 ∧ Frozen "root" laterDomains ∧
      Fails (smallDispatcher.execute calmHost smallRequest ["/bin/true"] "/project")
        { smallWorld with domains := laterDomains } := by
  have hfresh : Registry.Fresh (.createRoot "other" spawner)
      (Registry.freezeRoot (fun _ => .ok ()) "root" "stop" smallFamily).2 := by
    rintro id ⟨⟩
    decide
  have hlater : Relation.ReflTransGen (smallRegistry.StepAvoiding "root")
      (Registry.freezeRoot (fun _ => .ok ()) "root" "stop" smallFamily).2 laterDomains :=
    .single ⟨_, .createRoot "other" spawner, hfresh, by decide, rfl⟩
  obtain ⟨hfrozen, -, hfails, -⟩ := root_freeze_complete smallRegistry (fun _ => .ok ()) "root" "stop" smallFamily
    laterDomains hlater
  obtain ⟨d, hd, hid, hroot⟩ : ∃ d, laterDomains.find? (·.domainId = "root".toList) = some d ∧
      d.domainId = "root".toList ∧ d.rootDomainId = "root".toList := ⟨_, rfl, rfl, rfl⟩
  rw [← hid] at hd
  refine ⟨⟨_, List.mem_cons_of_mem _ (List.mem_cons_of_mem _ List.mem_cons_self), rfl⟩, by decide, hfrozen, ?_⟩
  exact (hfails smallDispatcher calmHost { smallWorld with domains := laterDomains } d rfl (fun _ _ => .refl) rfl hd
    hroot).1 smallRequest ["/bin/true"] "/project" (congrArg some hid.symm)

end Bulldog.Dispatch
