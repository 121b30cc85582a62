import Mathlib
import Bulldog.Dispatch.Gate

/-!
# Where egress goes

`fetch_egress` checks the host of the URL that it is given against the domain's hosts, and then lets
the broker fetch the canonical form of that URL, which is percent-decoded. Decoding can move the end
of the authority, so the two hosts can differ. `egress_confined_iff` says for which URLs and domains of
a registry they never do, over all dispatchers and hosts.
-/

namespace Bulldog

namespace Policy

variable {L : Urllib} {policy : DeterministicPolicy} {action : ActionRequest}

/-- A URL in which the policy finds nothing to hold against a network request. -/
structure Innocuous (L : Urllib) (url : Str) : Prop where
  traversal : "..".toList ∉ slashParts url
  encoded : "..".toList ∉ slashParts (unquote url)
  canary : canaryMarkers.any (Str.contains (L.unicode.lower (unquote url))) = false
  sensitive : sensitivePathMarkers.any (Str.contains (pathStr (unquote url))) = false
  secrets : secretHints.any (Str.contains (queryOf L (unquote url))) = false

/-- A network request as `canonicalize_action` makes it. -/
structure IsRequest (action : ActionRequest) : Prop where
  capability : action.capability = .networkOutbound ∨ action.capability = .networkPost
  irreversible : action.irreversible = false
  externalSideEffect : action.externalSideEffect = false

/-- What is left of `assess` for a network request. -/
theorem assess_request (h : IsRequest action) (score : Score) (external : Bool) :
    (assess L action score external).decision = decide (min
      ((score.when (external ∧ action.capability = .networkPost)
        "externally influenced outbound data transfer" (max · (90 / 100))).when
        (secretHints.any (Str.contains (queryOf L (unquote action.resource))))
        "outbound resource contains possible secret-bearing data" (max · (90 / 100))).risk 1) := by
  obtain ⟨hcapability, hirreversible, hexternal⟩ := h
  rcases hcapability with hc | hc <;>
    simp [assess, hc, hirreversible, hexternal, Score.when, highRiskCapabilities]

theorem Score.le_when (score : Score) (c : Prop) [Decidable c] (reason : String) {f : ℚ → ℚ}
    (hf : ∀ risk, risk ≤ f risk) : score.risk ≤ (score.when c reason f).risk := by
  unfold Score.when
  split_ifs
  · exact hf _
  · exact le_rfl

theorem Score.risk_when {c : Prop} [Decidable c] (hc : c) (score : Score) (reason : String)
    (f : ℚ → ℚ) : (score.when c reason f).risk = f score.risk := by
  rw [Score.when, if_pos hc]

/-- Only a low risk is allowed. -/
theorem risk_lt_of_decide {risk : ℚ} (h : decide (min risk 1) = .allow) : risk < 55 / 100 := by
  unfold decide at h
  split_ifs at h with h85 h55
  rcases min_lt_iff.1 (not_le.1 h55) with hrisk | hone
  · exact hrisk
  · norm_num at hone

/-- A resource that is security-sensitive is risky. -/
theorem le_risk_of_sensitive
    (h : sensitivePathMarkers.any (Str.contains (pathStr (unquote action.resource))) = true) :
    70 / 100 ≤ (resourceScore L action).risk := by
  unfold resourceScore
  dsimp only
  refine le_trans ?_ (Score.le_when _ _ _ fun risk => by linarith)
  refine le_trans ?_ (Score.le_when _ _ _ fun risk => le_max_left _ _)
  rw [Score.risk_when h]
  norm_num

/-- The policy allows a network request only to an innocuous URL, and no upload on external advice. -/
theorem innocuous_of_allow (h : IsRequest action)
    (hallow : (evaluate L policy action).decision = .allow) :
    Innocuous L action.resource ∧
      (action.capability = .networkPost → hasExternalProvenance action.provenance = false) := by
  unfold evaluate at hallow
  dsimp only at hallow
  split_ifs at hallow with _ _ _ htraversal hencoded _ hcanary
  any_goals cases hallow
  rw [assess_request h] at hallow
  have hrisk := risk_lt_of_decide hallow
  have hmax : ∀ risk : ℚ, risk ≤ max risk (90 / 100) := fun risk => le_max_left _ _
  refine ⟨⟨htraversal, hencoded, by simpa using hcanary, ?_, ?_⟩, fun hpost => ?_⟩
  · by_contra hsensitive
    have hscore := le_risk_of_sensitive (L := L) (Bool.not_eq_false _ |>.mp hsensitive)
    refine absurd hrisk (not_lt.2 ?_)
    refine le_trans ?_ (Score.le_when _ _ _ hmax)
    refine le_trans ?_ (Score.le_when _ _ _ hmax)
    linarith
  · by_contra hsecrets
    rw [Score.risk_when (Bool.not_eq_false _ |>.mp hsecrets)] at hrisk
    linarith [(le_max_right _ (90 / 100 : ℚ)).trans_lt hrisk]
  · by_contra hexternal
    refine absurd hrisk (not_lt.2 ?_)
    refine le_trans ?_ (Score.le_when _ _ _ hmax)
    rw [Score.risk_when ⟨Bool.not_eq_false _ |>.mp hexternal, hpost⟩]
    exact le_trans (by norm_num) (le_max_right _ (90 / 100 : ℚ))

/-- External provenance alone is no great risk. -/
theorem resourceScore_risk_le
    (hproject : ¬ (action.capability = .fsWriteHome ∨ action.capability = .securityControlWrite))
    (hsensitive : sensitivePathMarkers.any (Str.contains (pathStr (unquote action.resource))) = false) :
    (resourceScore L action).risk ≤ 25 / 100 := by
  simp only [resourceScore, Score.when, hsensitive, hproject, and_false, Bool.false_eq_true, if_false]
  split_ifs <;> norm_num

/-- It allows one there, where nothing else is in the way. -/
theorem evaluate_innocuous (h : IsRequest action) (hurl : Innocuous L action.resource)
    (hglobal : policy.globalCapabilityCeiling = none)
    (hgranted : action.capability ∈ action.grantedCapabilities)
    (hparent : ¬ action.parentCapabilities.any (action.capability ∉ ·) = true)
    (hprovenance : action.capability = .networkPost →
      hasExternalProvenance action.provenance = false) :
    (evaluate L policy action).decision = .allow := by
  obtain ⟨htraversal, hencoded, hcanary, hsensitive, hsecrets⟩ := hurl
  have hproject : ¬ (action.capability = .fsReadProject ∨ action.capability = .fsWriteProject) := by
    rcases h.capability with hc | hc <;> simp [hc]
  have hhome : ¬ (action.capability = .fsWriteHome ∨ action.capability = .securityControlWrite) := by
    rcases h.capability with hc | hc <;> simp [hc]
  have hscore := resourceScore_risk_le (L := L) hhome hsensitive
  have hexternal : ¬ (hasExternalProvenance action.provenance = true ∧
      action.capability = .networkPost) := fun hboth => by
    rw [hprovenance hboth.2] at hboth
    cases hboth.1
  unfold evaluate
  dsimp only
  rw [hglobal, if_neg nofun, if_neg (not_not.2 hgranted), if_neg hparent, if_neg htraversal,
    if_neg hencoded, if_neg (fun hc => hproject hc.1), if_neg (by simp [hcanary]), assess_request h]
  simp only [Score.when, hexternal, hsecrets, if_false, Bool.false_eq_true]
  have hlt : min (resourceScore L action).risk 1 < 55 / 100 :=
    (min_le_left _ _).trans_lt (hscore.trans_lt (by norm_num))
  rw [decide, if_neg (not_le.2 (hlt.trans (by norm_num))), if_neg (not_le.2 hlt)]

end Policy

theorem Decision.max_eq_allow {a b : Decision} (h : a.max b = .allow) : a = .allow := by
  revert h
  cases a <;> cases b <;> decide

/-- The guard only tightens a verdict. -/
theorem SessionGuard.judge_allow {events : List SessionEvent} {action : ActionRequest}
    {evaluation : Evaluation} (h : (judge events action evaluation).decision = .allow) :
    evaluation.decision = .allow := by
  unfold judge at h
  split_ifs at h
  · exact h
  · exact Decision.max_eq_allow h

namespace BulldogEngine

variable {engine : BulldogEngine} {action : ActionRequest}

theorem combine_allow {advisory : Advisory} (h : (engine.combine action advisory).decision = .allow) :
    (Policy.evaluate engine.urllib engine.policy action).decision = .allow := by
  unfold combine at h
  dsimp only at h
  split_ifs at h
  · exact h
  all_goals exact Decision.max_eq_allow h

/-- An engine allows only what its policy allows. -/
theorem evaluate_allow (engine : BulldogEngine) (advise : ActionRequest → Except Exc Advisory)
    (append : ActionRequest → Evaluation → Except Exc Unit) (action : ActionRequest)
    (history : History) :
    (engine.evaluate advise append action).wp
      (fun evaluation _ => evaluation.decision = .allow →
        (Policy.evaluate engine.urllib engine.policy action).decision = .allow)
      (fun _ _ => True) history := by
  unfold evaluate
  simp only [Action.wp_bind, Action.wp_read, Action.wp_update, Action.wp_pure]
  refine Action.wp_lift_intro (fun advisory _ => ?_) fun _ => trivial
  refine Action.wp_lift_intro (fun _ _ => ?_) fun _ => trivial
  exact fun h => combine_allow (SessionGuard.judge_allow h)

/-- With no history and nothing from the model, it allows all of that. -/
theorem evaluate_first (engine : BulldogEngine) (action : ActionRequest)
    (h : (Policy.evaluate engine.urllib engine.policy action).decision = .allow) :
    (engine.evaluate (fun _ => .ok ⟨some 0, .allow, ""⟩) (fun _ _ => .ok ()) action).wp
      (fun evaluation _ => evaluation.decision = .allow) (fun _ _ => False) [] := by
  have hhard : (Policy.evaluate engine.urllib engine.policy action).hardBlock = false := by
    by_contra hblock
    rw [Policy.evaluate_deny (Bool.not_eq_false _ |>.mp hblock)] at h
    cases h
  have hcombine : (engine.combine action ⟨some 0, .allow, ""⟩).decision = .allow := by
    simp [combine, hhard, h, Decision.max]
  have hflags : SessionGuard.flags [] action.capability = [] := by
    simp [SessionGuard.flags, SessionGuard.lastN]
  unfold evaluate advisoryFor
  rw [hhard]
  simp only [Bool.false_eq_true, if_false, Action.wp_bind, Action.wp_read, Action.wp_update,
    Action.wp_pure]
  change (SessionGuard.judge [] action _).decision = .allow
  rw [SessionGuard.judge, if_pos (.inr hflags)]
  exact hcombine

end BulldogEngine

namespace Dispatch

open Domain

variable {R : Registry} {D : Dispatcher} {env : Env} {w : World} {L : Urllib}

/-! ## What is fetched -/

/-- No fetch. -/
def NoFetch (es : List LogEntry) : Prop := ∀ method url, .fetch method url ∉ es

/-- Fetches of this URL only. -/
def FetchesOnly (url : Str) (es : List LogEntry) : Prop :=
  ∀ method url', .fetch method url' ∈ es → url' = url

/-- The broker is called with the URL that it is given. -/
theorem logs_fetch (broker : EgressBroker) (method url : Str) :
    Logs (broker.fetch L env method url) fun es =>
      .fetch method url ∈ es ∧ FetchesOnly url es := by
  refine logs_record (P := NoFetch) ?_ fun es hes =>
    ⟨List.mem_cons_self, fun method' url' hmem => ?_⟩
  · refine (silent_lift _).bind_logs nofun fun admitted => ?_
    refine (silent_lift _).bind_logs nofun fun address => ?_
    refine logs_record (P := (· = [])) ((silent_lift _).logs rfl) fun es hes => ?_
    rw [hes]
    exact fun method url hmem => nomatch List.mem_singleton.1 hmem
  · rcases List.mem_cons.1 hmem with heq | hmem
    · cases heq
      rfl
    · exact absurd hmem (hes method' url')

theorem silent_recordBrokerEvent (id broker operation : Str) (allowed : Bool) (detail : Event) :
    Silent (Dispatcher.recordBrokerEvent env id broker operation allowed detail) :=
  (silent_access env _).bind fun _ => silent_lift _

/-- An effect happens at most once, whether or not it needs an approval. -/
theorem logs_performBrokerEffect {α : Type} {action : ActionRequest} {call : BrokerCall}
    {approval : Bool} {effect : Action World Exc α} {P : List LogEntry → Prop} (h : Logs effect P)
    (hnil : P []) : Logs (D.performBrokerEffect env action call approval effect) P := by
  unfold Dispatcher.performBrokerEffect
  split
  · exact (silent_lift _).bind_logs hnil fun _ => h
  · refine (silent_lift _).bind_logs hnil fun gate => ?_
    split_ifs
    · exact (silent_lift _).bind_logs hnil fun _ => h
    · refine (silent_lift _).bind_logs hnil fun requestId => Logs.bind_silent (Logs.handle ?_ ?_) ?_
      · refine (silent_lift _).bind_logs hnil fun _ => (silent_lift _).bind_logs hnil fun _ =>
          (silent_lift _).bind_logs hnil fun _ => Silent.bind_logs ?_ hnil fun _ => h
        exact silent_onlyIf _ ((silent_lift _).bind fun _ => (silent_access env _).bind fun _ =>
          silent_pure _)
      · exact fun _ => (silent_lift _).bind fun _ => silent_raise _
      · exact fun _ => (silent_lift _).bind fun _ => silent_pure _

/-- Recording the outcome of an effect adds nothing. -/
theorem logs_brokered {α : Type} {domainId : Option Str} {broker operation : Str}
    {failed : Exc → Event} {done : α → Event} {m : Action World Exc α} {P : List LogEntry → Prop}
    (h : Logs m P) : Logs (D.brokered env domainId broker operation failed done m) P := by
  unfold Dispatcher.brokered
  refine (h.handle fun e => ?_).bind_silent fun value => ?_
  · split
    · exact (silent_recordBrokerEvent _ _ _ _ _).bind fun _ => silent_raise _
    · exact silent_raise _
  · split
    · exact (silent_recordBrokerEvent _ _ _ _ _).bind fun _ => silent_pure _
    · exact silent_pure _

/-! ## What is authorised -/

/-- The URL `u` that an authorised call of `fetch_egress(url, method)` of a domain asks the broker
for. -/
structure Authorized (L : Urllib) (c : Charter) (url method u : Str) : Prop where
  granted : Dispatcher.egressCapability method ∈ c.capabilityCeiling
  provenance : Dispatcher.egressCapability method = .networkPost →
    hasExternalProvenance c.provenance = false
  canonical : Canonicalizer.canonicalizeResource L (Dispatcher.egressOperation method)
    (Str.strip url) = .ok u
  capability : Canonicalizer.deriveCapability L (Dispatcher.egressOperation method) u =
    .ok (Dispatcher.egressCapability method)
  innocuous : Policy.Innocuous L u

theorem strip_egressOperation (method : Str) :
    Str.strip (Dispatcher.egressOperation method) = Dispatcher.egressOperation method := by
  unfold Dispatcher.egressOperation
  split_ifs <;> rfl

theorem isRequest_egress {method : Str} {action : ActionRequest} {proposal : Proposal}
    {granted : Finset Capability} {parent : Option (Finset Capability)}
    (h : Canonical L proposal granted parent action)
    (hcapability : action.capability = Dispatcher.egressCapability method) :
    Policy.IsRequest action := by
  refine ⟨?_, h.irreversible, h.externalSideEffect⟩
  rw [hcapability, Dispatcher.egressCapability]
  split_ifs
  · exact .inl rfl
  · exact .inr rfl

/-- The domain that a registry has under an id, whatever other threads have done to it. -/
def Chartered (c : Charter) (w : World) : Prop :=
  ∃ d, w.domains.find? (·.domainId = c.domainId) = some d ∧ d.toCharter = c

theorem Chartered.interfere {c : Charter} (h : Chartered c w) (henv : env.Calls R) :
    Chartered c (w.interfere env) := by
  obtain ⟨d, hd, rfl⟩ := h
  exact find?_run (henv w.accesses w.domains) hd

theorem Chartered.charter_eq {c : Charter} (h : Chartered c w) {d : SecurityDomain}
    (hd : w.domains.find? (·.domainId = c.domainId) = some d) : d.toCharter = c := by
  obtain ⟨d', hd', hcharter⟩ := h
  obtain rfl := Option.some.inj (hd.symm.trans hd')
  exact hcharter

/-- A host of the domain is in the URL that is checked. -/
theorem checkEgress_spec (D : Dispatcher) (env : Env) (id url method : Str) (w : World) :
    (D.checkEgress env id url method).wp
      (fun _ w' => w' = w.interfere env ∧ ∃ d host,
        (w.interfere env).domains.find? (·.domainId = id) = some d ∧
        Registry.hostOf D.runtime.engine.urllib url = .ok host ∧ host ≠ [] ∧ host ∈ d.egressHosts)
      (fun _ w' => w'.log = w.log) w := by
  rw [Dispatcher.checkEgress, wp_except, wp_ask]
  constructor
  · intro _ hassert
    obtain ⟨d, hd, hrest⟩ := bind_eq_ok.1 hassert
    obtain ⟨host, hhost, hmem⟩ := bind_eq_ok.1 hrest
    obtain ⟨hne, hmem⟩ := not_or.1 (raiseIf_eq_ok.1 hmem)
    exact ⟨rfl, d, host, (Registry.requireActive_eq_ok.1 hd).1, hhost, hne, not_not.1 hmem⟩
  · intro e _
    split_ifs
    · rw [Action.wp_bind]
      exact Silent.wp (silent_except _ (silent_recordBrokerEvent _ _ _ _ _) fun _ => silent_pure _)
        (fun _ _ hw => hw) fun _ _ hw => hw
    · rfl

/-- A broker action goes on only where the policy allows it. -/
theorem evaluateBrokerAction_spec (D : Dispatcher) (env : Env) (action : ActionRequest) (w : World) :
    (D.evaluateBrokerAction env action).wp
      (fun action' w' => Appends w.log NoFetch w' ∧ action' = action ∧
        (Policy.evaluate D.runtime.engine.urllib D.runtime.engine.policy action).decision = .allow)
      (fun _ w' => Appends w.log NoFetch w') w := by
  unfold Dispatcher.evaluateBrokerAction BulldogRuntime.evaluate
  rw [Action.wp_bind]
  refine (silent_onlyIf _ (silent_lift _)).wp (fun _ w₀ hw₀ => ?_) fun _ _ hw => .nil hw nofun
  simp only [Action.wp_bind, Action.wp_zoom, wp_record, Action.wp_pure]
  refine Action.wp_mono (D.runtime.engine.evaluate_allow env.advise env.append action w₀.history)
    (fun evaluation history h => ?_) fun _ _ _ => .nil hw₀ nofun
  have hlog (w' : World) (hw' : w'.log = w₀.log ++ [.evaluated action evaluation]) :
      Appends w.log NoFetch w' :=
    ⟨[.evaluated action evaluation], by rw [hw', hw₀], by simp [NoFetch]⟩
  refine Action.wp_lift_intro (fun _ hallow => ⟨hlog _ rfl, trivial, h ?_⟩) fun _ => hlog _ rfl
  exact not_not.1 (raiseIf_eq_ok.1 hallow)

/-- The registry answers for the domain with what it was created with. -/
theorem domainAuthority_spec {c : Charter} (henv : env.Calls R) (hc : Chartered c w)
    (expected : Capability) :
    (Dispatcher.domainAuthority env c.domainId expected).wp
      (fun authority w' => w'.log = w.log ∧ expected ∈ c.capabilityCeiling ∧
        authority.1 = c.capabilityCeiling ∧ authority.2.1.provenance = c.provenance)
      (fun _ w' => w'.log = w.log) w := by
  unfold Dispatcher.domainAuthority
  refine wp_denying ?_
  rw [Action.wp_bind, wp_ask]
  refine ⟨fun d hd => ?_, fun _ _ => rfl⟩
  have hc₁ := hc.interfere henv
  have hcharter := hc₁.charter_eq (Registry.requireActive_eq_ok.1 hd).1
  rw [Action.wp_bind]
  refine Action.wp_lift_intro (fun _ hgranted => ?_) fun _ => rfl
  have hgranted := not_not.1 (raiseIf_eq_ok.1 hgranted)
  rw [Action.wp_bind, wp_ask]
  refine ⟨fun trusted htrusted => ?_, fun _ _ => rfl⟩
  have hc₂ := hc₁.interfere henv
  obtain ⟨d', hd', htrusted⟩ := bind_eq_ok.1 htrusted
  have hcharter' := hc₂.charter_eq (Registry.requireActive_eq_ok.1 hd').1
  obtain rfl := Except.ok.inj htrusted
  rw [Action.wp_bind, wp_ask]
  refine ⟨fun parent _ => ⟨rfl, ?_, ?_, ?_⟩, fun _ _ => rfl⟩
  · rw [← hcharter]
    exact hgranted
  · rw [← hcharter]
  · rw [← hcharter']

theorem canonicalizeAction_provenance {proposal : Proposal} {trusted : TrustedExecutionContext}
    {granted : Finset Capability} {parent : Option (Finset Capability)} {action : ActionRequest}
    (h : Canonicalizer.canonicalizeAction L proposal trusted granted parent = .ok action) :
    action.provenance = trusted.provenance := by
  simp only [Canonicalizer.canonicalizeAction, bind_eq_ok] at h
  obtain ⟨-, -, resource, -, capability, -, ⟨⟩⟩ := h
  rfl

/-- The action of an authorised fetch. -/
theorem authorizeDomainBrokerAction_spec (D : Dispatcher) {c : Charter} (henv : env.Calls R)
    (hc : Chartered c w) (url method : Str) :
    (D.authorizeDomainBrokerAction env c.domainId
      ⟨"brokered network egress", Dispatcher.egressOperation method, url⟩
      (Dispatcher.egressCapability method)).wp
      (fun action w' => Appends w.log NoFetch w' ∧
        Authorized D.runtime.engine.urllib c url method action.resource)
      (fun _ w' => Appends w.log NoFetch w') w := by
  unfold Dispatcher.authorizeDomainBrokerAction
  rw [Action.wp_bind]
  refine Action.wp_mono (domainAuthority_spec henv hc _) (fun authority w₁ h => ?_)
    fun _ _ hw => .nil hw nofun
  obtain ⟨hw₁, hgranted, -, hprovenance⟩ := h
  rw [Action.wp_bind]
  refine Action.wp_lift_intro (fun action haction => ?_) fun _ => .nil hw₁ nofun
  rw [Action.wp_bind]
  refine Action.wp_lift_intro (fun _ hcapability => ?_) fun _ => .nil hw₁ nofun
  have hcanonical := canonicalizeAction_eq_ok haction
  have hcapability := not_not.1 (raiseIf_eq_ok.1 hcapability)
  have hrequest := isRequest_egress hcanonical hcapability
  have hevaluate := evaluateBrokerAction_spec D env action w₁
  rw [hw₁] at hevaluate
  refine Action.wp_mono hevaluate (fun action' w₂ h => ?_) fun _ _ h => h
  obtain ⟨hlog, rfl, hallow⟩ := h
  obtain ⟨hinnocuous, hexternal⟩ := Policy.innocuous_of_allow hrequest hallow
  refine ⟨hlog, hgranted, fun hpost => ?_, ?_, ?_, hinnocuous⟩
  · rw [← hprovenance, ← canonicalizeAction_provenance haction]
    exact hexternal (hcapability.trans hpost)
  · rw [← strip_egressOperation]
    exact hcanonical.resource
  · rw [← hcapability, ← strip_egressOperation]
    exact hcanonical.capability

/-! ## Confinement -/

/-- Whatever the dispatcher of this registry, the host and its other threads are, when a domain of the
registry's state calls `fetch_egress(url, method)` then every URL that the broker is asked for is on a
host of the domain. -/
def EgressConfined (L : Urllib) (R : Registry) (s : Domains) (d : SecurityDomain) (url method : Str) :
    Prop :=
  ∀ (D : Dispatcher) (env : Env) (w : World) (request : Option DispatchRequest) (approval : Bool)
    (es : List LogEntry),
    D.registry = some R → D.runtime.engine.urllib = L → env.Calls R → w.domains = s →
    (D.fetchEgress env url method (some d.domainId) request approval w).2.log = w.log ++ es →
    ∀ method' u, .fetch method' u ∈ es →
      ∃ host, Registry.hostOf L u = .ok host ∧ host ∈ d.egressHosts

/-- The URL has a host of the domain, and the URL that is then authorised has one of others, or none. -/
def Diverts (L : Urllib) (c : Charter) (url method : Str) : Prop :=
  c.domainId ≠ [] ∧ ∃ host u, Registry.hostOf L url = .ok host ∧ host ≠ [] ∧ host ∈ c.egressHosts ∧
    Authorized L c url method u ∧ ∀ host', Registry.hostOf L u = .ok host' → host' ∉ c.egressHosts

/-- What `fetch_egress` asks the broker for. -/
theorem fetchEgress_spec (henv : env.Calls R) (hregistry : D.registry = some R) {c : Charter}
    (hc : Chartered c w) (url method : Str) (request : Option DispatchRequest) (approval : Bool) :
    Appends w.log (fun es => ∀ method' u, .fetch method' u ∈ es → c.domainId ≠ [] ∧
      Authorized D.runtime.engine.urllib c url (D.runtime.engine.urllib.unicode.upper method) u ∧
        ∃ host, Registry.hostOf D.runtime.engine.urllib url = .ok host ∧ host ≠ [] ∧
          host ∈ c.egressHosts)
      (D.fetchEgress env url method (some c.domainId) request approval w).2 := by
  rw [← Action.wp_state (P := Appends w.log _)]
  unfold Dispatcher.fetchEgress Dispatcher.authorizeEgress
  rw [Action.wp_bind, hregistry]
  refine Action.wp_lift_intro (fun broker _ => ?_) fun _ => .nil rfl nofun
  dsimp only
  rw [Action.wp_bind, Action.wp_bind]
  refine Action.wp_lift_intro (fun _ hid => ?_) fun _ => .nil rfl nofun
  have hid : c.domainId ≠ [] := raiseIf_eq_ok.1 hid
  rw [Action.wp_bind]
  refine Action.wp_mono (checkEgress_spec D env c.domainId url _ w) (fun _ w₁ h => ?_)
    fun _ _ hw => .nil hw nofun
  obtain ⟨rfl, d', host, hd', hhost, hne, hmem⟩ := h
  -- the domain that was checked is the domain of the call
  have hc₁ := hc.interfere henv
  have hcharter := hc₁.charter_eq hd'
  rw [hcharter] at hmem
  have hauthorize := authorizeDomainBrokerAction_spec D henv hc₁ url
    (D.runtime.engine.urllib.unicode.upper method)
  have hw₁ : (w.interfere env).log = w.log := rfl
  rw [hw₁] at hauthorize
  refine Action.wp_mono hauthorize (fun action w₂ h => ?_) fun _ _ h => h.mono fun es hes _ _ hmem =>
    absurd hmem (hes _ _)
  obtain ⟨⟨es, hw₂, hes⟩, hauthorized⟩ := h
  have hfetch : Logs (broker.fetch D.runtime.engine.urllib env
      (D.runtime.engine.urllib.unicode.upper method) action.resource) (FetchesOnly action.resource) :=
    (logs_fetch broker _ _).mono fun _ h => h.2
  have hentries (es' : List LogEntry) (hes' : FetchesOnly action.resource es') (method' u : Str)
      (hfetched : .fetch method' u ∈ es ++ es') : c.domainId ≠ [] ∧
      Authorized D.runtime.engine.urllib c url (D.runtime.engine.urllib.unicode.upper method) u ∧
        ∃ host, Registry.hostOf D.runtime.engine.urllib url = .ok host ∧ host ≠ [] ∧
          host ∈ c.egressHosts := by
    rcases List.mem_append.1 hfetched with hfetched | hfetched
    · exact absurd hfetched (hes _ _)
    · rw [hes' _ _ hfetched]
      exact ⟨hid, hauthorized, host, hhost, hne, hmem⟩
  refine Action.wp_mono (logs_brokered (logs_performBrokerEffect hfetch nofun) w₂)
    (fun _ w₃ h => ?_) fun _ w₃ h => ?_
  · rw [hw₂] at h
    exact h.append hentries
  · rw [hw₂] at h
    exact h.append hentries

/-- Where the hosts agree, egress is confined. -/
theorem confined_of_not_diverts {s : Domains} {d : SecurityDomain} {url method : Str}
    (hd : s.find? (·.domainId = d.domainId) = some d)
    (h : ¬ Diverts L d.toCharter url (L.unicode.upper method)) : EgressConfined L R s d url method := by
  rintro D env w request approval es hregistry rfl henv rfl hlog method' u hfetch
  obtain ⟨es', hlog', hes'⟩ := fetchEgress_spec henv hregistry ⟨d, hd, rfl⟩ url method request approval
  obtain rfl : es = es' := List.append_cancel_left (hlog.symm.trans hlog')
  obtain ⟨hid, hauthorized, host, hhost, hne, hmem⟩ := hes' method' u hfetch
  by_contra hother
  exact h ⟨hid, host, u, hhost, hne, hmem, hauthorized, fun host' hhost' hmem' =>
    hother ⟨host', hhost', hmem'⟩⟩

/-! ## Diversion -/

/-- A host whose registry is in this state, with nothing done yet. -/
def World.start (s : Domains) : World := ⟨s, [], ⟨{}, []⟩, [], 0⟩

/-- A dispatcher with an egress broker, whose policy has no ceiling. -/
def openDispatcher (L : Urllib) (R : Registry) (broker : EgressBroker) : Dispatcher where
  kind := .capability
  registry := some R
  runtime :=
    { crypto := .standard
      engine := ⟨L, ⟨"/workspace", none⟩, 8⟩
      malwareScanRequired := true
      hasScanner := true
      requireFullArgvBinding := true }
  hasSecretBroker := false
  egressBroker := some broker
  freezeOnViolation := true

/-- What the registry says of an active domain whose parent, if any, is there with its authority. -/
structure Stands (s : Domains) (d : SecurityDomain) : Prop where
  active : Registry.requireActive d.domainId s = .ok d
  parent : ∃ parent, Registry.parentCapabilities d.domainId s = .ok parent ∧
    ∀ ceiling ∈ parent, d.capabilityCeiling ⊆ ceiling

/-- An active domain of a registry that can be reached. -/
theorem stands_of_run {s : Domains} (hs : Relation.ReflTransGen R.Step [] s) {d : SecurityDomain}
    (hd : d ∈ s) (hactive : d.frozen = false) : Stands s d := by
  have hlaw := lawful_run hs
  have hrequire : Registry.requireActive d.domainId s = .ok d :=
    Registry.requireActive_eq_ok.2 ⟨find?_of_mem hlaw hd, hactive⟩
  refine ⟨hrequire, ?_⟩
  unfold Registry.parentCapabilities
  rcases hlaw.rooted.up d.toCharter (List.mem_map_of_mem hd) with ⟨hroot, -⟩ | ⟨p, hp, hlink, -⟩
  · refine ⟨none, bind_eq_ok.2 ⟨d, hrequire, ?_⟩, nofun⟩
    rw [hroot.parent]
    rfl
  · obtain ⟨e, he, rfl⟩ := List.mem_map.1 hp
    refine ⟨some e.capabilityCeiling, bind_eq_ok.2 ⟨d, hrequire, ?_⟩, ?_⟩
    · rw [hlink.parent]
      exact bind_eq_ok.2 ⟨e, Registry.get_eq_ok.2 (find?_of_mem hlaw he), rfl⟩
    · rintro ceiling ⟨⟩
      exact hlink.within.ceiling

section Reached

variable {s : Domains} {d : SecurityDomain} {broker : EgressBroker} {host url method u : Str}

/-- The domain may go to its hosts. -/
theorem Stands.assertEgress (h : Stands s d) (hhost : Registry.hostOf L url = .ok host)
    (hne : host ≠ []) (hmem : host ∈ d.egressHosts) :
    Registry.assertEgress L d.domainId url s = .ok () := by
  refine bind_eq_ok.2 ⟨d, h.active, ?_⟩
  refine bind_eq_ok.2 ⟨host, hhost, raiseIf_eq_ok.2 ?_⟩
  exact not_or.2 ⟨hne, not_not.2 hmem⟩

/-- The action that the dispatcher makes for the domain. -/
theorem Authorized.action {c : Charter} (h : Authorized L c url method u)
    (trusted : TrustedExecutionContext) (ceiling : Finset Capability)
    (parent : Option (Finset Capability)) :
    ∃ action, Canonicalizer.canonicalizeAction L
        ⟨"brokered network egress", Dispatcher.egressOperation method, url⟩ trusted ceiling parent =
          .ok action ∧
      action.resource = u ∧ action.capability = Dispatcher.egressCapability method := by
  have hoperation : Dispatcher.egressOperation method ≠ [] := by
    unfold Dispatcher.egressOperation
    split_ifs <;> decide
  rw [Canonicalizer.canonicalizeAction]
  simp only [strip_egressOperation, raiseIf, if_neg hoperation, h.canonical, h.capability, bind,
    Except.bind]
  exact ⟨_, rfl, rfl, rfl⟩

/-- The dispatcher authorises what the domain asks for. -/
theorem Stands.authorizeEgress (hd : Stands s d) (hid : d.domainId ≠ [])
    (hhost : Registry.hostOf L url = .ok host) (hne : host ≠ []) (hmem : host ∈ d.egressHosts)
    (h : Authorized L d.toCharter url method u) (request : Option DispatchRequest) :
    ((openDispatcher L R broker).authorizeEgress calmHost url method (some d.domainId) request).wp
      (fun action _ => action.resource = u) (fun _ _ => False) (World.start s) := by
  obtain ⟨parent, hparent, hwithin⟩ := hd.parent
  unfold Dispatcher.authorizeEgress
  simp only [openDispatcher, Action.wp_bind, Option.getD_some]
  refine Action.wp_raiseIf_of_not hid ?_
  rw [Dispatcher.checkEgress, wp_except]
  refine wp_ask_of_ok (hd.assertEgress hhost hne hmem) ?_
  unfold Dispatcher.authorizeDomainBrokerAction Dispatcher.domainAuthority
  simp only [Action.wp_bind]
  refine wp_denying ?_
  simp only [Action.wp_bind, Action.wp_pure]
  refine wp_ask_of_ok hd.active ?_
  refine Action.wp_raiseIf_of_not (not_not.2 h.granted) ?_
  refine wp_ask_of_ok (bind_eq_ok.2 ⟨_, hd.active, rfl⟩) ?_
  refine wp_ask_of_ok hparent ?_
  obtain ⟨action, haction, hresource, hcapability⟩ := h.action _ _ parent
  refine Action.wp_lift_of_ok haction ?_
  refine Action.wp_raiseIf_of_not (not_not.2 hcapability) ?_
  have hcanonical := canonicalizeAction_eq_ok haction
  have hallow : (Policy.evaluate L ⟨"/workspace", none⟩ action).decision = .allow := by
    refine Policy.evaluate_innocuous (isRequest_egress hcanonical hcapability) ?_ rfl ?_ ?_ ?_
    · rw [hresource]
      exact h.innocuous
    · rw [hcanonical.granted, hcapability]
      exact h.granted
    · rw [hcanonical.parent, hcapability]
      rcases parent with _ | ceiling
      · exact Bool.false_ne_true
      · simpa using hwithin ceiling rfl h.granted
    · rw [canonicalizeAction_provenance haction, hcapability]
      exact h.provenance
  unfold Dispatcher.evaluateBrokerAction BulldogRuntime.evaluate
  simp only [Action.wp_bind, Action.wp_onlyIf, Action.wp_zoom, wp_record, Action.wp_pure]
  refine ⟨fun h => (by cases h), fun _ => ?_⟩
  refine Action.wp_mono (BulldogEngine.evaluate_first _ action hallow) (fun evaluation _ hd => ?_)
    fun _ _ => False.elim
  exact Action.wp_raiseIf_of_not (not_not.2 hd) hresource

/-- The broker is asked for what was authorised. -/
theorem Stands.fetch (hd : Stands s d) (broker : EgressBroker) (hid : d.domainId ≠ [])
    (hhost : Registry.hostOf L url = .ok host) (hne : host ≠ []) (hmem : host ∈ d.egressHosts)
    (h : Authorized L d.toCharter url (L.unicode.upper method) u) :
    Appends [] (fun es => .fetch (L.unicode.upper method) u ∈ es)
      ((openDispatcher L R broker).fetchEgress calmHost url method (some d.domainId) none false
        (World.start s)).2 := by
  rw [← Action.wp_state (P := Appends [] _)]
  unfold Dispatcher.fetchEgress
  rw [Action.wp_bind]
  refine Action.wp_lift_of_ok rfl ?_
  dsimp only
  rw [Action.wp_bind]
  refine Action.wp_mono (hd.authorizeEgress hid hhost hne hmem h none) (fun action w' haction => ?_)
    fun _ _ => False.elim
  -- This kind of dispatcher goes straight to the effect.
  have heffect : Logs ((openDispatcher L R broker).performBrokerEffect calmHost action
      (.network (L.unicode.upper method)) false
      (broker.fetch L calmHost (L.unicode.upper method) action.resource))
      (fun es => .fetch (L.unicode.upper method) u ∈ es) := by
    rw [haction]
    exact (logs_fetch broker (L.unicode.upper method) u).mono fun _ h => h.1
  have hend (w₂ : World) (h : Appends w'.log (fun es => .fetch (L.unicode.upper method) u ∈ es) w₂) :
      Appends [] (fun es => .fetch (L.unicode.upper method) u ∈ es) w₂ := by
    obtain ⟨es, hlog, hmem⟩ := h
    exact ⟨w'.log ++ es, hlog, List.mem_append_right _ hmem⟩
  exact Action.wp_mono (logs_brokered heffect w') (fun _ => hend) fun _ => hend

end Reached

/-- Where the hosts differ, the domain gets to the other one. -/
theorem not_confined_of_diverts {s : Domains} {d : SecurityDomain} (hd : Stands s d) {url method : Str}
    (h : Diverts L d.toCharter url (L.unicode.upper method)) : ¬ EgressConfined L R s d url method := by
  obtain ⟨hid, host, u, hhost, hne, hmem, hauthorized, hother⟩ := h
  intro hconfined
  obtain ⟨es, hlog, hfetched⟩ := hd.fetch (R := R) ⟨{host}, {L.unicode.upper method}, false⟩ hid hhost hne
    hmem hauthorized
  obtain ⟨host', hhost', hmem'⟩ := hconfined (openDispatcher L R _) calmHost (World.start s) none false es
    rfl rfl (fun _ _ => .refl) rfl hlog _ u hfetched
  exact hother host' hhost' hmem'

/-- An active domain of a registry is confined exactly for the URLs whose host, one of the domain's,
does not become another on the way to the broker. -/
theorem egress_confined_iff (L : Urllib) (R : Registry) {s : Domains}
    (hs : Relation.ReflTransGen R.Step [] s) {d : SecurityDomain} (hd : d ∈ s)
    (hactive : d.frozen = false) (url method : Str) :
    EgressConfined L R s d url method ↔ ¬ Diverts L d.toCharter url (L.unicode.upper method) :=
  ⟨fun h hdiverts => not_confined_of_diverts (stands_of_run hs hd hactive) hdiverts h,
    confined_of_not_diverts (find?_of_mem (lawful_run hs) hd)⟩

/-- ASCII text, and no address is an IPv6 address. -/
def asciiUrllib : Urllib := ⟨.ascii, fun _ => false⟩

/-- The host is `good.com` as written, and `evil.com` once it is decoded. -/
def divertedUrl : Str := "https://evil.com%2F@good.com/".toList

/-- A registry with one root domain that may go to `good.com`. -/
def goodDomains : Domains := (smallRegistry.perform (fun _ => .ok ()) (.createRoot "root"
  ⟨"agent", "goal", [.networkOutbound], [.human], ["good.com"], none, none⟩) []).2

theorem goodDomains_reached : Relation.ReflTransGen smallRegistry.Step [] goodDomains :=
  .single ⟨_, _, fun _ _ _ h => absurd h List.not_mem_nil, rfl⟩

/-- A dispatcher whose broker also serves domains that may go to `evil.com`. -/
def goodDispatcher : Dispatcher :=
  openDispatcher asciiUrllib smallRegistry ⟨{"good.com".toList, "evil.com".toList}, {"GET".toList}, true⟩

/-- A fetch of this URL. -/
def LogEntry.fetches (url : Str) : LogEntry → Bool
  | .fetch _ url' => url' = url
  | _ => false

theorem LogEntry.eq_fetch {url : Str} {entry : LogEntry} (h : entry.fetches url = true) :
    ∃ method, entry = .fetch method url := by
  cases entry with
  | fetch method url' =>
    obtain rfl : url' = url := of_decide_eq_true h
    exact ⟨method, rfl⟩
  | _ => cases h

/-- A connection to this host. -/
def LogEntry.connects (hostname : Str) : LogEntry → Bool
  | .connect hostname' => hostname' = hostname
  | _ => false

theorem goodDomain_mem : ∃ d ∈ goodDomains, d.domainId = "root".toList ∧ d.frozen = false ∧
    d.egressHosts = {"good.com".toList} := by
  have hlength : goodDomains.length = 1 := by decide +kernel
  obtain ⟨d, hd⟩ := List.length_eq_one_iff.1 hlength
  have hall : ∀ d ∈ goodDomains, d.domainId = "root".toList ∧ d.frozen = false ∧
      d.egressHosts = {"good.com".toList} := by
    decide +kernel
  have hmem : d ∈ goodDomains := hd ▸ List.mem_singleton_self d
  exact ⟨d, hmem, hall d hmem⟩

/-- A URL that decoding changes, but not its host. -/
def plainUrl : Str := "https://good.com/a%20b".toList

/-- The domain of `good.com` is confined to it where only the path is encoded. -/
theorem good_domain_confined :
    ∃ d ∈ goodDomains, EgressConfined asciiUrllib smallRegistry goodDomains d plainUrl "GET" := by
  obtain ⟨d, hd, -, hactive, hhosts⟩ := goodDomain_mem
  refine ⟨d, hd, (egress_confined_iff asciiUrllib smallRegistry goodDomains_reached hd hactive plainUrl
    "GET").2 ?_⟩
  rintro ⟨-, host, u, -, -, -, hauthorized, hother⟩
  have hcanonical : (Canonicalizer.canonicalizeResource asciiUrllib
      (Dispatcher.egressOperation (asciiUrllib.unicode.upper "GET")) (Str.strip plainUrl)).toOption =
        some "https://good.com/a b".toList := by
    decide +kernel
  rw [hauthorized.canonical] at hcanonical
  obtain rfl : u = "https://good.com/a b".toList := Option.some.inj hcanonical
  refine hother "good.com".toList rfl ?_
  rw [hhosts]
  exact Finset.mem_singleton_self _

/-- The domain of `good.com` makes the broker connect to `evil.com`. -/
theorem good_domain_reaches_evil :
    ∃ d ∈ goodDomains, d.domainId = "root".toList ∧ d.frozen = false ∧
      d.egressHosts = {"good.com".toList} ∧
      ¬ EgressConfined asciiUrllib smallRegistry goodDomains d divertedUrl "GET" ∧
      (goodDispatcher.fetchEgress calmHost divertedUrl "GET" (some "root") none false
        (World.start goodDomains)).2.log.any (LogEntry.connects "evil.com".toList) = true := by
  obtain ⟨d, hd, hid, hactive, hhosts⟩ := goodDomain_mem
  refine ⟨d, hd, hid, hactive, hhosts, fun hconfined => ?_, by decide +kernel⟩
  have hany : (goodDispatcher.fetchEgress calmHost divertedUrl "GET" (some "root") none false
      (World.start goodDomains)).2.log.any
        (LogEntry.fetches "https://evil.com/@good.com/".toList) = true := by
    decide +kernel
  have hevil : Registry.hostOf asciiUrllib "https://evil.com/@good.com/" = .ok "evil.com".toList :=
    rfl
  obtain ⟨es, hes⟩ : ∃ es, (goodDispatcher.fetchEgress calmHost divertedUrl "GET" (some "root") none
      false (World.start goodDomains)).2.log = es := ⟨_, rfl⟩
  rw [hes] at hany
  rw [← List.nil_append es, ← hid] at hes
  obtain ⟨entry, hmem, hfetches⟩ := List.any_eq_true.1 hany
  obtain ⟨method, rfl⟩ := LogEntry.eq_fetch hfetches
  obtain ⟨host, hhost, hin⟩ := hconfined goodDispatcher calmHost (World.start goodDomains) none false es
    rfl rfl (fun _ _ => .refl) rfl hes method _ hmem
  rw [hhosts, Finset.mem_singleton] at hin
  rw [hevil, hin] at hhost
  exact absurd (Except.ok.inj hhost) (by decide)

end Dispatch

end Bulldog
