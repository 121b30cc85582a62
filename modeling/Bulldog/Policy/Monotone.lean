import Mathlib
import Bulldog.Advice

/-!
# The policy is monotone

A request that is less trusted, or that has less authority, never gets a milder verdict. The hard
blocks on authority come first and only a request that passes them is scored, and with the
capability, the operation and the resource fixed every rule of the score either adds to the risk or
raises it to a bound. The branch for brokered secrets returns `ALLOW`, and there the only one of the
changes that counts is external provenance, which it blocks.
-/

namespace Bulldog.Policy

/-! ## Less trust and less authority -/

/-- Capabilities removed from a set, or any set in place of `None`. -/
def Narrows : Option (Finset Capability) → Option (Finset Capability) → Prop
  | none, _ => True
  | some before, some after => after ⊆ before
  | some _, none => False

/-- A policy and a request with provenance appended, effects set and authority removed, and all
else as it was. -/
structure Tightens (policy policy' : DeterministicPolicy) (action action' : ActionRequest) :
    Prop where
  provenance : ∃ values, action'.provenance = action.provenance ++ values
  externalSideEffect : action.externalSideEffect = true → action'.externalSideEffect = true
  irreversible : action.irreversible = true → action'.irreversible = true
  granted : action'.grantedCapabilities ⊆ action.grantedCapabilities
  parent : Narrows action.parentCapabilities action'.parentCapabilities
  ceiling : Narrows policy.globalCapabilityCeiling policy'.globalCapabilityCeiling
  projectRoot : policy'.projectRoot = policy.projectRoot
  rest : action' = { action with
    provenance := action'.provenance
    externalSideEffect := action'.externalSideEffect
    irreversible := action'.irreversible
    grantedCapabilities := action'.grantedCapabilities
    parentCapabilities := action'.parentCapabilities }

theorem Tightens.request {policy policy' : DeterministicPolicy} {action action' : ActionRequest}
    (h : Tightens policy policy' action action') : action'.operation = action.operation ∧
      action'.resource = action.resource ∧ action'.capability = action.capability := by
  rw [h.rest]
  exact ⟨rfl, rfl, rfl⟩

/-- A verdict with at least the decision and the risk, and a hard block where there was one. -/
def Milder (e e' : Evaluation) : Prop := e.Le e' ∧ (e.hardBlock = true → e'.hardBlock = true)

/-- Nothing is stricter than a block. -/
theorem milder_block {e : Evaluation} (h : e.risk ≤ 1) (reasons : List String) :
    Milder e (block reasons) := by
  have horder : ∀ d : Decision, d.order ≤ Decision.deny.order := by
    intro d
    cases d <;> decide
  exact ⟨⟨horder _, h⟩, fun _ => rfl⟩

/-- A set that lacks a capability still lacks it once it is narrowed. -/
theorem Narrows.lacks {before after : Option (Finset Capability)} (h : Narrows before after)
    {capability : Capability} (hlacks : before.any (capability ∉ ·) = true) :
    after.any (capability ∉ ·) = true := by
  cases before with
  | none => cases hlacks
  | some before =>
    cases after with
    | none => exact h.elim
    | some after =>
      have hnot : capability ∉ before := by simpa using hlacks
      simpa using fun hmem => hnot (h hmem)

theorem hasExternalProvenance_append {values more : List Provenance}
    (h : hasExternalProvenance values = true) : hasExternalProvenance (values ++ more) = true := by
  unfold hasExternalProvenance at h ⊢
  rw [List.any_append, h, Bool.true_or]

/-! ## The score -/

/-- A change of the risk that keeps the order and never lowers it. -/
structure Raises (f : ℚ → ℚ) : Prop where
  mono : ∀ {x y}, x ≤ y → f x ≤ f y
  le : ∀ x, x ≤ f x

theorem raises_add {x : ℚ} (hx : 0 ≤ x) : Raises (· + x) where
  mono h := by simpa using h
  le risk := by simpa using hx

theorem raises_max (x : ℚ) : Raises (max · x) where
  mono h := max_le_max_right x h
  le risk := le_max_left risk x

/-- A rule whose condition holds no less often, on a risk that is no lower. -/
theorem Score.when_mono {score score' : Score} {c c' : Prop} [Decidable c] [Decidable c']
    (reason : String) {f : ℚ → ℚ} (hf : Raises f) (hle : score.risk ≤ score'.risk)
    (hc : c → c') : (score.when c reason f).risk ≤ (score'.when c' reason f).risk := by
  unfold Score.when
  split_ifs with h h' h'
  · exact hf.mono hle
  · exact absurd (hc h) h'
  · exact hle.trans (hf.le _)
  · exact hle

/-- The rules for a resource that is sensitive or persists leave the risk at nine tenths at most. -/
theorem resourceScore_le {L : Urllib} {action : ActionRequest}
    (h : hasExternalProvenance action.provenance = false) :
    (resourceScore L action).risk ≤ 90 / 100 := by
  unfold resourceScore Score.when
  simp only [h, Bool.false_eq_true, if_false]
  split_ifs <;> norm_num

theorem decide_mono {risk risk' : ℚ} (h : risk ≤ risk') :
    (decide risk).order ≤ (decide risk').order := by
  unfold decide
  split_ifs with h85 h85' h55' h55 h85' h55' h85' h55'
  all_goals first
    | exact Nat.le_refl _
    | exact Nat.zero_le _
    | exact absurd (h85.trans h) h85'
    | exact absurd (h55.trans h) h55'
    | decide

/-- No verdict is riskier than a block. -/
theorem assess_risk_le (L : Urllib) (action : ActionRequest) (score : Score) (external : Bool)
    (h : external = false → score.risk ≤ 1) : (assess L action score external).risk ≤ 1 := by
  unfold assess
  simp only
  split_ifs with hbrokered hexternal hcredential
  · exact le_rfl
  · exact max_le (h (Bool.eq_false_iff.2 hexternal)) (by norm_num)
  · exact le_rfl
  · exact min_le_right _ _
  · exact min_le_right _ _

/-- The scored part of `evaluate` is monotone in the score, the provenance and the effects. -/
theorem assess_mono (L : Urllib) {action action' : ActionRequest} {score score' : Score}
    {external external' : Bool} (hoperation : action'.operation = action.operation)
    (hresource : action'.resource = action.resource)
    (hcapability : action'.capability = action.capability)
    (hside : action.externalSideEffect = true → action'.externalSideEffect = true)
    (hirreversible : action.irreversible = true → action'.irreversible = true)
    (hscore : score.risk ≤ score'.risk) (hexternal : external = true → external' = true)
    (hrisk : external = false → score.risk ≤ 1) :
    Milder (assess L action score external) (assess L action' score' external') := by
  have hle := assess_risk_le L action score external hrisk
  -- External provenance may turn a score into a block, and a block is the strictest verdict.
  by_cases hblocked : external' = true ∧ action.capability = .credentialRead
  · obtain ⟨rfl, hcredential⟩ := hblocked
    have hblock : ∃ reasons, assess L action' score' true = block reasons := by
      unfold assess
      simp only [hcapability, hcredential, if_true, true_and, and_self]
      split_ifs
      · exact ⟨_, rfl⟩
      · exact ⟨_, rfl⟩
    obtain ⟨reasons, hreasons⟩ := hblock
    rw [hreasons]
    exact milder_block hle reasons
  have hsame : ¬ (external = true ∧ action.capability = .credentialRead) := fun h =>
    hblocked ⟨hexternal h.1, h.2⟩
  unfold assess
  simp only [hoperation, hresource, hcapability]
  by_cases hbrokered : action.capability = .credentialRead ∧
      Str.strip (L.unicode.lower action.operation) ∈ brokeredSecretOperations
  · have hnot : ¬ external = true := fun h => hsame ⟨h, hbrokered.1⟩
    have hnot' : ¬ external' = true := fun h => hblocked ⟨h, hbrokered.1⟩
    rw [if_pos hbrokered, if_pos hbrokered, if_neg hnot, if_neg hnot']
    exact ⟨⟨le_rfl, max_le_max_right _ hscore⟩, nofun⟩
  · rw [if_neg hbrokered, if_neg hbrokered, if_neg hsame, if_neg hblocked]
    have hnine := raises_max (90 / 100)
    have hrules := Score.when_mono "operation is marked irreversible"
      (raises_add (x := 35 / 100) (by norm_num))
      (Score.when_mono "operation has an external side effect"
        (raises_add (x := 25 / 100) (by norm_num))
        (Score.when_mono "outbound resource contains possible secret-bearing data" hnine
          (Score.when_mono "externally influenced outbound data transfer" hnine
            (Score.when_mono "externally influenced agent creation requires review" hnine
              (Score.when_mono "externally influenced process execution requires review" hnine
                (Score.when_mono "high-risk capability" (raises_add (x := 55 / 100) (by norm_num))
                  hscore (fun h : action.capability ∈ highRiskCapabilities => h))
                (fun h : external = true ∧ action.capability = .processExec =>
                  And.intro (hexternal h.1) h.2))
              (fun h : external = true ∧ action.capability = .agentSpawn =>
                And.intro (hexternal h.1) h.2))
            (fun h : external = true ∧ action.capability = .networkPost =>
              And.intro (hexternal h.1) h.2))
          (fun h : (action.capability = .networkOutbound ∨ action.capability = .networkPost) ∧
            secretHints.any (Str.contains (queryOf L (unquote action.resource))) = true => h))
        hside) hirreversible
    have hmin := min_le_min_right 1 hrules
    exact ⟨⟨decide_mono hmin, hmin⟩, nofun⟩

/-! ## The verdict -/

theorem evaluate_risk_le (L : Urllib) (policy : DeterministicPolicy) (action : ActionRequest) :
    (evaluate L policy action).risk ≤ 1 := by
  unfold evaluate
  simp only
  split_ifs
  all_goals first
    | exact le_rfl
    | exact assess_risk_le _ _ _ _ fun h => (resourceScore_le h).trans (by norm_num)

/-- `evaluate` never gives a milder verdict to a request with less trust or less authority. -/
theorem evaluate_monotone (L : Urllib) {policy policy' : DeterministicPolicy}
    {action action' : ActionRequest} (h : Tightens policy policy' action action') :
    (evaluate L policy action).decision.order ≤ (evaluate L policy' action').decision.order ∧
      (evaluate L policy action).risk ≤ (evaluate L policy' action').risk ∧
      ((evaluate L policy action).hardBlock = true →
        (evaluate L policy' action').hardBlock = true) := by
  have hle := evaluate_risk_le L policy action
  obtain ⟨hoperation, hresource, hcapability⟩ := h.request
  obtain ⟨values, hvalues⟩ := h.provenance
  have hexternal : hasExternalProvenance action.provenance = true →
      hasExternalProvenance action'.provenance = true := fun hext => by
    rw [hvalues]
    exact hasExternalProvenance_append hext
  suffices hmilder : Milder (evaluate L policy action) (evaluate L policy' action') from
    ⟨hmilder.1.1, hmilder.1.2, hmilder.2⟩
  have hunfold : evaluate L policy' action' = evaluate L policy' action' := rfl
  conv_rhs at hunfold => unfold evaluate
  simp only [hresource, hcapability, h.projectRoot] at hunfold
  -- Where the tightened request is blocked, nothing is left to show.
  split_ifs at hunfold with hceiling hgranted hparent hdots hencoded hroot hcanary
  all_goals rw [hunfold]
  all_goals first | exact milder_block hle _ | skip
  -- Otherwise the original is not blocked either, and the scores are compared.
  have hceiling₀ := mt h.ceiling.lacks hceiling
  have hgranted₀ : ¬ action.capability ∉ action.grantedCapabilities :=
    not_not.2 (h.granted hgranted)
  have hparent₀ := mt h.parent.lacks hparent
  unfold evaluate
  simp only [if_neg hceiling₀, if_neg hgranted₀, if_neg hparent₀, if_neg hdots, if_neg hencoded,
    if_neg hroot, if_neg hcanary]
  refine assess_mono L hoperation hresource hcapability h.externalSideEffect h.irreversible ?_
    hexternal fun hext => (resourceScore_le hext).trans (by norm_num)
  unfold resourceScore
  simp only [hresource, hcapability]
  exact Score.when_mono _ (raises_add (by norm_num)) le_rfl hexternal

/-- A command that a person asked for. -/
def personalAction : ActionRequest where
  actor := "agent"
  task := "task"
  operation := "execute"
  resource := "/usr/bin/true"
  capability := .processExec
  grantedCapabilities := {.processExec, .fsReadProject}
  provenance := [.human]
  parentCapabilities := none
  irreversible := false
  externalSideEffect := false
  metadata := []

/-- The same command out of a web page, irreversible, and with less authority. -/
def influencedAction : ActionRequest :=
  { personalAction with
    provenance := [.human, .internet]
    irreversible := true
    grantedCapabilities := {.processExec}
    parentCapabilities := some {.processExec} }

/-- The second command is escalated, and the first was allowed. -/
theorem influencedAction_stricter :
    Tightens ⟨"/workspace", none⟩ ⟨"/workspace", some {.processExec}⟩ personalAction
        influencedAction ∧
      (evaluate ⟨.ascii, fun _ => false⟩ ⟨"/workspace", none⟩ personalAction).decision = .allow ∧
      (evaluate ⟨.ascii, fun _ => false⟩ ⟨"/workspace", some {.processExec}⟩
        influencedAction).decision = .escalate ∧
      (evaluate ⟨.ascii, fun _ => false⟩ ⟨"/workspace", none⟩ personalAction).risk ≤
        (evaluate ⟨.ascii, fun _ => false⟩ ⟨"/workspace", some {.processExec}⟩
          influencedAction).risk := by
  have h : Tightens ⟨"/workspace", none⟩ ⟨"/workspace", some {.processExec}⟩ personalAction
      influencedAction := {
    provenance := ⟨[.internet], rfl⟩
    externalSideEffect := nofun
    irreversible := nofun
    granted := by decide
    parent := trivial
    ceiling := trivial
    projectRoot := rfl
    rest := rfl }
  exact ⟨h, by decide +kernel, by decide +kernel, (evaluate_monotone _ h).2.1⟩

end Bulldog.Policy
