import Mathlib
import Bulldog.Engine

/-!
# Stricter advice

The advisory model can only tighten a verdict, and so can the session guard, whose flags grow with
the decisions that it remembers. So of two runs of an engine over the same actions, the one with the
stricter advice is the stricter one at every step. The invariant that relates the two histories is
`HistoryLe`: the same actions under the same keys, with decisions that are at least as strict.
-/

namespace Bulldog

/-! ## Verdicts -/

/-- At least as strict, and at least as risky. -/
def Evaluation.Le (e e' : Evaluation) : Prop :=
  e.decision.order ≤ e'.decision.order ∧ e.risk ≤ e'.risk

theorem Evaluation.le_refl (e : Evaluation) : e.Le e := ⟨le_rfl, le_rfl⟩

theorem Decision.order_max (a b : Decision) : (a.max b).order = Nat.max a.order b.order := by
  cases a <;> cases b <;> rfl

theorem Decision.order_le_max (a b : Decision) : a.order ≤ (a.max b).order := by
  rw [order_max]
  exact Nat.le_max_left _ _

theorem Decision.max_mono {a a' b b' : Decision} (ha : a.order ≤ a'.order)
    (hb : b.order ≤ b'.order) : (a.max b).order ≤ (a'.max b').order := by
  rw [order_max, order_max]
  exact max_le_max ha hb

/-- Only `ALLOW` is below every other decision. -/
theorem Decision.eq_allow_of_le {a b : Decision} (h : a.order ≤ b.order) (hb : b = .allow) :
    a = .allow := by
  subst hb
  cases a <;> first | rfl | exact absurd h (by decide)

/-! ## Histories -/

/-- The same action, with a decision that is at least as strict. -/
def SessionEvent.Le (x x' : SessionEvent) : Prop :=
  x.action = x'.action ∧ x.evaluation.decision.order ≤ x'.evaluation.decision.order

/-- The same actions under the same keys, with decisions that are at least as strict. -/
def HistoryLe (h h' : History) : Prop :=
  List.Forall₂ (fun p p' => p.1 = p'.1 ∧ List.Forall₂ SessionEvent.Le p.2 p'.2) h h'

theorem forall₂_le_refl (events : List SessionEvent) : List.Forall₂ SessionEvent.Le events events :=
  List.forall₂_same.2 fun _ _ => ⟨rfl, Nat.le_refl _⟩

theorem historyLe_refl (history : History) : HistoryLe history history :=
  List.forall₂_same.2 fun p _ => ⟨rfl, forall₂_le_refl p.2⟩

namespace SessionGuard

variable {events events' : List SessionEvent} {history history' : History}

theorem lookup_le (h : HistoryLe history history') (key : Str) :
    Option.Rel (List.Forall₂ SessionEvent.Le) (history.lookup key) (history'.lookup key) := by
  induction h with
  | nil => exact .none
  | @cons p p' _ _ hp _ ih =>
    obtain ⟨key₁, xs⟩ := p
    obtain ⟨key₂, xs'⟩ := p'
    obtain ⟨rfl, hxs⟩ := hp
    rw [List.lookup_cons, List.lookup_cons]
    rcases hkey : key == key₁ with _ | _
    · exact ih
    · exact .some hxs

theorem events_le (h : HistoryLe history history') (key : Str) :
    List.Forall₂ SessionEvent.Le (SessionGuard.events history key)
      (SessionGuard.events history' key) := by
  unfold SessionGuard.events
  have hlookup := lookup_le h key
  generalize history.lookup key = x, history'.lookup key = x' at hlookup ⊢
  cases hlookup with
  | none => exact .nil
  | some hxs => exact hxs

theorem lookup_isSome (h : HistoryLe history history') (key : Str) :
    (history.lookup key).isSome = (history'.lookup key).isSome := by
  have hlookup := lookup_le h key
  generalize history.lookup key = x, history'.lookup key = x' at hlookup ⊢
  cases hlookup <;> rfl

theorem store_le (h : HistoryLe history history') (key : Str)
    (hevents : List.Forall₂ SessionEvent.Le events events') :
    HistoryLe (store history key events) (store history' key events') := by
  unfold store
  rw [lookup_isSome h key]
  split_ifs
  · refine List.forall₂_map_left_iff.2 (List.forall₂_map_right_iff.2 (h.imp fun p p' hp => ?_))
    rw [hp.1]
    split_ifs
    · exact ⟨rfl, hevents⟩
    · exact hp
  · exact List.rel_append h (.cons ⟨rfl, hevents⟩ .nil)

theorem remember_le (maxHistory : ℕ) {x x' : SessionEvent}
    (h : List.Forall₂ SessionEvent.Le events events') (hx : x.Le x') :
    List.Forall₂ SessionEvent.Le (remember maxHistory events x) (remember maxHistory events' x') := by
  have happend : List.Forall₂ SessionEvent.Le (events ++ [x]) (events' ++ [x']) :=
    List.rel_append h (.cons hx .nil)
  unfold remember lastN
  rw [h.length_eq, happend.length_eq]
  split_ifs
  · exact List.forall₂_drop _ happend
  · exact happend

/-! ## The guard -/

/-- The capabilities of related events are the same. -/
theorem capabilities_eq (h : List.Forall₂ SessionEvent.Le events events') :
    events.map (·.action.capability) = events'.map (·.action.capability) := by
  induction h with
  | nil => rfl
  | cons hx _ ih => rw [List.map_cons, List.map_cons, ih, hx.1]

theorem getLast?_le (h : List.Forall₂ SessionEvent.Le events events') :
    Option.Rel SessionEvent.Le events.getLast? events'.getLast? := by
  rcases List.eq_nil_or_concat events with rfl | ⟨init, x, rfl⟩
  · cases h
    exact .none
  · rcases List.eq_nil_or_concat events' with rfl | ⟨init', x', rfl⟩
    · simp at h
    · rw [List.concat_eq_append, List.concat_eq_append] at h ⊢
      rw [List.getLast?_concat, List.getLast?_concat]
      have hreverse := List.rel_reverse h
      rw [List.reverse_append, List.reverse_append] at hreverse
      exact .some (List.forall₂_cons.1 hreverse).1

/-- Where the guard raises a flag, it raises one after stricter decisions too. -/
theorem flags_eq_nil (h : List.Forall₂ SessionEvent.Le events events') {capability : Capability}
    (hnil : flags events' capability = []) : flags events capability = [] := by
  unfold flags at hnil ⊢
  rw [capabilities_eq h]
  simp only [List.append_eq_nil_iff] at hnil ⊢
  obtain ⟨⟨⟨hdrift, hshift⟩, hpath⟩, hshopping⟩ := hnil
  refine ⟨⟨⟨hdrift, hshift⟩, ?_⟩, hshopping⟩
  rw [ite_eq_right_iff] at hpath ⊢
  intro hany
  refine absurd (hpath ?_) (List.cons_ne_nil _ _)
  -- Of the four flags only this one looks at a decision.
  have hlast := getLast?_le h
  rcases hx : events.getLast? with _ | x
  · rw [hx] at hany
    cases hany
  · rw [hx] at hlast hany
    rcases hx' : events'.getLast? with _ | x'
    · rw [hx'] at hlast
      cases hlast
    · rw [hx'] at hlast
      obtain ⟨haction, hdecision⟩ := Option.rel_some_some.1 hlast
      simp only [Option.any_some, decide_eq_true_eq] at hany ⊢
      rw [← haction]
      exact ⟨fun hallow => hany.1 (Decision.eq_allow_of_le hdecision hallow), hany.2⟩

end SessionGuard

namespace SessionGuard

variable {events events' : List SessionEvent} {action : ActionRequest} {e e' : Evaluation}

/-- The guard keeps verdicts in order. -/
theorem judge_le (h : List.Forall₂ SessionEvent.Le events events') (he : e.Le e')
    (hhard : e.hardBlock = e'.hardBlock) : (judge events action e).Le (judge events' action e') := by
  have hmax : e.decision.order ≤ (e'.decision.max .escalate).order :=
    he.1.trans (Decision.order_le_max _ _)
  unfold judge
  rw [hhard]
  split_ifs with hkeep hkeep' hkeep'
  · exact he
  · exact ⟨hmax, he.2.trans (le_max_left _ _)⟩
  · refine absurd (hkeep'.imp id fun hnil => ?_) hkeep
    exact flags_eq_nil h hnil
  · exact ⟨Decision.max_mono he.1 le_rfl, max_le_max he.2 le_rfl⟩

/-- The guard only adds to a verdict. -/
theorem le_judge (events : List SessionEvent) (action : ActionRequest) (e : Evaluation) :
    e.Le (judge events action e) ∧ e.reasons <+: (judge events action e).reasons := by
  unfold judge
  split_ifs
  · exact ⟨e.le_refl, List.prefix_rfl⟩
  · exact ⟨⟨Decision.order_le_max _ _, le_max_left _ _⟩, List.prefix_append _ _⟩

end SessionGuard

/-! ## The engine -/

/-- Advice with finite risks, at least as strict and at least as risky. -/
def Advisory.Le (a a' : Advisory) : Prop :=
  a.recommendation.order ≤ a'.recommendation.order ∧
    ∃ risk risk', a.risk = some risk ∧ a'.risk = some risk' ∧ risk ≤ risk'

/-- The verdict is the policy's, or one that is at least as strict and risky and goes on with its
reasons. -/
structure Above (hard e : Evaluation) : Prop where
  le : hard.Le e
  reasons : hard.reasons <+: e.reasons
  hardBlock : hard.hardBlock = true → e = hard

namespace BulldogEngine

variable {engine : BulldogEngine} {action : ActionRequest} {a a' : Advisory}

theorem combine_hardBlock : (engine.combine action a).hardBlock =
    (Policy.evaluate engine.urllib engine.policy action).hardBlock := by
  rcases h : (Policy.evaluate engine.urllib engine.policy action).hardBlock with _ | _
  · simp [combine, h]
  · simp [combine, h]

/-- Stricter advice makes a stricter verdict. -/
theorem combine_le (h : a.Le a') : (engine.combine action a).Le (engine.combine action a') := by
  obtain ⟨hdecision, risk, risk', hrisk, hrisk', hle⟩ := h
  unfold combine
  dsimp only
  split_ifs
  · exact Evaluation.le_refl _
  all_goals
    rw [hrisk, hrisk']
    refine ⟨Decision.max_mono le_rfl hdecision, max_le_max le_rfl ?_⟩
    exact min_le_min_right _ (max_le_max_right _ hle)

/-- Advice only adds to the policy's verdict. -/
theorem above_combine (engine : BulldogEngine) (action : ActionRequest) (a : Advisory) :
    Above (Policy.evaluate engine.urllib engine.policy action) (engine.combine action a) := by
  have hrisk (hard : ℚ) : hard ≤ combineRisk hard a.risk := by
    unfold combineRisk
    split
    · exact le_max_left _ _
    · exact le_rfl
  unfold combine
  dsimp only
  split_ifs with hblock
  · exact ⟨Evaluation.le_refl _, List.prefix_rfl, fun _ => rfl⟩
  · exact ⟨⟨Decision.order_le_max _ _, hrisk _⟩, List.prefix_append _ _, fun h => absurd h hblock⟩
  · exact ⟨⟨Decision.order_le_max _ _, hrisk _⟩, List.prefix_rfl, fun h => absurd h hblock⟩

/-! ## Runs -/

/-- A call of `evaluate`: the action, what the advisory model says of it, and what the ledger does. -/
structure Call where
  action : ActionRequest
  advisory : Advisory
  ledger : Except Exc Unit

/-- What the calls return or raise, one after another. -/
def run (engine : BulldogEngine) : History → List Call → List (Except Exc Evaluation)
  | _, [] => []
  | history, call :: calls =>
    let (result, history) := engine.evaluate (fun _ => .ok call.advisory) (fun _ _ => call.ledger)
      call.action history
    result :: run engine history calls

/-- The verdict of a call, after this history. -/
def verdict (engine : BulldogEngine) (history : History) (call : Call) : Evaluation :=
  SessionGuard.judge (SessionGuard.events history (SessionGuard.sessionKey call.action)) call.action
    (engine.combine call.action call.advisory)

/-- The history after a call. -/
def after (engine : BulldogEngine) (history : History) (call : Call) : History :=
  SessionGuard.store history (SessionGuard.sessionKey call.action)
    (SessionGuard.remember engine.maxHistory
      (SessionGuard.events history (SessionGuard.sessionKey call.action))
      ⟨call.action, engine.verdict history call⟩)

/-- What a call does. -/
theorem evaluate_eq (engine : BulldogEngine) (history : History) (call : Call) :
    engine.evaluate (fun _ => .ok call.advisory) (fun _ _ => call.ledger) call.action history =
      (call.ledger.map fun _ => engine.verdict history call, engine.after history call) := by
  obtain ⟨advisory, hadvisory, hcombine⟩ : ∃ advisory,
      engine.advisoryFor (fun _ => .ok call.advisory) call.action = .ok advisory ∧
        engine.combine call.action advisory = engine.combine call.action call.advisory := by
    unfold advisoryFor
    split_ifs with hblock
    · refine ⟨_, rfl, ?_⟩
      -- Where the policy blocks, the advice is not looked at.
      simp only [combine, hblock, if_true]
    · exact ⟨_, rfl, rfl⟩
  unfold evaluate verdict after
  rw [hadvisory, verdict, ← hcombine]
  rcases call.ledger with _ | _ <;> rfl

theorem run_cons (engine : BulldogEngine) (history : History) (call : Call) (calls : List Call) :
    engine.run history (call :: calls) =
      (call.ledger.map fun _ => engine.verdict history call) ::
        engine.run (engine.after history call) calls := by
  rw [run, evaluate_eq]

/-- A call on the same action with stricter advice. -/
def Call.Le (call call' : Call) : Prop :=
  call.action = call'.action ∧ call.advisory.Le call'.advisory

/-- Verdicts stay in order. -/
theorem verdict_le {history history' : History} {call call' : Call}
    (hhistory : HistoryLe history history') (h : call.Le call') :
    (engine.verdict history call).Le (engine.verdict history' call') := by
  unfold verdict
  rw [h.1]
  refine SessionGuard.judge_le (SessionGuard.events_le hhistory _) (combine_le h.2) ?_
  rw [combine_hardBlock, combine_hardBlock]

/-- Histories stay in order. -/
theorem after_le {history history' : History} {call call' : Call}
    (hhistory : HistoryLe history history') (h : call.Le call') :
    HistoryLe (engine.after history call) (engine.after history' call') := by
  have hverdict : (engine.verdict history call).Le (engine.verdict history' call') :=
    verdict_le hhistory h
  unfold after
  rw [h.1]
  exact SessionGuard.store_le hhistory _
    (SessionGuard.remember_le _ (SessionGuard.events_le hhistory _) ⟨rfl, hverdict.1⟩)

/-- A verdict is above the policy's. -/
theorem above_verdict (engine : BulldogEngine) (history : History) (call : Call) :
    Above (Policy.evaluate engine.urllib engine.policy call.action)
      (engine.verdict history call) := by
  obtain ⟨hle, hreasons, hblock⟩ := above_combine engine call.action call.advisory
  obtain ⟨hle', hreasons'⟩ := SessionGuard.le_judge
    (SessionGuard.events history (SessionGuard.sessionKey call.action)) call.action
    (engine.combine call.action call.advisory)
  refine ⟨⟨hle.1.trans hle'.1, hle.2.trans hle'.2⟩, hreasons.trans hreasons', fun hhard => ?_⟩
  rw [verdict, SessionGuard.judge, combine_hardBlock, if_pos (.inl hhard), hblock hhard]

/-- What two calls return is in order. -/
def ResultLe (result result' : Except Exc Evaluation) : Prop :=
  ∀ e e', result = .ok e → result' = .ok e' → e.Le e'

theorem resultLe_map {ledger ledger' : Except Exc Unit} {e e' : Evaluation} (h : e.Le e') :
    ResultLe (ledger.map fun _ => e) (ledger'.map fun _ => e') := by
  intro x x' hx hx'
  cases ledger <;> cases ledger' <;> cases hx <;> cases hx'
  exact h

theorem run_le {history history' : History} {calls calls' : List Call}
    (hhistory : HistoryLe history history') (h : List.Forall₂ Call.Le calls calls') :
    List.Forall₂ ResultLe (engine.run history calls) (engine.run history' calls') := by
  induction h generalizing history history' with
  | nil => exact .nil
  | cons hcall _ ih =>
    rw [run_cons, run_cons]
    exact .cons (resultLe_map (verdict_le hhistory hcall)) (ih (after_le hhistory hcall))

theorem above_run (engine : BulldogEngine) (history : History) (calls : List Call) :
    List.Forall₂ (fun call result => ∀ e, result = .ok e →
      Above (Policy.evaluate engine.urllib engine.policy call.action) e) calls
      (engine.run history calls) := by
  induction calls generalizing history with
  | nil => exact .nil
  | cons call calls ih =>
    rw [run_cons]
    refine .cons (fun e he => ?_) (ih _)
    have habove := above_verdict engine history call
    rcases hledger : call.ledger with _ | _ <;> rw [hledger] at he <;> cases he
    exact habove

/-- Over any actions and from any history of the guard, a run with stricter advice is at least as
strict and risky at every step; and every run stays above the policy. -/
theorem stricter_advice (engine : BulldogEngine) (history : History) (calls : List Call) :
    List.Forall₂ (fun call result => ∀ e, result = .ok e →
      Above (Policy.evaluate engine.urllib engine.policy call.action) e) calls
      (engine.run history calls) ∧
    ∀ calls', List.Forall₂ Call.Le calls calls' →
      List.Forall₂ ResultLe (engine.run history calls) (engine.run history calls') :=
  ⟨above_run engine history calls, fun _ h => run_le (historyLe_refl history) h⟩

/-- An engine without a ceiling. -/
def plainEngine : BulldogEngine := ⟨⟨.ascii, fun _ => false⟩, ⟨"/workspace", none⟩, 8⟩

/-- A read of a project file. -/
def readCall (advisory : Advisory) : Call where
  action := ⟨"agent", "task", "read", "/workspace/file", .fsReadProject, {.fsReadProject}, [.human],
    none, false, false, []⟩
  advisory := advisory
  ledger := .ok ()

/-- A fetch, which the model advises to allow. -/
def fetchCall : Call where
  action := ⟨"agent", "task", "fetch", "https://example.org/".toList, .networkOutbound,
    {.fsReadProject, .networkOutbound}, [.human], none, false, false, []⟩
  advisory := ⟨some 0, .allow, ""⟩
  ledger := .ok ()

/-- A read and then a fetch. With the advice to deny the read the fetch is escalated too. -/
theorem advice_tightens :
    (plainEngine.verdict (plainEngine.after [] (readCall ⟨some 0, .allow, ""⟩)) fetchCall).decision = .allow ∧
    (plainEngine.verdict (plainEngine.after [] (readCall ⟨some 1, .deny, ""⟩)) fetchCall).decision = .escalate ∧
    List.Forall₂ ResultLe (plainEngine.run [] [readCall ⟨some 0, .allow, ""⟩, fetchCall])
      (plainEngine.run [] [readCall ⟨some 1, .deny, ""⟩, fetchCall]) := by
  have hread : Call.Le (readCall ⟨some 0, .allow, ""⟩) (readCall ⟨some 1, .deny, ""⟩) :=
    ⟨rfl, by decide, 0, 1, rfl, rfl, by decide⟩
  have hfetch : Call.Le fetchCall fetchCall := ⟨rfl, le_rfl, 0, 0, rfl, rfl, le_rfl⟩
  exact ⟨by decide +kernel, by decide +kernel,
    (stricter_advice plainEngine [] _).2 _ (.cons hread (.cons hfetch .nil))⟩

end BulldogEngine

end Bulldog
