import Bulldog.MultiAgent.Agents
import Mathlib

/-!
# One-time tokens

Anyone may send envelopes to the policy agent and to the executor, in any order and with any content.
Every call of a registered action goes back to an `ALLOW` of its own, for the same action, whose token
was presented.
-/

namespace Bulldog.MultiAgent

/-- An envelope that reaches one of the two agents, or a new action. A call that an action makes on
the bus comes after the call of the action. -/
inductive Delivery where
  /-- To the policy agent, where `uuid4` gives `uuid`. -/
  | policy (action uuid : Str)
  | executor (message : ExecuteMessage)
  | register (name : Str)

/-- What has happened. -/
inductive Happening where
  /-- The policy agent returned `ALLOW` with this token. -/
  | allowed (action token : Str)
  /-- The callable of an action was called after this token was presented. -/
  | invoked (action token : Str)
  deriving DecidableEq

/-- An `ALLOW` for this action. -/
def Happening.isAllowed (action : Str) : Happening → Bool
  | .allowed a _ => a = action
  | .invoked _ _ => false

/-- A call of this action. -/
def Happening.isInvoked (action : Str) : Happening → Bool
  | .allowed _ _ => false
  | .invoked a _ => a = action

/-- The two agents and what has happened. -/
structure Desk where
  policy : PolicyAgent
  executor : ExecutorAgent
  history : List Happening

/-- One delivery. -/
def Desk.deliver (desk : Desk) : Delivery → Desk
  | .policy action uuid =>
    let (result, policy) := desk.policy.process action uuid
    { desk with
      policy := policy
      history := match result.output.bind PolicyOutput.token with
        | some token => desk.history ++ [.allowed action token]
        | none => desk.history }
  | .executor message =>
    let (stage, policy) := desk.executor.stage desk.policy message
    { desk with
      policy := policy
      history := match stage, message.token with
        | .invoke, some token => desk.history ++ [.invoked message.action token]
        | _, _ => desk.history }
  | .register name =>
    { desk with executor := { desk.executor with actions := name :: desk.executor.actions } }

/-- The deliveries one after another. -/
def Desk.run (desk : Desk) (deliveries : List Delivery) : Desk := deliveries.foldl Desk.deliver desk

/-- The agents before any envelope. -/
def Desk.fresh (policyId executorId : Str) (rules : List PolicyRule) (actions : List Str)
    (hasApprover : Bool) : Desk :=
  ⟨⟨policyId, rules, []⟩, ⟨executorId, actions, hasApprover⟩, []⟩

/-- The identifiers that `uuid4` has given to the policy agent. -/
def uuids (deliveries : List Delivery) : List Str :=
  deliveries.filterMap fun
    | .policy _ uuid => some uuid
    | _ => none

/-! ## One delivery -/

/-- What a delivery does: nothing that counts, an `ALLOW`, or a call. -/
inductive Desk.Move (desk desk' : Desk) (d : Delivery) : Prop
  | quiet (history : desk'.history = desk.history)
      (tokens : desk'.policy.tokens.Sublist desk.policy.tokens)
  | allow (action uuid : Str) (policy : d = .policy action uuid)
      (history : desk'.history = desk.history ++ [.allowed action uuid])
      (tokens : desk'.policy.tokens =
        desk.policy.tokens.filter (fun e => e.1 ≠ uuid) ++ [(uuid, action)])
  | invoke (action token : Str) (held : (token, action) ∈ desk.policy.tokens)
      (history : desk'.history = desk.history ++ [.invoked action token])
      (tokens : desk'.policy.tokens = desk.policy.tokens.filter fun e => e.1 ≠ token)

theorem mem_of_lookup {k v : Str} {es : List (Str × Str)} (h : es.lookup k = some v) :
    (k, v) ∈ es := by
  induction es with
  | nil => cases h
  | cons e es ih =>
    obtain ⟨k', v'⟩ := e
    rw [List.lookup_cons] at h
    rcases hk : k == k' with _ | _
    · rw [hk] at h
      exact List.mem_cons_of_mem _ (ih h)
    · rw [hk] at h
      obtain rfl := eq_of_beq hk
      obtain rfl := Option.some.inj h
      exact List.mem_cons_self

/-- `consume` succeeds with a token that is held for the action, and takes it. -/
theorem consume_cases (agent : PolicyAgent) (token : Option Str) (action : Str) :
    agent.consume token action = (false, agent) ∨
      ∃ t, token = some t ∧ (t, action) ∈ agent.tokens ∧
        agent.consume token action =
          (true, { agent with tokens := agent.tokens.filter fun e => e.1 ≠ t }) := by
  unfold PolicyAgent.consume
  rcases token with _ | t
  · exact .inl rfl
  · by_cases h : agent.tokens.lookup t = some action
    · exact .inr ⟨t, rfl, mem_of_lookup h, by simp only [if_pos h]⟩
    · exact .inl (by simp only [if_neg h])

theorem Desk.deliver_move (desk : Desk) (d : Delivery) : desk.Move (desk.deliver d) d := by
  cases d with
  | policy action uuid =>
    rcases hdecide : desk.policy.decide action with _ | _ | _
    · simp only [deliver, PolicyAgent.process, hdecide]
      exact .allow action uuid rfl rfl rfl
    · simp only [deliver, PolicyAgent.process, hdecide]
      exact .quiet rfl (List.Sublist.refl _)
    · simp only [deliver, PolicyAgent.process, hdecide]
      exact .quiet rfl (List.Sublist.refl _)
  | register name => exact .quiet rfl (List.Sublist.refl _)
  | executor message =>
    rcases happrover : desk.executor.hasApprover with _ | _
    · simp only [deliver, ExecutorAgent.stage, happrover, Bool.false_eq_true, if_false]
      exact .quiet rfl (List.Sublist.refl _)
    · rcases consume_cases desk.policy message.token message.action with
        hrefused | ⟨t, ht, hheld, htaken⟩
      · simp only [deliver, ExecutorAgent.stage, happrover, if_true, hrefused]
        exact .quiet rfl (List.Sublist.refl _)
      · rcases hargs : message.args with errorType | _
        · simp only [deliver, ExecutorAgent.stage, happrover, if_true, htaken, hargs]
          exact .quiet rfl List.filter_sublist
        · by_cases hknown : message.action ∈ desk.executor.actions
          · simp only [deliver, ExecutorAgent.stage, happrover, if_true, htaken, hargs, if_pos hknown]
            simp only [ht]
            exact .invoke message.action t hheld rfl rfl
          · simp only [deliver, ExecutorAgent.stage, happrover, if_true, htaken, hargs, if_neg hknown]
            exact .quiet rfl List.filter_sublist

/-! ## Runs -/

/-- The tokens that are held were given out and not used, every call has its token and its `ALLOW`
before it, and no token is used twice. -/
structure Desk.Sound (desk : Desk) (given : List Str) : Prop where
  held : ∀ t a, (t, a) ∈ desk.policy.tokens →
    Happening.allowed a t ∈ desk.history ∧ ∀ a', Happening.invoked a' t ∉ desk.history
  given : ∀ a t, Happening.allowed a t ∈ desk.history → t ∈ given
  earlier : ∀ (i : ℕ) a t, desk.history[i]? = some (Happening.invoked a t) →
    ∃ j < i, desk.history[j]? = some (Happening.allowed a t)
  allowedOnce : ∀ t (i j : ℕ) x y, desk.history[i]? = some x → desk.history[j]? = some y →
    (∃ a, x = .allowed a t) → (∃ a, y = .allowed a t) → i = j
  invokedOnce : ∀ t (i j : ℕ) x y, desk.history[i]? = some x → desk.history[j]? = some y →
    (∃ a, x = .invoked a t) → (∃ a, y = .invoked a t) → i = j
  counted : ∀ a, desk.history.countP (Happening.isInvoked a) +
    desk.policy.tokens.countP (fun e => e.2 = a) ≤ desk.history.countP (Happening.isAllowed a)

theorem getElem?_concat_eq_some {α : Type} {xs : List α} {x y : α} {i : ℕ}
    (h : (xs ++ [x])[i]? = some y) : xs[i]? = some y ∨ i = xs.length ∧ y = x := by
  rcases Nat.lt_trichotomy i xs.length with hlt | heq | hgt
  · rw [List.getElem?_append_left hlt] at h
    exact .inl h
  · subst heq
    rw [List.getElem?_concat_length] at h
    exact .inr ⟨rfl, (Option.some.inj h).symm⟩
  · rw [List.getElem?_eq_none (by simp; omega)] at h
    cases h

/-- At most one position of a list has the property, if none had it before the new element. -/
theorem unique_concat {α : Type} {xs : List α} {x : α} {P : α → Prop}
    (hold : ∀ (i j : ℕ) y z, xs[i]? = some y → xs[j]? = some z → P y → P z → i = j)
    (hnew : P x → ∀ y ∈ xs, ¬ P y) {i j : ℕ} {y z : α} (hi : (xs ++ [x])[i]? = some y)
    (hj : (xs ++ [x])[j]? = some z) (hy : P y) (hz : P z) : i = j := by
  rcases getElem?_concat_eq_some hi with hxi | ⟨hlast, hyx⟩
  · rcases getElem?_concat_eq_some hj with hxj | ⟨-, hzx⟩
    · exact hold i j y z hxi hxj hy hz
    · exact absurd hy (hnew (hzx ▸ hz) y (List.mem_of_getElem? hxi))
  · rcases getElem?_concat_eq_some hj with hxj | ⟨hlast', -⟩
    · exact absurd hz (hnew (hyx ▸ hy) z (List.mem_of_getElem? hxj))
    · exact hlast.trans hlast'.symm

theorem earlier_concat {xs : List Happening} {x : Happening}
    (h : ∀ (i : ℕ) a t, xs[i]? = some (Happening.invoked a t) →
      ∃ j < i, xs[j]? = some (Happening.allowed a t))
    (hx : ∀ a t, x = .invoked a t → Happening.allowed a t ∈ xs) {i : ℕ} {a t : Str}
    (hi : (xs ++ [x])[i]? = some (.invoked a t)) :
    ∃ j < i, (xs ++ [x])[j]? = some (.allowed a t) := by
  rcases getElem?_concat_eq_some hi with hi | ⟨rfl, hnew⟩
  · obtain ⟨j, hj, heq⟩ := h i a t hi
    refine ⟨j, hj, ?_⟩
    rw [List.getElem?_append_left (List.getElem?_eq_some_iff.1 heq).1]
    exact heq
  · obtain ⟨j, hj⟩ := List.mem_iff_getElem?.1 (hx a t hnew.symm)
    have hlt := (List.getElem?_eq_some_iff.1 hj).1
    exact ⟨j, hlt, by rw [List.getElem?_append_left hlt, hj]⟩

theorem Desk.Sound.move {desk desk' : Desk} {given : List Str} {d : Delivery}
    (h : desk.Sound given) (hmove : desk.Move desk' d)
    (hfresh : ∀ action uuid, d = .policy action uuid → uuid ∉ given) :
    desk'.Sound (given ++ uuids [d]) := by
  cases hmove with
  | quiet history tokens =>
    refine ⟨fun t a hmem => ?_, fun a t hmem => ?_, ?_, ?_, ?_, fun a => ?_⟩
    · rw [history]
      exact h.held t a (tokens.subset hmem)
    · rw [history] at hmem
      exact List.mem_append_left _ (h.given a t hmem)
    · rw [history]
      exact h.earlier
    · rw [history]
      exact h.allowedOnce
    · rw [history]
      exact h.invokedOnce
    · rw [history]
      have hcounted := h.counted a
      have hsub : desk'.policy.tokens.countP (fun e => decide (e.2 = a)) ≤
          desk.policy.tokens.countP (fun e => decide (e.2 = a)) := tokens.countP_le
      omega
  | allow action uuid policy history tokens =>
    have hnew := hfresh action uuid policy
    have hunused : ∀ a, Happening.allowed a uuid ∉ desk.history := fun a hmem => hnew (h.given a uuid hmem)
    subst policy
    refine ⟨fun t a hmem => ?_, fun a t hmem => ?_, fun i a t => ?_, fun t i j x y => ?_,
      fun t i j x y => ?_, fun a => ?_⟩
    · rw [tokens] at hmem
      rw [history]
      rcases List.mem_append.1 hmem with hmem | hmem
      · obtain ⟨hallowed, hnot⟩ := h.held t a (List.mem_of_mem_filter hmem)
        refine ⟨List.mem_append_left _ hallowed, fun a' hinvoked => ?_⟩
        rcases List.mem_append.1 hinvoked with hinvoked | hinvoked
        · exact hnot a' hinvoked
        · cases List.mem_singleton.1 hinvoked
      · obtain ⟨rfl, rfl⟩ := Prod.mk.inj (List.mem_singleton.1 hmem)
        refine ⟨List.mem_append_right _ (List.mem_singleton.2 rfl), fun a' hinvoked => ?_⟩
        rcases List.mem_append.1 hinvoked with hinvoked | hinvoked
        · -- a call with this token would have an `ALLOW` with it before
          obtain ⟨i, hi⟩ := List.mem_iff_getElem?.1 hinvoked
          obtain ⟨j, -, hj⟩ := h.earlier i a' t hi
          exact hunused a' (List.mem_of_getElem? hj)
        · cases List.mem_singleton.1 hinvoked
    · rw [history] at hmem
      rcases List.mem_append.1 hmem with hmem | hmem
      · exact List.mem_append_left _ (h.given a t hmem)
      · obtain ⟨rfl, rfl⟩ := Happening.allowed.inj (List.mem_singleton.1 hmem)
        exact List.mem_append_right _ (List.mem_singleton.2 rfl)
    · rw [history]
      exact earlier_concat h.earlier (by rintro _ _ ⟨⟩)
    · rw [history]
      refine unique_concat (h.allowedOnce t) ?_
      rintro ⟨a, heq⟩ y hy ⟨a', rfl⟩
      obtain ⟨rfl, rfl⟩ := Happening.allowed.inj heq
      exact hunused a' hy
    · rw [history]
      refine unique_concat (h.invokedOnce t) ?_
      rintro ⟨a, heq⟩
      cases heq
    · rw [history, tokens, List.countP_append, List.countP_append, List.countP_append]
      have hcounted := h.counted a
      have hsub : (desk.policy.tokens.filter fun e => decide (e.1 ≠ uuid)).countP
          (fun e => decide (e.2 = a)) ≤ desk.policy.tokens.countP (fun e => decide (e.2 = a)) :=
        List.filter_sublist.countP_le
      simp only [List.countP_singleton, Happening.isInvoked, Happening.isAllowed,
        Bool.false_eq_true, if_false]
      by_cases ha : action = a
      · simp only [ha, decide_true, if_true]
        omega
      · simp only [ha, decide_false, Bool.false_eq_true, if_false]
        omega
  | invoke action token held history tokens =>
    obtain ⟨hallowed, hnot⟩ := h.held token action held
    refine ⟨fun t a hmem => ?_, fun a t hmem => ?_, fun i a t => ?_, fun t i j x y => ?_,
      fun t i j x y => ?_, fun a => ?_⟩
    · rw [tokens, List.mem_filter] at hmem
      obtain ⟨hmem, hne⟩ := hmem
      obtain ⟨hallowed', hnot'⟩ := h.held t a hmem
      rw [history]
      refine ⟨List.mem_append_left _ hallowed', fun a' hinvoked => ?_⟩
      rcases List.mem_append.1 hinvoked with hinvoked | hinvoked
      · exact hnot' a' hinvoked
      · obtain ⟨-, rfl⟩ := Happening.invoked.inj (List.mem_singleton.1 hinvoked)
        simp at hne
    · rw [history] at hmem
      rcases List.mem_append.1 hmem with hmem | hmem
      · exact List.mem_append_left _ (h.given a t hmem)
      · cases List.mem_singleton.1 hmem
    · rw [history]
      refine earlier_concat h.earlier fun a' t' heq => ?_
      obtain ⟨rfl, rfl⟩ := Happening.invoked.inj heq
      exact hallowed
    · rw [history]
      refine unique_concat (h.allowedOnce t) ?_
      rintro ⟨a, heq⟩
      cases heq
    · rw [history]
      refine unique_concat (h.invokedOnce t) ?_
      rintro ⟨a, heq⟩ y hy ⟨a', rfl⟩
      obtain ⟨rfl, rfl⟩ := Happening.invoked.inj heq
      exact hnot a' hy
    · rw [history, tokens, List.countP_append, List.countP_append]
      have hcounted := h.counted a
      have hsplit := List.countP_eq_countP_filter_add desk.policy.tokens
        (fun e => decide (e.2 = a)) (fun e => decide (e.1 ≠ token))
      simp only [List.countP_singleton, Happening.isInvoked, Happening.isAllowed,
        Bool.false_eq_true, if_false]
      by_cases ha : action = a
      · -- the token that was taken counted for this action
        subst ha
        have htaken : 0 < (desk.policy.tokens.filter fun e => !decide (e.1 ≠ token)).countP
            (fun e => decide (e.2 = action)) := by
          refine List.countP_pos_iff.2 ⟨(token, action), List.mem_filter.2 ⟨held, by simp⟩, by simp⟩
        simp only [decide_true, if_true]
        omega
      · simp only [decide_eq_true_eq, if_neg ha]
        omega

theorem uuids_concat (deliveries : List Delivery) (d : Delivery) :
    uuids (deliveries ++ [d]) = uuids deliveries ++ uuids [d] := List.filterMap_append

theorem Desk.run_sound (policyId executorId : Str) (rules : List PolicyRule) (actions : List Str)
    (hasApprover : Bool) (deliveries : List Delivery) (hfresh : (uuids deliveries).Nodup) :
    ((Desk.fresh policyId executorId rules actions hasApprover).run deliveries).Sound
      (uuids deliveries) := by
  induction deliveries using List.reverseRecOn with
  | nil => constructor <;> simp [Desk.run, Desk.fresh]
  | append_singleton deliveries d ih =>
    rw [uuids_concat] at hfresh ⊢
    rw [Desk.run, List.foldl_concat]
    refine (ih (List.nodup_append.1 hfresh).1).move (Desk.deliver_move _ d) ?_
    rintro action uuid rfl hmem
    exact (List.nodup_append.1 hfresh).2.2 uuid hmem uuid (List.mem_singleton.2 rfl) rfl

/-- Every call of a registered action goes to an earlier `ALLOW` for this action whose token was
presented, and different calls go to different ones. So an action is not called more often than it was
allowed, and no token causes two calls. -/
theorem tokens_one_time (policyId executorId : Str) (rules : List PolicyRule) (actions : List Str)
    (hasApprover : Bool) (deliveries : List Delivery) (hfresh : (uuids deliveries).Nodup)
    (history : List Happening)
    (hhistory : ((Desk.fresh policyId executorId rules actions hasApprover).run deliveries).history =
      history) :
    (∃ f : ℕ → ℕ, (∀ (i : ℕ) a t, history[i]? = some (.invoked a t) →
        f i < i ∧ history[f i]? = some (.allowed a t)) ∧
      Set.InjOn f {i | ∃ a t, history[i]? = some (.invoked a t)}) ∧
    (∀ (i j : ℕ) a a' t, history[i]? = some (.invoked a t) → history[j]? = some (.invoked a' t) →
      i = j) ∧
    ∀ a, history.countP (Happening.isInvoked a) ≤ history.countP (Happening.isAllowed a) := by
  subst hhistory
  have hsound := Desk.run_sound policyId executorId rules actions hasApprover deliveries hfresh
  generalize (Desk.fresh policyId executorId rules actions hasApprover).run deliveries = desk at hsound ⊢
  have honce : ∀ (i j : ℕ) a a' t, desk.history[i]? = some (.invoked a t) →
      desk.history[j]? = some (.invoked a' t) → i = j :=
    fun i j a a' t hi hj => hsound.invokedOnce t i j _ _ hi hj ⟨a, rfl⟩ ⟨a', rfl⟩
  refine ⟨?_, honce, fun a => ?_⟩
  · -- a call goes to the `ALLOW` that gave out its token
    have hchoose : ∀ i : ℕ, ∃ j : ℕ, ∀ a t, desk.history[i]? = some (.invoked a t) →
        j < i ∧ desk.history[j]? = some (.allowed a t) := by
      intro i
      by_cases hi : ∃ a t, desk.history[i]? = some (.invoked a t)
      · obtain ⟨a, t, hi⟩ := hi
        obtain ⟨j, hj, hallowed⟩ := hsound.earlier i a t hi
        refine ⟨j, fun a' t' hi' => ?_⟩
        obtain ⟨rfl, rfl⟩ := Happening.invoked.inj (Option.some.inj (hi.symm.trans hi'))
        exact ⟨hj, hallowed⟩
      · exact ⟨0, fun a t hi' => absurd ⟨a, t, hi'⟩ hi⟩
    choose f hf using hchoose
    refine ⟨f, hf, ?_⟩
    rintro i ⟨a, t, hi⟩ j ⟨a', t', hj⟩ heq
    have hallowed := (hf i a t hi).2
    rw [heq, (hf j a' t' hj).2] at hallowed
    obtain ⟨rfl, rfl⟩ := Happening.allowed.inj (Option.some.inj hallowed)
    exact honce i j _ _ _ hi hj
  · exact le_trans (Nat.le_add_right _ _) (hsound.counted a)

/-- An action is allowed, and its token is presented twice. -/
def replayedDeliveries : List Delivery :=
  [.policy "echo".toList "t".toList, .executor ⟨"echo".toList, some "t".toList, .ok ()⟩,
    .executor ⟨"echo".toList, some "t".toList, .ok ()⟩]

/-- What comes of it. -/
def replayedHistory : List Happening := [.allowed "echo".toList "t".toList, .invoked "echo".toList "t".toList]

/-- The action is called once, and its token is presented again in vain. -/
theorem tokens_one_time_replayed :
    ((Desk.fresh [] [] [⟨fun _ => true, .allow⟩] ["echo".toList] true).run replayedDeliveries).history =
      replayedHistory ∧
    (∃ f : ℕ → ℕ, (∀ (i : ℕ) a t, replayedHistory[i]? = some (.invoked a t) →
        f i < i ∧ replayedHistory[f i]? = some (.allowed a t)) ∧
      Set.InjOn f {i | ∃ a t, replayedHistory[i]? = some (.invoked a t)}) ∧
    replayedHistory.countP (Happening.isInvoked "echo".toList) ≤
      replayedHistory.countP (Happening.isAllowed "echo".toList) := by
  have hhistory : ((Desk.fresh [] [] [⟨fun _ => true, .allow⟩] ["echo".toList] true).run
      replayedDeliveries).history = replayedHistory := by decide
  obtain ⟨hearlier, -, hcount⟩ := tokens_one_time [] [] [⟨fun _ => true, .allow⟩] ["echo".toList] true
    replayedDeliveries (by decide) replayedHistory hhistory
  exact ⟨hhistory, hearlier, hcount _⟩

end Bulldog.MultiAgent
