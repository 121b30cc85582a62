import Bulldog.Engine

/-!
# Sessions are kept apart

`SessionGuard.enforce` keeps the last `max_history` events of each key. What it returns for an action
is a function of the action's capability, of the evaluation that it is given, and of the capabilities
and decisions of those events (`verdict`). So the calls of one key do not see the calls of another,
and `session_id` plays no part.
-/

namespace Bulldog

/-- What `enforce` reads of an event. -/
def SessionEvent.pair (event : SessionEvent) : Capability × Decision :=
  (event.action.capability, event.evaluation.decision)

namespace SessionGuard

/-! ## Windows -/

section Windows

variable {α : Type}

theorem lastN_of_length_le {n : ℕ} {xs : List α} (h : xs.length ≤ n) : lastN n xs = xs := by
  unfold lastN
  rw [Nat.sub_eq_zero_of_le h, List.drop_zero]

/-- The window moves by one element. -/
theorem lastN_concat {n : ℕ} (hn : 1 ≤ n) (xs : List α) (x : α) :
    lastN n (lastN n xs ++ [x]) = lastN n (xs ++ [x]) := by
  unfold lastN
  simp only [List.length_append, List.length_drop, List.length_singleton]
  rw [List.drop_append, List.drop_append, List.drop_drop, List.length_drop]
  congr 2 <;> omega

theorem map_lastN {β : Type} (f : α → β) (n : ℕ) (xs : List α) :
    (lastN n xs).map f = lastN n (xs.map f) := by
  unfold lastN
  rw [List.map_drop, List.length_map]

end Windows

theorem remember_eq_lastN {m : ℕ} (hm : 1 ≤ m) (events : List SessionEvent) (event : SessionEvent) :
    remember m events event = lastN m (events ++ [event]) := by
  unfold remember
  split_ifs with h
  · rfl
  · refine (lastN_of_length_le ?_).symm
    rw [List.length_append, List.length_singleton]
    omega

theorem lookup_store (history : History) (key key' : Str) (es : List SessionEvent) :
    (store history key es).lookup key' = if key' = key then some es else history.lookup key' := by
  unfold store
  split_ifs with hsome hkey hkey
  · -- the entry of the key is replaced
    subst hkey
    induction history with
    | nil => cases hsome
    | cons e history ih =>
      obtain ⟨k, events⟩ := e
      by_cases hk : k = key'
      · subst hk
        simp
      · rw [List.lookup_cons, beq_eq_false_iff_ne.2 (Ne.symm hk)] at hsome
        rw [List.map_cons, if_neg hk, List.lookup_cons, beq_eq_false_iff_ne.2 (Ne.symm hk)]
        exact ih hsome
  · -- the other entries stay
    clear hsome
    induction history with
    | nil => rfl
    | cons e history ih =>
      obtain ⟨k, events⟩ := e
      by_cases hk : k = key
      · subst hk
        simp [List.lookup_cons, beq_eq_false_iff_ne.2 hkey, ih]
      · simp [List.lookup_cons, hk, ih]
  · subst hkey
    rw [List.lookup_append, Option.not_isSome_iff_eq_none.1 hsome]
    simp
  · rw [List.lookup_append]
    simp [List.lookup_cons, beq_eq_false_iff_ne.2 hkey]

theorem events_store (history : History) (key key' : Str) (es : List SessionEvent) :
    events (store history key es) key' = if key' = key then es else events history key' := by
  unfold events
  rw [lookup_store]
  split_ifs <;> rfl

/-! ## Verdicts -/

/-- The flags that `enforce` raises after events with these capabilities and decisions. -/
def flagsOf (past : List (Capability × Decision)) (capability : Capability) : List String :=
  let previous := past.map Prod.fst
  (if capability = .credentialRead ∧ previous.any (· ∈ projectCapabilities) ∧
      .credentialRead ∉ previous then ["GOAL_DRIFT"] else []) ++
  (if capability ∈ privilegedCapabilities ∧ previous ≠ [] ∧
      (lastN 3 previous).all (· ∉ privilegedCapabilities) then ["AUTHORITY_SHIFT"] else []) ++
  (if past.getLast?.any fun p => p.2 ≠ .allow ∧ capability ≠ p.1 then
    ["ALTERNATE_PATH_AFTER_RESTRICTION"] else []) ++
  (if 4 ≤ (lastN 3 previous ++ [capability]).length ∧
      4 ≤ (lastN 3 previous ++ [capability]).dedup.length then ["TOOL_SHOPPING"] else [])

/-- What `enforce` returns, as a function of what it may depend on. -/
def verdict (past : List (Capability × Decision)) (capability : Capability)
    (evaluation : Evaluation) : Evaluation :=
  if evaluation.hardBlock ∨ flagsOf past capability = [] then evaluation
  else
    { evaluation with
      decision := evaluation.decision.max .escalate
      risk := max evaluation.risk (90 / 100)
      reasons := evaluation.reasons ++ (flagsOf past capability).map ("session behavior: " ++ ·) }

theorem flags_eq_flagsOf (events : List SessionEvent) (capability : Capability) :
    flags events capability = flagsOf (events.map SessionEvent.pair) capability := by
  have hprevious : (events.map SessionEvent.pair).map Prod.fst =
      events.map (·.action.capability) := by
    rw [List.map_map]
    rfl
  have hlast : (events.map SessionEvent.pair).getLast?.any
        (fun p => p.2 ≠ .allow ∧ capability ≠ p.1) =
      events.getLast?.any fun event => event.evaluation.decision ≠ .allow ∧
        capability ≠ event.action.capability := by
    rw [List.getLast?_map]
    cases events.getLast? <;> rfl
  unfold flags flagsOf
  simp only [hprevious, hlast]

theorem judge_eq_verdict (events : List SessionEvent) (action : ActionRequest)
    (evaluation : Evaluation) :
    judge events action evaluation =
      verdict (events.map SessionEvent.pair) action.capability evaluation := by
  unfold judge verdict
  rw [flags_eq_flagsOf]

/-! ## Runs -/

/-- The calls of `enforce` one after another: their events, and the history after them. -/
def enforceAll (maxHistory : ℕ) (calls : List (ActionRequest × Evaluation)) :
    List SessionEvent × History :=
  calls.foldl (fun s call =>
    let (result, history) := enforce maxHistory s.2 call.1 call.2
    (s.1 ++ [⟨call.1, result⟩], history)) ([], [])

/-- The events of a key. -/
def ofKey (key : Str) (events : List SessionEvent) : List SessionEvent :=
  events.filter fun event => sessionKey event.action = key

theorem ofKey_concat (key : Str) (events : List SessionEvent) (event : SessionEvent) :
    ofKey key (events ++ [event]) =
      if sessionKey event.action = key then ofKey key events ++ [event] else ofKey key events := by
  unfold ofKey
  rw [List.filter_append, List.filter_singleton]
  split_ifs with h <;> simp [h]

theorem enforceAll_concat (m : ℕ) (calls : List (ActionRequest × Evaluation))
    (call : ActionRequest × Evaluation) :
    enforceAll m (calls ++ [call]) =
      ((enforceAll m calls).1 ++ [⟨call.1, (enforce m (enforceAll m calls).2 call.1 call.2).1⟩],
        (enforce m (enforceAll m calls).2 call.1 call.2).2) := by
  unfold enforceAll
  rw [List.foldl_concat]

/-- The history of a key is the last events with this key. -/
theorem events_enforceAll {m : ℕ} (hm : 1 ≤ m) (calls : List (ActionRequest × Evaluation))
    (key : Str) :
    events (enforceAll m calls).2 key = lastN m (ofKey key (enforceAll m calls).1) := by
  induction calls using List.reverseRecOn with
  | nil => exact (lastN_of_length_le (Nat.zero_le m)).symm
  | append_singleton calls call ih =>
    rw [enforceAll_concat, ofKey_concat]
    simp only [enforce]
    rw [events_store]
    by_cases hkey : sessionKey call.1 = key
    · rw [if_pos hkey.symm, if_pos hkey, remember_eq_lastN hm, hkey, ih, lastN_concat hm]
    · rw [if_neg (Ne.symm hkey), if_neg hkey]
      exact ih

/-- The next result, from the last events of its key. -/
theorem enforce_eq_verdict {m : ℕ} (hm : 1 ≤ m) (calls : List (ActionRequest × Evaluation))
    (action : ActionRequest) (evaluation : Evaluation) :
    (enforce m (enforceAll m calls).2 action evaluation).1 =
      verdict ((lastN m (ofKey (sessionKey action) (enforceAll m calls).1)).map SessionEvent.pair)
        action.capability evaluation := by
  simp only [enforce]
  rw [judge_eq_verdict, events_enforceAll hm]

/-! ## Isolation -/

/-- What the calls of a key give to the guard. -/
def view (key : Str) (calls : List (ActionRequest × Evaluation)) : List (Capability × Evaluation) :=
  (calls.filter fun call => sessionKey call.1 = key).map fun call => (call.1.capability, call.2)

/-- The results of a key. -/
def results (maxHistory : ℕ) (calls : List (ActionRequest × Evaluation)) (key : Str) :
    List Evaluation :=
  (ofKey key (enforceAll maxHistory calls).1).map SessionEvent.evaluation

/-- The results of calls that a guard sees alone. -/
def alone (maxHistory : ℕ) (calls : List (Capability × Evaluation)) : List (Capability × Evaluation) :=
  calls.foldl (fun done call => done ++ [(call.1,
    verdict (lastN maxHistory (done.map fun e => (e.1, e.2.decision))) call.1 call.2)]) []

theorem view_concat (key : Str) (calls : List (ActionRequest × Evaluation))
    (call : ActionRequest × Evaluation) :
    view key (calls ++ [call]) = if sessionKey call.1 = key then
      view key calls ++ [(call.1.capability, call.2)] else view key calls := by
  unfold view
  rw [List.filter_append, List.filter_singleton, List.map_append]
  split_ifs with h <;> simp [h]

/-- A key is judged as if its calls were alone. -/
theorem ofKey_eq_alone {m : ℕ} (hm : 1 ≤ m) (calls : List (ActionRequest × Evaluation)) (key : Str) :
    (ofKey key (enforceAll m calls).1).map (fun e => (e.action.capability, e.evaluation)) =
      alone m (view key calls) := by
  induction calls using List.reverseRecOn with
  | nil => rfl
  | append_singleton calls call ih =>
    rw [enforceAll_concat, ofKey_concat, view_concat]
    by_cases hkey : sessionKey call.1 = key
    · subst hkey
      rw [if_pos rfl, if_pos rfl, List.map_append, ih, alone, alone, List.foldl_concat]
      congr 1
      rw [enforce_eq_verdict hm, map_lastN]
      -- the events of the key and the calls alone have the same pairs
      have hpairs := congrArg (List.map fun e : Capability × Evaluation => (e.1, e.2.decision)) ih
      rw [List.map_map] at hpairs
      exact congrArg
        (fun past => [(call.1.capability, verdict (lastN m past) call.1.capability call.2)]) hpairs
    · rw [if_neg hkey, if_neg hkey]
      exact ih

theorem results_eq_alone {m : ℕ} (hm : 1 ≤ m) (calls : List (ActionRequest × Evaluation))
    (key : Str) : results m calls key = (alone m (view key calls)).map Prod.snd := by
  rw [← ofKey_eq_alone hm, List.map_map]
  rfl

/-- Two calls that differ at most in `session_id`. -/
structure SameButSession (call call' : ActionRequest × Evaluation) : Prop where
  action : call'.1 = { call.1 with metadata := call'.1.metadata }
  metadata : ∀ key, key ≠ "session_id" → call'.1.metadata.get key = call.1.metadata.get key
  evaluation : call'.2 = call.2

theorem SameButSession.sessionKey_eq {call call' : ActionRequest × Evaluation}
    (h : SameButSession call call') : sessionKey call'.1 = sessionKey call.1 := by
  unfold sessionKey
  rw [h.metadata "security_context_id" (by decide), h.action]

theorem view_eq_of_session {calls calls' : List (ActionRequest × Evaluation)}
    (h : List.Forall₂ SameButSession calls calls') (key : Str) : view key calls' = view key calls := by
  induction h with
  | nil => rfl
  | cons hcall _ ih =>
    unfold view at ih ⊢
    rw [List.filter_cons, List.filter_cons, hcall.sessionKey_eq]
    split_ifs with hkey
    · rw [List.map_cons, List.map_cons, ih, hcall.evaluation, hcall.action]
    · exact ih

/-- Whatever calls are made, in whatever order, the history of a key is its last `m` events, the next
result follows from its capability, its evaluation and the pairs of these events, calls of other keys
change no result of the key, and no `session_id` does. -/
theorem sessions_isolated (m : ℕ) (hm : 1 ≤ m) (calls : List (ActionRequest × Evaluation)) :
    (∀ key, events (enforceAll m calls).2 key = lastN m (ofKey key (enforceAll m calls).1)) ∧
      (∀ action evaluation, (enforce m (enforceAll m calls).2 action evaluation).1 =
        verdict ((lastN m (ofKey (sessionKey action) (enforceAll m calls).1)).map SessionEvent.pair)
          action.capability evaluation) ∧
      (∀ key calls', view key calls' = view key calls → results m calls' key = results m calls key) ∧
      ∀ calls', List.Forall₂ SameButSession calls calls' →
        ∀ key, results m calls' key = results m calls key := by
  have hisolated : ∀ key calls', view key calls' = view key calls →
      results m calls' key = results m calls key := by
    intro key calls' hview
    rw [results_eq_alone hm, results_eq_alone hm, hview]
  exact ⟨events_enforceAll hm calls, enforce_eq_verdict hm calls, hisolated,
    fun calls' hsame key => hisolated key calls' (view_eq_of_session hsame key)⟩

/-- An action of an actor. -/
def plainAction (actor : Str) (capability : Capability) : ActionRequest :=
  ⟨actor, [], [], [], capability, {capability}, [], none, false, false, []⟩

/-- What the policy says to it. -/
def plainAllow : Evaluation := ⟨.allow, 0, [], false⟩

/-- A call of another actor between two calls changes nothing. -/
theorem sessions_isolated_at_two :
    results 2 [(plainAction ['a'] .fsReadProject, plainAllow),
        (plainAction ['b'] .networkPost, plainAllow),
        (plainAction ['a'] .credentialRead, plainAllow)] ("actor:".toList ++ ['a']) =
      results 2 [(plainAction ['a'] .fsReadProject, plainAllow),
        (plainAction ['a'] .credentialRead, plainAllow)] ("actor:".toList ++ ['a']) := by
  refine (sessions_isolated 2 (by decide) _).2.2.1 _ _ ?_
  decide

end SessionGuard

end Bulldog
