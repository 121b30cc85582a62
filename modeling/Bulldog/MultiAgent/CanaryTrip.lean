import Bulldog.MultiAgent.Canary

/-!
# A leak trips its trace

Whatever is minted, completed and looked through, and in whatever order: a token in a value that is
looked through is found, however it is encoded and wherever it is split, and the trace is tripped for
good. There are two gaps. The strings that are joined are those whose path does not end in `<key>`, which
is how keys are marked; but a string may stand under a key of that name, and is then left out. And where
the walk raises, at something that cannot be copied or nested too deep, nothing is looked at.
-/

namespace Bulldog.MultiAgent

/-! ## Tokens in trees -/

/-- A token is split at its first colon. -/
theorem afterColon_text (token : Token) : afterColon token.text = token.body := rfl

theorem hexdigest_ne_nil {data : Bytes} (h : data ≠ []) : hexdigest data ≠ [] := by
  obtain ⟨b, bs, rfl⟩ := List.exists_cons_of_ne_nil h
  exact List.cons_ne_nil _ _

/-- No representation of a token is empty. -/
theorem representations_ne_nil (token : Token) : ∀ r ∈ representations token.text, r.2 ≠ [] := by
  have htext : token.text ≠ [] := List.cons_ne_nil _ _
  have hraw := encodeUtf8_ne_nil htext
  have hbody := encodeUtf8_ne_nil token.nonempty
  unfold representations
  rw [afterColon_text]
  simp only [List.forall_mem_cons]
  exact ⟨htext, token.nonempty, b64encode_ne_nil hraw, rstrip_urlsafeB64encode_ne_nil hraw,
    b64encode_ne_nil hbody, rstrip_urlsafeB64encode_ne_nil hbody, hexdigest_ne_nil hraw,
    hexdigest_ne_nil hbody, quote_ne_nil htext, List.forall_mem_nil _⟩

/-- A text holds a representation of the token. -/
def Holds (token : Token) (text : Str) : Prop := ∃ r ∈ representations token.text, r.2 <:+: text

theorem matchingRepresentation_isSome (token : Token) (text : Str) :
    (matchingRepresentation token.text text).isSome ↔ Holds token text := by
  unfold matchingRepresentation
  rw [Option.isSome_map, List.find?_isSome]
  refine exists_congr fun r => and_congr_right fun hr => ?_
  rw [decide_eq_true_iff]
  exact and_iff_right (representations_ne_nil token r hr)

/-- The strings of a tree that are not keys, one after another. -/
def joined (strings : List Entry) : Str := (strings.filterMap Entry.leafText).flatten

/-- The tree shows the token: in a string, in a key, or across strings that are not keys. -/
def Shows (token : Token) (strings : List Entry) : Prop :=
  (∃ e ∈ strings, Holds token e.text) ∨ Holds token (joined strings)

/-- No string of the tree stands under a key `<key>`. -/
def Unambiguous (strings : List Entry) : Prop :=
  ∀ path text, .leaf path text ∈ strings → path.getLast? ≠ some "<key>".toList

theorem not_holds_nil (token : Token) : ¬ Holds token [] := by
  rintro ⟨r, hr, hwithin⟩
  exact representations_ne_nil token r hr (List.infix_nil.1 hwithin)

/-- Where no string stands under `<key>`, what is joined are the strings that are not keys. -/
theorem filter_eq_leafTexts {strings : List Entry} (h : Unambiguous strings) :
    (strings.filter fun e => e.path.getLast? ≠ some "<key>".toList).map Entry.text =
      strings.filterMap Entry.leafText := by
  induction strings with
  | nil => rfl
  | cons e strings ih =>
    have ih := ih fun path text hmem => h path text (List.mem_cons_of_mem _ hmem)
    cases e with
    | key parent text =>
      rw [List.filter_cons_of_neg (by simp [Entry.path]), ih]
      rfl
    | leaf path text =>
      have hpath := h path text List.mem_cons_self
      rw [List.filter_cons_of_pos (by exact decide_eq_true hpath), List.map_cons, ih]
      rfl

/-- Some candidate holds the token exactly where the tree shows it. -/
theorem exists_candidate_iff {strings : List Entry} (h : Unambiguous strings) (token : Token) :
    (∃ c ∈ HoneyTokenAgent.candidates strings, Holds token c.2) ↔ Shows token strings := by
  unfold HoneyTokenAgent.candidates HoneyTokenAgent.joinedCandidate Shows joined
  simp only [filter_eq_leafTexts h, List.mem_append, List.mem_map]
  constructor
  · rintro ⟨c, ⟨e, he, rfl⟩ | hc, hholds⟩
    · exact .inl ⟨e, he, hholds⟩
    · split_ifs at hc
      · cases hc
      · obtain rfl := List.mem_singleton.1 hc
        exact .inr hholds
  · rintro (⟨e, he, hholds⟩ | hholds)
    · exact ⟨_, .inl ⟨e, he, rfl⟩, hholds⟩
    · refine ⟨(none, _), .inr ?_, hholds⟩
      rw [if_neg]
      · exact List.mem_singleton.2 rfl
      · intro hnil
        rw [hnil] at hholds
        exact not_holds_nil token hholds

/-! ## States -/

namespace States

variable {states : States} {traceId : Str} {f : HoneyTokenState → HoneyTokenState}

theorem get_eq_some_iff (h : (states.map HoneyTokenState.traceId).Nodup) {st : HoneyTokenState} :
    states.get traceId = some st ↔ st ∈ states ∧ st.traceId = traceId := by
  constructor
  · intro hget
    exact ⟨List.mem_of_find?_eq_some hget, by simpa using List.find?_some hget⟩
  · rintro ⟨hmem, rfl⟩
    obtain ⟨l₁, l₂, rfl⟩ := List.append_of_mem hmem
    refine List.find?_eq_some_iff_append.2 ⟨by simp, l₁, l₂, rfl, fun other hother => ?_⟩
    simp only [List.map_append, List.map_cons, List.nodup_append] at h
    simpa using h.2.2 _ (List.mem_map_of_mem hother) _ List.mem_cons_self

theorem get_isSome_iff : (states.get traceId).isSome ↔ ∃ st ∈ states, st.traceId = traceId := by
  rw [get, List.find?_isSome]
  simp

theorem mem_change {st' : HoneyTokenState} : st' ∈ states.change traceId f ↔
    ∃ st ∈ states, (if st.traceId = traceId then f st else st) = st' := List.mem_map

theorem get_change (hf : ∀ st, (f st).traceId = st.traceId) (t : Str) :
    (states.change traceId f).get t =
      (states.get t).map fun st => if st.traceId = traceId then f st else st := by
  unfold get change
  rw [List.find?_map]
  congr 2
  funext st
  simp only [Function.comp_apply]
  split_ifs with h
  · rw [hf]
  · rfl

theorem map_traceId_change (hf : ∀ st, (f st).traceId = st.traceId) :
    (states.change traceId f).map HoneyTokenState.traceId = states.map HoneyTokenState.traceId := by
  unfold change
  rw [List.map_map]
  refine List.map_congr_left fun st _ => ?_
  simp only [Function.comp_apply]
  split_ifs
  · exact hf st
  · rfl

end States

/-- What holds of the states in every run: no trace is there twice, and a tripped trace has a
finding. -/
structure Sound (states : States) : Prop where
  nodup : (states.map HoneyTokenState.traceId).Nodup
  finding : ∀ st ∈ states, st.tripped = true → ∃ finding, st.finding = some finding

/-- The tripped traces of some states are there in others, with their findings. -/
def Keeps (states states' : States) : Prop :=
  ∀ st ∈ states, st.tripped = true → ∀ finding, st.finding = some finding →
    ∃ st' ∈ states', st'.traceId = st.traceId ∧ st'.tripped = true ∧ st'.finding = some finding

theorem Keeps.refl (states : States) : Keeps states states :=
  fun st hst htripped _ hfinding => ⟨st, hst, rfl, htripped, hfinding⟩

theorem Keeps.trans {s₁ s₂ s₃ : States} (h₁ : Keeps s₁ s₂) (h₂ : Keeps s₂ s₃) : Keeps s₁ s₃ := by
  intro st hst htripped finding hfinding
  obtain ⟨st₂, hst₂, hid₂, htripped₂, hfinding₂⟩ := h₁ st hst htripped finding hfinding
  obtain ⟨st₃, hst₃, hid₃, htripped₃, hfinding₃⟩ := h₂ st₂ hst₂ htripped₂ finding hfinding₂
  exact ⟨st₃, hst₃, hid₃.trans hid₂, htripped₃, hfinding₃⟩

/-- A change of a state that takes nothing back. -/
structure Gentle (f : HoneyTokenState → HoneyTokenState) : Prop where
  traceId : ∀ st, (f st).traceId = st.traceId
  token : ∀ st, (f st).token = st.token
  tripped : ∀ st, st.tripped = true → (f st).tripped = true
  finding : ∀ st x, st.finding = some x → (f st).finding = some x
  sound : ∀ st, (f st).tripped = true → st.tripped = false → ∃ x, (f st).finding = some x

theorem gentle_trip (finding : Finding) : Gentle (.trip finding) where
  traceId _ := rfl
  token _ := rfl
  tripped _ _ := rfl
  finding st x hx := by
    rw [HoneyTokenState.trip, hx]
    rfl
  sound st _ _ := by
    rw [HoneyTokenState.trip]
    cases st.finding <;> exact ⟨_, rfl⟩

theorem gentle_expose : Gentle fun st => { st with exposureUsed := true } where
  traceId _ := rfl
  token _ := rfl
  tripped _ h := h
  finding _ _ h := h
  sound _ h h' := nomatch h.symm.trans h'

theorem gentle_complete : Gentle fun st => { st with completed := true } where
  traceId _ := rfl
  token _ := rfl
  tripped _ h := h
  finding _ _ h := h
  sound _ h h' := nomatch h.symm.trans h'

theorem Gentle.keeps {f : HoneyTokenState → HoneyTokenState} (hf : Gentle f) (states : States)
    (traceId : Str) : Keeps states (states.change traceId f) := by
  intro st hst htripped finding hfinding
  refine ⟨_, States.mem_change.2 ⟨st, hst, rfl⟩, ?_⟩
  split_ifs
  · exact ⟨hf.traceId st, hf.tripped st htripped, hf.finding st finding hfinding⟩
  · exact ⟨rfl, htripped, hfinding⟩

theorem Gentle.sound_change {f : HoneyTokenState → HoneyTokenState} (hf : Gentle f) {states : States}
    (h : Sound states) (traceId : Str) : Sound (states.change traceId f) := by
  refine ⟨(States.map_traceId_change hf.traceId).symm ▸ h.nodup, fun st' hst' htripped => ?_⟩
  obtain ⟨st, hst, rfl⟩ := States.mem_change.1 hst'
  split_ifs at htripped ⊢
  · rcases hst' : st.tripped with _ | _
    · exact hf.sound st htripped hst'
    · obtain ⟨finding, hfinding⟩ := h.finding st hst hst'
      exact ⟨finding, hf.finding st finding hfinding⟩
  · exact h.finding st hst htripped

namespace HoneyTokenAgent

theorem firstMatch_eq_none_iff {states : States} {found : List (Option Path × Str)} :
    firstMatch states found = none ↔ ∀ c ∈ found, ∀ st ∈ states, ¬ Holds st.token c.2 := by
  unfold firstMatch
  simp only [List.findSome?_eq_none_iff, Option.map_eq_none_iff]
  refine forall₂_congr fun c _ => forall₂_congr fun st _ => ?_
  rw [← matchingRepresentation_isSome, Option.not_isSome_iff_eq_none]

theorem firstMatch_eq_some {states : States} {found : List (Option Path × Str)} {path : Option Path}
    {owner : HoneyTokenState} {name : String} (h : firstMatch states found = some (path, owner, name)) :
    owner ∈ states ∧ ∃ c ∈ found, Holds owner.token c.2 := by
  obtain ⟨c, hc, hstates⟩ := List.exists_of_findSome?_eq_some h
  obtain ⟨st, hst, hmatch⟩ := List.exists_of_findSome?_eq_some hstates
  obtain ⟨name', hname, heq⟩ := Option.map_eq_some_iff.1 hmatch
  cases heq
  refine ⟨hst, c, hc, (matchingRepresentation_isSome _ _).1 ?_⟩
  rw [hname]
  rfl

/-- The budget is exceeded. -/
def Exceeds (agent : HoneyTokenAgent) (strings : List Entry) : Prop :=
  (strings.map fun e => e.text.length).sum > agent.maxScanChars

/-- What looking through a value does, with these strings and the exception that the walk meets. -/
inductive Inspected (agent : HoneyTokenAgent) (error : Option Str) (strings : List Entry) (traceId : Str)
    (states : States) : Except Raised Unit × States → Prop
  /-- The walk raises. -/
  | stopped (errorType : Str) (h : error = some errorType) :
      Inspected agent error strings traceId states (.error (.inValue errorType), states)
  /-- There is too much of it. -/
  | overflow (finding : Finding) (h : agent.Exceeds strings) :
      Inspected agent error strings traceId states (.error (.leak finding), states.trip traceId finding)
  /-- No candidate holds a token. -/
  | clean (h : ¬ agent.Exceeds strings)
      (hclean : ∀ c ∈ candidates strings, ∀ st ∈ states, ¬ Holds st.token c.2) :
      Inspected agent error strings traceId states (.ok (), states)
  /-- A candidate holds the token of `owner`. -/
  | leak (owner : HoneyTokenState) (finding : Finding) (h : ¬ agent.Exceeds strings)
      (howner : owner ∈ states) (hholds : ∃ c ∈ candidates strings, Holds owner.token c.2) :
      Inspected agent error strings traceId states (.error (.leak finding),
        if owner.traceId ≠ traceId then (states.trip traceId finding).trip owner.traceId finding
        else states.trip traceId finding)

theorem inspectValue_inspected (agent : HoneyTokenAgent) (value : Value) (traceId stage : Str)
    (allowed : Option Path) (states : States) :
    Inspected agent (walkError allowed [] value) (walk allowed [] value) traceId states
      (agent.inspectValue value traceId stage allowed states) := by
  unfold inspectValue collectStrings
  rcases herror : walkError allowed [] value with _ | errorType
  · dsimp only
    split_ifs with hexceeds
    · exact .overflow _ hexceeds
    · split
      · next hnone => exact .clean hexceeds (firstMatch_eq_none_iff.1 hnone)
      · next path owner name hsome =>
        obtain ⟨howner, hholds⟩ := firstMatch_eq_some hsome
        exact .leak owner _ hexceeds howner hholds
  · exact .stopped errorType rfl

/-- A value that raises nothing, fits the budget and holds no token passes. -/
theorem inspectValue_eq_ok {agent : HoneyTokenAgent} {value : Value} {traceId stage : Str}
    {allowed : Option Path} {states : States} (herror : walkError allowed [] value = none)
    (hfits : ¬ ((walk allowed [] value).map fun e => e.text.length).sum > agent.maxScanChars)
    (hnone : firstMatch states (candidates (walk allowed [] value)) = none) :
    agent.inspectValue value traceId stage allowed states = (.ok (), states) := by
  have hcollect : collectStrings allowed value = .ok (walk allowed [] value) := by
    rw [collectStrings, herror]
  unfold inspectValue
  rw [hcollect]
  dsimp only
  rw [if_neg hfits, hnone]

section Inspected

variable {agent : HoneyTokenAgent} {error : Option Str} {strings : List Entry} {traceId : Str}
  {states : States} {x : Except Raised Unit × States}

theorem Inspected.sound (h : Inspected agent error strings traceId states x) (hsound : Sound states) :
    Sound x.2 := by
  cases h with
  | stopped _ _ => exact hsound
  | overflow finding _ => exact (gentle_trip finding).sound_change hsound _
  | clean _ _ => exact hsound
  | leak owner finding _ _ _ =>
    have htrip := (gentle_trip finding).sound_change hsound traceId
    dsimp only
    split_ifs
    · exact (gentle_trip finding).sound_change htrip _
    · exact htrip

theorem Inspected.keeps (h : Inspected agent error strings traceId states x) : Keeps states x.2 := by
  cases h with
  | stopped _ _ => exact .refl _
  | overflow finding _ => exact (gentle_trip finding).keeps _ _
  | clean _ _ => exact .refl _
  | leak owner finding _ _ _ =>
    have htrip := (gentle_trip finding).keeps states traceId
    dsimp only
    split_ifs
    · exact htrip.trans ((gentle_trip finding).keeps _ _)
    · exact htrip

theorem exists_tripped_of_mem (finding : Finding) {st : HoneyTokenState} (h : st ∈ states) :
    ∃ st' ∈ states.trip st.traceId finding, st'.traceId = st.traceId ∧ st'.token = st.token ∧
      st'.tripped = true :=
  ⟨_, States.mem_change.2 ⟨st, h, if_pos rfl⟩, rfl, rfl, rfl⟩

theorem exists_tripped_of_tripped {finding : Finding} {st : HoneyTokenState} (h : st ∈ states)
    (htripped : st.tripped = true) : ∃ st' ∈ states.trip traceId finding,
      st'.traceId = st.traceId ∧ st'.token = st.token ∧ st'.tripped = true := by
  refine ⟨_, States.mem_change.2 ⟨st, h, rfl⟩, ?_⟩
  split_ifs
  · exact ⟨rfl, rfl, rfl⟩
  · exact ⟨rfl, rfl, htripped⟩

/-- A leak trips the trace, if it is tracked. -/
theorem Inspected.trips (h : Inspected agent error strings traceId states x) {finding : Finding}
    (hleak : x.1 = .error (.leak finding)) (htracked : ∃ st ∈ states, st.traceId = traceId) :
    ∃ st ∈ x.2, st.traceId = traceId ∧ st.tripped = true := by
  obtain ⟨st, hst, rfl⟩ := htracked
  cases h with
  | stopped _ _ => cases hleak
  | overflow finding _ =>
    obtain ⟨st', hst', hid, -, htripped⟩ := exists_tripped_of_mem finding hst
    exact ⟨st', hst', hid, htripped⟩
  | clean _ _ => cases hleak
  | leak owner finding _ _ _ =>
    obtain ⟨st', hst', hid, -, htripped⟩ := exists_tripped_of_mem finding hst
    dsimp only
    split_ifs
    · obtain ⟨st'', hst'', hid', -, htripped'⟩ := exists_tripped_of_tripped hst' htripped
      exact ⟨st'', hst'', hid'.trans hid, htripped'⟩
    · exact ⟨st', hst', hid, htripped⟩

theorem Inspected.leaks_of_exceeds (h : Inspected agent error strings traceId states x)
    (herror : error = none) (hexceeds : agent.Exceeds strings) :
    ∃ finding, x.1 = .error (.leak finding) := by
  cases h with
  | stopped _ h => exact nomatch herror.symm.trans h
  | overflow finding _ => exact ⟨finding, rfl⟩
  | clean hnot _ => exact absurd hexceeds hnot
  | leak owner finding _ _ _ => exact ⟨finding, rfl⟩

/-- A token that the tree shows is found, and its trace or that of another token that the tree shows is
tripped. -/
theorem Inspected.found (h : Inspected agent error strings traceId states x)
    (herror : error = none) (hunambiguous : Unambiguous strings) {st : HoneyTokenState}
    (hst : st ∈ states) (hshows : Shows st.token strings) :
    (∃ finding, x.1 = .error (.leak finding)) ∧
      (¬ agent.Exceeds strings → ∃ st' ∈ x.2, Shows st'.token strings ∧ st'.tripped = true) := by
  cases h with
  | stopped _ h => exact nomatch herror.symm.trans h
  | overflow finding hexceeds => exact ⟨⟨finding, rfl⟩, fun hnot => absurd hexceeds hnot⟩
  | clean _ hclean =>
    obtain ⟨c, hc, hholds⟩ := (exists_candidate_iff hunambiguous st.token).2 hshows
    exact absurd hholds (hclean c hc st hst)
  | leak owner finding _ howner hholds =>
    refine ⟨⟨finding, rfl⟩, fun _ => ?_⟩
    have hshown := (exists_candidate_iff hunambiguous owner.token).1 hholds
    dsimp only
    split_ifs with hne
    · -- the trip of the owner comes second, on the state that the first one left
      obtain ⟨st', hst', hid, htoken, -⟩ : ∃ st' ∈ states.trip traceId finding,
          st'.traceId = owner.traceId ∧ st'.token = owner.token ∧ st'.tripped = owner.tripped :=
        ⟨owner, States.mem_change.2 ⟨owner, howner, if_neg hne⟩, rfl, rfl, rfl⟩
      obtain ⟨st'', hst'', -, htoken', htripped⟩ := exists_tripped_of_mem finding hst'
      rw [hid] at hst''
      exact ⟨st'', hst'', by rwa [htoken', htoken], htripped⟩
    · obtain ⟨st', hst', -, htoken, htripped⟩ := exists_tripped_of_mem finding howner
      rw [not_not.1 hne] at hst'
      exact ⟨st', hst', by rwa [htoken], htripped⟩

end Inspected

end HoneyTokenAgent

/-! ## Pruning -/

/-- What pruning leaves of the states. -/
structure Pruned (states states' : States) : Prop where
  sublist : states'.Sublist states
  tripped : ∀ st ∈ states, st.tripped = true → st ∈ states'

theorem Pruned.sound {states states' : States} (h : Pruned states states') (hsound : Sound states) :
    Sound states' :=
  ⟨hsound.nodup.sublist (h.sublist.map _), fun st hst => hsound.finding st (h.sublist.subset hst)⟩

theorem Pruned.keeps {states states' : States} (h : Pruned states states') : Keeps states states' :=
  fun st hst htripped _ hfinding => ⟨st, h.tripped st hst htripped, rfl, htripped, hfinding⟩

/-- A new trace, after pruning. -/
theorem Pruned.sound_concat {states states' : States} (h : Pruned states states')
    (hsound : Sound states) {st : HoneyTokenState} (hget : states.get st.traceId = none)
    (htripped : st.tripped = false) : Sound (states' ++ [st]) := by
  have hpruned := h.sound hsound
  constructor
  · rw [List.map_append, List.map_singleton, List.nodup_append]
    refine ⟨hpruned.nodup, List.nodup_singleton _, fun t ht t' ht' heq => ?_⟩
    obtain rfl := List.mem_singleton.1 ht'
    obtain ⟨other, hother, hid⟩ := List.mem_map.1 ht
    have hsome := States.get_isSome_iff.2 ⟨other, h.sublist.subset hother, hid.trans heq⟩
    rw [hget] at hsome
    cases hsome
  · intro st' hst' htripped'
    rcases List.mem_append.1 hst' with hst' | hst'
    · exact hpruned.finding st' hst' htripped'
    · obtain rfl := List.mem_singleton.1 hst'
      exact nomatch htripped.symm.trans htripped'

theorem pruneFrom_pruned (maxTrackedRuns : ℕ) (kept rest : States) :
    Pruned (kept ++ rest) (pruneFrom maxTrackedRuns kept rest).2 := by
  induction rest generalizing kept with
  | nil =>
    rw [List.append_nil]
    exact ⟨.refl _, fun _ hst _ => hst⟩
  | cons st rest ih =>
    have hdrop : (st.completed && !st.tripped) = true → Pruned (kept ++ st :: rest) (kept ++ rest) := by
      intro hdropped
      refine ⟨(List.sublist_cons_self st rest).append_left kept, fun st' hst' htripped => ?_⟩
      rcases List.mem_append.1 hst' with hkept | hrest
      · exact List.mem_append_left _ hkept
      · rcases List.mem_cons.1 hrest with rfl | hrest
        · simp [htripped] at hdropped
        · exact List.mem_append_right _ hrest
    unfold pruneFrom
    split_ifs with hdropped hlength
    · exact hdrop hdropped
    · exact ⟨(ih kept).sublist.trans (hdrop hdropped).sublist,
        fun st' hst' htripped => (ih kept).tripped st' ((hdrop hdropped).tripped st' hst' htripped)
          htripped⟩
    · have hkept := ih (kept ++ [st])
      rw [List.append_assoc] at hkept
      exact hkept

namespace HoneyTokenAgent

variable (agent : HoneyTokenAgent)

theorem prune_pruned (states : States) : Pruned states (agent.prune states).2 := by
  unfold prune
  split_ifs
  · exact ⟨.refl _, fun _ hst _ => hst⟩
  · exact pruneFrom_pruned agent.maxTrackedRuns [] states

theorem prune_ok_or (states : States) : (agent.prune states).1 = .ok () ∨
    ∃ message, (agent.prune states).1 = .error (.runtime message) := by
  have hfrom : ∀ kept rest, (pruneFrom agent.maxTrackedRuns kept rest).1 = .ok () ∨
      ∃ message, (pruneFrom agent.maxTrackedRuns kept rest).1 = .error (.runtime message) := by
    intro kept rest
    induction rest generalizing kept with
    | nil => exact .inr ⟨_, rfl⟩
    | cons st rest ih =>
      unfold pruneFrom
      split_ifs
      · exact .inl rfl
      · exact ih kept
      · exact ih (kept ++ [st])
  unfold prune
  split_ifs
  · exact .inl rfl
  · exact hfrom [] states

/-- What minting does: it adds the state of a new trace, or raises. -/
theorem mint_cases (traceId allowedRecipient : Str) (allowedMessageId : Option Str) (token : Token)
    (states : States) :
    ((agent.mint traceId allowedRecipient allowedMessageId token states).1 = .ok () ∧
      states.get traceId = none ∧
      ∃ states' st, Pruned states states' ∧ st.traceId = traceId ∧ st.token = token ∧
        st.tripped = false ∧ st.exposureUsed = false ∧ st.finding = none ∧
        st.fingerprint = hexdigest (agent.crypto.sha256 (encodeUtf8 token.text)) ∧
        (agent.mint traceId allowedRecipient allowedMessageId token states).2 = states' ++ [st]) ∨
    ∃ message,
      (agent.mint traceId allowedRecipient allowedMessageId token states).1 =
        .error (.runtime message) ∧
      Pruned states (agent.mint traceId allowedRecipient allowedMessageId token states).2 := by
  have hpruned := agent.prune_pruned states
  rcases hget : states.get traceId with _ | st
  · have hraise : raiseIf (states.get traceId).isSome
        (Raised.runtime "honeytoken already exists for trace") = .ok () := by
      rw [hget]
      rfl
    unfold mint
    rw [Action.read_bind_apply, Action.bind_apply, Action.lift_apply, hraise]
    simp only [Action.bind_apply]
    rcases agent.prune_ok_or states with hok | ⟨message, herror⟩
    · rcases hprune : agent.prune states with ⟨r, states'⟩
      rw [hprune] at hok hpruned
      obtain rfl : r = .ok () := hok
      exact .inl ⟨rfl, trivial, states', _, hpruned, rfl, rfl, rfl, rfl, rfl, rfl, rfl⟩
    · rcases hprune : agent.prune states with ⟨r, states'⟩
      rw [hprune] at herror hpruned
      obtain rfl : r = .error (.runtime message) := herror
      exact .inr ⟨message, rfl, hpruned⟩
  · refine .inr ⟨"honeytoken already exists for trace", ?_⟩
    have hraise : raiseIf (states.get traceId).isSome
        (Raised.runtime "honeytoken already exists for trace") =
          .error (.runtime "honeytoken already exists for trace") := by
      rw [hget]
      rfl
    unfold mint
    rw [Action.read_bind_apply, Action.bind_apply, Action.lift_apply, hraise]
    exact ⟨rfl, .refl _, fun _ hst _ => hst⟩

end HoneyTokenAgent

/-! ## Calls -/

/-- What is called of the agent. A delivery is a call before its handler and one after it. -/
inductive Call where
  /-- `mint`, with the token that is drawn. -/
  | mint (traceId allowedRecipient : Str) (allowedMessageId : Option Str) (token : Token)
  /-- `complete`. -/
  | complete (traceId : Str)
  /-- The guard, on an envelope. -/
  | enters (envelope : Envelope)
  /-- The guard, on the result or the exception of a handler. -/
  | leaves (envelope : Envelope) (value : Value)
  /-- `inspect_external_write`. -/
  | externalWrite (traceId : Str) (value : Value) (channel : Str)

/-- A value that is looked through. -/
structure Inspection where
  traceId : Str
  strings : List Entry
  /-- What the walk raises. -/
  error : Option Str

/-- What looking through a value finds. -/
def Inspection.of (traceId : Str) (allowed : Option Path) (value : Value) : Inspection :=
  ⟨traceId, walk allowed [] value, walkError allowed [] value⟩

namespace Call

open HoneyTokenAgent

variable (agent : HoneyTokenAgent)

/-- What the call does. -/
def perform : Call → Action States Raised Unit
  | .mint traceId allowedRecipient allowedMessageId token =>
    agent.mint traceId allowedRecipient allowedMessageId token
  | .complete traceId => HoneyTokenAgent.complete traceId
  | .enters envelope => agent.boundaryGuard envelope none
  | .leaves envelope value => agent.boundaryGuard envelope (some value)
  | .externalWrite traceId value channel => agent.inspectExternalWrite traceId value channel

/-- What the call looks through. A trace that is tripped is refused before. -/
def inspection (states : States) : Call → Option Inspection
  | .mint .. | .complete _ => none
  | .enters envelope =>
    if (refusal states envelope.traceId).isSome then none
    else some (.of envelope.traceId (allowedPath states envelope) envelope.payload)
  | .leaves envelope value =>
    if (refusal states envelope.traceId).isSome then none
    else some (.of envelope.traceId none value)
  | .externalWrite traceId value _ => some (.of traceId none value)

/-- The trace whose one exposure the call is. -/
def exempted (states : States) : Call → Option Str
  | .enters envelope =>
    if (refusal states envelope.traceId).isNone ∧ exempts states envelope then
      some envelope.traceId
    else none
  | _ => none

/-- The states once the exposure is noted. -/
def exposed (states : States) (call : Call) : States :=
  match call.exempted states with
  | some traceId => states.change traceId fun st => { st with exposureUsed := true }
  | none => states

variable {agent}

theorem bind_refuseTripped {states : States} {traceId : Str} (h : refusal states traceId = none)
    (m : Action States Raised Unit) : (refuseTripped traceId >>= fun _ => m) states = m states := by
  rw [Action.bind_apply, refuseTripped, h]

theorem perform_enters {envelope : Envelope} {states : States}
    (h : refusal states envelope.traceId = none) :
    (Call.enters envelope).perform agent states =
      agent.inspectValue envelope.payload envelope.traceId (envelopeStage envelope)
        (allowedPath states envelope) ((Call.enters envelope).exposed states) := by
  simp only [perform, boundaryGuard, bind_refuseTripped h, inspectEnvelope, Action.read_bind_apply,
    exposed, exempted, h, Option.isNone_none, true_and]
  rcases exempts states envelope with _ | _ <;> rfl

theorem perform_leaves {envelope : Envelope} {value : Value} {states : States}
    (h : refusal states envelope.traceId = none) :
    (Call.leaves envelope value).perform agent states =
      agent.inspectValue value envelope.traceId (resultStage envelope) none states := by
  simp only [perform, boundaryGuard, bind_refuseTripped h]

/-- A call that looks through a value does what `_inspect_value` does. -/
theorem perform_inspected {call : Call} {states : States} {i : Inspection}
    (h : call.inspection states = some i) :
    Inspected agent i.error i.strings i.traceId (call.exposed states) (call.perform agent states) := by
  cases call with
  | mint traceId allowedRecipient allowedMessageId token => cases h
  | complete traceId => cases h
  | enters envelope =>
    simp only [inspection] at h
    split_ifs at h with hrefusal
    obtain rfl := Option.some.inj h
    rw [perform_enters (Option.not_isSome_iff_eq_none.1 hrefusal)]
    exact inspectValue_inspected ..
  | leaves envelope value =>
    simp only [inspection] at h
    split_ifs at h with hrefusal
    obtain rfl := Option.some.inj h
    rw [perform_leaves (Option.not_isSome_iff_eq_none.1 hrefusal)]
    exact inspectValue_inspected ..
  | externalWrite traceId value channel =>
    obtain rfl := Option.some.inj h
    exact inspectValue_inspected ..

/-- The guard refuses a trace that is tripped. -/
theorem boundaryGuard_of_refusal (agent : HoneyTokenAgent) {envelope : Envelope}
    (result : Option Value) {states : States} {finding : Finding}
    (h : refusal states envelope.traceId = some finding) :
    agent.boundaryGuard envelope result states = (.error (.leak finding), states) := by
  have hrefuse : ∀ m : Action States Raised Unit,
      (refuseTripped envelope.traceId >>= fun _ => m) states = (.error (.leak finding), states) := by
    intro m
    rw [Action.bind_apply, refuseTripped, h]
  cases result with
  | none => exact hrefuse _
  | some value => exact hrefuse _

/-- What one call does. -/
theorem perform_cases (agent : HoneyTokenAgent) (call : Call) (states : States) :
    (∃ i, call.inspection states = some i ∧
      Inspected agent i.error i.strings i.traceId (call.exposed states) (call.perform agent states)) ∨
    (call.inspection states = none ∧ call.exempted states = none ∧
      ((∃ finding, call.perform agent states = (.error (.leak finding), states)) ∨
      (∃ traceId, call = .complete traceId ∧ call.perform agent states =
        (.ok (), states.change traceId fun st => { st with completed := true })) ∨
      ∃ traceId allowedRecipient allowedMessageId token,
        call = .mint traceId allowedRecipient allowedMessageId token)) := by
  rcases hinspection : call.inspection states with _ | i
  · refine .inr ⟨rfl, ?_⟩
    cases call with
    | mint traceId allowedRecipient allowedMessageId token => exact ⟨rfl, .inr (.inr ⟨_, _, _, _, rfl⟩)⟩
    | complete traceId => exact ⟨rfl, .inr (.inl ⟨traceId, rfl, rfl⟩)⟩
    | enters envelope =>
      simp only [inspection] at hinspection
      split_ifs at hinspection with hrefusal
      obtain ⟨finding, hfinding⟩ := Option.isSome_iff_exists.1 hrefusal
      refine ⟨?_, .inl ⟨finding, boundaryGuard_of_refusal agent none hfinding⟩⟩
      simp only [exempted, hfinding, Option.isNone_some, Bool.false_eq_true, false_and, if_false]
    | leaves envelope value =>
      simp only [inspection] at hinspection
      split_ifs at hinspection with hrefusal
      obtain ⟨finding, hfinding⟩ := Option.isSome_iff_exists.1 hrefusal
      exact ⟨rfl, .inl ⟨finding, boundaryGuard_of_refusal agent (some value) hfinding⟩⟩
    | externalWrite traceId value channel => cases hinspection
  · exact .inl ⟨i, rfl, perform_inspected hinspection⟩

/-! ### What a call keeps -/

theorem exposed_eq (states : States) (call : Call) : call.exposed states = states ∨
    ∃ traceId, call.exposed states =
      states.change traceId fun st => { st with exposureUsed := true } := by
  unfold exposed
  split
  · exact .inr ⟨_, rfl⟩
  · exact .inl rfl

theorem sound_exposed {states : States} (h : Sound states) (call : Call) :
    Sound (call.exposed states) := by
  rcases exposed_eq states call with heq | ⟨traceId, heq⟩ <;> rw [heq]
  · exact h
  · exact gentle_expose.sound_change h traceId

theorem keeps_exposed (states : States) (call : Call) : Keeps states (call.exposed states) := by
  rcases exposed_eq states call with heq | ⟨traceId, heq⟩ <;> rw [heq]
  · exact .refl _
  · exact gentle_expose.keeps _ _

/-- Noting an exposure changes neither traces nor tokens nor trips. -/
theorem mem_exposed {states : States} (call : Call) {st : HoneyTokenState} (h : st ∈ states) :
    ∃ st' ∈ call.exposed states, st'.traceId = st.traceId ∧ st'.token = st.token := by
  rcases exposed_eq states call with heq | ⟨traceId, heq⟩ <;> rw [heq]
  · exact ⟨st, h, rfl, rfl⟩
  · refine ⟨_, States.mem_change.2 ⟨st, h, rfl⟩, ?_⟩
    split_ifs <;> exact ⟨rfl, rfl⟩

theorem of_mem_exposed {states : States} {call : Call} {st' : HoneyTokenState}
    (h : st' ∈ call.exposed states) :
    ∃ st ∈ states, st.traceId = st'.traceId ∧ st.tripped = st'.tripped ∧ st.finding = st'.finding ∧
      st.token = st'.token ∧ st.fingerprint = st'.fingerprint := by
  rcases exposed_eq states call with heq | ⟨traceId, heq⟩ <;> rw [heq] at h
  · exact ⟨st', h, rfl, rfl, rfl, rfl, rfl⟩
  · obtain ⟨st, hst, rfl⟩ := States.mem_change.1 h
    refine ⟨st, hst, ?_⟩
    split_ifs <;> exact ⟨rfl, rfl, rfl, rfl, rfl⟩

theorem perform_sound (agent : HoneyTokenAgent) {states : States} (h : Sound states) (call : Call) :
    Sound (call.perform agent states).2 := by
  rcases call.perform_cases agent states with ⟨i, -, hinspected⟩ | ⟨-, -, hrest⟩
  · exact hinspected.sound (sound_exposed h call)
  · rcases hrest with ⟨finding, heq⟩ | ⟨traceId, -, heq⟩ | ⟨traceId, recipient, id, token, rfl⟩
    · rw [heq]
      exact h
    · rw [heq]
      exact gentle_complete.sound_change h traceId
    · rcases agent.mint_cases traceId recipient id token states with
        ⟨-, hget, states', st, hpruned, hid, -, htripped, -, -, -, heq⟩ | ⟨message, -, hpruned⟩
      · subst hid
        change Sound (agent.mint st.traceId recipient id token states).2
        rw [heq]
        exact hpruned.sound_concat h hget htripped
      · exact hpruned.sound h

theorem perform_keeps (agent : HoneyTokenAgent) (states : States) (call : Call) :
    Keeps states (call.perform agent states).2 := by
  rcases call.perform_cases agent states with ⟨i, -, hinspected⟩ | ⟨-, -, hrest⟩
  · exact (keeps_exposed states call).trans hinspected.keeps
  · rcases hrest with ⟨finding, heq⟩ | ⟨traceId, -, heq⟩ | ⟨traceId, recipient, id, token, rfl⟩
    · rw [heq]
      exact .refl _
    · rw [heq]
      exact gentle_complete.keeps _ _
    · rcases agent.mint_cases traceId recipient id token states with
        ⟨-, -, states', st, hpruned, -, -, -, -, -, -, heq⟩ | ⟨message, -, hpruned⟩
      · change Keeps states (agent.mint traceId recipient id token states).2
        rw [heq]
        intro st₀ hst₀ htripped finding hfinding
        exact ⟨st₀, List.mem_append_left _ (hpruned.tripped st₀ hst₀ htripped), rfl, htripped,
          hfinding⟩
      · exact hpruned.keeps

/-- A call that raises no leak trips nothing. -/
theorem perform_quiet {states : States} {call : Call}
    (h : ∀ finding, (call.perform agent states).1 ≠ .error (.leak finding)) :
    ∀ st' ∈ (call.perform agent states).2, st'.tripped = true →
      ∃ st ∈ states, st.traceId = st'.traceId ∧ st.tripped = true ∧ st.finding = st'.finding := by
  intro st' hst' htripped'
  rcases call.perform_cases agent states with ⟨i, -, hinspected⟩ | ⟨-, -, hrest⟩
  · -- only a clean value and one that the walk fails on raise no leak
    rcases hperform : call.perform agent states with ⟨r, states'⟩
    rw [hperform] at hinspected h hst'
    cases hinspected with
    | stopped _ _ =>
      obtain ⟨st, hst, hid, htripped, hfinding, -⟩ := of_mem_exposed hst'
      exact ⟨st, hst, hid, htripped.trans htripped', hfinding⟩
    | overflow finding _ => exact absurd rfl (h finding)
    | clean _ _ =>
      obtain ⟨st, hst, hid, htripped, hfinding, -⟩ := of_mem_exposed hst'
      exact ⟨st, hst, hid, htripped.trans htripped', hfinding⟩
    | leak owner finding _ _ _ => exact absurd rfl (h finding)
  · rcases hrest with ⟨finding, heq⟩ | ⟨traceId, -, heq⟩ | ⟨traceId, recipient, id, token, rfl⟩
    · exact absurd (congrArg Prod.fst heq) (h finding)
    · rw [heq] at hst'
      obtain ⟨st, hst, rfl⟩ := States.mem_change.1 hst'
      refine ⟨st, hst, ?_⟩
      split_ifs at htripped' ⊢ <;> exact ⟨rfl, htripped', rfl⟩
    · change st' ∈ (agent.mint traceId recipient id token states).2 at hst'
      rcases agent.mint_cases traceId recipient id token states with
        ⟨-, -, states', st, hpruned, -, -, htripped, -, -, -, heq⟩ | ⟨message, -, hpruned⟩
      · rw [heq] at hst'
        rcases List.mem_append.1 hst' with hst' | hst'
        · exact ⟨st', hpruned.sublist.subset hst', rfl, htripped', rfl⟩
        · obtain rfl := List.mem_singleton.1 hst'
          exact nomatch htripped.symm.trans htripped'
      · exact ⟨st', hpruned.sublist.subset hst', rfl, htripped', rfl⟩

end Call

/-! ## Exposures -/

/-- Whether the trace is tracked and has not used its exposure. -/
def unused (states : States) (traceId : Str) : ℕ :=
  if (states.get traceId).any fun st => !st.exposureUsed then 1 else 0

theorem unused_le_one (states : States) (traceId : Str) : unused states traceId ≤ 1 := by
  unfold unused
  split_ifs
  · exact le_rfl
  · exact Nat.zero_le 1

theorem unused_eq_one_iff {states : States} {traceId : Str} : unused states traceId = 1 ↔
    ∃ st, states.get traceId = some st ∧ st.exposureUsed = false := by
  unfold unused
  rcases states.get traceId with _ | st <;> simp

/-- There is an exposure left only where there was one. -/
theorem unused_le_of {states states' : States} {traceId : Str}
    (h : ∀ st', states'.get traceId = some st' → st'.exposureUsed = false →
      ∃ st, states.get traceId = some st ∧ st.exposureUsed = false) :
    unused states' traceId ≤ unused states traceId := by
  by_cases hone : unused states' traceId = 1
  · obtain ⟨st', hget, hused⟩ := unused_eq_one_iff.1 hone
    rw [hone, unused_eq_one_iff.2 (h st' hget hused)]
  · have := unused_le_one states' traceId
    omega

/-- A change that gives no exposure back. -/
theorem unused_change {f : HoneyTokenState → HoneyTokenState} (hid : ∀ st, (f st).traceId = st.traceId)
    (hused : ∀ st, (f st).exposureUsed = false → st.exposureUsed = false) (states : States)
    (traceId t : Str) : unused (states.change traceId f) t ≤ unused states t := by
  refine unused_le_of fun st' hget hst' => ?_
  rw [States.get_change hid] at hget
  obtain ⟨st, hst, rfl⟩ := Option.map_eq_some_iff.1 hget
  refine ⟨st, hst, ?_⟩
  split_ifs at hst'
  · exact hused st hst'
  · exact hst'

theorem unused_trip (states : States) (traceId : Str) (finding : Finding) (t : Str) :
    unused (states.trip traceId finding) t ≤ unused states t :=
  unused_change (gentle_trip finding).traceId (fun _ h => h) states traceId t

theorem Pruned.unused_le {states states' : States} (h : Pruned states states')
    (hsound : Sound states) (t : Str) : unused states' t ≤ unused states t := by
  refine unused_le_of fun st hget hused => ⟨st, ?_, hused⟩
  obtain ⟨hmem, hid⟩ := (States.get_eq_some_iff (h.sound hsound).nodup).1 hget
  exact (States.get_eq_some_iff hsound.nodup).2 ⟨h.sublist.subset hmem, hid⟩

theorem HoneyTokenAgent.Inspected.unused_le {agent : HoneyTokenAgent} {error : Option Str}
    {strings : List Entry} {traceId : Str} {states : States} {x : Except Raised Unit × States}
    (h : Inspected agent error strings traceId states x) (t : Str) : unused x.2 t ≤ unused states t := by
  cases h with
  | stopped _ _ => exact le_rfl
  | overflow finding _ => exact unused_trip _ _ _ _
  | clean _ _ => exact le_rfl
  | leak owner finding _ _ _ =>
    dsimp only
    split_ifs
    · exact (unused_trip _ _ _ _).trans (unused_trip _ _ _ _)
    · exact unused_trip _ _ _ _

namespace Call

open HoneyTokenAgent

/-- The trace that the call mints. -/
def minted (agent : HoneyTokenAgent) (states : States) : Call → Option Str
  | .mint traceId allowedRecipient allowedMessageId token =>
    match (agent.mint traceId allowedRecipient allowedMessageId token states).1 with
    | .ok _ => some traceId
    | .error _ => none
  | _ => none

/-- An exposure uses up what the trace has. -/
theorem unused_exposed (call : Call) (states : States) (t : Str) :
    (call.exempted states).toList.count t + unused (call.exposed states) t ≤ unused states t := by
  rcases hexempted : call.exempted states with _ | traceId
  · rw [exposed, hexempted]
    simp
  · -- the trace has its exposure before, and not after
    obtain ⟨st, hget, hused⟩ : ∃ st, states.get traceId = some st ∧ st.exposureUsed = false := by
      cases call with
      | enters envelope =>
        simp only [exempted] at hexempted
        split_ifs at hexempted with hexempt
        obtain rfl := Option.some.inj hexempted
        obtain ⟨st, hget, hexposure⟩ := (Option.any_eq_true _ _).1 hexempt.2
        simp only [isExposure, Bool.and_eq_true, Bool.not_eq_true'] at hexposure
        exact ⟨st, hget, hexposure.1.1.1.1.1⟩
      | _ => cases hexempted
    have hexposed : call.exposed states =
        states.change traceId fun st => { st with exposureUsed := true } := by
      rw [exposed, hexempted]
    rw [hexposed, Option.toList_some]
    by_cases ht : t = traceId
    · subst ht
      have hafter : unused (states.change t fun st => { st with exposureUsed := true }) t ≠ 1 := by
        rw [Ne, unused_eq_one_iff, States.get_change gentle_expose.traceId, hget, Option.map_some]
        rintro ⟨st', hst', hused'⟩
        obtain rfl := Option.some.inj hst'
        have hid : st.traceId = t := by simpa using List.find?_some hget
        rw [if_pos hid] at hused'
        cases hused'
      have hle := unused_le_one (states.change t fun st => { st with exposureUsed := true }) t
      have hbefore := unused_eq_one_iff.2 ⟨st, hget, hused⟩
      rw [List.count_singleton_self]
      omega
    · rw [List.count_singleton, if_neg (by simpa using Ne.symm ht), Nat.zero_add]
      exact unused_change gentle_expose.traceId (fun _ h => nomatch h) _ _ _

/-- Every exposure of a trace is paid for by a mint. -/
theorem perform_unused (agent : HoneyTokenAgent) {states : States} (h : Sound states) (call : Call)
    (t : Str) :
    (call.exempted states).toList.count t + unused (call.perform agent states).2 t ≤
      (call.minted agent states).toList.count t + unused states t := by
  rcases call.perform_cases agent states with ⟨i, -, hinspected⟩ | ⟨-, hexempted, hrest⟩
  · have hexposed := call.unused_exposed states t
    have hafter := hinspected.unused_le t
    omega
  · rw [hexempted, Option.toList_none, List.count_nil, Nat.zero_add]
    rcases hrest with ⟨finding, heq⟩ | ⟨traceId, -, heq⟩ | ⟨traceId, recipient, id, token, rfl⟩
    · rw [heq]
      exact Nat.le_add_left _ _
    · rw [heq]
      exact (unused_change gentle_complete.traceId (fun _ h => h) _ _ _).trans (Nat.le_add_left _ _)
    · rcases agent.mint_cases traceId recipient id token states with
        ⟨hok, -, states', st, hpruned, hid, -, -, -, -, -, heq⟩ | ⟨message, -, hpruned⟩
      · have hminted : (Call.mint traceId recipient id token).minted agent states = some traceId := by
          rw [minted, hok]
        change unused (agent.mint traceId recipient id token states).2 t ≤ _
        rw [hminted, heq, Option.toList_some]
        by_cases ht : t = traceId
        · subst ht
          rw [List.count_singleton_self]
          exact (unused_le_one _ _).trans (Nat.le_add_right 1 _)
        · refine le_trans ?_ (Nat.le_add_left _ _)
          refine le_trans (unused_le_of fun st' hget hused => ⟨st', ?_, hused⟩)
            (hpruned.unused_le h t)
          -- the new trace is another one
          rw [States.get, List.find?_append] at hget
          rcases hfind : states'.find? (fun st => st.traceId = t) with _ | found
          · rw [hfind, Option.none_or, List.find?_singleton, if_neg] at hget
            · cases hget
            · simpa [hid] using Ne.symm ht
          · rw [hfind, Option.some_or] at hget
            rw [States.get, hfind, hget]
      · exact (hpruned.unused_le h t).trans (Nat.le_add_left _ _)

end Call

/-! ## Runs -/

/-- The states after these calls. -/
def run (agent : HoneyTokenAgent) (calls : List Call) (states : States) : States :=
  calls.foldl (fun states call => (call.perform agent states).2) states

/-- The traces of the envelopes that were exempt during these calls. -/
def exemptions (agent : HoneyTokenAgent) : List Call → States → List Str
  | [], _ => []
  | call :: calls, states =>
    (call.exempted states).toList ++ exemptions agent calls (call.perform agent states).2

/-- The traces that were minted during these calls. -/
def mints (agent : HoneyTokenAgent) : List Call → States → List Str
  | [], _ => []
  | call :: calls, states =>
    (call.minted agent states).toList ++ mints agent calls (call.perform agent states).2

variable {agent : HoneyTokenAgent}

theorem run_sound (agent : HoneyTokenAgent) {states : States} (h : Sound states) (calls : List Call) :
    Sound (run agent calls states) := by
  induction calls generalizing states with
  | nil => exact h
  | cons call calls ih => exact ih (call.perform_sound agent h)

theorem run_keeps (agent : HoneyTokenAgent) (calls : List Call) (states : States) :
    Keeps states (run agent calls states) := by
  induction calls generalizing states with
  | nil => exact .refl _
  | cons call calls ih => exact (call.perform_keeps agent states).trans (ih _)

/-- In every run a trace is exempt no more often than it was minted. -/
theorem count_exemptions_le {states : States} (h : Sound states) (calls : List Call) (t : Str) :
    (exemptions agent calls states).count t ≤ (mints agent calls states).count t + unused states t := by
  induction calls generalizing states with
  | nil => exact Nat.zero_le _
  | cons call calls ih =>
    have hstep := call.perform_unused agent h t
    have hrest := ih (call.perform_sound agent h)
    rw [exemptions, mints, List.count_append, List.count_append]
    omega

/-! ## Deliveries -/

/-- Code whose effect on the states of the agent is that of some calls. -/
def MadeOfCalls {α : Type} (agent : HoneyTokenAgent) (m : Action Bus Raised α) : Prop :=
  ∀ b, ∃ calls, (m b).2.states = run agent calls b.states

section Deliveries

variable {α β : Type}

theorem madeOfCalls_of_states {m : Action Bus Raised α} (h : ∀ b, (m b).2.states = b.states) :
    MadeOfCalls agent m := fun b => ⟨[], h b⟩

theorem MadeOfCalls.bind {m : Action Bus Raised β} {f : β → Action Bus Raised α}
    (hm : MadeOfCalls agent m) (hf : ∀ x, MadeOfCalls agent (f x)) : MadeOfCalls agent (m >>= f) := by
  intro b
  obtain ⟨calls, hcalls⟩ := hm b
  rw [Action.bind_apply]
  rcases hmb : m b with ⟨_ | x, b'⟩ <;> rw [hmb] at hcalls
  · exact ⟨calls, hcalls⟩
  · obtain ⟨calls', hcalls'⟩ := hf x b'
    refine ⟨calls ++ calls', ?_⟩
    rw [hcalls', hcalls, run, run, run, List.foldl_append]

/-- The call that the guard of the bus makes. -/
def guardCall (envelope : Envelope) : Option Value → Call
  | none => .enters envelope
  | some value => .leaves envelope value

/-- The bus passes on what the guard does, and records a refusal. -/
theorem applyBoundaryGuard_states (bus : MessageBus) (envelope : Envelope) (result : Option Value)
    (b : Bus) :
    ((bus.applyBoundaryGuard envelope result b).1 =
        ((guardCall envelope result).perform bus.guard b.states).1) ∧
      (bus.applyBoundaryGuard envelope result b).2.states =
        ((guardCall envelope result).perform bus.guard b.states).2 := by
  have hcall : (guardCall envelope result).perform bus.guard =
      bus.guard.boundaryGuard envelope result := by
    cases result <;> rfl
  rw [hcall]
  unfold MessageBus.applyBoundaryGuard Action.handle Action.zoom
  rcases bus.guard.boundaryGuard envelope result b.states with ⟨_ | u, states⟩ <;> exact ⟨rfl, rfl⟩

theorem madeOfCalls_guard (bus : MessageBus) (envelope : Envelope) (result : Option Value) :
    MadeOfCalls bus.guard (bus.applyBoundaryGuard envelope result) :=
  fun b => ⟨[guardCall envelope result], (applyBoundaryGuard_states bus envelope result b).2⟩

/-- A delivery is made of calls, where its handlers are. -/
theorem madeOfCalls_deliver (bus : MessageBus)
    (hhandlers : ∀ recipient handler, bus.handlers recipient = some handler →
      ∀ envelope, MadeOfCalls bus.guard (handler envelope)) (envelope : Envelope) :
    MadeOfCalls bus.guard (bus.deliver envelope) := by
  unfold MessageBus.deliver
  split_ifs
  · exact (madeOfCalls_of_states fun _ => rfl).bind fun _ => madeOfCalls_of_states fun _ => rfl
  · refine (madeOfCalls_guard bus envelope none).bind fun _ => ?_
    split
    · exact madeOfCalls_of_states fun _ => rfl
    · next handler hhandler =>
      refine (madeOfCalls_of_states fun _ => rfl).bind fun _ => ?_
      refine (hhandlers _ handler hhandler envelope).bind fun result => ?_
      refine (madeOfCalls_guard bus envelope (some result)).bind fun _ => ?_
      exact (madeOfCalls_of_states fun _ => rfl).bind fun _ => madeOfCalls_of_states fun _ => rfl

/-- The delivery raises, and it does so whatever the handlers are. -/
def RaisesBeforeHandler (bus : MessageBus) (envelope : Envelope) (b : Bus) : Prop :=
  ∃ e b', ∀ handlers, ({ bus with handlers } : MessageBus).deliver envelope b = (.error e, b')

theorem deliver_tripped (bus : MessageBus) {envelope : Envelope} {b : Bus} (finding : Finding)
    (h : HoneyTokenAgent.refusal b.states envelope.traceId = some finding) :
    RaisesBeforeHandler bus envelope b := by
  by_cases hhops : envelope.hops > bus.maxHops
  · refine ⟨.delivery ("loop guard tripped after " ++ (toString envelope.hops).toList ++
      " hops".toList), { b with trace := b.trace ++ [⟨envelope.traceId, envelope.sender,
        "dropped.loop-guard", [("hops", (toString envelope.hops).toList)]⟩] }, fun handlers => ?_⟩
    unfold MessageBus.deliver
    rw [if_pos hhops]
    rfl
  · refine ⟨.leak finding, { b with trace := b.trace ++ [⟨envelope.traceId, envelope.sender,
      "dropped.boundary-guard", [("stage", "envelope".toList),
        ("error_type", "HoneyTokenLeak".toList)]⟩] }, fun handlers => ?_⟩
    unfold MessageBus.deliver
    rw [if_neg hhops, Action.bind_apply]
    unfold MessageBus.applyBoundaryGuard Action.handle Action.zoom
    rw [Call.boundaryGuard_of_refusal bus.guard none h]
    rfl

end Deliveries

/-! ## The canary -/

/-- The call looks through no tree with a string under a key `<key>`, and none in which the walk
raises. -/
def Call.Plain (states : States) (call : Call) : Prop :=
  ∀ i, call.inspection states = some i → i.error = none ∧ Unambiguous i.strings

/-- The call finds what it looks through: a value that shows a token or exceeds the budget is a leak
that trips the trace, and one whose token it shows. Without a leak nothing is tripped. -/
structure Finds (agent : HoneyTokenAgent) (states : States) (call : Call) : Prop where
  leak : ∀ i, call.inspection states = some i →
    (agent.Exceeds i.strings ∨ ∃ st ∈ states, Shows st.token i.strings) →
      (∃ finding, (call.perform agent states).1 = .error (.leak finding)) ∧
      ((∃ st ∈ states, st.traceId = i.traceId) →
        ∃ st ∈ (call.perform agent states).2, st.traceId = i.traceId ∧ st.tripped = true) ∧
      (¬ agent.Exceeds i.strings → ∃ st ∈ (call.perform agent states).2,
        Shows st.token i.strings ∧ st.tripped = true)
  quiet : (∀ finding, (call.perform agent states).1 ≠ .error (.leak finding)) →
    ∀ st' ∈ (call.perform agent states).2, st'.tripped = true →
      ∃ st ∈ states, st.traceId = st'.traceId ∧ st.tripped = true ∧ st.finding = st'.finding

theorem finds_of_plain {states : States} {call : Call} (h : call.Plain states) :
    Finds agent states call := by
  refine ⟨fun i hi hshown => ?_, call.perform_quiet⟩
  have hinspected : agent.Inspected i.error i.strings i.traceId (call.exposed states)
      (call.perform agent states) := call.perform_inspected hi
  have hfound : (∃ finding, (call.perform agent states).1 = .error (.leak finding)) ∧
      (¬ agent.Exceeds i.strings → ∃ st ∈ (call.perform agent states).2,
        Shows st.token i.strings ∧ st.tripped = true) := by
    rcases hshown with hexceeds | ⟨st, hst, hshows⟩
    · exact ⟨hinspected.leaks_of_exceeds (h i hi).1 hexceeds, fun hnot => absurd hexceeds hnot⟩
    · obtain ⟨st', hst', -, htoken⟩ := call.mem_exposed hst
      exact hinspected.found (h i hi).1 (h i hi).2 hst' (htoken ▸ hshows)
  refine ⟨hfound.1, fun ⟨st, hst, hid⟩ => ?_, hfound.2⟩
  obtain ⟨finding, hleak⟩ := hfound.1
  obtain ⟨st', hst', hid', -⟩ := call.mem_exposed hst
  exact hinspected.trips hleak ⟨st', hst', hid'.trans hid⟩

/-- In every run, whatever is called: a call finds what it looks through where it is plain; a trace
that is tripped stays so with its first finding, and its deliveries raise before the handler; and a
trace is exempt no more often than it was minted. -/
theorem canary_trips (agent : HoneyTokenAgent) (before after : List Call) :
    (∀ call : Call, call.Plain (run agent before []) → Finds agent (run agent before []) call) ∧
    (∀ st ∈ run agent before [], st.tripped = true → ∃ finding, st.finding = some finding ∧
      ∃ st' ∈ run agent after (run agent before []), st'.traceId = st.traceId ∧
        st'.tripped = true ∧ st'.finding = some finding ∧
        ∀ bus envelope trace, bus.guard = agent → envelope.traceId = st.traceId →
          RaisesBeforeHandler bus envelope ⟨run agent after (run agent before []), trace⟩) ∧
    ∀ t, (exemptions agent before []).count t ≤ (mints agent before []).count t := by
  have hempty : Sound [] := ⟨List.nodup_nil, fun _ hst => nomatch hst⟩
  have hsound : Sound (run agent before []) := run_sound agent hempty before
  refine ⟨fun call hplain => finds_of_plain hplain, fun st hst htripped => ?_, fun t => ?_⟩
  · obtain ⟨finding, hfinding⟩ := hsound.finding st hst htripped
    obtain ⟨st', hst', hid, htripped', hfinding'⟩ :=
      run_keeps agent after _ st hst htripped finding hfinding
    refine ⟨finding, hfinding, st', hst', hid, htripped', hfinding', ?_⟩
    intro bus envelope trace hguard htrace
    refine deliver_tripped bus finding ?_
    have hget := (States.get_eq_some_iff (run_sound agent hsound after).nodup).2 ⟨hst', hid⟩
    rw [HoneyTokenAgent.refusal, htrace, hget, Option.bind_some, if_pos htripped', hfinding']
  · exact (count_exemptions_le hempty before t).trans_eq (Nat.add_zero _)

/-- A token. -/
def sampleToken : Token where
  body := "abcdefghijklmnopqrstuvwxyzABCDEFGHIJKLMNOPQ".toList
  nonempty := by decide
  alphabet := fun c hc => by
    have hall : "abcdefghijklmnopqrstuvwxyzABCDEFGHIJKLMNOPQ".toList.all
        (fun c => c.isAlphanum || c == '-' || c == '_') = true := by decide
    simpa [or_assoc] using List.all_eq_true.1 hall c hc

/-- An agent with the smallest budget. -/
def sampleAgent : HoneyTokenAgent := ⟨"honeytoken".toList, .standard, 1024, 4⟩

/-- The token in two halves, the first under the key `<key>`. -/
def splitToken : Value :=
  .dict [("<key>".toList, .str (sampleToken.text.take 20)),
    ("rest".toList, .str (sampleToken.text.drop 20))]

/-- The strings of the value are the token, and a write of it passes. A token beside what cannot be
looked at raises something else, and trips nothing. -/
theorem splitToken_passes :
    ¬ Finds sampleAgent
      (run sampleAgent [.mint "trace".toList "coordinator".toList none sampleToken] [])
      (.externalWrite "trace".toList splitToken "memory".toList) ∧
    ¬ Finds sampleAgent
      (run sampleAgent [.mint "trace".toList "coordinator".toList none sampleToken] [])
      (.externalWrite "trace".toList (.items [.str sampleToken.text, .failing "TypeError".toList])
        "memory".toList) := by
  refine ⟨fun hfinds => ?_, fun hfinds => ?_⟩
  · have hshows : Shows sampleToken (walk none [] splitToken) :=
      .inr ⟨("raw", sampleToken.text), List.mem_cons_self, by decide +kernel⟩
    obtain ⟨⟨finding, hleak⟩, -⟩ := hfinds.leak _ rfl (.inr ⟨_, List.mem_singleton.2 rfl, hshows⟩)
    have hfits : ¬ ((walk none [] splitToken).map fun e => e.text.length).sum >
        sampleAgent.maxScanChars := by decide +kernel
    have hnone : (HoneyTokenAgent.firstMatch
        (run sampleAgent [.mint "trace".toList "coordinator".toList none sampleToken] [])
        (HoneyTokenAgent.candidates (walk none [] splitToken))).isNone = true := by
      decide +kernel
    have hpasses : (Call.perform sampleAgent (.externalWrite "trace".toList splitToken "memory".toList)
        (run sampleAgent [.mint "trace".toList "coordinator".toList none sampleToken] [])).1 = .ok () := by
      change (sampleAgent.inspectValue splitToken _ _ none _).1 = .ok ()
      rw [HoneyTokenAgent.inspectValue_eq_ok rfl hfits (Option.isNone_iff_eq_none.1 hnone)]
    rw [hpasses] at hleak
    cases hleak
  · have hshows : Shows sampleToken
        (walk none [] (.items [.str sampleToken.text, .failing "TypeError".toList])) :=
      .inl ⟨_, List.mem_cons_self, ("raw", sampleToken.text), List.mem_cons_self, List.infix_refl _⟩
    obtain ⟨⟨finding, hleak⟩, -⟩ := hfinds.leak _ rfl (.inr ⟨_, List.mem_singleton.2 rfl, hshows⟩)
    cases hleak

end Bulldog.MultiAgent
