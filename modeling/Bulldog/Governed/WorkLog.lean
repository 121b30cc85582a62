import Bulldog.Governed.Agent

/-!
# The work log

The rows that the runs of the governed agent leave in the ledger, and what `recover` reads from them. A
run writes each plan before its effect and each result after it, so a run that ends anywhere leaves at
most one plan without a result, and the next run goes on from there.
-/

namespace Bulldog.Governed

variable {F : Type}

/-! ## What a ledger says -/

/-- The data of the rows of an event, in order. -/
def eventData (eventType : Str) (rows : List (Fields F)) : List (Json F) :=
  rows.filterMap fun row =>
    match row.get "event_type" with
    | some (.str t) => if t = eventType then row.get "data" else none
    | _ => none

/-- The tool and the step that a plan or a result names. -/
def toolStep (data : Json F) : Option (Str × ℤ) :=
  match data with
  | .obj fields =>
    match Fields.get fields "tool", Fields.get fields "step" with
    | some (.str tool), some (.int step) => some (tool, step)
    | _, _ => none
  | _ => none

/-- The steps from 0 on, once each and in order, with these tools. -/
def inOrder (planned : List Str) : List (Option (Str × ℤ)) :=
  planned.zipIdx.map fun item => some (item.1, item.2)

theorem inOrder_append (planned : List Str) (tool : Str) :
    inOrder (planned ++ [tool]) = inOrder planned ++ [some (tool, (planned.length : ℤ))] := by
  simp [inOrder, List.zipIdx_append]

theorem length_inOrder (planned : List Str) : (inOrder planned).length = planned.length := by
  simp [inOrder]

theorem eventData_append (eventType : Str) (rows others : List (Fields F)) :
    eventData eventType (rows ++ others) = eventData eventType rows ++ eventData eventType others :=
  List.filterMap_append

/-- A ledger in order: the steps that were planned, those that were completed, and the identity. -/
structure InOrder (rows : List (Fields F)) (pinned : Option (Json F)) (planned : List Str)
    (completed : ℕ) : Prop where
  identities : eventData "agent_identity".toList rows = pinned.toList
  plans : (eventData "agent_plan".toList rows).map toolStep = inOrder planned
  results : (eventData "agent_result".toList rows).map toolStep = inOrder (planned.take completed)
  known : ∀ tool ∈ planned, isTool tool = true
  pending : planned.length = completed ∨ planned.length = completed + 1
  pinned_of_plan : planned ≠ [] → pinned.isSome

/-! ## Reading a row -/

section Rows

variable (stamp : EventStamp) (eventType : Str) (data : Fields F)

theorem eventRow_type : (eventRow stamp eventType data).get "event_type" = some (.str eventType) := by
  rw [eventRow, Fields.get_norm]
  rfl

theorem eventRow_data : (eventRow stamp eventType data).get "data" = some (Json.obj data).norm := by
  rw [eventRow, Fields.get_norm]
  rfl

theorem eventRow_record :
    (eventRow stamp eventType data).get "record_type" = some (.str "runtime_event".toList) := by
  rw [eventRow, Fields.get_norm]
  rfl

/-- An event does not touch the guard. -/
theorem recoverRow_eventRow (rat : F → ℚ) (maxHistory : ℕ) (history : History) :
    SessionGuard.recoverRow rat maxHistory history (eventRow stamp eventType data) = .ok history := by
  have hne : "runtime_event".toList ≠ "action_evaluation".toList := by decide
  unfold SessionGuard.recoverRow Fields.at
  rw [eventRow_record]
  simp only [orRaise, Json.text, bind, Except.bind, if_neg hne]
  rfl

end Rows

/-- The events that are not the agent's work do not touch it. -/
theorem recoverWork_of_other {row : Fields F} {eventType : Str}
    (htype : row.get "event_type" = some (.str eventType)) (hother : eventType ∉ workEvents)
    (work : Work F) : recoverWork work row = .ok work := by
  simp only [workEvents, List.mem_cons, List.not_mem_nil, or_false, not_or] at hother
  obtain ⟨hidentity, hplan, hresult⟩ := hother
  unfold recoverWork
  rw [htype]
  simp only [hidentity, hplan, hresult, if_false]
  rfl

theorem recoverWork_of_none {row : Fields F} (htype : row.get "event_type" = none)
    (work : Work F) : recoverWork work row = .ok work := by
  unfold recoverWork
  rw [htype]
  rfl

/-- What the dispatcher appends is accepted, and leaves the work alone. -/
theorem recoverStep_other (rat : F → ℚ) (maxHistory : ℕ) (history : History) (work : Work F)
    (other : OtherRow F) :
    ∃ history', recoverStep rat maxHistory (history, work) other.row = .ok (history', work) := by
  cases other with
  | evaluation stamp action outcome =>
    have hwork : recoverWork work (rowFields stamp action outcome).sort = .ok work :=
      recoverWork_of_none (by rw [Fields.get_sort]; rfl) work
    have htype : Fields.at (rowFields stamp action outcome).sort "record_type" =
        .ok (.str "action_evaluation".toList) := by
      rw [Fields.at, Fields.get_sort]
      rfl
    simp only [OtherRow.row, recoverStep, SessionGuard.recoverRow, htype, fromDict_row, ofRow_row,
      hwork, bind, Except.bind, Json.text, if_true]
    exact ⟨_, rfl⟩
  | event stamp eventType data hother =>
    have hwork := recoverWork_of_other (eventRow_type stamp eventType data) hother work
    simp only [OtherRow.row, recoverStep, recoverRow_eventRow, hwork, bind, Except.bind]
    exact ⟨history, rfl⟩

/-! ## Recovery records what the ledger says -/

section Recorded

variable {rat : F → ℚ} {maxHistory : ℕ} {rows : List (Fields F)} {row : Fields F}
  {history history' : History} {work work' : Work F}

/-- The work is what the rows of its three events hold. -/
structure Recorded (rows : List (Fields F)) (work : Work F) : Prop where
  identities : eventData "agent_identity".toList rows = work.pinned.toList
  plans : eventData "agent_plan".toList rows = work.plans.map .obj
  results : eventData "agent_result".toList rows = work.completed.map .obj

theorem eventData_singleton {eventType t : Str} (h : row.get "event_type" = some (.str t)) :
    eventData eventType [row] = if t = eventType then (row.get "data").toList else [] := by
  rw [eventData, List.filterMap_cons, h]
  dsimp only
  split_ifs
  · cases row.get "data" <;> rfl
  · rfl

theorem eventData_of_no_text {eventType : Str} (h : ∀ t, row.get "event_type" ≠ some (.str t)) :
    eventData eventType [row] = [] := by
  rw [eventData, List.filterMap_cons]
  split
  · rfl
  · next heq =>
    split at heq
    · next t ht => exact absurd ht (h t)
    · cases heq

theorem data_of_dataOf {data : Fields F} (h : dataOf row = .ok data) :
    row.get "data" = some (.obj data) := by
  obtain ⟨value, hvalue, h⟩ := bind_eq_ok.1 h
  rw [orRaise_eq_ok.1 hvalue]
  cases value <;> cases h
  rfl

/-- One row: what it adds to the work is what it holds. -/
theorem Recorded.step (h : Recorded rows work) (hstep : recoverWork work row = .ok work') :
    Recorded (rows ++ [row]) work' := by
  unfold recoverWork at hstep
  split at hstep
  next t htype =>
    split_ifs at hstep with hidentity hplan hresult
    · obtain ⟨_, hnone, hstep⟩ := bind_eq_ok.1 hstep
      obtain ⟨value, hvalue, hstep⟩ := bind_eq_ok.1 hstep
      obtain rfl := Except.ok.inj hstep
      have hpinned : work.pinned = none := by simpa using raiseIf_eq_ok.1 hnone
      have hdata : row.get "data" = some value := orRaise_eq_ok.1 hvalue
      subst hidentity
      refine ⟨?_, ?_, ?_⟩ <;> rw [eventData_append, eventData_singleton htype, hdata]
      · rw [if_pos rfl, h.identities, hpinned]
        rfl
      · rw [if_neg (by decide), h.plans, List.append_nil]
      · rw [if_neg (by decide), h.results, List.append_nil]
    · obtain ⟨data, hdata, hstep⟩ := bind_eq_ok.1 hstep
      obtain ⟨_, -, hstep⟩ := bind_eq_ok.1 hstep
      obtain ⟨_, -, hstep⟩ := bind_eq_ok.1 hstep
      obtain ⟨_, -, hstep⟩ := bind_eq_ok.1 hstep
      obtain ⟨_, -, hstep⟩ := bind_eq_ok.1 hstep
      obtain rfl := Except.ok.inj hstep
      subst hplan
      refine ⟨?_, ?_, ?_⟩ <;>
        rw [eventData_append, eventData_singleton htype, data_of_dataOf hdata]
      · rw [if_neg (by decide), h.identities, List.append_nil]
      · rw [if_pos rfl, h.plans, List.map_append]
        rfl
      · rw [if_neg (by decide), h.results, List.append_nil]
    · obtain ⟨data, hdata, hstep⟩ := bind_eq_ok.1 hstep
      obtain ⟨_, -, hstep⟩ := bind_eq_ok.1 hstep
      obtain ⟨_, -, hstep⟩ := bind_eq_ok.1 hstep
      obtain ⟨_, -, hstep⟩ := bind_eq_ok.1 hstep
      obtain rfl := Except.ok.inj hstep
      subst hresult
      refine ⟨?_, ?_, ?_⟩ <;>
        rw [eventData_append, eventData_singleton htype, data_of_dataOf hdata]
      · rw [if_neg (by decide), h.identities, List.append_nil]
      · rw [if_neg (by decide), h.plans, List.append_nil]
      · rw [if_pos rfl, h.results, List.map_append]
        rfl
    · obtain rfl := Except.ok.inj hstep
      refine ⟨?_, ?_, ?_⟩ <;> rw [eventData_append, eventData_singleton htype]
      · rw [if_neg hidentity, List.append_nil, h.identities]
      · rw [if_neg hplan, List.append_nil, h.plans]
      · rw [if_neg hresult, List.append_nil, h.results]
  next htype =>
    obtain rfl := Except.ok.inj hstep
    refine ⟨?_, ?_, ?_⟩ <;> rw [eventData_append, eventData_of_no_text htype, List.append_nil]
    · exact h.identities
    · exact h.plans
    · exact h.results

theorem recoverRows_append (rows others : List (Fields F)) (history : History) :
    recoverRows rat maxHistory (rows ++ others) history =
      recoverRows rat maxHistory rows history >>= others.foldlM (recoverStep rat maxHistory) := by
  rw [recoverRows, recoverRows, List.foldlM_append]

/-- What `recover` builds from a ledger is what the ledger says. -/
theorem recoverRows_recorded
    (h : recoverRows rat maxHistory rows history = .ok (history', work)) : Recorded rows work := by
  induction rows using List.reverseRecOn generalizing history' work with
  | nil =>
    obtain ⟨-, rfl⟩ := Prod.mk.inj (Except.ok.inj h)
    exact ⟨rfl, rfl, rfl⟩
  | append_singleton rows row ih =>
    rw [recoverRows_append] at h
    obtain ⟨⟨before, earlier⟩, hrows, h⟩ := bind_eq_ok.1 h
    rw [List.foldlM_cons] at h
    obtain ⟨⟨after, later⟩, hstep, h⟩ := bind_eq_ok.1 h
    obtain ⟨-, rfl⟩ := Prod.mk.inj (Except.ok.inj h)
    obtain ⟨_, -, hstep⟩ := bind_eq_ok.1 hstep
    obtain ⟨_, hwork, hstep⟩ := bind_eq_ok.1 hstep
    obtain ⟨-, rfl⟩ := Prod.mk.inj (Except.ok.inj hstep)
    exact (ih hrows).step hwork

end Recorded

/-! ## What keeps the log in order -/

section Invariant

variable {rat : F → ℚ} {maxHistory : ℕ} {rows : List (Fields F)} {work : Work F}
  {planned : List Str} {completed : ℕ}

/-- The ledger is accepted, and its work is in order. -/
structure Recovers (rat : F → ℚ) (maxHistory : ℕ) (rows : List (Fields F)) (work : Work F)
    (planned : List Str) (completed : ℕ) : Prop where
  accepted : ∃ history, recoverRows rat maxHistory rows [] = .ok (history, work)
  plans : (work.plans.map .obj).map toolStep = inOrder planned
  results : (work.completed.map .obj).map toolStep = inOrder (planned.take completed)
  known : ∀ tool ∈ planned, isTool tool = true
  pending : planned.length = completed ∨ planned.length = completed + 1
  pinned_of_plan : planned ≠ [] → work.pinned.isSome

namespace Recovers

theorem inOrder (h : Recovers rat maxHistory rows work planned completed) :
    InOrder rows work.pinned planned completed := by
  obtain ⟨_, haccepted⟩ := h.accepted
  have hrecorded := recoverRows_recorded haccepted
  exact ⟨hrecorded.identities, hrecorded.plans ▸ h.plans, hrecorded.results ▸ h.results, h.known,
    h.pending, h.pinned_of_plan⟩

theorem length_plans (h : Recovers rat maxHistory rows work planned completed) :
    work.plans.length = planned.length := by
  simpa [length_inOrder] using congrArg List.length h.plans

theorem length_completed (h : Recovers rat maxHistory rows work planned completed) :
    work.completed.length = completed := by
  have hlength := congrArg List.length h.results
  rw [length_inOrder, List.length_map, List.length_map, List.length_take] at hlength
  have := h.pending
  omega

theorem nil : Recovers rat maxHistory ([] : List (Fields F)) ⟨none, [], []⟩ [] 0 :=
  ⟨⟨_, rfl⟩, rfl, rfl, nofun, .inl rfl, fun h => absurd rfl h⟩

/-- One more row, with the work after it. -/
theorem accepted_append (h : Recovers rat maxHistory rows work planned completed) {row : Fields F}
    {work' : Work F}
    (hstep : ∀ history, ∃ history',
      recoverStep rat maxHistory (history, work) row = .ok (history', work')) :
    ∃ history, recoverRows rat maxHistory (rows ++ [row]) [] = .ok (history, work') := by
  obtain ⟨history, haccepted⟩ := h.accepted
  obtain ⟨history', hstep⟩ := hstep history
  refine ⟨history', ?_⟩
  rw [recoverRows_append, haccepted]
  simp only [bind, Except.bind, List.foldlM_cons, List.foldlM_nil, hstep]
  rfl

theorem append_other (h : Recovers rat maxHistory rows work planned completed)
    (others : List (OtherRow F)) :
    Recovers rat maxHistory (rows ++ others.map OtherRow.row) work planned completed := by
  induction others generalizing rows with
  | nil => simpa using h
  | cons other others ih =>
    have hone : Recovers rat maxHistory (rows ++ [other.row]) work planned completed :=
      { h with accepted := h.accepted_append fun _ => recoverStep_other rat maxHistory _ work other }
    simpa using ih hone

theorem append_event (h : Recovers rat maxHistory rows work planned completed) (stamp : EventStamp)
    {eventType : Str} (hother : eventType ∉ workEvents) (data : Fields F) :
    Recovers rat maxHistory (rows ++ [eventRow stamp eventType data]) work planned completed :=
  h.append_other [.event stamp eventType data hother]

/-- What a row of the agent's work does. -/
theorem recoverStep_event (stamp : EventStamp) (eventType : Str) (data : Fields F)
    {work' : Work F}
    (hwork : recoverWork work (eventRow stamp eventType data) = .ok work') (history : History) :
    ∃ history', recoverStep rat maxHistory (history, work) (eventRow stamp eventType data) =
      .ok (history', work') := by
  simp only [recoverStep, recoverRow_eventRow, hwork, bind, Except.bind]
  exact ⟨history, rfl⟩

theorem append_identity (h : Recovers rat maxHistory rows work planned completed)
    (hnone : work.pinned = none) (stamp : EventStamp) (identity : Fields F) :
    Recovers rat maxHistory (rows ++ [eventRow stamp "agent_identity".toList identity])
      { work with pinned := some (Json.obj identity).norm } planned completed := by
  have hwork : recoverWork work (eventRow stamp "agent_identity".toList identity) =
      .ok { work with pinned := some (Json.obj identity).norm } := by
    unfold recoverWork Fields.at
    rw [eventRow_type, eventRow_data, hnone]
    rfl
  exact { h with
    accepted := h.accepted_append (recoverStep_event stamp _ _ hwork)
    pinned_of_plan := fun _ => rfl }

/-- A step's data keep the step and the tool. -/
theorem toolStep_norm {data : Fields F} {tool : Str} {step : ℤ}
    (htool : data.get "tool" = some (.str tool)) (hstep : data.get "step" = some (.int step)) :
    toolStep (Json.obj data.norm) = some (tool, step) := by
  simp only [toolStep, Fields.get_norm, htool, hstep, Option.map_some, Json.norm]

theorem stepIs_norm {data : Fields F} {n : ℕ} (hstep : data.get "step" = some (.int n)) :
    stepIs data.norm n = .ok true := by
  simp only [stepIs, Fields.at, Fields.get_norm, hstep, Option.map_some, Json.norm, orRaise, bind,
    Except.bind, decide_true]
  rfl

theorem dataOf_eventRow (stamp : EventStamp) (eventType : Str) (data : Fields F) :
    dataOf (eventRow stamp eventType data) = .ok data.norm := by
  rw [dataOf, Fields.at, eventRow_data]
  rfl

theorem append_plan (h : Recovers rat maxHistory rows work planned completed)
    (hpinned : work.pinned.isSome) (hcompleted : planned.length = completed) {tool : Str}
    (htool : isTool tool = true) (stamp : EventStamp) {data : Fields F}
    (hdata : data.get "tool" = some (.str tool)) (hstep : data.get "step" = some (.int completed)) :
    Recovers rat maxHistory (rows ++ [eventRow stamp "agent_plan".toList data])
      { work with plans := work.plans ++ [data.norm] } (planned ++ [tool]) completed := by
  have hknown : toolKnown data.norm = .ok true := by
    simp only [toolKnown, Fields.at, Fields.get_norm, hdata, Option.map_some, Json.norm, orRaise,
      bind, Except.bind, htool]
    rfl
  have hnext : stepIs data.norm work.plans.length = .ok true :=
    stepIs_norm (by rw [hstep, h.length_plans, hcompleted])
  have hwork : recoverWork work (eventRow stamp "agent_plan".toList data) =
      .ok { work with plans := work.plans ++ [data.norm] } := by
    have hne : "agent_plan".toList ≠ "agent_identity".toList := by decide
    unfold recoverWork
    rw [eventRow_type]
    simp only [if_neg hne, dataOf_eventRow, hnext, hknown, bind, Except.bind]
    rfl
  refine ⟨h.accepted_append (recoverStep_event stamp _ _ hwork), ?_, ?_, ?_, .inr ?_, fun _ => hpinned⟩
  · rw [inOrder_append, ← h.plans, List.map_append, List.map_append, hcompleted]
    exact congrArg _ (congrArg (fun value => [value]) (toolStep_norm hdata hstep))
  · rw [List.take_append_of_le_length hcompleted.ge]
    exact h.results
  · intro t ht
    rcases List.mem_append.1 ht with ht | ht
    · exact h.known t ht
    · rwa [List.mem_singleton.1 ht]
  · rw [List.length_append, hcompleted, List.length_singleton]

theorem append_result (h : Recovers rat maxHistory rows work planned completed) {tool : Str}
    (hplanned : planned[completed]? = some tool) (stamp : EventStamp) {data : Fields F}
    (hdata : data.get "tool" = some (.str tool)) (hstep : data.get "step" = some (.int completed)) :
    Recovers rat maxHistory (rows ++ [eventRow stamp "agent_result".toList data])
      { work with completed := work.completed ++ [data.norm] } planned (completed + 1) := by
  obtain ⟨hlt, -⟩ := List.getElem?_eq_some_iff.1 hplanned
  have hnext : stepIs data.norm work.completed.length = .ok true :=
    stepIs_norm (by rw [hstep, h.length_completed])
  have hplan : ¬ work.plans.length ≤ work.completed.length := by
    rw [h.length_plans, h.length_completed]
    omega
  have hwork : recoverWork work (eventRow stamp "agent_result".toList data) =
      .ok { work with completed := work.completed ++ [data.norm] } := by
    have hidentity : "agent_result".toList ≠ "agent_identity".toList := by decide
    have hother : "agent_result".toList ≠ "agent_plan".toList := by decide
    unfold recoverWork
    rw [eventRow_type]
    simp only [if_neg hidentity, if_neg hother, dataOf_eventRow, hnext, raiseIf, if_neg hplan, bind,
      Except.bind]
    rfl
  refine ⟨h.accepted_append (recoverStep_event stamp _ _ hwork), h.plans, ?_, h.known, .inl ?_,
    h.pinned_of_plan⟩
  · rw [List.take_add_one, hplanned, Option.toList_some, inOrder_append, ← h.results,
      List.map_append, List.map_append, List.length_take_of_le hlt.le]
    exact congrArg _ (congrArg (fun value => [value]) (toolStep_norm hdata hstep))
  · have := h.pending
    omega

end Recovers

end Invariant

/-! ## A run -/

/-- The tool of a proposal is one of the two. -/
theorem isTool_of_proposal {raw tool : Str} (h : proposal raw = .ok tool) : isTool tool = true := by
  unfold proposal at h
  obtain ⟨_, -, h⟩ := bind_eq_ok.1 h
  obtain ⟨value, -, h⟩ := bind_eq_ok.1 h
  obtain ⟨_, -, h⟩ := bind_eq_ok.1 h
  split at h
  next key name =>
    obtain ⟨_, hcheck, h⟩ := bind_eq_ok.1 h
    obtain rfl := Except.ok.inj h
    have := raiseIf_eq_ok.1 hcheck
    simp only [not_or, Bool.not_eq_false] at this
    exact this.2
  next => cases h

theorem toolStep_eq_some {data : Fields F} {tool : Str} {step : ℤ}
    (h : toolStep (.obj data) = some (tool, step)) : data.get "tool" = some (.str tool) := by
  unfold toolStep at h
  dsimp only at h
  split at h
  next htool _ =>
    obtain ⟨rfl, -⟩ := Prod.mk.inj (Option.some.inj h)
    exact htool
  next => cases h

/-- A plan names its tool. -/
theorem Recovers.tool_of_plan {rat : F → ℚ} {maxHistory : ℕ} {rows : List (Fields F)} {work : Work F}
    {planned : List Str} {completed step : ℕ} (h : Recovers rat maxHistory rows work planned completed)
    {plan : Fields F} {tool : Str} (hplan : work.plans[step]? = some plan)
    (htool : planned[step]? = some tool) : plan.get "tool" = some (.str tool) := by
  have hitem := congrArg (fun items => items[step]?) h.plans
  simp only [List.getElem?_map, hplan, Governed.inOrder, List.getElem?_zipIdx, htool,
    Option.map_some] at hitem
  exact toolStep_eq_some (Option.some.inj hitem)

section Run

variable {rat : F → ℚ} {maxHistory : ℕ} {identity : Fields F} {work : Work F} {planned : List Str}
  {completed : ℕ} {before : AgentWorld F}

/-- In a run that found this work in the ledger, `before`: `step` results are there, `executed` tools
were handed to the dispatcher, and the plans are now `planned'`. -/
structure Mid (rat : F → ℚ) (maxHistory : ℕ) (identity : Fields F) (work : Work F)
    (planned : List Str) (completed : ℕ) (before : AgentWorld F) (step executed : ℕ)
    (w : AgentWorld F) (now : Work F) (planned' : List Str) : Prop where
  recovers : Recovers rat maxHistory w.rows now planned' step
  source : ∀ value ∈ now.pinned, value ∈ work.pinned ∨ value = (Json.obj identity).norm
  planned : planned <+: planned'
  effects : ∃ new, w.effects = before.effects ++ new ∧
    new.map Prod.swap = (planned'.zipIdx.take executed).drop completed

/-- Wherever a run ends, the ledger is in order, and the tools it executed are the planned ones. -/
def Continues (rat : F → ℚ) (maxHistory : ℕ) (identity : Fields F) (work : Work F)
    (planned : List Str) (completed : ℕ) (before w : AgentWorld F) : Prop :=
  ∃ step executed now planned',
    Mid rat maxHistory identity work planned completed before step executed w now planned'

section Parts

variable {step executed : ℕ} {w : AgentWorld F} {now : Work F} {planned' : List Str}

theorem Mid.continues
    (h : Mid rat maxHistory identity work planned completed before step executed w now planned') :
    Continues rat maxHistory identity work planned completed before w := ⟨_, _, _, _, h⟩

theorem Mid.event
    (h : Mid rat maxHistory identity work planned completed before step executed w now planned')
    {eventType : Str} (hother : eventType ∉ workEvents) (data : Fields F) (stamp : EventStamp) :
    Mid rat maxHistory identity work planned completed before step executed
      (w.push [eventRow stamp eventType data]) now planned' :=
  ⟨h.recovers.append_event stamp hother data, h.source, h.planned, h.effects⟩

theorem Mid.others
    (h : Mid rat maxHistory identity work planned completed before step executed w now planned')
    (others : List (OtherRow F)) :
    Mid rat maxHistory identity work planned completed before step executed
      (w.push (others.map OtherRow.row)) now planned' :=
  ⟨h.recovers.append_other others, h.source, h.planned, h.effects⟩

/-- The plan of the next step. -/
theorem Mid.plan
    (h : Mid rat maxHistory identity work planned completed before step step w now planned')
    (hpinned : now.pinned.isSome) (hlength : planned'.length = step) {tool : Str}
    (htool : isTool tool = true) (data : Fields F) (hdata : data.get "tool" = some (.str tool))
    (hstep : data.get "step" = some (.int step)) (stamp : EventStamp) :
    Mid rat maxHistory identity work planned completed before step step
      (w.push [eventRow stamp "agent_plan".toList data])
      { now with plans := now.plans ++ [data.norm] } (planned' ++ [tool]) := by
  obtain ⟨new, heffects, hnew⟩ := h.effects
  refine ⟨h.recovers.append_plan hpinned hlength htool stamp hdata hstep, h.source,
    h.planned.trans (List.prefix_append _ _), new, heffects, ?_⟩
  rw [hnew, List.zipIdx_append, List.take_append_of_le_length (by rw [List.length_zipIdx, hlength])]

/-- The execution of a planned step. -/
theorem Mid.execute
    (h : Mid rat maxHistory identity work planned completed before step step w now planned')
    (hle : completed ≤ step) {tool : Str} (hplanned : planned'[step]? = some tool)
    (others : List (OtherRow F)) :
    Mid rat maxHistory identity work planned completed before step (step + 1)
      { w.push (others.map OtherRow.row) with effects := w.effects ++ [(step, tool)] } now
      planned' := by
  obtain ⟨new, heffects, hnew⟩ := h.effects
  obtain ⟨hlt, -⟩ := List.getElem?_eq_some_iff.1 hplanned
  refine ⟨(h.others others).recovers, h.source, h.planned, new ++ [(step, tool)], ?_, ?_⟩
  · rw [heffects, List.append_assoc]
  · have hitem : planned'.zipIdx[step]? = some (tool, step) := by
      rw [List.getElem?_zipIdx, hplanned]
      simp
    rw [List.map_append, hnew, List.take_add_one, hitem, List.drop_append_of_le_length]
    · rfl
    · rw [List.length_take_of_le (by rw [List.length_zipIdx]; exact hlt.le)]
      exact hle

/-- The result of an executed step. -/
theorem Mid.result
    (h : Mid rat maxHistory identity work planned completed before step (step + 1) w now planned')
    {tool : Str} (hplanned : planned'[step]? = some tool) (data : Fields F)
    (hdata : data.get "tool" = some (.str tool)) (hstep : data.get "step" = some (.int step))
    (stamp : EventStamp) :
    Mid rat maxHistory identity work planned completed before (step + 1) (step + 1)
      (w.push [eventRow stamp "agent_result".toList data])
      { now with completed := now.completed ++ [data.norm] } planned' :=
  ⟨h.recovers.append_result hplanned stamp hdata hstep, h.source, h.planned, h.effects⟩

end Parts

/-! ### The code of a run -/

section Code

variable (C : Crypto) (args : Args) (env : Env F)

theorem wp_appendEvent {eventType : Str} {data : Fields F} {Q : Unit → AgentWorld F → Prop}
    {P : AgentWorld F → Prop} {w : AgentWorld F} (hbefore : P w)
    (hafter : ∀ stamp, P (w.push [eventRow stamp eventType data]))
    (hQ : ∀ stamp, Q () (w.push [eventRow stamp eventType data])) :
    (appendEvent env eventType data).wp Q (fun _ => P) w := by
  simp only [appendEvent, Action.wp_bind, Action.wp_read]
  rcases env.append w.rows eventType with _ | written
  · exact hQ _
  · simp only [Action.wp_bind, Action.wp_onlyIf, Action.wp_update, Action.wp_raise]
    exact ⟨fun _ => hafter _, fun _ => hbefore⟩

variable {step executed : ℕ} {w : AgentWorld F} {now : Work F} {planned' : List Str}

/-- An event that is none of the agent's work. -/
theorem Mid.wp_event
    (h : Mid rat maxHistory identity work planned completed before step executed w now planned')
    {eventType : Str} (hother : eventType ∉ workEvents) (data : Fields F)
    {Q : Unit → AgentWorld F → Prop}
    (hQ : ∀ w', Mid rat maxHistory identity work planned completed before step executed w' now
      planned' → Q () w') :
    (appendEvent env eventType data).wp Q
      (fun _ => Continues rat maxHistory identity work planned completed before) w :=
  wp_appendEvent env h.continues (fun stamp => (h.event hother data stamp).continues)
    fun stamp => hQ _ (h.event hother data stamp)

theorem Mid.wp_ask
    (h : Mid rat maxHistory identity work planned completed before step executed w now planned')
    (left : ℕ) :
    (ask env step left).wp
      (fun answer w' => isTool answer.1 = true ∧
        Mid rat maxHistory identity work planned completed before step executed w' now planned')
      (fun _ => Continues rat maxHistory identity work planned completed before) w := by
  induction left generalizing w with
  | zero => exact h.continues
  | succ left ih =>
    -- a failed attempt is recorded, and the next one starts from there
    have hretry : ∀ errorType : Str,
        (appendEvent env "agent_model_retry".toList [("step", .int step),
          ("attempt", .int ((2 - left : ℕ) + 1)), ("error_type", .str errorType)]).wp
          (fun _ w' => (ask env step left).wp
            (fun answer w'' => isTool answer.1 = true ∧ Mid rat maxHistory identity work planned
              completed before step executed w'' now planned')
            (fun _ => Continues rat maxHistory identity work planned completed before) w')
          (fun _ => Continues rat maxHistory identity work planned completed before) w :=
      fun errorType => h.wp_event env (by decide) _ fun _ h' => ih h'
    simp only [ask, Action.wp_bind, Action.wp_read]
    rcases env.chat w.rows (2 - left) with content | errorType | _
    · rcases hproposal : proposal content with e | tool
      · simp only [hproposal, Action.wp_bind, Action.wp_pure]
        exact hretry _
      · simp only [hproposal, Action.wp_bind, Action.wp_pure]
        exact ⟨isTool_of_proposal hproposal, h⟩
    · simp only [Action.wp_bind, Action.wp_pure]
      exact hretry errorType
    · exact h.continues

/-- After the planning of a step its tool is in the ledger. -/
theorem Mid.wp_planStep
    (h : Mid rat maxHistory identity work planned completed before step step w now planned')
    (hstart : Recovers rat maxHistory before.rows work planned completed)
    (hpinned : now.pinned.isSome)
    (hpending : planned'.length = step + 1 → planned' = planned) :
    (planStep C env work step).wp
      (fun tool w' => ∃ now' planned'', now'.pinned.isSome ∧ planned''[step]? = some tool ∧
        Mid rat maxHistory identity work planned completed before step step w' now' planned'')
      (fun _ => Continues rat maxHistory identity work planned completed before) w := by
  have hlength := h.recovers.pending
  have hplans := hstart.length_plans
  unfold planStep
  rcases hplan : work.plans[step]? with _ | plan
  · -- no plan is waiting, so the model is asked for one
    have hle := List.getElem?_eq_none_iff.1 hplan
    have hnext : planned'.length = step := by
      rcases hlength with hlength | hlength
      · exact hlength
      · rw [hpending hlength] at hlength
        omega
    simp only [Action.wp_bind, Action.wp_read, stopIf, Action.wp_onlyIf, Action.wp_raise]
    refine ⟨fun _ => h.continues, fun _ => Action.wp_mono (h.wp_ask env 3) ?_ fun _ _ h' => h'⟩
    rintro ⟨tool, content⟩ w' ⟨htool, h'⟩
    dsimp only at htool ⊢
    have hafter := h'.plan hpinned hnext htool [("step", .int step), ("tool", .str tool),
      ("model_response_sha256", .str (digest C (encodeUtf8 content)))] rfl rfl
    refine wp_appendEvent env h'.continues (fun stamp => (hafter stamp).continues)
      fun stamp => ⟨_, _, ?_, ?_, hafter stamp⟩
    · exact hpinned
    · rw [← hnext]
      exact List.getElem?_concat_length
  · -- the plan that the run found without a result, whose tool is repeated
    obtain ⟨hlt, -⟩ := List.getElem?_eq_some_iff.1 hplan
    have hprefix := h.planned.length_le
    have hsame : planned' = planned := hpending (by omega)
    have hget : planned[step]? = some planned[step] := List.getElem?_eq_getElem (by omega)
    simp only [hstart.tool_of_plan hplan hget, Action.wp_bind, Action.wp_pure]
    refine h.wp_event env (by decide) _ fun w' h' => ?_
    exact ⟨now, planned', hpinned, hsame ▸ hget, h'⟩

/-- A planned step is executed, and its result follows. -/
theorem Mid.wp_performStep {tool : Str}
    (h : Mid rat maxHistory identity work planned completed before step step w now planned')
    (hle : completed ≤ step) (hpinned : now.pinned.isSome) (hplanned : planned'[step]? = some tool) :
    (performStep C args env step tool).wp
      (fun _ w' => ∃ now', now'.pinned.isSome ∧ Mid rat maxHistory identity work planned completed
        before (step + 1) (step + 1) w' now' planned')
      (fun _ => Continues rat maxHistory identity work planned completed before) w := by
  simp only [performStep, Action.wp_bind, Action.wp_onlyIf, Action.wp_raise, Action.wp_read,
    Action.wp_update]
  refine ⟨fun _ => h.continues, fun _ => ?_⟩
  have hexecute := h.execute hle hplanned (env.execute w.rows tool).appended
  rcases (env.execute w.rows tool).result with _ | result
  · exact hexecute.continues
  · simp only
    rcases checkResult result with _ | attestation
    · exact hexecute.continues
    · simp only [Action.wp_bind, Action.wp_onlyIf, Action.wp_raise]
      refine ⟨fun _ => hexecute.continues, fun _ => ?_⟩
      have hresult := hexecute.result hplanned (evidence C step tool result attestation) rfl rfl
      refine wp_appendEvent env hexecute.continues (fun stamp => (hresult stamp).continues)
        fun stamp => ⟨_, ?_, hresult stamp⟩
      exact hpinned

/-- The loop, from any of its steps on. -/
theorem Mid.wp_runSteps
    (h : Mid rat maxHistory identity work planned completed before step step w now planned')
    (hstart : Recovers rat maxHistory before.rows work planned completed)
    (hle : completed ≤ step) (hpinned : now.pinned.isSome)
    (hpending : planned'.length = step + 1 → planned' = planned) (left : ℕ) :
    (runSteps C args env work left step).wp
      (fun _ => Continues rat maxHistory identity work planned completed before)
      (fun _ => Continues rat maxHistory identity work planned completed before) w := by
  induction left generalizing step w now planned' with
  | zero => exact h.continues
  | succ left ih =>
    simp only [runSteps, Action.wp_bind, Action.wp_read]
    split_ifs
    · exact h.continues
    · simp only [Action.wp_bind]
      refine Action.wp_mono (h.wp_planStep C env hstart hpinned hpending) ?_ fun _ _ h' => h'
      rintro tool w₁ ⟨now₁, planned₁, hpinned₁, hplanned₁, h₁⟩
      refine Action.wp_mono (h₁.wp_performStep C args env hle hpinned₁ hplanned₁) ?_
        fun _ _ h' => h'
      rintro - w₂ ⟨now₂, hpinned₂, h₂⟩
      refine ih h₂ (by omega) hpinned₂ fun hlength => ?_
      -- one plan at most was waiting for its result
      have := h₁.recovers.pending
      omega

theorem Mid.wp_checkCredential
    (h : Mid rat maxHistory identity work planned completed before step executed w now planned') :
    (checkCredential env).wp
      (fun _ => Continues rat maxHistory identity work planned completed before)
      (fun _ => Continues rat maxHistory identity work planned completed before) w := by
  simp only [checkCredential, Action.wp_bind, Action.wp_read, Action.wp_update, stopIf,
    Action.wp_onlyIf, Action.wp_raise]
  have hothers := h.others (env.credential w.rows).appended
  exact ⟨fun _ => hothers.continues,
    fun _ => hothers.wp_event env (by decide) _ fun _ h' => h'.continues⟩

/-- The end of a run. -/
theorem Continues.wp_stop {w : AgentWorld F}
    (h : Continues rat maxHistory identity work planned completed before w) (data : Fields F) :
    (appendEvent env "agent_stop".toList data).wp
      (fun _ => Continues rat maxHistory identity work planned completed before)
      (fun _ => Continues rat maxHistory identity work planned completed before) w := by
  obtain ⟨_, _, _, _, h⟩ := h
  exact h.wp_event env (by decide) data fun _ hlast => hlast.continues

/-- The rest of a run, once the identity is in the ledger. -/
theorem Mid.wp_rest
    (h : Mid rat maxHistory identity work planned completed before completed completed w now planned)
    (hstart : Recovers rat maxHistory before.rows work planned completed)
    (hpinned : now.pinned.isSome) (data : Fields F) :
    (do
      appendEvent env "agent_start".toList data
      let done ← runSteps C args env work (args.steps - work.completed.length) work.completed.length
      .onlyIf args.credentialCheck (checkCredential env)
      let w ← .read
      appendEvent env "agent_stop".toList [("completed", .int done),
        ("elapsed_seconds", .float (env.elapsed w.rows))] : Step F Unit).wp
      (fun _ => Continues rat maxHistory identity work planned completed before)
      (fun _ => Continues rat maxHistory identity work planned completed before) w := by
  simp only [Action.wp_bind, Action.wp_read, Action.wp_onlyIf, hstart.length_completed]
  refine h.wp_event env (by decide) _ fun w' h' => ?_
  have hsteps := h'.wp_runSteps C args env hstart le_rfl hpinned (fun _ => rfl)
    (args.steps - completed)
  refine Action.wp_mono hsteps (fun done w'' hend => ?_) fun _ _ hend => hend
  refine ⟨fun _ => ?_, fun _ => hend.wp_stop env _⟩
  obtain ⟨_, _, _, _, hmid⟩ := hend
  exact Action.wp_mono (hmid.wp_checkCredential env) (fun _ _ hlast => hlast.wp_stop env _)
    fun _ _ hlast => hlast

variable [PyFloat F]

/-- `recover` accepts a ledger in order, unless another identity is pinned in it. -/
theorem Recovers.recover_eq {rows : List (Fields F)}
    (h : Recovers rat maxHistory rows work planned completed) (identity : Fields F) :
    (∃ history, recover rat maxHistory rows identity [] = .ok (history, work)) ∧
        (∀ pinned ∈ work.pinned, sortedText pinned = sortedText (.obj identity)) ∨
      recover rat maxHistory rows identity [] = .error valueError ∧
        ∃ pinned ∈ work.pinned, sortedText pinned ≠ sortedText (.obj identity) := by
  obtain ⟨history, haccepted⟩ := h.accepted
  -- the check of the numbers passes in every case
  have hpending : ¬ (work.plans.length ≠ work.completed.length ∧
      work.plans.length ≠ work.completed.length + 1) := by
    have := h.pending
    rw [h.length_plans, h.length_completed]
    omega
  unfold recover recoverCheck
  rw [haccepted]
  simp only [bind, Except.bind, raiseIf, if_neg hpending]
  rcases hpinned : work.pinned with _ | pinned
  · exact .inl ⟨⟨history, rfl⟩, fun _ h => by cases h⟩
  · by_cases hsame : sortedText pinned = sortedText (.obj identity)
    · refine .inl ⟨⟨history, ?_⟩, fun _ hvalue => Option.some.inj hvalue ▸ hsame⟩
      simp only [Option.any_some, hsame, ne_eq, not_true, decide_false, if_false, Bool.false_eq_true]
      rfl
    · refine .inr ⟨?_, pinned, rfl, hsame⟩
      simp only [Option.any_some, hsame, ne_eq, not_false_eq_true, decide_true, if_true]

/-- A run, wherever it ends, goes on with the work of the ledger it found. -/
theorem Recovers.run (h : Recovers rat maxHistory before.rows work planned completed) :
    Continues rat maxHistory env.identity work planned completed before
      (run C args env rat maxHistory before).2 := by
  have hnone : (planned.zipIdx.take completed).drop completed = [] :=
    List.drop_eq_nil_of_le (List.length_take_le _ _)
  have hstart : Mid rat maxHistory env.identity work planned completed before completed completed
      before work planned :=
    ⟨h, fun value hvalue => .inl hvalue, List.prefix_rfl, [], (List.append_nil _).symm, hnone.symm⟩
  refine Action.wp_state |>.1 ?_
  simp only [Governed.run, recoverLedger]
  rw [Action.wp_bind, Action.wp_onlyIf]
  refine ⟨fun _ => hstart.continues, fun _ => ?_⟩
  rw [Action.wp_bind, Action.wp_bind, Action.wp_read]
  rcases h.recover_eq env.identity with ⟨⟨history, haccepted⟩, -⟩ | ⟨hrefused, -⟩
  · -- the first run pins its identity before anything else
    rw [haccepted]
    dsimp only
    rw [Action.wp_pure, Action.wp_bind, Action.wp_onlyIf]
    refine ⟨fun hunpinned => ?_, fun hsome => ?_⟩
    · have hidentity : ∀ stamp, Mid rat maxHistory env.identity work planned completed before
          completed completed (before.push [eventRow stamp "agent_identity".toList env.identity])
          { work with pinned := some (Json.obj env.identity).norm } planned := fun stamp =>
        ⟨h.append_identity (Option.isNone_iff_eq_none.1 hunpinned) stamp env.identity,
          fun value hvalue => .inr (Option.some.inj hvalue).symm, hstart.planned, hstart.effects⟩
      exact wp_appendEvent env hstart.continues (fun stamp => (hidentity stamp).continues)
        fun stamp => (hidentity stamp).wp_rest C args env h rfl _
    · refine hstart.wp_rest C args env h ?_ _
      rwa [Bool.not_eq_true, Option.isNone_eq_false_iff] at hsome
  · -- another identity is pinned, and the ledger stays as it is
    rw [hrefused]
    exact hstart.continues

end Code

end Run

/-! ### What a run executes

Executions are only added, and a run that nothing ends before its first execution has one. -/

section Executed

variable (C : Crypto) (args : Args) (env : Env F) {n : ℕ} {w : AgentWorld F}

/-- So many tools, at least, were handed to the dispatcher. -/
def Executed (n : ℕ) (w : AgentWorld F) : Prop := n ≤ w.effects.length

theorem Executed.wp_appendEvent (h : Executed n w) (eventType : Str) (data : Fields F) :
    (appendEvent env eventType data).wp (fun _ => Executed n) (fun _ => Executed n) w :=
  Governed.wp_appendEvent env h (fun _ => h) fun _ => h

theorem Executed.wp_ask (h : Executed n w) (step left : ℕ) :
    (ask env step left).wp (fun _ => Executed n) (fun _ => Executed n) w := by
  induction left generalizing w with
  | zero => exact h
  | succ left ih =>
    have hretry : ∀ errorType : Str,
        (appendEvent env "agent_model_retry".toList [("step", .int step),
          ("attempt", .int ((2 - left : ℕ) + 1)), ("error_type", .str errorType)]).wp
          (fun _ w' => (ask env step left).wp (fun _ => Executed n) (fun _ => Executed n) w')
          (fun _ => Executed n) w :=
      fun errorType => Action.wp_mono (h.wp_appendEvent env _ _) (fun _ _ h' => ih h')
        fun _ _ h' => h'
    simp only [ask, Action.wp_bind, Action.wp_read]
    rcases env.chat w.rows (2 - left) with content | errorType | _
    · rcases hproposal : proposal content with e | tool
      · simp only [hproposal, Action.wp_bind, Action.wp_pure]
        exact hretry _
      · simp only [hproposal, Action.wp_bind, Action.wp_pure]
        exact h
    · simp only [Action.wp_bind, Action.wp_pure]
      exact hretry errorType
    · exact h

theorem Executed.wp_planStep (h : Executed n w) (work : Work F) (step : ℕ) :
    (planStep C env work step).wp (fun _ => Executed n) (fun _ => Executed n) w := by
  unfold planStep
  rcases work.plans[step]? with _ | plan
  · simp only [Action.wp_bind, Action.wp_read, stopIf, Action.wp_onlyIf, Action.wp_raise]
    refine ⟨fun _ => h, fun _ => Action.wp_mono (h.wp_ask env step 3) ?_ fun _ _ h' => h'⟩
    exact fun _ _ h' => h'.wp_appendEvent env _ _
  · dsimp only
    split
    · rw [Action.wp_bind, Action.wp_pure, Action.wp_bind]
      exact h.wp_appendEvent env _ _
    · exact h

/-- A step adds its own. -/
theorem Executed.wp_performStep (h : Executed n w) (hfault : args.fault ≠ some .afterPlan)
    (step : ℕ) (tool : Str) :
    (performStep C args env step tool).wp (fun _ => Executed (n + 1)) (fun _ => Executed (n + 1)) w := by
  simp only [performStep, Action.wp_bind, Action.wp_onlyIf, Action.wp_raise, Action.wp_read,
    Action.wp_update]
  refine ⟨fun hafter => absurd hafter hfault, fun _ => ?_⟩
  have hexecuted : Executed (n + 1)
      ({ w.push ((env.execute w.rows tool).appended.map OtherRow.row) with
        effects := w.effects ++ [(step, tool)] } : AgentWorld F) := by
    rw [Executed, List.length_append, List.length_singleton]
    exact Nat.succ_le_succ h
  rcases (env.execute w.rows tool).result with _ | result
  · exact hexecuted
  · simp only
    rcases checkResult result with _ | attestation
    · exact hexecuted
    · simp only [Action.wp_bind, Action.wp_onlyIf, Action.wp_raise]
      exact ⟨fun _ => hexecuted, fun _ => hexecuted.wp_appendEvent env _ _⟩

theorem Executed.wp_runSteps (h : Executed n w) (hfault : args.fault ≠ some .afterPlan)
    (work : Work F) (left step : ℕ) :
    (runSteps C args env work left step).wp (fun _ => Executed n) (fun _ => Executed n) w := by
  induction left generalizing step w with
  | zero => exact h
  | succ left ih =>
    simp only [runSteps, Action.wp_bind, Action.wp_read]
    split_ifs
    · exact h
    · simp only [Action.wp_bind]
      refine Action.wp_mono (h.wp_planStep C env work step) ?_ fun _ _ h' => h'
      intro tool w₁ h₁
      refine Action.wp_mono (h₁.wp_performStep C args env hfault step tool) ?_
        fun _ _ h' => Nat.le_of_succ_le h'
      exact fun _ w₂ h₂ => ih (Nat.le_of_succ_le h₂) (step + 1)

/-- After the steps there are no executions to lose. -/
theorem Executed.wp_end (h : Executed n w) (done : ℕ) :
    (do
      .onlyIf args.credentialCheck (checkCredential env)
      let w ← .read
      appendEvent env "agent_stop".toList [("completed", .int done),
        ("elapsed_seconds", .float (env.elapsed w.rows))] : Step F Unit).wp
      (fun _ => Executed n) (fun _ => Executed n) w := by
  simp only [Action.wp_bind, Action.wp_onlyIf, Action.wp_read, checkCredential, Action.wp_update,
    stopIf, Action.wp_raise]
  have hcredential : Executed n
      (w.push ((env.credential w.rows).appended.map OtherRow.row)) := h
  refine ⟨fun _ => ⟨fun _ => hcredential, fun _ => ?_⟩, fun _ => h.wp_appendEvent env _ _⟩
  exact Action.wp_mono (hcredential.wp_appendEvent env _ _)
    (fun _ _ h' => h'.wp_appendEvent env _ _) fun _ _ h' => h'

/-- Nothing ends the run before its first execution, a question to the model apart. -/
structure Undisturbed : Prop where
  available : env.unavailable = false
  written : ∀ rows eventType, env.append rows eventType = .written
  inTime : ∀ rows, env.overtime rows = false
  noFault : args.fault ≠ some .afterPlan

/-- The model is the same, and answers with a proposal. -/
structure Answers : Prop where
  same : ∀ rows, env.sameModel rows = some true
  proposes : ∀ rows attempt, ∃ content tool,
    env.chat rows attempt = .answered content ∧ proposal content = .ok tool

variable {args env}

theorem Undisturbed.wp_appendEvent (h : Undisturbed args env) {eventType : Str} {data : Fields F}
    {Q : Unit → AgentWorld F → Prop} {E : Stop → AgentWorld F → Prop}
    (hQ : ∀ stamp, Q () (w.push [eventRow stamp eventType data])) :
    (appendEvent env eventType data).wp Q E w := by
  simp only [appendEvent, Action.wp_bind, Action.wp_read, h.written, Action.wp_update]
  exact hQ _

/-- The tool of a step is there: it was planned, or the model names one. -/
theorem Undisturbed.wp_planStep (h : Undisturbed args env) (hn : Executed n w) {work : Work F}
    {step : ℕ} (htool : ∀ plan ∈ work.plans[step]?, ∃ tool, plan.get "tool" = some (.str tool))
    (hnew : work.plans[step]? = none → Answers env) :
    (planStep C env work step).wp (fun _ => Executed n) (fun _ _ => False) w := by
  unfold planStep
  rcases hplan : work.plans[step]? with _ | plan
  · have hanswers := hnew hplan
    obtain ⟨content, tool, hchat, hproposal⟩ := hanswers.proposes w.rows 0
    simp only [Action.wp_bind, Action.wp_read, stopIf, Action.wp_onlyIf, Action.wp_raise, ask]
    refine ⟨fun hother => hother (hanswers.same _), fun _ => ?_⟩
    simp only [hchat, hproposal, Action.wp_bind, Action.wp_pure]
    exact h.wp_appendEvent fun _ => hn
  · obtain ⟨tool, hget⟩ := htool plan hplan
    simp only [hget, Action.wp_bind, Action.wp_pure]
    exact h.wp_appendEvent fun _ => hn

variable [PyFloat F] {rat : F → ℚ} {maxHistory : ℕ} {work : Work F} {planned : List Str}
  {completed : ℕ} {before : AgentWorld F}

/-- A run with steps left that nothing ends executes the next one. -/
theorem Recovers.run_executes
    (h : Recovers rat maxHistory before.rows work planned completed)
    (hrun : Undisturbed args env) (hleft : completed < args.steps)
    (hidentity : ∀ pinned ∈ work.pinned, sortedText pinned = sortedText (.obj env.identity))
    (htool : completed < planned.length ∨ Answers env) :
    before.effects.length <
      (Governed.run C args env rat maxHistory before).2.effects.length := by
  have hplans : ∀ plan ∈ work.plans[completed]?, ∃ tool, plan.get "tool" = some (.str tool) := by
    intro plan hplan
    obtain ⟨hlt, -⟩ := List.getElem?_eq_some_iff.1 hplan
    rw [h.length_plans] at hlt
    exact ⟨_, h.tool_of_plan hplan (List.getElem?_eq_getElem hlt)⟩
  have hnew : work.plans[completed]? = none → Answers env := by
    intro hnone
    rcases htool with hlt | hanswers
    · rw [List.getElem?_eq_none_iff, h.length_plans] at hnone
      omega
    · exact hanswers
  -- from the start on: the first step executes, and what follows keeps it
  have hrest : ∀ w, Executed before.effects.length w → ∀ data : Fields F,
      (do
        appendEvent env "agent_start".toList data
        let done ← runSteps C args env work (args.steps - work.completed.length)
          work.completed.length
        .onlyIf args.credentialCheck (checkCredential env)
        let w ← .read
        appendEvent env "agent_stop".toList [("completed", .int done),
          ("elapsed_seconds", .float (env.elapsed w.rows))] : Step F Unit).wp
        (fun _ => Executed (before.effects.length + 1))
        (fun _ => Executed (before.effects.length + 1)) w := by
    intro w hw data
    obtain ⟨left, hsteps⟩ : ∃ left, args.steps - completed = left + 1 :=
      Nat.exists_eq_succ_of_ne_zero (by omega)
    rw [Action.wp_bind, h.length_completed, hsteps]
    refine hrun.wp_appendEvent fun stamp => ?_
    rw [Action.wp_bind, runSteps, Action.wp_bind, Action.wp_read, if_neg (by simp [hrun.inTime]),
      Action.wp_bind]
    have hstart : Executed before.effects.length
        (w.push [eventRow stamp "agent_start".toList data]) := hw
    refine Action.wp_mono (hrun.wp_planStep C hstart hplans hnew) ?_ fun _ _ h' => h'.elim
    intro tool w₁ h₁
    rw [Action.wp_bind]
    refine Action.wp_mono (h₁.wp_performStep C args env hrun.noFault completed tool) ?_
      fun _ _ h' => h'
    intro _ w₂ h₂
    refine Action.wp_mono (h₂.wp_runSteps C args env hrun.noFault work left (completed + 1)) ?_
      fun _ _ h' => h'
    exact fun done w₃ h₃ => h₃.wp_end args env done
  refine (Action.wp_state (P := Executed (before.effects.length + 1))).1 ?_
  simp only [Governed.run, recoverLedger]
  rw [Action.wp_bind, Action.wp_onlyIf]
  refine ⟨fun hstopped => absurd hstopped (by simp [hrun.available]), fun _ => ?_⟩
  rw [Action.wp_bind, Action.wp_bind, Action.wp_read]
  rcases h.recover_eq env.identity with ⟨⟨history, haccepted⟩, -⟩ | ⟨-, pinned, hpinned, hne⟩
  · rw [haccepted]
    dsimp only
    rw [Action.wp_pure, Action.wp_bind, Action.wp_onlyIf]
    refine ⟨fun _ => hrun.wp_appendEvent fun stamp => ?_, fun _ => hrest _ (le_refl _) _⟩
    exact hrest (before.push [eventRow stamp "agent_identity".toList env.identity]) (le_refl _) _
  · exact absurd (hidentity pinned hpinned) hne

end Executed

/-! ## Every sequence of runs -/

section Runs

variable [PyFloat F] (C : Crypto) (rat : F → ℚ) (maxHistory : ℕ)

/-- The ledger and the executed tools after these runs, each with its arguments and what it meets. -/
def afterRuns (runs : List (Args × Env F)) : AgentWorld F :=
  runs.foldl (fun w r => (run C r.1 r.2 rat maxHistory w).2) ⟨[], []⟩

theorem recovers_afterRuns (runs : List (Args × Env F)) : ∃ work planned completed,
    Recovers rat maxHistory (afterRuns C rat maxHistory runs).rows work planned completed ∧
      ∀ value ∈ work.pinned, ∃ r ∈ runs, value = (Json.obj r.2.identity).norm := by
  induction runs using List.reverseRecOn with
  | nil => exact ⟨_, _, _, .nil, nofun⟩
  | append_singleton runs r ih =>
    obtain ⟨work, planned, completed, hrecovers, hsource⟩ := ih
    obtain ⟨step, executed, now, planned', hmid⟩ := hrecovers.run C r.1 r.2
    rw [afterRuns, List.foldl_append]
    refine ⟨now, planned', step, hmid.recovers, fun value hvalue => ?_⟩
    rcases hmid.source value hvalue with hvalue | hvalue
    · obtain ⟨r', hr', hvalue⟩ := hsource value hvalue
      exact ⟨r', List.mem_append_left _ hr', hvalue⟩
    · exact ⟨r, List.mem_append_right _ (List.mem_singleton_self r), hvalue⟩

/-- After every sequence of runs the work in the ledger is in order, and `recover` accepts the ledger:
always where the runs share an identity, and otherwise exactly from a run with the pinned one. The next
run executes the planned tools from the first step without a result on, and does execute one where it
has steps left and nothing ends it before. -/
theorem work_log_in_order (runs : List (Args × Env F)) :
    ∃ pinned planned completed,
      InOrder (afterRuns C rat maxHistory runs).rows pinned planned completed ∧
      (∀ value ∈ pinned, ∃ r ∈ runs, value = (Json.obj r.2.identity).norm) ∧
      (∀ identity, (∀ r ∈ runs, r.2.identity = identity) →
        ∃ state, recover rat maxHistory (afterRuns C rat maxHistory runs).rows identity [] =
          .ok state) ∧
      (∀ identity,
        (∃ state, recover rat maxHistory (afterRuns C rat maxHistory runs).rows identity [] =
          .ok state) ↔ ∀ value ∈ pinned, sortedText value = sortedText (.obj identity)) ∧
      ∀ args env, ∃ new planned',
        (afterRuns C rat maxHistory (runs ++ [(args, env)])).effects =
          (afterRuns C rat maxHistory runs).effects ++ new ∧
        (eventData "agent_plan".toList
          (afterRuns C rat maxHistory (runs ++ [(args, env)])).rows).map toolStep =
            inOrder planned' ∧
        planned <+: planned' ∧ new.map Prod.swap <+: planned'.zipIdx.drop completed ∧
        (Undisturbed args env → completed < args.steps →
          (∀ value ∈ pinned, sortedText value = sortedText (.obj env.identity)) →
          completed < planned.length ∨ Answers env → new ≠ []) := by
  obtain ⟨work, planned, completed, hrecovers, hsource⟩ :=
    recovers_afterRuns C rat maxHistory runs
  have haccepts : ∀ identity,
      (∃ state, recover rat maxHistory (afterRuns C rat maxHistory runs).rows identity [] =
        .ok state) ↔ ∀ value ∈ work.pinned, sortedText value = sortedText (.obj identity) := by
    intro identity
    rcases hrecovers.recover_eq identity with ⟨⟨history, haccepted⟩, hsame⟩ | ⟨hrefused, hother⟩
    · exact ⟨fun _ => hsame, fun _ => ⟨_, haccepted⟩⟩
    · obtain ⟨value, hvalue, hne⟩ := hother
      refine ⟨fun ⟨state, haccepted⟩ => ?_, fun hsame => absurd (hsame value hvalue) hne⟩
      rw [hrefused] at haccepted
      cases haccepted
  refine ⟨work.pinned, planned, completed, hrecovers.inOrder, hsource, ?_, haccepts, ?_⟩
  · intro identity hidentity
    refine (haccepts identity).2 fun value hvalue => ?_
    obtain ⟨r, hr, rfl⟩ := hsource value hvalue
    rw [hidentity r hr, sortedText, sortedText, Json.norm_norm]
  · intro args env
    obtain ⟨step, executed, now, planned', hmid⟩ := hrecovers.run C args env
    obtain ⟨new, heffects, hnew⟩ := hmid.effects
    have hafter : afterRuns C rat maxHistory (runs ++ [(args, env)]) =
        (run C args env rat maxHistory (afterRuns C rat maxHistory runs)).2 := by
      rw [afterRuns, List.foldl_append]
      rfl
    refine ⟨new, planned', hafter ▸ heffects, hafter ▸ hmid.recovers.inOrder.plans, hmid.planned,
      ?_, ?_⟩
    · rw [hnew]
      exact (List.take_prefix _ _).drop _
    · rintro hrun hleft hsame htool rfl
      have hmore := hrecovers.run_executes C hrun hleft hsame htool
      rw [heffects, List.append_nil] at hmore
      exact lt_irrefl _ hmore

end Runs

/-! ### Two runs on one ledger

The first ends after its plan. -/

/-- What a run of this input meets, where nothing fails. -/
def sampleEnv (input : String) : Env Literal where
  identity := [("format", .str "bull-governed-agent-v1"), ("input_sha256", .str input.toList)]
  unavailable := false
  stamp _ := ⟨"t", none, "h"⟩
  append _ _ := .written
  overtime _ := false
  sameModel _ := some true
  chat _ _ := .answered "\x7b\"tool\":\"inspect\"\x7d".toList
  execute _ _ := ⟨[], some ⟨true, some 0, true, some [], true, []⟩⟩
  credential _ := ⟨[], true⟩
  elapsed _ := PyFloat.ofToken "1.0".toList

/-- A run that ends after its plan. -/
def stopped : Args × Env Literal := (⟨1, some .afterPlan, false⟩, sampleEnv "a")

/-- The run after it. -/
def resumed : Args × Env Literal := (⟨1, none, false⟩, sampleEnv "a")

/-- The same run, after another input was put into the project. -/
def edited : Args × Env Literal := (⟨1, none, false⟩, sampleEnv "b")

/-- The ledger that the first one leaves. -/
def stoppedWorld : AgentWorld Literal := afterRuns Crypto.standard (fun _ => 0) 8 [stopped]

theorem stopped_plans : (eventData "agent_plan".toList stoppedWorld.rows).map toolStep =
    inOrder ["inspect".toList] := by
  decide +kernel

theorem stopped_results : (eventData "agent_result".toList stoppedWorld.rows).map toolStep = [] := by
  decide +kernel

theorem resumed_undisturbed : Undisturbed resumed.1 resumed.2 where
  available := rfl
  written _ _ := rfl
  inTime _ := rfl
  noFault := by decide

theorem inOrder_injective : Function.Injective inOrder := by
  intro planned others h
  have hmap : (planned.zipIdx.map fun item => (item.1, (item.2 : ℤ))) =
      others.zipIdx.map fun item => (item.1, (item.2 : ℤ)) := by
    refine List.map_injective_iff.2 (Option.some_injective _) ?_
    simpa only [List.map_map, inOrder, Function.comp_def] using h
  have hfst := congrArg (List.map Prod.fst) hmap
  simpa only [List.map_map, Function.comp_def, List.zipIdx_map_fst] using hfst

/-- The second run takes up the plan that the first one left, and executes its tool. -/
theorem resumed_inspects :
    (∃ state, recover (fun _ => 0) 8 stoppedWorld.rows resumed.2.identity [] = .ok state) ∧
      ∃ new planned', new ≠ [] ∧
        (afterRuns Crypto.standard (fun _ => 0) 8 ([stopped] ++ [resumed])).effects =
          stoppedWorld.effects ++ new ∧
        ["inspect".toList] <+: planned' ∧ new.map Prod.swap <+: planned'.zipIdx := by
  obtain ⟨pinned, planned, completed, horder, hsource, haccepted, -, hnext⟩ :=
    work_log_in_order Crypto.standard (fun _ => 0) 8 [stopped]
  have hplanned : planned = ["inspect".toList] := inOrder_injective (horder.plans.symm.trans stopped_plans)
  subst hplanned
  have hcompleted : completed = 0 := by
    have hlength := congrArg List.length (horder.results.symm.trans stopped_results)
    rw [length_inOrder, List.length_take, List.length_nil, List.length_singleton] at hlength
    omega
  subst hcompleted
  obtain ⟨new, planned', heffects, -, hplanned, hnew, hexecuted⟩ := hnext resumed.1 resumed.2
  refine ⟨haccepted _ fun r hr => by rw [List.mem_singleton.1 hr]; rfl, new, planned', ?_, heffects,
    hplanned, hnew⟩
  refine hexecuted resumed_undisturbed Nat.one_pos (fun value hvalue => ?_) (.inl Nat.one_pos)
  obtain ⟨r, hr, rfl⟩ := hsource value hvalue
  rw [List.mem_singleton.1 hr, sortedText, sortedText, Json.norm_norm]
  rfl

/-- `recover` refuses the ledger of a run from a run with another input. -/
theorem edited_refused :
    ¬ ∃ state, recover (fun _ => 0) 8 stoppedWorld.rows edited.2.identity [] = .ok state := by
  rintro ⟨state, haccepted⟩
  have hnone : (recover (fun _ => 0) 8 stoppedWorld.rows edited.2.identity []).toOption.isNone = true := by
    decide +kernel
  rw [haccepted] at hnone
  cases hnone

end Bulldog.Governed
