import Bulldog.Audit.Write
import Bulldog.Dispatch.Conformance
import Bulldog.Dispatch.Gate
import Bulldog.Session.Guard

/-!
# Recovery of the session guard

A governed agent that is started again rebuilds its `SessionGuard` from the ledger, with `recover` of
`governed_agent.py`. Every evaluation of the engine is remembered by the guard and appended to the
ledger, so the rebuilt guard judges as the live one does. The runtime's own refusals of a command are
appended as well, but the guard is not told of them.
-/

namespace Bulldog

variable {F : Type} [PyFloat F]

/-! ## Values of a row -/

/-- `Capability(value)`. -/
def Capability.ofValue (value : Str) : Except Exc Capability :=
  orRaise (Capability.byValue.find? fun c => c.value.toList = value) (.builtin .valueError)

/-- `Provenance(value)`. -/
def Provenance.ofValue (value : Str) : Except Exc Provenance :=
  orRaise ([.human, .localTrusted, .repository, .internet, .externalAgent, .unknown].find?
    fun p : Provenance => p.value.toList = value) (.builtin .valueError)

/-- `Decision(value)`. -/
def Decision.ofValue (value : Str) : Except Exc Decision :=
  orRaise ([.allow, .sandbox, .deny, .escalate].find? fun d : Decision => d.value.toList = value)
    (.builtin .valueError)

theorem Capability.ofValue_value (c : Capability) : Capability.ofValue c.value = .ok c := by
  cases c <;> decide

theorem Provenance.ofValue_value (p : Provenance) : Provenance.ofValue p.value = .ok p := by
  cases p <;> decide

theorem Decision.ofValue_value (d : Decision) : Decision.ofValue d.value = .ok d := by
  cases d <;> decide

/-- A value that is a string. A value of another type, which the ledger does not write here, is not
modelled. -/
def Json.text : Json F → Except Exc Str
  | .str s => .ok s
  | _ => .error (.builtin .typeError)

/-- A list of strings. -/
def Json.texts : Json F → Except Exc (List Str)
  | .arr xs => xs.mapM Json.text
  | _ => .error (.builtin .typeError)

/-- `{str(k): str(v) for k, v in value.items()}`. -/
def Json.metadata : Json F → Except Exc Metadata
  | .obj fs => fs.mapM fun kv => kv.2.text.map fun s => (String.ofList kv.1, s)
  | _ => .error (.builtin .attributeError)

/-- `data[key]`. -/
def Fields.at (data : Fields F) (key : Str) : Except Exc (Json F) :=
  orRaise (data.get key) (.builtin .keyError)

/-- `bool(data.get(key, False))` of a boolean. -/
def Fields.flag (data : Fields F) (key : Str) : Bool :=
  match data.get key with
  | some (.bool b) => b
  | _ => false

/-- `data["parent_capabilities"]`, where it is there and not `None`. -/
def Fields.parentCapabilities (data : Fields F) : Except Exc (Option (List Capability)) :=
  match data.get "parent_capabilities" with
  | none | some .null => .ok none
  | some value => do
    let values ← value.texts
    return some (← values.mapM Capability.ofValue)

/-- `ActionRequest.from_dict(data)`. -/
def ActionRequest.fromDict (data : Fields F) : Except Exc ActionRequest := do
  let actor ← (← data.at "actor").text
  let task ← (← data.at "task").text
  let operation ← (← data.at "operation").text
  let resource ← (← data.at "resource").text
  let capability ← Capability.ofValue (← (← data.at "capability").text)
  let granted ← ((data.get "granted_capabilities").getD (.arr [])).texts
  let granted ← granted.mapM Capability.ofValue
  let provenance ← ((data.get "provenance").getD (.arr [.str "unknown"])).texts
  let provenance ← provenance.mapM Provenance.ofValue
  let parent ← data.parentCapabilities
  let metadata ← ((data.get "metadata").getD (.obj [])).metadata
  return ⟨actor, task, operation, resource, capability, granted.toFinset, provenance,
    parent.map List.toFinset, data.flag "irreversible", data.flag "external_side_effect", metadata⟩

/-- The evaluation of a row, with the value `rat` of a float. -/
def Evaluation.ofRow (rat : F → ℚ) (row : Fields F) : Except Exc Evaluation := do
  let decision ← Decision.ofValue (← (← row.at "decision").text)
  let risk ← match ← row.at "risk" with
    | .float f => Except.ok (rat f)
    | .int i => .ok (i : ℚ)
    | _ => .error (.builtin .typeError)
  let reasons ← (← row.at "reasons").texts
  return ⟨decision, risk, reasons.map String.ofList, row.flag "hard_block"⟩

namespace SessionGuard

/-- `del history[:-max_history]`, which deletes nothing where `max_history` is 0. -/
def forget (maxHistory : ℕ) (events : List SessionEvent) : List SessionEvent :=
  if maxHistory = 0 then events else lastN maxHistory events

/-- What `recover` does to the guard's history with one row. The agent's plan, which other rows hold,
is left out: it does not touch the guard. -/
def recoverRow (rat : F → ℚ) (maxHistory : ℕ) (history : History) (row : Fields F) :
    Except Exc History := do
  if (← (← row.at "record_type").text) = "action_evaluation".toList then
    let action ← ActionRequest.fromDict row
    let result ← Evaluation.ofRow rat row
    let key := sessionKey action
    return store history key (forget maxHistory (events history key ++ [⟨action, result⟩]))
  else return history

/-- `recover(rows, identity, guard)`, with the guard's history before it. -/
def recover (rat : F → ℚ) (maxHistory : ℕ) (rows : List (Fields F)) (history : History) :
    Except Exc History :=
  rows.foldlM (recoverRow rat maxHistory) history

end SessionGuard

/-! ## Rows of the ledger -/

/-- What a ledger adds to an evaluation. -/
structure Stamp (F : Type) where
  timestamp : Str
  /-- The risk, as a float. -/
  risk : F
  previous : Option Str
  hash : Str

/-- The row that `json.loads` reads from the line of `append(action, evaluation)`. -/
def ledgerRow (P : PySort F) (stamp : Stamp F) (action : ActionRequest) (evaluation : Evaluation) :
    Option (Fields F) :=
  ((Audit.sealedRecord (Audit.evaluationPayload stamp.timestamp action evaluation stamp.risk)
    stamp.previous stamp.hash).fields P).map Fields.sort

/-- The metadata in the order of the keys. -/
def Metadata.sorted (metadata : Metadata) : Metadata :=
  metadata.insertionSort fun a b => a.1.toList ≤ b.1.toList

/-- What a row keeps of an action. -/
def ActionRequest.kept (action : ActionRequest) : ActionRequest where
  actor := action.actor
  task := action.task
  operation := action.operation
  resource := action.resource
  capability := action.capability
  grantedCapabilities := ∅
  provenance := action.provenance
  parentCapabilities := none
  irreversible := false
  externalSideEffect := false
  metadata := action.metadata.sorted

theorem Metadata.sorted_perm (metadata : Metadata) : metadata.sorted.Perm metadata :=
  List.perm_insertionSort _ metadata

theorem Metadata.get_eq_some_iff {metadata : Metadata} (h : (metadata.map Prod.fst).Nodup)
    {key : String} {value : Str} : metadata.get key = some value ↔ (key, value) ∈ metadata := by
  rw [Metadata.get, List.lookup_eq_some_iff]
  constructor
  · rintro ⟨l₁, l₂, rfl, -⟩
    simp
  · intro hmem
    obtain ⟨l₁, l₂, rfl⟩ := List.append_of_mem hmem
    refine ⟨l₁, l₂, rfl, fun p hp => ?_⟩
    simp only [List.map_append, List.map_cons, List.nodup_append] at h
    simpa using (h.2.2 p.1 (List.mem_map_of_mem hp) key (by simp)).symm

/-- A `dict` finds the same values, in whatever order its keys are. -/
theorem Metadata.get_sorted {metadata : Metadata} (h : (metadata.map Prod.fst).Nodup) (key : String) :
    metadata.sorted.get key = metadata.get key := by
  have hsorted : (metadata.sorted.map Prod.fst).Nodup := (metadata.sorted_perm.map _).nodup_iff.2 h
  refine Option.ext fun value => ?_
  rw [Metadata.get_eq_some_iff hsorted, Metadata.get_eq_some_iff h, metadata.sorted_perm.mem_iff]

theorem ActionRequest.sessionKey_kept {action : ActionRequest}
    (h : (action.metadata.map Prod.fst).Nodup) :
    SessionGuard.sessionKey action.kept = SessionGuard.sessionKey action := by
  unfold SessionGuard.sessionKey
  rw [kept, Metadata.get_sorted h]

/-! ### Writing -/

/-- The metadata as JSON. -/
def Metadata.fields (F : Type) (metadata : Metadata) : Fields F :=
  metadata.map fun kv => (kv.1.toList, .str kv.2)

theorem fields_texts (P : PySort F) (metadata : Metadata) :
    PyFields.fields P (metadata.map fun kv => (kv.1.toList, .str kv.2)) =
      some (metadata.fields F) := by
  induction metadata with
  | nil => rfl
  | cons kv metadata ih =>
    rw [List.map_cons, PyFields.fields, ih]
    rfl

/-- The metadata is written in the order of its keys. -/
theorem json_metadata (P : PySort F) {metadata : Metadata} (h : (metadata.map Prod.fst).Nodup) :
    (PyValue.dict (metadata.sorted.map fun kv => (.str kv.1, .str kv.2))).json P =
      some (.obj (metadata.sorted.fields F)) := by
  have hkeys : (metadata.sorted.map Prod.fst).Nodup := (metadata.sorted_perm.map _).nodup_iff.2 h
  have hnd : ((metadata.sorted.map fun kv => (kv.1.toList, (PyValue.str kv.2 : PyValue F))).map
      Prod.fst).Nodup := by
    rw [List.map_map]
    have := hkeys.map (f := String.toList) fun a b hab => String.toList_inj.1 hab
    rwa [List.map_map] at this
  have hvalue := (value_json (P := P) hnd).2 ⟨_, fields_texts P _, rfl⟩
  rw [PyFields.value, List.map_map] at hvalue
  refine hvalue.trans ?_
  -- the keys are in order already
  rw [Fields.sort_of_pairwise]
  refine List.pairwise_map.2 ?_
  exact List.pairwise_insertionSort _ _

theorem json_texts (P : PySort F) {α : Type} (text : α → Str) (xs : List α) :
    (PyValue.list (xs.map fun x => .str (text x))).json P = some (.arr ((xs.map text).map .str)) := by
  have hitems : jsonItems P (xs.map fun x => .str (text x)) = some ((xs.map text).map .str) := by
    induction xs with
    | nil => rfl
    | cons x xs ih =>
      rw [List.map_cons, jsonItems, ih]
      rfl
  rw [PyValue.json, hitems]
  rfl

/-- The members of a row, in the order in which the ledger puts them together. -/
def rowFields (stamp : Stamp F) (action : ActionRequest) (evaluation : Evaluation) : Fields F :=
  [("record_type", .str "action_evaluation"), ("timestamp", .str stamp.timestamp),
    ("actor", .str action.actor), ("task", .str action.task),
    ("operation", .str action.operation), ("resource", .str action.resource),
    ("capability", .str action.capability.value),
    ("provenance", .arr ((action.provenance.map fun p => p.value.toList).map .str)),
    ("decision", .str evaluation.decision.value), ("risk", .float stamp.risk),
    ("reasons", .arr ((evaluation.reasons.map String.toList).map .str)),
    ("hard_block", .bool evaluation.hardBlock),
    ("metadata", .obj (action.metadata.sorted.fields F)),
    ("previous_hash", Anchor.previousJson stamp.previous), ("record_hash", .str stamp.hash)]

theorem ledgerRow_eq (P : PySort F) (stamp : Stamp F) {action : ActionRequest}
    (h : (action.metadata.map Prod.fst).Nodup) (evaluation : Evaluation) :
    ledgerRow P stamp action evaluation = some (rowFields stamp action evaluation).sort := by
  have hsealed : Audit.sealedRecord
      (Audit.evaluationPayload stamp.timestamp action evaluation stamp.risk) stamp.previous
        stamp.hash =
      Audit.evaluationPayload stamp.timestamp action evaluation stamp.risk ++
        [("previous_hash".toList, Audit.previousValue stamp.previous),
          ("record_hash".toList, .str stamp.hash)] := rfl
  have hprevious : (Audit.previousValue stamp.previous : PyValue F).json P =
      some (Anchor.previousJson stamp.previous) := by
    cases stamp.previous <;> rfl
  have hreasons := json_texts P (fun text : Str => text) (evaluation.reasons.map String.toList)
  have htexts : (do let reason ← evaluation.reasons; pure reason.toList) =
      evaluation.reasons.map String.toList := List.map_eq_flatMap.symm
  rw [List.map_id', ← htexts] at hreasons
  have hfields : PyFields.fields P
      (Audit.evaluationPayload stamp.timestamp action evaluation stamp.risk ++
        [("previous_hash".toList, Audit.previousValue stamp.previous),
          ("record_hash".toList, .str stamp.hash)]) = some (rowFields stamp action evaluation) := by
    refine fields_cons.2 ⟨_, _, rfl, ?_, rfl⟩
    refine fields_cons.2 ⟨_, _, rfl, ?_, rfl⟩
    refine fields_cons.2 ⟨_, _, rfl, ?_, rfl⟩
    refine fields_cons.2 ⟨_, _, rfl, ?_, rfl⟩
    refine fields_cons.2 ⟨_, _, rfl, ?_, rfl⟩
    refine fields_cons.2 ⟨_, _, rfl, ?_, rfl⟩
    refine fields_cons.2 ⟨_, _, rfl, ?_, rfl⟩
    refine fields_cons.2 ⟨_, _, json_texts P (fun p : Provenance => p.value.toList) _, ?_, rfl⟩
    refine fields_cons.2 ⟨_, _, rfl, ?_, rfl⟩
    refine fields_cons.2 ⟨_, _, rfl, ?_, rfl⟩
    refine fields_cons.2 ⟨_, _, htexts ▸ hreasons, ?_, rfl⟩
    refine fields_cons.2 ⟨_, _, rfl, ?_, rfl⟩
    refine fields_cons.2 ⟨_, _, json_metadata P h, ?_, rfl⟩
    refine fields_cons.2 ⟨_, _, hprevious, ?_, rfl⟩
    exact fields_cons.2 ⟨_, _, rfl, rfl, rfl⟩
  rw [ledgerRow, hsealed, hfields]
  rfl

/-! ### Reading -/

omit [PyFloat F] in
theorem Json.texts_arr (texts : List Str) : (Json.arr (texts.map .str) : Json F).texts = .ok texts := by
  rw [Json.texts]
  induction texts with
  | nil => rfl
  | cons s texts ih =>
    rw [List.map_cons, List.mapM_cons, ih]
    rfl

omit [PyFloat F] in
theorem Json.metadata_fields (metadata : Metadata) :
    (Json.obj (metadata.fields F)).metadata = .ok metadata := by
  rw [Json.metadata, Metadata.fields]
  induction metadata with
  | nil => rfl
  | cons kv metadata ih =>
    rw [List.map_cons, List.mapM_cons, ih]
    simp [Json.text, Except.map, bind, Except.bind, pure, Except.pure]

theorem mapM_provenance (provenance : List Provenance) :
    (provenance.map fun p => p.value.toList).mapM Provenance.ofValue = .ok provenance := by
  induction provenance with
  | nil => rfl
  | cons p provenance ih =>
    rw [List.map_cons, List.mapM_cons, ih, Provenance.ofValue_value]
    rfl

omit [PyFloat F] in
/-- What is read from a row is what it keeps of the action. -/
theorem fromDict_row (stamp : Stamp F) (action : ActionRequest) (evaluation : Evaluation) :
    ActionRequest.fromDict (rowFields stamp action evaluation).sort = .ok action.kept := by
  unfold ActionRequest.fromDict Fields.at Fields.flag Fields.parentCapabilities
  simp only [Fields.get_sort]
  have hcapability := Capability.ofValue_value action.capability
  have hprovenance := mapM_provenance action.provenance
  have hmetadata := Json.metadata_fields (F := F) action.metadata.sorted
  have htexts := Json.texts_arr (F := F) (action.provenance.map fun p => p.value.toList)
  change (do
    let capability ← Capability.ofValue action.capability.value
    let provenance ← (Json.arr ((action.provenance.map fun p : Provenance =>
      p.value.toList).map Json.str) : Json F).texts
    let provenance ← provenance.mapM Provenance.ofValue
    let metadata ← (Json.obj (action.metadata.sorted.fields F)).metadata
    return (⟨action.actor, action.task, action.operation, action.resource, capability, ∅, provenance,
      none, false, false, metadata⟩ : ActionRequest)) = _
  rw [hcapability, htexts, hmetadata]
  simp only [bind, Except.bind, hprovenance]
  rfl

omit [PyFloat F] in
theorem ofRow_row (rat : F → ℚ) (stamp : Stamp F) (action : ActionRequest) (evaluation : Evaluation) :
    Evaluation.ofRow rat (rowFields stamp action evaluation).sort =
      .ok { evaluation with risk := rat stamp.risk } := by
  unfold Evaluation.ofRow Fields.at Fields.flag
  simp only [Fields.get_sort]
  have htexts := Json.texts_arr (F := F) (evaluation.reasons.map String.toList)
  change (do
    let decision ← Decision.ofValue evaluation.decision.value
    let reasons ← (Json.arr ((evaluation.reasons.map String.toList).map Json.str) : Json F).texts
    return (⟨decision, rat stamp.risk, reasons.map String.ofList, evaluation.hardBlock⟩ :
      Evaluation)) = _
  rw [Decision.ofValue_value, htexts]
  have hround : String.ofList ∘ String.toList = id := funext fun text => String.ofList_toList
  simp only [bind, Except.bind, List.map_map, hround, List.map_id]
  rfl

namespace SessionGuard

/-- A row of an evaluation, to `recover`. -/
theorem recoverRow_row (rat : F → ℚ) (maxHistory : ℕ) (history : History) (P : PySort F)
    (stamp : Stamp F) {action : ActionRequest} (h : (action.metadata.map Prod.fst).Nodup)
    (evaluation : Evaluation) : ∃ row,
      ledgerRow P stamp action evaluation = some row ∧
      recoverRow rat maxHistory history row = .ok (store history (sessionKey action)
        (forget maxHistory (events history (sessionKey action) ++
          [⟨action.kept, { evaluation with risk := rat stamp.risk }⟩]))) := by
  refine ⟨_, ledgerRow_eq P stamp h evaluation, ?_⟩
  unfold recoverRow
  rw [fromDict_row, ofRow_row]
  have htype : (Fields.at (rowFields stamp action evaluation).sort "record_type") =
      .ok (.str "action_evaluation") := by
    rw [Fields.at, Fields.get_sort]
    rfl
  rw [htype]
  simp only [bind, Except.bind, Json.text, if_true, ActionRequest.sessionKey_kept h]
  rfl

end SessionGuard

namespace Dispatch

/-! ## The history of a call -/

section Histories

variable {α β : Type}

/-- An action that leaves the session history as it is. -/
def KeepsHistory (m : Action World Exc α) : Prop := ∀ w, (m w).2.history = w.history

theorem KeepsHistory.bind {m : Action World Exc β} {f : β → Action World Exc α}
    (hm : KeepsHistory m) (hf : ∀ b, KeepsHistory (f b)) : KeepsHistory (m >>= f) := by
  intro w
  rw [Action.bind_apply]
  have hw := hm w
  rcases hmw : m w with ⟨_ | b, w'⟩ <;> rw [hmw] at hw
  · exact hw
  · exact (hf b w').trans hw

theorem KeepsHistory.ensuring {m : Action World Exc α} {f : Action World Exc Unit}
    (hm : KeepsHistory m) (hf : KeepsHistory f) : KeepsHistory (.ensuring m f) := by
  intro w
  unfold Action.ensuring
  have hw := (hf (m w).2).trans (hm w)
  rcases hfw : f (m w).2 with ⟨_ | _, w'⟩ <;> rw [hfw] at hw <;> exact hw

theorem keepsHistory_lift (x : Except Exc α) : KeepsHistory (liftM x : Action World Exc α) :=
  fun _ => rfl

theorem keepsHistory_raise (e : Exc) : KeepsHistory (.raise e : Action World Exc α) := fun _ => rfl

theorem keepsHistory_record (entry : LogEntry) : KeepsHistory (record entry) := fun _ => rfl

theorem keepsHistory_emit (event : TraceEvent) : KeepsHistory (emit event) := fun _ => rfl

theorem keepsHistory_resetTrace (b : Bool) : KeepsHistory (resetTrace b) := fun _ => rfl

/-- The state of the trace as the last thing of a call. -/
theorem keepsHistory_traceState (f : BullTraceState → α) :
    KeepsHistory (do return f (← traceState)) := fun _ => rfl

end Histories

namespace BulldogRuntime

variable (rt : BulldogRuntime) (env : Env)

theorem keepsHistory_denyBinding (action : ActionRequest) (reason : String) :
    KeepsHistory (denyBinding env action reason) :=
  (keepsHistory_emit _).bind fun _ => (keepsHistory_emit _).bind fun _ =>
    (keepsHistory_lift _).bind fun _ => keepsHistory_traceState _

theorem keepsHistory_blockMalware (evaluation : Evaluation) (stderr : String) (performed : Bool)
    (clean : Option Bool) (detections : List Str) :
    KeepsHistory (blockMalware evaluation stderr performed clean detections) :=
  (keepsHistory_emit _).bind fun _ => (keepsHistory_emit _).bind fun _ => keepsHistory_traceState _

theorem keepsHistory_runScanned (evaluation : Evaluation) (command : List Str)
    (snapshot : Snapshot) : KeepsHistory (runScanned env evaluation command snapshot) := by
  refine (keepsHistory_emit _).bind fun _ => (keepsHistory_lift _).bind fun hash =>
    (keepsHistory_record _).bind fun _ => ?_
  split_ifs
  · exact keepsHistory_traceState _
  · exact (keepsHistory_record _).bind fun _ => (keepsHistory_lift _).bind fun _ =>
      (keepsHistory_emit _).bind fun _ => keepsHistory_traceState _

theorem keepsHistory_runAdmitted (evaluation : Evaluation) (command : List Str)
    (snapshot : Snapshot) : KeepsHistory (rt.runAdmitted env evaluation command snapshot) := by
  unfold runAdmitted
  split_ifs
  · exact keepsHistory_raise _
  · apply keepsHistory_blockMalware
  · split
    · apply keepsHistory_blockMalware
    · refine (keepsHistory_record _).bind fun _ => ?_
      split_ifs
      · apply keepsHistory_blockMalware
      · apply keepsHistory_runScanned

theorem keepsHistory_runSnapshot (evaluation : Evaluation) (command : List Str)
    (snapshot : Snapshot) : KeepsHistory (rt.runSnapshot env evaluation command snapshot) := by
  unfold runSnapshot
  split
  · split_ifs
    · exact keepsHistory_traceState _
    · exact keepsHistory_raise _
  · exact (keepsHistory_record _).bind fun _ => rt.keepsHistory_runAdmitted env _ _ _

theorem keepsHistory_runApproved (evaluation : Evaluation) (command : List Str)
    (projectRoot : Str) : KeepsHistory (rt.runApproved env evaluation command projectRoot) := by
  refine (keepsHistory_lift _).bind fun root => ?_
  split
  · split_ifs
    · exact keepsHistory_traceState _
    · exact keepsHistory_raise _
  · refine (keepsHistory_record _).bind fun _ => ?_
    exact (rt.keepsHistory_runSnapshot env _ _ _).ensuring (keepsHistory_lift _)

theorem keepsHistory_executeVerdict (evaluation : Evaluation) (command : List Str)
    (projectRoot : Str) : KeepsHistory (rt.executeVerdict env evaluation command projectRoot) := by
  refine (keepsHistory_emit _).bind fun _ => ?_
  split
  · exact (keepsHistory_emit _).bind fun _ => keepsHistory_traceState _
  · exact (keepsHistory_emit _).bind fun _ => keepsHistory_traceState _
  · apply keepsHistory_runApproved
  · apply keepsHistory_runApproved

/-- What the engine makes of an action after a history: nothing where the advisory model raises. -/
def judged (engine : BulldogEngine) (history : History) (action : ActionRequest) :
    Option (Evaluation × History) :=
  match engine.advisoryFor env.advise action with
  | .error _ => none
  | .ok advisory =>
    some (SessionGuard.enforce engine.maxHistory history action (engine.combine action advisory))

theorem evaluate_history (engine : BulldogEngine) (action : ActionRequest) (w : World) :
    (evaluate env engine action w).2.history =
      ((judged env engine w.history action).map Prod.snd).getD w.history := by
  refine Action.wp_state (P := fun w' : World => w'.history = _) |>.1 ?_
  simp only [evaluate, BulldogEngine.evaluate, Action.wp_bind, Action.wp_zoom, Action.wp_read,
    Action.wp_update, Action.wp_lift, Action.wp_pure, wp_record, judged]
  rcases engine.advisoryFor env.advise action with e | advisory
  · exact ⟨fun _ h => (by cases h), fun _ _ => rfl⟩
  · refine ⟨fun advisory' hadvisory => ?_, fun _ h => by cases h⟩
    obtain rfl := Except.ok.inj hadvisory
    exact ⟨fun _ _ => rfl, fun _ _ => rfl⟩

/-- A command that is refused before the engine sees it leaves the history. -/
theorem execute_history (action : ActionRequest) (command : List Str) (projectRoot : Str)
    (w : World) :
    (rt.execute env action command projectRoot w).2.history =
      match rt.bindingFailure env action command with
      | some _ => w.history
      | none => ((judged env rt.engine w.history action).map Prod.snd).getD w.history := by
  have hreset : rt.execute env action command projectRoot w =
      (match rt.bindingFailure env action command with
        | some reason => denyBinding env action reason
        | none => do
          let evaluation ← evaluate env rt.engine action
          rt.executeVerdict env evaluation command projectRoot)
        (resetTrace (parentHas action) w).2 := rfl
  rw [hreset]
  rcases rt.bindingFailure env action command with _ | reason
  · change ((evaluate env rt.engine action >>= fun evaluation =>
      rt.executeVerdict env evaluation command projectRoot) _).2.history = _
    rw [Action.bind_apply]
    have hevaluate := evaluate_history env rt.engine action (resetTrace (parentHas action) w).2
    rcases heq : evaluate env rt.engine action (resetTrace (parentHas action) w).2 with
      ⟨_ | evaluation, w'⟩ <;> rw [heq] at hevaluate
    · exact hevaluate
    · exact (rt.keepsHistory_executeVerdict env evaluation command projectRoot w').trans hevaluate
  · exact keepsHistory_denyBinding env action reason _

end BulldogRuntime

/-! ## What is appended -/

/-- From this world an action hands the ledger one evaluation of a request, or none: it does the same with every
ledger that answers alike there, and raises what the ledger does. -/
structure Hands {α : Type} (m : (ActionRequest → Evaluation → Except Exc Unit) → Action World Exc α)
    (action : ActionRequest) (evaluation : Option Evaluation) (w : World) : Prop where
  same : ∀ append append',
    (∀ e ∈ evaluation, append action e = append' action e) → m append w = m append' w
  raised : ∀ append, ∀ e ∈ evaluation, ∀ exc, append action e = .error exc → (m append w).1 = .error exc

theorem Hands.bind {α β : Type} {m : (ActionRequest → Evaluation → Except Exc Unit) → Action World Exc α}
    {action : ActionRequest} {evaluation : Option Evaluation} {w : World}
    (h : Hands m action evaluation w) (k : α → Action World Exc β) :
    Hands (fun append => m append >>= k) action evaluation w where
  same append append' heq := by
    rw [Action.bind_apply, Action.bind_apply, h.same append append' heq]
  raised append e he exc herror := by
    have hraised := h.raised append e he exc herror
    rw [Action.bind_apply]
    rcases hm : m append w with ⟨_ | _, w'⟩ <;> rw [hm] at hraised <;> cases hraised
    rfl

namespace BulldogRuntime

variable (env : Env)

/-- The engine hands over its verdict. -/
theorem hands_evaluate (engine : BulldogEngine) (action : ActionRequest) (w : World) :
    Hands (fun append => evaluate { env with append } engine action) action
      ((judged env engine w.history action).map Prod.fst) w := by
  have happly (append : ActionRequest → Evaluation → Except Exc Unit) :
      evaluate { env with append } engine action w =
        match engine.advisoryFor env.advise action with
        | .error e => (.error e, w)
        | .ok advisory =>
          let judged := SessionGuard.enforce engine.maxHistory w.history action
            (engine.combine action advisory)
          match append action judged.1 with
          | .error e => (.error e, { w with history := judged.2 })
          | .ok _ => (.ok judged.1,
            (record (.evaluated action judged.1) { w with history := judged.2 }).2) := by
    unfold evaluate BulldogEngine.evaluate
    simp only [Action.bind_apply, Action.zoom, Action.lift_apply]
    rcases engine.advisoryFor env.advise action with e | advisory
    · rfl
    · simp only [Action.read, Action.update]
      rcases append action _ with e | _ <;> rfl
  unfold judged
  rcases hadvisory : engine.advisoryFor env.advise action with e | advisory <;>
    simp only [hadvisory] at happly
  · exact ⟨fun append append' _ => (happly append).trans (happly append').symm, fun _ _ h => by cases h⟩
  · refine ⟨fun append append' heq => ?_, fun append e he exc herror => ?_⟩
    · rw [happly, happly, heq _ rfl]
    · cases he
      rw [happly, herror]

/-- A refusal before the engine hands over itself. -/
theorem hands_denyBinding (parentHasCapability : Bool) (action : ActionRequest) (reason : String)
    (w : World) :
    Hands (fun append => do
        resetTrace parentHasCapability
        denyBinding { env with append } action reason) action (some ⟨.deny, 1, [reason], true⟩) w := by
  let w' := (emit .resolveDeny (emit (.evaluate .deny) (resetTrace parentHasCapability w).2).2).2
  have happly (append : ActionRequest → Evaluation → Except Exc Unit) :
      (do
        resetTrace parentHasCapability
        denyBinding { env with append } action reason : Action World Exc ExecutionResult) w =
      match append action ⟨.deny, 1, [reason], true⟩ with
      | .error e => (.error e, w')
      | .ok _ => (.ok (.refused ⟨.deny, 1, [reason], true⟩ reason w'.trace.state), w') := by
    -- after a reset the verifier takes both events
    unfold denyBinding
    cases parentHasCapability <;> simp only [Action.bind_apply] <;>
      rcases append action ⟨.deny, 1, [reason], true⟩ with e | _ <;> rfl
  refine ⟨fun append append' heq => ?_, fun append e he exc herror => ?_⟩
  · rw [happly, happly, heq _ rfl]
  · cases he
    rw [happly, herror]

/-- `execute` hands over the engine's verdict, or the refusal before it. -/
theorem hands_execute (rt : BulldogRuntime) (action : ActionRequest) (command : List Str) (projectRoot : Str)
    (w : World) :
    Hands (fun append => rt.execute { env with append } action command projectRoot) action
      (match rt.bindingFailure env action command with
        | some reason => some ⟨.deny, 1, [reason], true⟩
        | none => (judged env rt.engine w.history action).map Prod.fst) w := by
  unfold execute
  have hfailure (append : ActionRequest → Evaluation → Except Exc Unit) :
      rt.bindingFailure { env with append } action command = rt.bindingFailure env action command := rfl
  simp only [hfailure]
  rcases rt.bindingFailure env action command with _ | reason
  · have h := (hands_evaluate env rt.engine action (resetTrace (parentHas action) w).2).bind
      fun evaluation => rt.executeVerdict env evaluation command projectRoot
    exact ⟨h.same, h.raised⟩
  · exact hands_denyBinding env (parentHas action) action reason w

end BulldogRuntime

/-! ## Runs -/

/-- A call to the engine, or to a runtime that shares it. -/
inductive Call where
  /-- `engine.evaluate(action)`. -/
  | evaluate (action : ActionRequest)
  /-- `BulldogRuntime.execute`. -/
  | execute (action : ActionRequest) (command : List Str) (projectRoot : Str)
  /-- `ProductionRuntime.execute`. -/
  | executeWith (action : ActionRequest) (command : List Str) (projectRoot : Str)
      (permit : Option ExecutionPermit)

namespace Call

/-- The action of a call. -/
def action : Call → ActionRequest
  | .evaluate action | .execute action .. | .executeWith action .. => action

variable (rt : BulldogRuntime) (key : Bytes) (env : Env)

/-- What the call does to the host. -/
def after : Call → World → World
  | .evaluate action, w => (BulldogRuntime.evaluate env rt.engine action w).2
  | .execute action command projectRoot, w => (rt.execute env action command projectRoot w).2
  | .executeWith action command projectRoot permit, w =>
    (productionExecuteWith rt key env action command projectRoot permit w).2

/-- Why the runtime refuses the command before it asks the engine, if it does. -/
def refusal : Call → Option String
  | .evaluate _ => none
  | .execute action command _ => rt.bindingFailure env action command
  | .executeWith action command _ permit =>
    if permit.any (validPermit rt.crypto key action command) then
      rt.bindingFailure env action command
    else some "production runtime requires a dispatcher-minted execution permit"

/-- The evaluation that the call hands to the ledger: the engine's, or that of `_deny_binding`. -/
def appended (call : Call) (history : History) : Option Evaluation :=
  match call.refusal rt key env with
  | some reason => some ⟨.deny, 1, [reason], true⟩
  | none => (BulldogRuntime.judged env rt.engine history call.action).map Prod.fst

/-- The guard's history after a call: only what the engine evaluates is remembered. -/
theorem after_history (call : Call) (w : World) :
    (call.after rt key env w).history =
      match call.refusal rt key env with
      | some _ => w.history
      | none =>
        ((BulldogRuntime.judged env rt.engine w.history call.action).map Prod.snd).getD w.history := by
  cases call with
  | evaluate action => exact BulldogRuntime.evaluate_history env rt.engine action w
  | execute action command projectRoot => exact rt.execute_history env action command projectRoot w
  | executeWith action command projectRoot permit =>
    have hdeny : KeepsHistory (do
        resetTrace (BulldogRuntime.parentHas action)
        BulldogRuntime.denyBinding env action
          "production runtime requires a dispatcher-minted execution permit") :=
      (keepsHistory_resetTrace _).bind fun _ => BulldogRuntime.keepsHistory_denyBinding env _ _
    cases permit with
    | none => exact hdeny w
    | some permit =>
      unfold after refusal productionExecuteWith productionExecute
      by_cases hvalid : validPermit rt.crypto key action command permit = true
      · simp only [hvalid, Option.any_some, Bool.not_true, Bool.false_eq_true, if_false, if_true]
        exact rt.execute_history env action command projectRoot w
      · simp only [Bool.not_eq_true] at hvalid
        simp only [hvalid, Option.any_some, Bool.not_false, Bool.false_eq_true, if_false, if_true]
        exact hdeny w

/-- The call, without what it returns. -/
def perform : Call → Action World Exc Unit
  | .evaluate action => do let _ ← BulldogRuntime.evaluate env rt.engine action
  | .execute action command projectRoot => do let _ ← rt.execute env action command projectRoot
  | .executeWith action command projectRoot permit => do
    let _ ← productionExecuteWith rt key env action command projectRoot permit

theorem perform_after (call : Call) (w : World) :
    (call.perform rt key env w).2 = call.after rt key env w := by
  have hforget {α : Type} (m : Action World Exc α) :
      ((do let _ ← m : Action World Exc Unit) w).2 = (m w).2 := by
    rw [Action.bind_apply]
    rcases m w with ⟨_ | _, w'⟩ <;> rfl
  cases call <;> exact hforget _

/-- The evaluation that a call appends is the one that it hands to the ledger. -/
theorem hands_appended (call : Call) (w : World) :
    Hands (fun append => call.perform rt key { env with append }) call.action
      (call.appended rt key env w.history) w := by
  cases call with
  | evaluate action => exact (BulldogRuntime.hands_evaluate env rt.engine action w).bind _
  | execute action command projectRoot =>
    exact (BulldogRuntime.hands_execute env rt action command projectRoot w).bind _
  | executeWith action command projectRoot permit =>
    have hdeny := (BulldogRuntime.hands_denyBinding env (BulldogRuntime.parentHas action) action
      "production runtime requires a dispatcher-minted execution permit" w).bind fun _ => pure ()
    cases permit with
    | none => exact hdeny
    | some permit =>
      unfold perform appended refusal productionExecuteWith productionExecute
      by_cases hvalid : validPermit rt.crypto key action command permit = true
      · simp only [hvalid, Option.any_some, Bool.not_true, Bool.false_eq_true, if_false, if_true]
        exact (BulldogRuntime.hands_execute env rt action command projectRoot w).bind _
      · simp only [Bool.not_eq_true] at hvalid
        simp only [hvalid, Option.any_some, Bool.not_false, Bool.false_eq_true, if_false, if_true]
        exact hdeny

end Call

/-- A call, with what the host answers during it, on a ledger whose appends succeed. -/
structure Turn (F : Type) where
  call : Call
  env : Env
  stamp : Stamp F
  /-- `metadata` is a `dict`. -/
  distinct : (call.action.metadata.map Prod.fst).Nodup
  /-- No append fails. -/
  appends : ∀ action evaluation, env.append action evaluation = .ok ()

/-- A host, and the rows of its ledger. -/
structure Deployment (F : Type) where
  world : World
  rows : List (Fields F)

/-- The same guards, as far as `enforce` reads them. -/
def SameHistory (history history' : History) : Prop :=
  ∀ key, (SessionGuard.events history key).map SessionEvent.pair =
    (SessionGuard.events history' key).map SessionEvent.pair

section Runs

variable (rt : BulldogRuntime) (key : Bytes) (P : PySort F)

/-- One call. -/
def Deployment.step (d : Deployment F) (turn : Turn F) : Deployment F where
  world := turn.call.after rt key turn.env d.world
  rows := d.rows ++ ((turn.call.appended rt key turn.env d.world.history).bind
    (ledgerRow P turn.stamp turn.call.action)).toList

/-- The calls of a run, from a host with a new guard and a new ledger. -/
def Deployment.run (w : World) (turns : List (Turn F)) : Deployment F :=
  turns.foldl (Deployment.step rt key P) ⟨{ w with history := [] }, []⟩

variable {rt key P}

open SessionGuard

/-- Both guards take in an event alike. -/
theorem SameHistory.remember {history history' : History} (h : SameHistory history history')
    (m : ℕ) (k : Str) {event event' : SessionEvent} (hpair : event'.pair = event.pair) :
    SameHistory (store history k (SessionGuard.remember m (events history k) event))
      (store history' k (forget m (events history' k ++ [event']))) := by
  intro k'
  rw [events_store, events_store]
  by_cases hk : k' = k
  · rw [if_pos hk, if_pos hk]
    by_cases hm : m = 0
    · subst hm
      rw [SessionGuard.remember, if_neg (fun hlength => hlength.2 rfl), forget, if_pos rfl,
        List.map_append, List.map_append, h k, List.map_singleton, List.map_singleton, hpair]
    · rw [remember_eq_lastN (Nat.one_le_iff_ne_zero.2 hm), forget, if_neg hm, map_lastN, map_lastN,
        List.map_append, List.map_append, h k, List.map_singleton, List.map_singleton, hpair]
  · rw [if_neg hk, if_neg hk]
    exact h k'

/-- Guards that hold the same pairs return the same. -/
theorem SameHistory.enforce_eq {history history' : History} (h : SameHistory history history')
    (m : ℕ) (action : ActionRequest) (evaluation : Evaluation) :
    (enforce m history' action evaluation).1 = (enforce m history action evaluation).1 := by
  simp only [enforce]
  rw [judge_eq_verdict, judge_eq_verdict, h]

omit [PyFloat F] in
theorem recover_concat (rat : F → ℚ) (m : ℕ) (rows : List (Fields F)) (row : Fields F)
    (history : History) :
    recover rat m (rows ++ [row]) history =
      recover rat m rows history >>= fun guard => recoverRow rat m guard row := by
  unfold recover
  rw [List.foldlM_append]
  simp only [List.foldlM_cons, List.foldlM_nil, bind_pure]

/-- One call that is not refused by the runtime keeps the recovered guard like the live one. -/
theorem recover_step (rat : F → ℚ) {d : Deployment F} {guard : History}
    (hrecover : recover rat rt.engine.maxHistory d.rows [] = .ok guard)
    (hsame : SameHistory d.world.history guard) (turn : Turn F)
    (hadmitted : turn.call.refusal rt key turn.env = none) :
    ∃ guard', recover rat rt.engine.maxHistory (d.step rt key P turn).rows [] = .ok guard' ∧
      SameHistory (d.step rt key P turn).world.history guard' := by
  have hhistory := turn.call.after_history rt key turn.env d.world
  rw [hadmitted] at hhistory
  simp only [Deployment.step, Call.appended, hadmitted]
  rw [hhistory]
  unfold BulldogRuntime.judged
  rcases rt.engine.advisoryFor turn.env.advise turn.call.action with e | advisory
  · -- the advisory model raised, and nothing was remembered or appended
    refine ⟨guard, ?_, hsame⟩
    simpa using hrecover
  · simp only [Option.map_some, Option.bind_some, Option.getD_some]
    obtain ⟨row, hrow, hstep⟩ := recoverRow_row rat rt.engine.maxHistory guard P turn.stamp
      turn.distinct (enforce rt.engine.maxHistory d.world.history turn.call.action
        (rt.engine.combine turn.call.action advisory)).1
    have hrows : recover rat rt.engine.maxHistory (d.rows ++ [row]) [] =
        recoverRow rat rt.engine.maxHistory guard row := by
      rw [recover_concat, hrecover]
      rfl
    rw [hrow, Option.toList_some, hrows]
    exact ⟨_, hstep, hsame.remember _ _ rfl⟩

/-- In every run whose commands reach the engine, the guard that `recover` builds from the ledger holds
the pairs of the live one under every key, and judges every next action alike. -/
theorem recovery_faithful (rt : BulldogRuntime) (key : Bytes) (P : PySort F) (rat : F → ℚ)
    (w : World) (turns : List (Turn F))
    (h : ∀ turn ∈ turns, turn.call.refusal rt key turn.env = none) :
    ∃ guard, recover rat rt.engine.maxHistory (Deployment.run rt key P w turns).rows [] = .ok guard ∧
      (∀ k, (events guard k).map SessionEvent.pair =
        (events (Deployment.run rt key P w turns).world.history k).map SessionEvent.pair) ∧
      ∀ action evaluation, (enforce rt.engine.maxHistory guard action evaluation).1 =
        (enforce rt.engine.maxHistory (Deployment.run rt key P w turns).world.history action
          evaluation).1 := by
  obtain ⟨guard, hrecover, hsame⟩ : ∃ guard,
      recover rat rt.engine.maxHistory (Deployment.run rt key P w turns).rows [] = .ok guard ∧
        SameHistory (Deployment.run rt key P w turns).world.history guard := by
    induction turns using List.reverseRecOn with
    | nil => exact ⟨[], rfl, fun _ => rfl⟩
    | append_singleton turns turn ih =>
      obtain ⟨guard, hrecover, hsame⟩ := ih fun t ht => h t (List.mem_append_left _ ht)
      unfold Deployment.run
      rw [List.foldl_concat]
      exact recover_step rat hrecover hsame turn
        (h turn (List.mem_append_right _ List.mem_cons_self))
  exact ⟨guard, hrecover, fun k => (hsame k).symm, hsame.enforce_eq _⟩

end Runs

/-- A runtime that binds the executable only. -/
def plainRuntime : BulldogRuntime where
  crypto := .standard
  engine := ⟨⟨.ascii, fun _ => false⟩, ⟨"/workspace", none⟩, 8⟩
  malwareScanRequired := true
  hasScanner := true
  requireFullArgvBinding := false

/-- An action of one agent on a resource. -/
def agentAction (capability : Capability) (resource : Str) : ActionRequest :=
  ⟨"agent", "task", "operation", resource, capability, {capability}, [.human], none, false, false, []⟩

/-- A stamp. -/
def plainStamp : Stamp Literal := ⟨"t", .nan, none, "h"⟩

/-- A call on a calm host. -/
def calmTurn (call : Call) (distinct : (call.action.metadata.map Prod.fst).Nodup) : Turn Literal where
  call := call
  env := calmHost
  stamp := plainStamp
  distinct := distinct
  appends _ _ := rfl

/-- An evaluation, and a command that reaches the engine. -/
def plainTurns : List (Turn Literal) :=
  [calmTurn (.evaluate (agentAction .fsReadProject "/workspace/a")) (by decide),
    calmTurn (.execute (agentAction .processExec "/bin/true") ["/bin/true"] "/workspace") (by decide)]

/-- After these calls the recovered guard is like the live one. -/
theorem plainTurns_recovered :
    (∀ turn ∈ plainTurns, turn.call.refusal plainRuntime [] turn.env = none) ∧
      ∃ guard, SessionGuard.recover (fun _ => 0) 8
          (Deployment.run plainRuntime [] PySort.plain smallWorld plainTurns).rows [] = .ok guard ∧
        ∀ k, (SessionGuard.events guard k).map SessionEvent.pair =
          (SessionGuard.events (Deployment.run plainRuntime [] PySort.plain smallWorld
            plainTurns).world.history k).map SessionEvent.pair := by
  have hadmitted : ∀ turn ∈ plainTurns, turn.call.refusal plainRuntime [] turn.env = none := by
    intro turn hturn
    rcases List.mem_cons.1 hturn with rfl | hturn
    · rfl
    · obtain rfl := List.mem_singleton.1 hturn
      decide +kernel
  obtain ⟨guard, hguard, hpairs, -⟩ :=
    recovery_faithful plainRuntime [] PySort.plain (fun _ => 0) smallWorld plainTurns hadmitted
  exact ⟨hadmitted, guard, hguard, hpairs⟩

/-- A command under an action that is not for commands. -/
def refusedTurn : Turn Literal :=
  calmTurn (.execute (agentAction .fsReadProject "/workspace/a") ["/bin/true"] "/workspace")
    (by decide)

/-- The refusal of the command is on the ledger, and the live guard does not know of it: the next
action passes the live guard and is escalated by the recovered one. -/
theorem refusal_recovered : ∃ guard,
    SessionGuard.recover (fun _ => 0) 8
        (Deployment.run plainRuntime [] PySort.plain smallWorld [refusedTurn]).rows [] = .ok guard ∧
      (SessionGuard.enforce 8 (Deployment.run plainRuntime [] PySort.plain smallWorld
        [refusedTurn]).world.history (agentAction .networkOutbound "https://a/")
          ⟨.allow, 0, [], false⟩).1.decision = .allow ∧
      (SessionGuard.enforce 8 guard (agentAction .networkOutbound "https://a/")
        ⟨.allow, 0, [], false⟩).1.decision = .escalate := by
  obtain ⟨row, hrow, hstep⟩ := SessionGuard.recoverRow_row (fun _ : Literal => 0) 8 [] PySort.plain
    plainStamp refusedTurn.distinct
    ⟨.deny, 1, ["runtime command execution requires process.exec capability"], true⟩
  have hrows : (Deployment.run plainRuntime [] PySort.plain smallWorld [refusedTurn]).rows =
      [row] := congrArg Option.toList hrow
  have hrecover : SessionGuard.recover (fun _ => 0) 8 [row] [] =
      SessionGuard.recoverRow (fun _ => 0) 8 [] row := bind_pure _
  rw [hrows, hrecover]
  exact ⟨_, hstep, by decide +kernel, by decide +kernel⟩

end Dispatch

end Bulldog
