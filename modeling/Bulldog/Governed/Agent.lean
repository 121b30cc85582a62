import Bulldog.Anchor.Message
import Bulldog.Session.Recovery

/-!
# The governed agent

`governed_agent.py`: a supervisor that asks a local model which of two read-only tools to run next, has
the tool run by the production dispatcher, and keeps its work in the audit ledger. A run can end before
or after anything it does, and the next one goes on from the ledger. What a run meets, the model's
answers and what becomes of each append and each execution, is a parameter of the run.
-/

namespace Bulldog.Governed

variable {F : Type} [PyFloat F]

/-! ## Tools -/

/-- `TOOLS`. -/
def tools : List (Str × List Str) :=
  [("inspect", ["/usr/bin/python3", "-I", "-c", "print(open('/workspace/input.txt').read())"]),
    ("checksum", ["/usr/bin/python3", "-I", "-c",
      "import hashlib; print(hashlib.sha256(open('/workspace/input.txt','rb').read()).hexdigest())"])]

/-- A name is one of `TOOLS`. -/
def isTool (name : Str) : Bool := tools.any (·.1 = name)

/-- `digest(value)`. -/
def digest (C : Crypto) (value : Bytes) : Str := hexdigest (C.sha256 value)

/-- `raise ValueError(...)`. -/
def valueError : Exc := .builtin .valueError

/-- `proposal(raw)`. -/
def proposal (raw : Str) : Except Exc Str := do
  raiseIf ((encodeUtf8 raw).length > 4096) valueError
  let value ← orRaise (parse (F := Literal) true raw) valueError
  raiseIf (!Anchor.uniqueKeys value) valueError
  match value with
  | .obj [(key, .str tool)] => do
    raiseIf (key ≠ "tool".toList ∨ isTool tool = false) valueError
    return tool
  | _ => .error valueError

/-! ## Rows -/

/-- What the ledger adds to an event. -/
structure EventStamp where
  timestamp : Str
  previous : Option Str
  hash : Str

/-- What `json.loads` reads from the line of `append_event(event_type, data)`. -/
def eventRow (stamp : EventStamp) (eventType : Str) (data : Fields F) : Fields F :=
  Fields.norm [("record_type", .str "runtime_event"), ("timestamp", .str stamp.timestamp),
    ("event_type", .str eventType), ("data", .obj data),
    ("previous_hash", Anchor.previousJson stamp.previous), ("record_hash", .str stamp.hash)]

/-- The events that `recover` reads. -/
def workEvents : List Str := ["agent_identity".toList, "agent_plan".toList, "agent_result".toList]

/-- A row that the dispatcher appends: an evaluation, or an event of the runtime. -/
inductive OtherRow (F : Type) where
  | evaluation (stamp : Stamp F) (action : ActionRequest) (outcome : Evaluation)
  | event (stamp : EventStamp) (eventType : Str) (data : Fields F) (other : eventType ∉ workEvents)

/-- The row itself. -/
def OtherRow.row : OtherRow F → Fields F
  | .evaluation stamp action outcome => (rowFields stamp action outcome).sort
  | .event stamp eventType data _ => eventRow stamp eventType data

/-! ## Recovery -/

/-- What `recover` builds: `pinned`, and the data of the plans and of the results in the order of
their steps, which are the keys of the two dictionaries. -/
structure Work (F : Type) where
  pinned : Option (Json F)
  plans : List (Fields F)
  completed : List (Fields F)

/-- `data["step"]` is this number. A step that is no integer, which the agent does not write, is not
modelled. -/
def stepIs (data : Fields F) (n : ℕ) : Except Exc Bool := do
  match ← data.at "step" with
  | .int i => return i = n
  | _ => return false

/-- `data["tool"]` is one of `TOOLS`. -/
def toolKnown (data : Fields F) : Except Exc Bool := do
  match ← data.at "tool" with
  | .str tool => return isTool tool
  | _ => return false

/-- `row["data"]`, of a dictionary. -/
def dataOf (row : Fields F) : Except Exc (Fields F) := do
  match ← row.at "data" with
  | .obj data => return data
  | _ => .error (.builtin .typeError)

/-- What `recover` does with the agent's events in one row. -/
def recoverWork (work : Work F) (row : Fields F) : Except Exc (Work F) := do
  match row.get "event_type" with
  | some (.str eventType) =>
    if eventType = "agent_identity".toList then
      -- a second identity is refused, even the same one
      raiseIf work.pinned.isSome valueError
      return { work with pinned := some (← row.at "data") }
    else if eventType = "agent_plan".toList then
      -- the steps before are all there, so the next one is their number
      let data ← dataOf row
      raiseIf (!(← stepIs data work.plans.length)) valueError
      raiseIf (!(← toolKnown data)) valueError
      return { work with plans := work.plans ++ [data] }
    else if eventType = "agent_result".toList then
      -- the tool of the result is not compared with the plan's
      let data ← dataOf row
      raiseIf (!(← stepIs data work.completed.length)) valueError
      raiseIf (work.plans.length ≤ work.completed.length) valueError
      return { work with completed := work.completed ++ [data] }
    else return work
  | _ => return work

/-- The body of the loop of `recover`: the guard's history, and the work. -/
def recoverStep (rat : F → ℚ) (maxHistory : ℕ) (state : History × Work F) (row : Fields F) :
    Except Exc (History × Work F) := do
  let history ← SessionGuard.recoverRow rat maxHistory state.1 row
  let work ← recoverWork state.2 row
  return (history, work)

/-- The loop of `recover`. -/
def recoverRows (rat : F → ℚ) (maxHistory : ℕ) (rows : List (Fields F)) (history : History) :
    Except Exc (History × Work F) :=
  rows.foldlM (recoverStep rat maxHistory) (history, ⟨none, [], []⟩)

/-- The text of a value with its keys sorted, which tells dictionaries apart. -/
def sortedText (value : Json F) : Str := value.norm.render ⟨false, true⟩

/-- The checks at the end of `recover`. -/
def recoverCheck (identity : Fields F) (work : Work F) : Except Exc Unit := do
  raiseIf (work.pinned.any fun pinned => sortedText pinned ≠ sortedText (.obj identity)) valueError
  raiseIf (work.plans.length ≠ work.completed.length ∧
    work.plans.length ≠ work.completed.length + 1) valueError

/-- `recover(rows, identity, guard)`: the guard's history, and what it returns. -/
def recover (rat : F → ℚ) (maxHistory : ℕ) (rows : List (Fields F)) (identity : Fields F)
    (history : History) : Except Exc (History × Work F) := do
  let state ← recoverRows rat maxHistory rows history
  recoverCheck identity state.2
  return state

/-! ## A run -/

/-- The ledger's rows, and the tools handed to the dispatcher, with their steps. -/
structure AgentWorld (F : Type) where
  rows : List (Fields F)
  effects : List (ℕ × Str)

/-- How a run ends before its end. -/
inductive Stop where
  | died
  | raised (e : Exc)

/-- What becomes of an append. -/
inductive AppendFate where
  | written
  /-- The run ends there, with the record in the ledger or without. -/
  | ended (written : Bool)

/-- What becomes of a question to the model. -/
inductive ChatFate where
  | answered (content : Str)
  /-- `OSError`, `ValueError` or `KeyError`. -/
  | failed (errorType : Str)
  /-- Another exception, or none because the run ends there. -/
  | ended

/-- What the supervisor reads of an `ExecutionResult`. -/
structure ToolResult (F : Type) where
  executed : Bool
  returncode : Option ℤ
  sandboxed : Bool
  attestation : Option (Fields F)
  malwareScanPerformed : Bool
  stdout : Str

/-- What becomes of an execution: what the dispatcher appends, and the result, if there is one. -/
structure Execution (F : Type) where
  appended : List (OtherRow F)
  result : Option (ToolResult F)

/-- What becomes of the credential check: what the dispatcher appends, and whether it denies. -/
structure CredentialFate (F : Type) where
  appended : List (OtherRow F)
  denied : Bool

/-- `--fault`. -/
inductive FaultMode where
  | afterPlan
  | afterEffect
  deriving DecidableEq

/-- The arguments of a run that it reads after its start. -/
structure Args where
  steps : ℕ
  fault : Option FaultMode
  credentialCheck : Bool

/-- What a run meets, as a function of the ledger at that time. -/
structure Env (F : Type) where
  /-- `identity_for(config, model)`. -/
  identity : Fields F
  /-- The run ends before it reads the ledger. -/
  unavailable : Bool
  stamp : List (Fields F) → EventStamp
  append : List (Fields F) → Str → AppendFate
  /-- The time is up. -/
  overtime : List (Fields F) → Bool
  /-- `local_model(args.model) == model`, or nothing where it raises. -/
  sameModel : List (Fields F) → Option Bool
  chat : List (Fields F) → ℕ → ChatFate
  execute : List (Fields F) → Str → Execution F
  credential : List (Fields F) → CredentialFate F
  elapsed : List (Fields F) → F

section Run

variable (C : Crypto) (args : Args) (env : Env F)

/-- A part of a run. -/
abbrev Step (F : Type) := Action (AgentWorld F) Stop

/-- Rows at the end of the ledger. -/
def AgentWorld.push (rows : List (Fields F)) (w : AgentWorld F) : AgentWorld F :=
  { w with rows := w.rows ++ rows }

/-- `ledger.append_event(event_type, data)`. -/
def appendEvent (eventType : Str) (data : Fields F) : Step F Unit := do
  let w ← .read
  let row := eventRow (env.stamp w.rows) eventType data
  match env.append w.rows eventType with
  | .written => .update (AgentWorld.push [row])
  | .ended written => do
    .onlyIf written (.update (AgentWorld.push [row]))
    .raise .died

/-- `raise exc` where the condition holds. -/
def stopIf (c : Prop) [Decidable c] (e : Exc) : Step F Unit := .onlyIf c (.raise (.raised e))

/-- The attempts to get a proposal from the model, from this one on: the tool, and the answer. -/
def ask (step : ℕ) : ℕ → Step F (Str × Str)
  | 0 => .raise (.raised valueError)
  | left + 1 => do
    let attempt := 2 - left
    let w ← .read
    let failure : Str ⊕ (Str × Str) ← match env.chat w.rows attempt with
      | .ended => .raise .died
      | .failed errorType => pure (.inl errorType)
      | .answered content =>
        match proposal content with
        | .ok tool => pure (.inr (tool, content))
        | .error _ => pure (.inl "ValueError")
    match failure with
    | .inr answer => return answer
    | .inl errorType => do
      -- a failure is recorded, and leaves the work as it is
      appendEvent env "agent_model_retry" [("step", .int step), ("attempt", .int (attempt + 1)),
        ("error_type", .str errorType)]
      ask step left

/-- The tool of a step: that of the pending plan, or a new one. -/
def planStep (work : Work F) (step : ℕ) : Step F Str := do
  match work.plans[step]? with
  | some plan => do
    let tool ← match plan.get "tool" with
      | some (.str tool) => pure tool
      | _ => .raise (.raised (.builtin .keyError))
    appendEvent env "agent_recovery" [("step", .int step),
      ("strategy", .str "repeat immutable read-only tool")]
    return tool
  | none => do
    let w ← .read
    stopIf (env.sameModel w.rows ≠ some true) valueError
    let (tool, content) ← ask env step 3
    appendEvent env "agent_plan" [("step", .int step), ("tool", .str tool),
      ("model_response_sha256", .str (digest C (encodeUtf8 content)))]
    return tool

/-- A return code. -/
def codeJson : Option ℤ → Json F
  | some i => .int i
  | none => .null

/-- `evidence`. -/
def evidence (step : ℕ) (tool : Str) (result : ToolResult F) (attestation : Fields F) : Fields F :=
  [("step", .int step), ("tool", .str tool), ("stdout", .str (result.stdout.take 4096)),
    ("stdout_sha256", .str (digest C (encodeUtf8 result.stdout))),
    ("returncode", codeJson result.returncode), ("sandboxed", .bool result.sandboxed),
    ("attestation", .obj attestation),
    ("malware_scan_performed", .bool result.malwareScanPerformed)]

/-- The checks of a result, with its attestation. -/
def checkResult (result : ToolResult F) : Option (Fields F) :=
  if result.executed = false ∨ result.returncode ≠ some 0 ∨ result.sandboxed = false then none
  else result.attestation

/-- A step, after its plan: the execution and its result. -/
def performStep (step : ℕ) (tool : Str) : Step F Unit := do
  .onlyIf (args.fault = some .afterPlan) (.raise .died)
  let w ← .read
  let execution := env.execute w.rows tool
  .update fun w => { w.push (execution.appended.map OtherRow.row) with
    effects := w.effects ++ [(step, tool)] }
  -- from here on the effect has happened, with or without a result in the ledger
  match execution.result with
  | none => .raise .died
  | some result =>
    match checkResult result with
    | none => .raise (.raised (.builtin .runtimeError))
    | some attestation => do
      .onlyIf (args.fault = some .afterEffect) (.raise .died)
      appendEvent env "agent_result" (evidence C step tool result attestation)

/-- The loop of `run`, for at most so many steps from this one on: the number of completed steps. -/
def runSteps (work : Work F) : ℕ → ℕ → Step F ℕ
  | 0, step => return step
  | left + 1, step => do
    let w ← .read
    if env.overtime w.rows then return step
    else do
      let tool ← planStep C env work step
      performStep C args env step tool
      runSteps work left (step + 1)

/-- The credential check. -/
def checkCredential : Step F Unit := do
  let w ← .read
  let fate := env.credential w.rows
  .update (AgentWorld.push (fate.appended.map OtherRow.row))
  stopIf (fate.denied = false) (.builtin .runtimeError)
  appendEvent env "agent_credential_check" [("status", .str "DENIED"), ("fixture_only", .bool true)]

/-- `recover(records(ledger), identity, runtime.engine.session_guard)`. -/
def recoverLedger (rat : F → ℚ) (maxHistory : ℕ) : Step F (Work F) := do
  let w ← .read
  match recover rat maxHistory w.rows env.identity [] with
  | .ok (_, work) => return work
  | .error e => .raise (.raised e)

/-- `run(args)`. -/
def run (rat : F → ℚ) (maxHistory : ℕ) : Step F Unit := do
  .onlyIf (env.unavailable = true) (.raise .died)
  let work ← recoverLedger env rat maxHistory
  .onlyIf (work.pinned.isNone = true) (appendEvent env "agent_identity" env.identity)
  appendEvent env "agent_start" [("completed", .int work.completed.length),
    ("pending", .int (work.plans.length - work.completed.length : ℕ))]
  let completed ← runSteps C args env work (args.steps - work.completed.length) work.completed.length
  .onlyIf args.credentialCheck (checkCredential env)
  let w ← .read
  appendEvent env "agent_stop" [("completed", .int completed),
    ("elapsed_seconds", .float (env.elapsed w.rows))]

end Run

end Bulldog.Governed
