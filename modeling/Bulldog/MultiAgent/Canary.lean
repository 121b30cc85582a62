import Bulldog.Lib.Action
import Bulldog.Lib.Base64
import Bulldog.Lib.Urllib
import Bulldog.MultiAgent.Agents
import Bulldog.Platform

/-!
# The canary

`HoneyTokenAgent` of `multiagent/honeytoken.py` on the `MessageBus` of `multiagent/bus.py`. Every run
has a token that is shown once, in one field of its first envelope. The guard looks through what passes
the bus, and a trace with a leak is tripped for good.
-/

namespace Bulldog.MultiAgent

/-! ## Values -/

/-- A value that passes the bus. -/
inductive Value where
  /-- `None`, a boolean or a number. -/
  | scalar
  | str (s : Str)
  | bytes (b : Bytes)
  /-- A `dict`, with `str(key)` for every key. -/
  | dict (members : List (Str × Value))
  /-- A dataclass, with what `asdict` makes of its fields. -/
  | dataclass (fields : List (Str × Value))
  /-- A list, tuple or set, in the order of iteration. -/
  | items (xs : List Value)
  /-- Any other object, by its `repr`. -/
  | object (repr : Str)
  /-- Where looking raises an exception of this type: a dataclass with a field that `asdict` cannot copy,
  a `repr` or a `str` of a key that raises, or what is nested beyond the recursion limit. -/
  | failing (errorType : Str)

/-- Where a string stands in a value. -/
abbrev Path := List Str

/-- What `_collect_strings` collects. -/
inductive Entry where
  /-- A key of the `dict` at this path. -/
  | key (parent : Path) (text : Str)
  /-- A string at this path. -/
  | leaf (path : Path) (text : Str)
  deriving DecidableEq

/-- The path that is collected. -/
def Entry.path : Entry → Path
  | .key parent _ => parent ++ ["<key>".toList]
  | .leaf path _ => path

/-- The text that is collected. -/
def Entry.text : Entry → Str
  | .key _ text | .leaf _ text => text

/-- The text of a string that is not a key. -/
def Entry.leafText : Entry → Option Str
  | .key _ _ => none
  | .leaf _ text => some text

/-- Nothing is collected at the allowed path. -/
def unlessAt (allowed : Option Path) (path : Path) (entries : List Entry) : List Entry :=
  if allowed = some path then [] else entries

mutual
/-- What `walk(item, path)` collects, where it raises nothing. -/
def walk (allowed : Option Path) (path : Path) : Value → List Entry
  | .scalar => []
  | .str s => unlessAt allowed path [.leaf path s]
  | .bytes b => unlessAt allowed path [.leaf path (decodeReplace b.length b)]
  | .dict members => unlessAt allowed path (walkMembers allowed path members)
  | .dataclass fields => unlessAt allowed path (walkMembers allowed path fields)
  | .items xs => unlessAt allowed path (walkItems allowed path 0 xs)
  | .object repr => unlessAt allowed path [.leaf path repr]
  | .failing _ => []
/-- `walk` of the keys and values of a `dict`. -/
def walkMembers (allowed : Option Path) (path : Path) : List (Str × Value) → List Entry
  | [] => []
  | (k, v) :: members =>
    .key path k :: (walk allowed (path ++ [k]) v ++ walkMembers allowed path members)
/-- `walk` of the items of a sequence, from an index on. -/
def walkItems (allowed : Option Path) (path : Path) : ℕ → List Value → List Entry
  | _, [] => []
  | i, v :: xs =>
    walk allowed (path ++ [(toString i).toList]) v ++ walkItems allowed path (i + 1) xs
end

mutual
/-- The type of the first exception that `walk(item, path)` meets. -/
def walkError (allowed : Option Path) (path : Path) : Value → Option Str
  | .dict members => if allowed = some path then none else walkMembersError allowed path members
  | .dataclass fields => if allowed = some path then none else walkMembersError allowed path fields
  | .items xs => if allowed = some path then none else walkItemsError allowed path 0 xs
  | .failing errorType => if allowed = some path then none else some errorType
  | _ => none
/-- `walkError` of the values of a `dict`. -/
def walkMembersError (allowed : Option Path) (path : Path) : List (Str × Value) → Option Str
  | [] => none
  | (k, v) :: members =>
    (walkError allowed (path ++ [k]) v).or (walkMembersError allowed path members)
/-- `walkError` of the items of a sequence, from an index on. -/
def walkItemsError (allowed : Option Path) (path : Path) : ℕ → List Value → Option Str
  | _, [] => none
  | i, v :: xs =>
    (walkError allowed (path ++ [(toString i).toList]) v).or (walkItemsError allowed path (i + 1) xs)
end

/-- `_collect_strings(value, allowed_path=allowed)`, or the type of what it raises. -/
def collectStrings (allowed : Option Path) (value : Value) : Except Str (List Entry) :=
  match walkError allowed [] value with
  | some errorType => .error errorType
  | none => .ok (walk allowed [] value)

/-! ## Tokens -/

/-- `CANARY_PREFIX`. -/
def canaryPrefix : Str := "BULL-CANARY-v1:".toList

/-- A token, by its body `secrets.token_urlsafe(32).rstrip("=")`. -/
structure Token where
  body : Str
  nonempty : body ≠ []
  /-- The alphabet of `token_urlsafe`. -/
  alphabet : ∀ c ∈ body, c.isAlphanum ∨ c = '-' ∨ c = '_'

/-- `CANARY_PREFIX + body`. -/
def Token.text (token : Token) : Str := canaryPrefix ++ token.body

/-- `token.split(":", 1)[-1]`. -/
def afterColon (token : Str) : Str :=
  match token.dropWhile (· ≠ ':') with
  | [] => token
  | _ :: rest => rest

/-- `_representations(token)`. -/
def representations (token : Str) : List (String × Str) :=
  let raw := encodeUtf8 token
  let body := afterColon token
  let bodyRaw := encodeUtf8 body
  [("raw", token), ("body", body), ("base64", b64encode raw),
    ("base64url", Str.rstrip (· == '=') (urlsafeB64encode raw)),
    ("body-base64", b64encode bodyRaw),
    ("body-base64url", Str.rstrip (· == '=') (urlsafeB64encode bodyRaw)),
    ("hex", hexdigest raw), ("body-hex", hexdigest bodyRaw), ("urlencoded", quote token)]

/-- `_matching_representation(token, text)`. -/
def matchingRepresentation (token text : Str) : Option String :=
  ((representations token).find? fun r => r.2 ≠ [] ∧ r.2 <:+: text).map Prod.fst

/-! ## The agent -/

/-- `HoneyTokenState`. -/
structure HoneyTokenState where
  traceId : Str
  token : Token
  fingerprint : Str
  allowedRecipient : Str
  allowedMessageId : Option Str
  exposureUsed : Bool
  tripped : Bool
  completed : Bool
  finding : Option Finding

/-- What the calls raise. -/
inductive Raised where
  /-- `HoneyTokenLeak`. -/
  | leak (finding : Finding)
  /-- `DeliveryError`. -/
  | delivery (message : Str)
  /-- `RuntimeError`. -/
  | runtime (message : String)
  /-- An exception of this type that the guard meets in a value. -/
  | inValue (errorType : Str)
  /-- What a handler raises itself. -/
  | handler

/-- `Envelope`, less its time. -/
structure Envelope where
  messageId : Str
  traceId : Str
  sender : Str
  recipient : Str
  messageType : Str
  payload : Value
  hops : ℤ

/-- `HoneyTokenAgent`, less its states. -/
structure HoneyTokenAgent where
  agentId : Str
  crypto : Crypto
  maxScanChars : ℕ
  maxTrackedRuns : ℕ

/-- `_states`, in insertion order. -/
abbrev States := List HoneyTokenState

/-- `_states.get(trace_id)`. -/
def States.get (states : States) (traceId : Str) : Option HoneyTokenState :=
  states.find? fun st => st.traceId = traceId

/-- A change of the state of a trace, if it is tracked. -/
def States.change (states : States) (traceId : Str) (f : HoneyTokenState → HoneyTokenState) : States :=
  states.map fun st => if st.traceId = traceId then f st else st

/-- What `_trip` does to a state. -/
def HoneyTokenState.trip (finding : Finding) (st : HoneyTokenState) : HoneyTokenState :=
  { st with tripped := true, finding := st.finding.or (some finding) }

/-- `_trip(trace_id, finding)`. -/
def States.trip (states : States) (traceId : Str) (finding : Finding) : States :=
  states.change traceId (.trip finding)

/-- The loop of `_prune_locked`, after some of the states. -/
def pruneFrom (maxTrackedRuns : ℕ) (kept : States) : States → Except Raised Unit × States
  | [] => (.error (.runtime "honeytoken trace retention limit reached"), kept)
  | st :: rest =>
    if st.completed && !st.tripped then
      if (kept ++ rest).length < maxTrackedRuns then (.ok (), kept ++ rest)
      else pruneFrom maxTrackedRuns kept rest
    else pruneFrom maxTrackedRuns (kept ++ [st]) rest

namespace HoneyTokenAgent

variable (agent : HoneyTokenAgent)

/-- `_prune_locked()`. -/
def prune : Action States Raised Unit := fun states =>
  if states.length < agent.maxTrackedRuns then (.ok (), states)
  else pruneFrom agent.maxTrackedRuns [] states

/-- `mint(trace_id, allowed_recipient=..., allowed_message_id=...)`, with the token that is drawn. -/
def mint (traceId allowedRecipient : Str) (allowedMessageId : Option Str) (token : Token) :
    Action States Raised Unit := do
  let states ← .read
  raiseIf (states.get traceId).isSome (Raised.runtime "honeytoken already exists for trace")
  agent.prune
  .update fun states => states ++ [⟨traceId, token,
    hexdigest (agent.crypto.sha256 (encodeUtf8 token.text)), allowedRecipient, allowedMessageId,
    false, false, false, none⟩]

/-- `complete(trace_id)`. -/
def complete (traceId : Str) : Action States Raised Unit :=
  .update fun states => states.change traceId fun st => { st with completed := true }

/-- The finding of a value that is too long to look through. -/
def overflow (traceId stage : Str) (total : ℕ) : Finding :=
  ⟨agent.agentId, .critical, "honeytoken.scan-overflow",
    "Boundary payload exceeded the canary inspection budget".toList,
    "trace=" ++ traceId ++ " stage=".toList ++ stage ++ " chars=".toList ++ (toString total).toList⟩

/-- `_format_path(path)`, with `none` for the joined values. -/
def formatPath : Option Path → Str
  | none => "<joined-values>".toList
  | some [] => "<root>".toList
  | some path => List.intercalate ['/'] path

/-- The finding of a token of `owner`. -/
def leakFinding (traceId stage : Str) (owner : HoneyTokenState) (path : Option Path)
    (representation : String) : Finding :=
  ⟨agent.agentId, .critical, "honeytoken.leak",
    "Host-owned canary escaped its trusted-context boundary".toList,
    "trace=" ++ traceId ++ " source_trace=".toList ++ owner.traceId ++ " stage=".toList ++ stage ++
      " path=".toList ++ formatPath path ++ " token_fingerprint=".toList ++
      owner.fingerprint.take 16 ++ " representation=".toList ++ representation.toList⟩

/-- The strings that are not at a path that ends in `<key>`, joined. -/
def joinedCandidate (strings : List Entry) : List (Option Path × Str) :=
  let valueTexts := (strings.filter fun e => e.path.getLast? ≠ some "<key>".toList).map Entry.text
  if valueTexts = [] then [] else [(none, valueTexts.flatten)]

/-- `candidates`: the strings by themselves, and joined. -/
def candidates (strings : List Entry) : List (Option Path × Str) :=
  strings.map (fun e => (some e.path, e.text)) ++ joinedCandidate strings

/-- The first candidate with a token, and the first owner of a token in it. -/
def firstMatch (states : States) (found : List (Option Path × Str)) :
    Option (Option Path × HoneyTokenState × String) :=
  found.findSome? fun c => states.findSome? fun owner =>
    (matchingRepresentation owner.token.text c.2).map fun name => (c.1, owner, name)

/-- `_inspect_value(value, trace_id=..., stage=..., allowed_path=...)`. -/
def inspectValue (value : Value) (traceId stage : Str) (allowed : Option Path) :
    Action States Raised Unit := fun states =>
  match collectStrings allowed value with
  | .error errorType => (.error (.inValue errorType), states)
  | .ok strings =>
    let total := (strings.map fun e => e.text.length).sum
    if total > agent.maxScanChars then
      let finding := agent.overflow traceId stage total
      (.error (.leak finding), states.trip traceId finding)
    else match firstMatch states (candidates strings) with
      | none => (.ok (), states)
      | some (path, owner, name) =>
        let finding := agent.leakFinding traceId stage owner path name
        let tripped := states.trip traceId finding
        (.error (.leak finding),
          if owner.traceId ≠ traceId then tripped.trip owner.traceId finding else tripped)

/-- Whether the envelope is the one that may hold the token of its trace. -/
def isExposure (envelope : Envelope) (st : HoneyTokenState) : Bool :=
  !st.exposureUsed && st.allowedMessageId.all (· = envelope.messageId) &&
    envelope.sender = "system".toList && envelope.recipient = st.allowedRecipient &&
    envelope.messageType = "task".toList && envelope.hops = 0

/-- Whether the payload of the envelope is looked through less its canary. -/
def exempts (states : States) (envelope : Envelope) : Bool :=
  (states.get envelope.traceId).any (isExposure envelope)

/-- The path that is left out of an envelope. -/
def allowedPath (states : States) (envelope : Envelope) : Option Path :=
  if exempts states envelope then some ["trusted_context".toList, "canary".toList] else none

/-- `stage` of an envelope. -/
def envelopeStage (envelope : Envelope) : Str :=
  "envelope:" ++ envelope.sender ++ "->".toList ++ envelope.recipient ++ ":".toList ++
    envelope.messageType

/-- `stage` of a result. -/
def resultStage (envelope : Envelope) : Str :=
  "result:" ++ envelope.recipient ++ ":".toList ++ envelope.messageType

/-- `_inspect_envelope(envelope)`. -/
def inspectEnvelope (envelope : Envelope) : Action States Raised Unit := do
  let states ← .read
  .onlyIf (exempts states envelope)
    (.update fun states => states.change envelope.traceId fun st => { st with exposureUsed := true })
  agent.inspectValue envelope.payload envelope.traceId (envelopeStage envelope)
    (allowedPath states envelope)

/-- The finding of a trace that is tripped. -/
def refusal (states : States) (traceId : Str) : Option Finding :=
  (states.get traceId).bind fun st => if st.tripped then st.finding else none

/-- `raise HoneyTokenLeak(current.finding)` for a trace that is tripped. -/
def refuseTripped (traceId : Str) : Action States Raised Unit := fun states =>
  match refusal states traceId with
  | some finding => (.error (.leak finding), states)
  | none => (.ok (), states)

/-- `boundary_guard(phase, envelope, result)`, with no result in the phase `"envelope"` and one in the
phase `"result"`. -/
def boundaryGuard (envelope : Envelope) : Option Value → Action States Raised Unit
  | none => do
    refuseTripped envelope.traceId
    agent.inspectEnvelope envelope
  | some result => do
    refuseTripped envelope.traceId
    agent.inspectValue result envelope.traceId (resultStage envelope) none

/-- `inspect_external_write(trace_id, value, channel=...)`. -/
def inspectExternalWrite (traceId : Str) (value : Value) (channel : Str) :
    Action States Raised Unit :=
  agent.inspectValue value traceId ("external:" ++ channel) none

end HoneyTokenAgent

/-! ## The bus -/

/-- `AgentIdentity`, with the names of its capabilities. -/
structure AgentIdentity where
  agentId : Str
  name : Str
  capabilities : List Str

/-- `TraceEvent`, less its time. A list among its details has an entry for each item. -/
structure TraceEvent where
  traceId : Str
  agentId : Str
  event : String
  detail : List (String × Str)

/-- What the calls change: the states of the agent and the trace of the bus. -/
structure Bus where
  states : States
  trace : List TraceEvent

/-- Code of an agent. -/
abbrev Handler := Envelope → Action Bus Raised Value

/-- `MessageBus`, guarded by the agent. -/
structure MessageBus where
  guard : HoneyTokenAgent
  maxHops : ℤ
  /-- `_handlers.get(recipient)`. -/
  handlers : Str → Option Handler

namespace MessageBus

variable (bus : MessageBus)

/-- `_record(agent_id, event, detail, trace_id)`. -/
def record (agentId : Str) (event : String) (detail : List (String × Str)) (traceId : Str) :
    Action Bus Raised Unit :=
  .update fun b => { b with trace := b.trace ++ [⟨traceId, agentId, event, detail⟩] }

/-- The event that `register` records. -/
def registered (identity : AgentIdentity) : TraceEvent :=
  ⟨[], identity.agentId, "registered", ("name", identity.name) ::
    (identity.capabilities.mergeSort (· ≤ ·)).map fun name => ("capabilities", name)⟩

/-- `register(identity, handler)`. -/
def register (identity : AgentIdentity) : Action Bus Raised Unit := do
  raiseIf (bus.handlers identity.agentId).isSome
    (Raised.delivery ("agent " ++ identity.agentId ++ " already registered".toList))
  .update fun b => { b with trace := b.trace ++ [registered identity] }

/-- `type(exc).__name__`. -/
def typeName : Raised → Str
  | .leak _ => "HoneyTokenLeak".toList
  | .delivery _ => "DeliveryError".toList
  | .runtime _ => "RuntimeError".toList
  | .inValue errorType => errorType
  | .handler => []

/-- `_apply_boundary_guard(phase, envelope, result)`. -/
def applyBoundaryGuard (envelope : Envelope) (result : Option Value) : Action Bus Raised Unit :=
  .handle (.zoom Bus.states (fun states b => { b with states })
      (bus.guard.boundaryGuard envelope result)) fun e => do
    record envelope.sender "dropped.boundary-guard"
      [("stage", if result.isSome then "result".toList else "envelope".toList),
        ("error_type", typeName e)] envelope.traceId
    .raise e

/-- `deliver(envelope)`. -/
def deliver (envelope : Envelope) : Action Bus Raised Value :=
  if envelope.hops > bus.maxHops then do
    record envelope.sender "dropped.loop-guard" [("hops", (toString envelope.hops).toList)]
      envelope.traceId
    .raise (.delivery ("loop guard tripped after " ++ (toString envelope.hops).toList ++
      " hops".toList))
  else do
    bus.applyBoundaryGuard envelope none
    match bus.handlers envelope.recipient with
    | none => .raise (.delivery ("unknown recipient " ++ envelope.recipient))
    | some handler =>
      record envelope.sender "deliver" [("to", envelope.recipient), ("type", envelope.messageType)]
        envelope.traceId
      let result ← handler envelope
      bus.applyBoundaryGuard envelope (some result)
      record envelope.recipient "handled" [("type", envelope.messageType)] envelope.traceId
      return result

/-- `inspect_handler_exception(envelope, error)`. -/
def inspectHandlerException (envelope : Envelope) (error : Value) : Action Bus Raised Unit :=
  bus.applyBoundaryGuard envelope (some error)

end MessageBus

end Bulldog.MultiAgent
