import Bulldog.Anchor.Store
import Bulldog.Approval.Hardware
import Bulldog.Models

/-!
# The approval gate

`approval.py`. Requests live in a database that any number of gates share. Each operation that
changes it is one transaction, which a raise rolls back. `consume` reads the request twice, the
second time inside its transaction, so that it is given here in two parts.
-/

namespace Bulldog.Approval

variable {F : Type} [PyFloat F]

/-! ## The database -/

/-- `state` of a request. -/
inductive RequestState where
  | pending
  | consumed
  | denied
  | cancelled
  deriving DecidableEq

/-- A row of `requests`. -/
structure Row where
  binding : Str
  message : Bytes
  issued : ℤ
  expires : ℤ
  state : RequestState
  credential : Option Str
  outcome : Option String
  deriving DecidableEq

/-- The tables of the database. -/
structure Database where
  /-- `requests`, with `id` as the key. -/
  requests : List (Str × Row)
  /-- `highwater` in `clock`. -/
  highwater : ℤ
  /-- `hardware_counters`, with `key_identity` as the key. -/
  counters : List (Str × ℕ)
  deriving DecidableEq

/-- The database that `ApprovalGate` creates. -/
def Database.empty : Database := ⟨[], 0, []⟩

/-- `SELECT * FROM requests WHERE id=?`. -/
def Database.row (db : Database) (id : Str) : Option Row := db.requests.lookup id

/-- `UPDATE requests SET ... WHERE id=? AND ...`. -/
def Database.update (db : Database) (id : Str) (f : Row → Row) : Database :=
  { db with requests := db.requests.map fun e => if e.1 = id then (e.1, f e.2) else e }

/-- `INSERT INTO requests`. -/
def Database.insert (db : Database) (id : Str) (row : Row) : Database :=
  { db with requests := db.requests ++ [(id, row)] }

/-- `INSERT INTO hardware_counters ... ON CONFLICT(key_identity) DO UPDATE`. -/
def Database.setCounter (db : Database) (identity : Str) (counter : ℕ) : Database :=
  { db with counters := (identity, counter) :: db.counters.filter fun e => e.1 ≠ identity }

/-- `_now(db)`, where the system clock shows `now`. -/
def readClock (now : ℤ) : Action Database Exc Unit := do
  let db ← .read
  raiseIf (now < db.highwater) (approvalError "clock moved backwards; approval stopped")
  .update fun db => { db with highwater := now }

/-! ## Gates -/

/-- An enrolled credential: the public key of a security key, or a hardware device. -/
inductive Credential where
  | ssh (publicKey : Str)
  | hardware (key : HardwareKey)
  deriving DecidableEq

/-- `ApprovalGate`, with what it uses of its configuration. -/
structure ApprovalGate where
  credentials : List (Str × Credential)
  routineEgressUrls : List Str
  ttlSeconds : ℤ
  policyDigest : Str
  deriving DecidableEq

/-- `ApprovalProof`. -/
structure ApprovalProof where
  requestId : Str
  credentialId : Str
  signature : Bytes
  deriving DecidableEq

/-- `digest(value)`. -/
def digest (C : Crypto) (value : Bytes) : Str := hexdigest (C.sha256 value)

/-- `digest(canonical_bytes(binding))`. -/
def bindingDigest (C : Crypto) (binding : Fields F) : Except Exc Str :=
  (canonicalBytes binding).map (digest C)

omit [PyFloat F] in
/-- `binding.get("policy_digest") == self.policy_digest`. -/
def ApprovalGate.policyMatches (gate : ApprovalGate) (binding : Fields F) : Bool :=
  match binding.get "policy_digest" with
  | some (.str policy) => policy == gate.policyDigest
  | _ => false

/-- The request that `request` returns. -/
def pendingRequest (requestId : Str) (now ttl : ℤ) (binding : Fields F) : Fields F :=
  [("format", .str "bull-human-approval-v1"), ("request_id", .str requestId),
    ("issued_at", .int now), ("expires_at", .int (now + ttl)), ("action", .obj binding)]

variable (C : Crypto) (V : Verifier)

/-- `request(binding)`, where the clock shows `now`, `secrets.token_hex` gives `requestId`, and
`audit` is the outcome of the callback. A key that is taken is refused by the database. -/
def ApprovalGate.request (gate : ApprovalGate) (binding : Fields F) (now : ℤ) (requestId : Str)
    (audit : Except Exc Unit) : Action Database Exc (Fields F) := do
  raiseIf (gate.policyMatches binding = false) (approvalError "approval policy binding mismatch")
  let encoded ← canonicalBytes binding
  raiseIf (encoded.length > 32768) (approvalError "approval binding too large")
  .transaction do
    readClock now
    let db ← .read
    raiseIf (db.requests.length ≥ 10000) (approvalError "approval record budget reached")
    let request := pendingRequest requestId now gate.ttlSeconds binding
    let message ← canonicalBytes request
    let _ ← orRaise (binding.get "operation") (Exc.builtin .keyError)
    audit
    raiseIf (db.row requestId).isSome (Exc.builtin .runtimeError)
    .update fun db => db.insert requestId
      ⟨digest C encoded, message, now, now + gate.ttlSeconds, .pending, none, none⟩
    return request

/-- What a call of `consume` knows between its two connections. -/
structure Ticket (F : Type) where
  gate : ApprovalGate
  binding : Fields F
  proof : ApprovalProof
  key : Credential
  expected : Str
  /-- The message of the row that was read. -/
  message : Bytes
  /-- The device, its assertion and the request for it. -/
  hardware : Option (HardwareKey × Assertion × Request)

/-- `consume(binding, proof)` up to its transaction. -/
def ApprovalGate.check (gate : ApprovalGate) (binding : Fields F) (proof : ApprovalProof)
    (db : Database) : Except Exc (Ticket F) := do
  let key ← orRaise (gate.credentials.lookup proof.credentialId)
    (approvalError "credential is unknown or revoked")
  let expected ← bindingDigest C binding
  let row ← orRaise (db.row proof.requestId)
    (approvalError "approval is missing, changed, cancelled, or already consumed")
  raiseIf (row.state ≠ .pending ∨ row.binding ≠ expected)
    (approvalError "approval is missing, changed, cancelled, or already consumed")
  raiseIf (gate.policyMatches binding = false) (approvalError "approval policy changed")
  match key with
  | .hardware device => do
    let assertion ← Assertion.decode proof.signature
    let request ← requestFor F C row.message proof.credentialId
    return ⟨gate, binding, proof, key, expected, row.message, some (device, assertion, request)⟩
  | .ssh publicKey => do
    V.ssh row.message proof.signature publicKey
    return ⟨gate, binding, proof, key, expected, row.message, none⟩

/-- The part of the transaction that a hardware assertion needs. Whether the human denied. -/
def verifyHardware (hardware : Option (HardwareKey × Assertion × Request)) (now : ℤ) :
    Action Database Exc Bool :=
  match hardware with
  | none => pure false
  | some (device, assertion, request) => do
    let db ← .read
    let prior := (db.counters.lookup (device.counterIdentity C)).getD 0
    verifyAssertion C V assertion request device prior now
    .update fun db => db.setCounter (device.counterIdentity C) assertion.counter
    return assertion.decision = .deny

/-- The transaction of `consume`. -/
def Ticket.commit (t : Ticket F) (now : ℤ) : Action Database Exc Bool :=
  .transaction do
    readClock now
    let db ← .read
    let row ← orRaise (db.row t.proof.requestId)
      (approvalError "approval has already been consumed or cancelled")
    raiseIf (row.state ≠ .pending ∨ row.binding ≠ t.expected)
      (approvalError "approval has already been consumed or cancelled")
    raiseIf (now ≥ row.expires ∨ now < row.issued)
      (approvalError "approval has expired or clock is invalid")
    let denied ← verifyHardware C V t.hardware now
    .update fun db => db.update t.proof.requestId fun row =>
      { row with
        state := if denied then .denied else .consumed
        credential := some t.proof.credentialId
        outcome := some (if denied then "human-denied" else "uncertain") }
    return denied

/-- `consume(binding, proof)` with nothing between its parts. Without a proof it makes a request. -/
def ApprovalGate.consume (gate : ApprovalGate) (binding : Fields F) (proof : Option ApprovalProof)
    (now : ℤ) (requestId : Str) (audit : Except Exc Unit) : Action Database Exc Str :=
  match proof with
  | none => do
    let _ ← gate.request C binding now requestId audit
    .raise (.raised .approvalRequired "credentialed approval required")
  | some proof => do
    let db ← .read
    let ticket ← gate.check C V binding proof db
    let denied ← ticket.commit C V now
    audit
    raiseIf denied (approvalError "physical human denial")
    return proof.requestId

/-- The policy that a message names. -/
def messagePolicy (F : Type) [PyFloat F] (message : Bytes) : Except Exc (Json F) := do
  let text ← orRaise (decodeUtf8 message) (.builtin .unicodeError)
  let value ← orRaise (loads (F := F) text) (.builtin .valueError)
  let .obj value := value | .error (.builtin .typeError)
  let action ← orRaise (Fields.get value "action") (.builtin .keyError)
  let Json.obj action := action | .error (.builtin .typeError)
  orRaise (Fields.get action "policy_digest") (.builtin .keyError)

/-- `hardware_request(request_id, credential_id)`. -/
def ApprovalGate.hardwareRequest (F : Type) [PyFloat F] (gate : ApprovalGate)
    (requestId credentialId : Str) (now : ℤ) : Action Database Exc Bytes := do
  match gate.credentials.lookup credentialId with
  | some (.hardware key) => do
    raiseIf (key.enabled = false)
      (approvalError "custom hardware credential is not enrolled and enabled")
    .transaction do
      readClock now
      let db ← .read
      let row ← orRaise (db.row requestId)
        (approvalError "hardware request is not pending or has expired")
      raiseIf (row.state ≠ .pending ∨ ¬ (row.issued ≤ now ∧ now < row.expires))
        (approvalError "hardware request is not pending or has expired")
      let policy ← messagePolicy F row.message
      raiseIf (Anchor.strOf policy ≠ some gate.policyDigest)
        (approvalError "hardware request policy changed")
      let request ← requestFor F C row.message credentialId
      request.encode
  | _ => .raise (approvalError "custom hardware credential is not enrolled and enabled")

/-- `finish(request_id, outcome)`. -/
def finish (requestId : Str) (outcome : String) (audit : Except Exc Unit) :
    Action Database Exc Unit := do
  raiseIf (outcome ≠ "completed" ∧ outcome ≠ "uncertain") (approvalError "invalid approval outcome")
  audit
  .update fun db => db.update requestId fun row =>
    if row.state = .consumed then { row with outcome := some outcome } else row

/-- `cancel(request_id)`. -/
def cancel (requestId : Str) (audit : Except Exc Unit) : Action Database Exc Unit :=
  .transaction do
    audit
    .update fun db => db.update requestId fun row =>
      if row.state = .pending then { row with state := .cancelled } else row

/-! ## Bindings -/

/-- `OPERATIONS`. -/
def operations : List String :=
  ["secret.read", "network.request", "publish", "send", "delete", "access.change", "security.change"]

/-- `binding_for(action, ...)`. -/
def bindingFor (action : ActionRequest) (operation : String) (parameters : Fields F)
    (policyDigest sessionId : Str) : Except Exc (Fields F) := do
  raiseIf (operation ∉ operations) (approvalError "unsupported consequential operation")
  raiseIf (sessionId = [] ∨ policyDigest = [])
    (approvalError "missing trusted session/policy identity")
  let text (s : String) : Json F := .str s.toList
  let metadata (key : String) : Json F := .str ((action.metadata.get key).getD [])
  let value : Fields F := [("operation", text operation), ("target", .str action.resource),
    ("actor", .str action.actor), ("domain_id", metadata "domain_id"),
    ("root_domain_id", metadata "root_domain_id"),
    ("security_context_id", metadata "security_context_id"), ("session_id", .str sessionId),
    ("policy_digest", .str policyDigest), ("capability", text action.capability.value),
    ("granted_capabilities", .arr ((Capability.sortedValues action.grantedCapabilities).map text)),
    ("parent_capabilities", match action.parentCapabilities with
      | none => .null
      | some parents => .arr ((Capability.sortedValues parents).map text)),
    ("provenance", .arr (action.provenance.map fun p => text p.value)),
    ("parameters", .obj parameters)]
  let encoded ← canonicalBytes value
  raiseIf (encoded.length > 32768) (approvalError "approval action exceeds size limit")
  return value

end Bulldog.Approval
