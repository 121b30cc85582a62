import Bulldog.Anchor.Message

/-!
# Hardware assertions

The packets of `BULL-AUTH-1`, from `hardware_approval`: the request that is made of a pending
approval, the assertion that a device answers with, and the check of the one against the other.
-/

namespace Bulldog.Approval

variable {F : Type} [PyFloat F]

/-- `raise ApprovalError(message)`. -/
def approvalError (message : String) : Exc := .raised .approvalError message

/-- `canonical_bytes(value)`. -/
def canonicalBytes (value : Fields F) : Except Exc Bytes :=
  match dumps ⟨false, true⟩ false (.obj value) with
  | some text => .ok (encodeUtf8 (text ++ ['\n']))
  | none => .error (.builtin .valueError)

/-- `PROTOCOL`. -/
def protocol : Bytes := encodeUtf8 "BULL-AUTH-1".toList

/-- `fixed(value, length)`. -/
def fixed (value : Bytes) (length : ℕ) : Except Exc Bytes :=
  if value.length ≠ length then .error (approvalError "invalid fixed-width hardware field")
  else .ok value

/-- The `length` bytes of a number, the first byte highest. -/
def bigEndian : ℕ → ℕ → Bytes
  | 0, _ => []
  | length + 1, n => bigEndian length (n / 256) ++ [UInt8.ofNat (n % 256)]

/-- `int.from_bytes(value, "big")`. -/
def fromBytes (value : Bytes) : ℕ := value.foldl (fun n b => n * 256 + b.toNat) 0

/-! ## Requests -/

/-- `Request`. -/
structure Request where
  requestId : Bytes
  sessionDigest : Bytes
  actionDigest : Bytes
  operationDigest : Bytes
  resourceDigest : Bytes
  parameterDigest : Bytes
  policyDigest : Bytes
  nonce : Bytes
  created : ℤ
  expires : ℤ
  deriving DecidableEq

/-- `request.encode()`. -/
def Request.encode (r : Request) : Except Exc Bytes := do
  raiseIf (¬ (0 ≤ r.created ∧ r.created < r.expires ∧ r.expires < 2 ^ 64) ∨
    r.expires - r.created > 30) (approvalError "invalid hardware request lifetime")
  let fields ← [r.requestId, r.sessionDigest, r.actionDigest, r.operationDigest, r.resourceDigest,
    r.parameterDigest, r.policyDigest, r.nonce].mapM fun field => fixed field 32
  return protocol ++ 1 :: fields.flatten ++ bigEndian 8 r.created.toNat ++
    bigEndian 8 r.expires.toNat

/-- `request.digest`. -/
def Request.digest (C : Crypto) (r : Request) : Except Exc Bytes := r.encode.map C.sha256

/-! ## Assertions -/

/-- `hardware_approval.protocol.Decision`. -/
inductive Answer where
  | deny
  | approve
  deriving DecidableEq

/-- `Assertion`. -/
structure Assertion where
  decision : Answer
  deviceId : Bytes
  requestId : Bytes
  requestDigest : Bytes
  sessionDigest : Bytes
  nonce : Bytes
  counter : ℕ
  signature : Bytes
  deriving DecidableEq

/-- `assertion.signed_bytes()`. -/
def Assertion.signedBytes (a : Assertion) : Except Exc Bytes := do
  raiseIf (¬ (0 < a.counter ∧ a.counter < 2 ^ 32)) (approvalError "invalid hardware counter")
  let fields ← [a.deviceId, a.requestId, a.requestDigest, a.sessionDigest, a.nonce].mapM
    fun field => fixed field 32
  return protocol ++ (match a.decision with | .deny => 0 | .approve => 1) :: fields.flatten ++
    bigEndian 4 a.counter

/-- `assertion.encode()`. -/
def Assertion.encode (a : Assertion) : Except Exc Bytes := do
  let signed ← a.signedBytes
  let signature ← fixed a.signature 64
  return signed ++ signature

/-- `Assertion.decode(packet)`. -/
def Assertion.decode (packet : Bytes) : Except Exc Assertion := do
  let packet ← fixed packet 240
  let field (i : ℕ) : Bytes := (packet.drop (12 + 32 * i)).take 32
  raiseIf (packet.take 11 ≠ protocol) (approvalError "unsupported hardware assertion")
  let decision ← match packet.drop 11 with
    | 0 :: _ => .ok Answer.deny
    | 1 :: _ => .ok .approve
    | _ => .error (approvalError "invalid hardware decision")
  let value : Assertion := ⟨decision, field 0, field 1, field 2, field 3, field 4,
    fromBytes ((packet.drop 172).take 4), packet.drop 176⟩
  let _ ← value.encode
  return value

/-! ## Credentials -/

/-- What is used of an enrolled hardware credential. -/
structure HardwareKey where
  type : Str
  deviceId : Bytes
  publicKey : Bytes
  enabled : Bool
  deriving DecidableEq

/-- `counter_identity(credential)`. -/
def HardwareKey.counterIdentity (C : Crypto) (key : HardwareKey) : Str :=
  hexdigest (C.sha256 key.publicKey)

/-- The digit that `bytes.fromhex` reads. -/
def hexDigit (c : Char) : Option ℕ :=
  if c.isDigit then some (c.toNat - '0'.toNat)
  else if 'a' ≤ c ∧ c ≤ 'f' then some (c.toNat - 'a'.toNat + 10)
  else if 'A' ≤ c ∧ c ≤ 'F' then some (c.toNat - 'A'.toNat + 10)
  else none

/-- `bytes.fromhex(text)` of a text without white space. -/
def fromHex : Str → Option Bytes
  | [] => some []
  | high :: low :: rest => do
    let high ← hexDigit high
    let low ← hexDigit low
    let rest ← fromHex rest
    return UInt8.ofNat (16 * high + low) :: rest
  | [_] => none

/-- `digest(obj)` in `request_for`. -/
def valueDigest (C : Crypto) (value : Json F) : Except Exc Bytes :=
  (canonicalBytes [("value", value)]).map C.sha256

/-- The body of `request_for` under its `try`. -/
def requestFields (C : Crypto) (message : Bytes) (credentialId : Str) (value action : Fields F) :
    Except Exc Request := do
  let field (fields : Fields F) (key : Str) : Except Exc (Json F) :=
    orRaise (fields.get key) (.builtin .keyError)
  let .str requestId ← field value "request_id" | .error (.builtin .typeError)
  let requestId ← orRaise (fromHex requestId) (.builtin .valueError)
  let session ← (← field action "session_id") |> valueDigest C
  let whole ← valueDigest C (.obj action)
  let operation ← (← field action "operation") |> valueDigest C
  let target ← (← field action "target") |> valueDigest C
  let parameters ← (← field action "parameters") |> valueDigest C
  let policy ← (← field action "policy_digest") |> valueDigest C
  let nonce := C.sha256 (encodeUtf8 "bull-hardware-nonce-v1".toList ++ 0 ::
    encodeUtf8 credentialId ++ 0 :: message)
  let .int issued ← field value "issued_at" | .error (approvalError "invalid hardware request lifetime")
  let .int expires ← field value "expires_at"
    | .error (approvalError "invalid hardware request lifetime")
  let request : Request := ⟨requestId, session, whole, operation, target, parameters, policy, nonce,
    issued, expires⟩
  let _ ← request.encode
  return request

/-- `request_for(message, credential_id)`. -/
def requestFor (F : Type) [PyFloat F] (C : Crypto) (message : Bytes) (credentialId : Str) :
    Except Exc Request := do
  let text ← orRaise (decodeUtf8 message) (.builtin .unicodeError)
  let value ← orRaise (loads (F := F) text) (.builtin .valueError)
  let .obj value := value | .error (.builtin .typeError)
  let action ← orRaise (Fields.get value "action") (.builtin .keyError)
  let Json.obj action := action | .error (approvalError "pending request cannot be encoded for hardware")
  match requestFields C message credentialId value action with
  | .error (.builtin _) => .error (approvalError "pending request cannot be encoded for hardware")
  | result => result

/-! ## Verification -/

/-- The verifiers outside the program: OpenSSH, called by `verify_hardware_signature(message,
signature, public_key)`, and the ECDSA check of a key, a message and a signature. -/
structure Verifier where
  ssh : Bytes → Bytes → Str → Except Exc Unit
  ecdsa : Bytes → Bytes → Bytes → Bool

/-- `verify(assertion, request, ...)`. -/
def verifyAssertion (C : Crypto) (V : Verifier) (a : Assertion) (r : Request) (key : HardwareKey)
    (lastCounter : ℕ) (now : ℤ) : Except Exc Unit := do
  let _ ← r.encode
  let _ ← a.encode
  raiseIf (key.enabled = false) (approvalError "hardware device unknown or disabled")
  let device ← fixed key.deviceId 32
  raiseIf (a.deviceId ≠ device) (approvalError "hardware device unknown or disabled")
  raiseIf (¬ (r.created ≤ now ∧ now < r.expires))
    (approvalError "hardware request expired or clock invalid")
  let digest ← r.digest C
  raiseIf (a.requestId ≠ r.requestId ∨ a.requestDigest ≠ digest ∨
      a.sessionDigest ≠ r.sessionDigest ∨ a.nonce ≠ r.nonce)
    (approvalError "hardware request binding mismatch")
  raiseIf (¬ lastCounter < a.counter) (approvalError "hardware counter replay")
  let publicKey ← fixed key.publicKey 65
  let signed ← a.signedBytes
  raiseIf (V.ecdsa publicKey signed a.signature = false)
    (approvalError "invalid hardware signature")

end Bulldog.Approval
