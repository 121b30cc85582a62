import Mathlib
import Bulldog.Trace

/-!
# The secret broker

`SecretBroker` of `secret_broker.py`, less its socket: the secrets, the grants with their counters,
and the trace verifier, which it may share with a runtime. The clock, the random token and what the
audit callback does are part of a call. Times are floats, and all that is used of them is their sum
and their order, with no law about either.
-/

namespace Bulldog.Secrets

/-- `SecretGrant`. -/
structure SecretGrant (F : Type) where
  token : Str
  allowedNames : Finset Str
  expiresAt : F
  sandboxId : Option Str
  maxUses : Option ℤ
  deriving DecidableEq

/-- `SecretBroker`. -/
structure SecretBroker (F : Type) where
  secrets : AList fun _ : Str => Str
  grants : AList fun _ : Str => SecretGrant F
  grantUses : AList fun _ : Str => ℕ
  trace : RuntimeTraceVerifier

/-- The arguments of `issue_grant`. -/
structure GrantRequest (F : Type) where
  allowedNames : Finset Str
  ttlSeconds : F
  sandboxId : Option Str
  maxUses : Option ℤ

/-- What a call of `issue_grant` meets: `token_urlsafe(32)`, `time.time()`, and the callback. -/
structure Issue (F : Type) extends GrantRequest F where
  token : Str
  now : F
  audit : Except Exc Unit

/-- A call of `_authorize_and_get`, at the time `now`. -/
structure Access (F : Type) where
  token : Str
  name : Str
  sandboxId : Option Str
  now : F

variable {F : Type}

/-- `self.trace.emit(event)`. -/
def emit (event : TraceEvent) : Action (SecretBroker F) Exc Unit :=
  .zoom SecretBroker.trace (fun trace broker => { broker with trace })
    (RuntimeTraceVerifier.emit event)

/-- `put_secret(name, value)`. -/
def putSecret (name value : Str) : Action (SecretBroker F) Exc Unit := do
  raiseIf (name = []) (Exc.raised .valueError "secret name cannot be empty")
  .update fun broker => { broker with secrets := broker.secrets.insert name value }

/-- `revoke(token)`. -/
def revoke (token : Str) (audit : Except Exc Unit) : Action (SecretBroker F) Exc Unit := do
  .update fun broker => { broker with
    grants := broker.grants.erase token
    grantUses := broker.grantUses.erase token }
  audit

/-- The names of a request for which there is no secret. -/
def unknownNames (request : GrantRequest F) (broker : SecretBroker F) : Finset Str :=
  request.allowedNames.filter (· ∉ broker.secrets)

/-- The loop that compares a token with the stored ones. `hmac.compare_digest` takes ASCII only. -/
def findGrant (token : Str) : List (Sigma fun _ : Str => SecretGrant F) →
    Except Exc (Option (SecretGrant F))
  | [] => .ok none
  | ⟨stored, grant⟩ :: rest =>
    if !(isAscii stored && isAscii token) then .error (.builtin .typeError)
    else if stored = token then .ok (some grant) else findGrant token rest

section Clock

variable [Add F]

/-- The grant that a call issues. -/
def Issue.grant (issue : Issue F) : SecretGrant F where
  token := issue.token
  allowedNames := issue.allowedNames
  expiresAt := issue.now + issue.ttlSeconds
  sandboxId := issue.sandboxId
  maxUses := issue.maxUses

variable [LE F] [DecidableLE F] [Zero F]

/-- The checks of `issue_grant`. -/
def checkRequest (request : GrantRequest F) (broker : SecretBroker F) : Except Exc Unit := do
  raiseIf (request.maxUses.any (· < 1)) (.raised .valueError "max_uses must be >= 1")
  raiseIf (request.ttlSeconds ≤ 0) (.raised .valueError "ttl_seconds must be > 0")
  raiseIf (unknownNames request broker ≠ ∅)
    (secretBrokerError ("grant references unknown secrets: " ++
      ", ".intercalate ((unknownNames request broker).sort.map String.ofList)))

/-- `issue_grant(...)`. -/
def issueGrant (issue : Issue F) : Action (SecretBroker F) Exc (SecretGrant F) := do
  let broker ← .read
  checkRequest issue.toGrantRequest broker
  .update fun broker => { broker with
    grants := broker.grants.insert issue.token issue.grant
    grantUses := broker.grantUses.insert issue.token 0 }
  emit .grantSecret
  issue.audit
  return issue.grant

end Clock

/-- The checks of `_authorize_and_get` on a grant that is not expired and the number of its uses. -/
def checkAccess (access : Access F) (grant : SecretGrant F) (uses : ℕ) : Except Exc Unit := do
  raiseIf (grant.sandboxId ≠ none ∧ access.sandboxId ≠ grant.sandboxId)
    (secretBrokerError "secret grant belongs to another sandbox")
  raiseIf (access.name ∉ grant.allowedNames) (secretBrokerError "secret not granted")
  raiseIf (grant.maxUses.any (· ≤ (uses : ℤ))) (secretBrokerError "secret grant usage exhausted")

/-- `self._grant_uses.get(token, 0)`. -/
def usesOf (token : Str) (broker : SecretBroker F) : ℕ := (broker.grantUses.lookup token).getD 0

/-- The part of `_authorize_and_get` for a grant that is not expired. -/
def serve (access : Access F) (grant : SecretGrant F) : Action (SecretBroker F) Exc Str := do
  let broker ← .read
  checkAccess access grant (usesOf access.token broker)
  let value ← orRaise (broker.secrets.lookup access.name) (secretBrokerError "secret unavailable")
  .update fun broker => { broker with
    grantUses := broker.grantUses.insert access.token (usesOf access.token broker + 1) }
  emit .returnSecret
  return value

/-- The part of `_authorize_and_get` for a grant that is expired. -/
def expire (token : Str) : Action (SecretBroker F) Exc Str := do
  .update fun broker => { broker with
    grants := broker.grants.erase token
    grantUses := broker.grantUses.erase token }
  .raise (secretBrokerError "secret grant expired")

variable [LT F] [DecidableLT F]

/-- `_authorize_and_get(token, name, sandbox_id=sandbox_id)`. -/
def authorizeAndGet (access : Access F) : Action (SecretBroker F) Exc Str := do
  let broker ← .read
  match ← findGrant access.token broker.grants.entries with
  | none => .raise (secretBrokerError "invalid secret grant")
  | some grant =>
    if grant.expiresAt < access.now then expire access.token else serve access grant

/-! ## Runs -/

/-- A call on the broker, or one of the verifier's other users on the verifier. -/
inductive Call (F : Type) where
  | putSecret (name value : Str)
  | issueGrant (issue : Issue F)
  | revoke (token : Str) (audit : Except Exc Unit)
  | get (access : Access F)
  | emit (event : TraceEvent)
  | reset (parentHasCapability : Bool)

/-- What a call returns. -/
inductive Reply (F : Type) where
  | done
  | grant (grant : SecretGrant F)
  | value (value : Str)
  deriving DecidableEq

variable [Add F] [LE F] [DecidableLE F] [Zero F]

/-- A call. -/
def perform : Call F → Action (SecretBroker F) Exc (Reply F)
  | .putSecret name value => do
    putSecret name value
    return .done
  | .issueGrant issue => do return .grant (← issueGrant issue)
  | .revoke token audit => do
    revoke token audit
    return .done
  | .get access => do return .value (← authorizeAndGet access)
  | .emit event => do
    emit event
    return .done
  | .reset parentHasCapability => do
    .zoom SecretBroker.trace (fun trace broker => { broker with trace })
      (RuntimeTraceVerifier.reset parentHasCapability)
    return .done

/-- The broker after some calls, whether they return or raise. -/
def run (broker : SecretBroker F) : List (Call F) → SecretBroker F
  | [] => broker
  | call :: calls => run (perform call broker).2 calls

/-- A broker as it is constructed, with a new verifier or that of a runtime. -/
def created (parentHasCapability : Bool) : SecretBroker F :=
  ⟨∅, ∅, ∅, ⟨{ parentHasCapability }, []⟩⟩

end Bulldog.Secrets
