import Bulldog.Lib.Action
import Bulldog.Lib.Urllib
import Bulldog.Models

/-!
# The canonicaliser

`canonicalizer.py`: the resource of a proposal is stripped, percent-decoded up to three times and,
where it is a path, normalised; the capability follows from the operation and that resource; and
everything else about the action comes from the trusted context.
-/

namespace Bulldog

/-- `TrustedExecutionContext`. -/
structure TrustedExecutionContext where
  actor : Str
  provenance : List Provenance
  securityContextId : Str
  domainId : Option Str
  rootDomainId : Option Str
  parentDomainId : Option Str
  initialIntentHash : Option Str
  initialCommandHash : Option Str
  modelId : Option Str
  modelIdHash : Option Str
  domainFingerprint : Option Str
  spawnDepth : ℕ
  deriving DecidableEq

/-- The members of a proposal that are read, as strings. -/
structure Proposal where
  task : Str
  operation : Str
  resource : Str
  deriving DecidableEq

namespace Canonicalizer

/-- `SENSITIVE_MARKERS`. -/
def sensitiveMarkers : List Str :=
  ["/.ssh/", "/.gnupg/", "/.aws/", "/.config/gcloud/", "/etc/shadow", "/etc/sudoers"]

/-- `_PATH_OPERATIONS`. -/
def pathOperations : List Str := ["read", "inspect", "write", "create", "modify"]

/-- `_SECRET_OPERATIONS`. -/
def secretOperations : List Str := ["secret.get", "credential.get", "credential.read"]

/-- The loop of `_decode_resource`, for `n` more rounds: the decoded string, and whether it is known
to hold no further escape. -/
def decodeRounds : ℕ → Str → Str × Bool
  | 0, decoded => (decoded, false)
  | n + 1, decoded =>
    if unquote decoded = decoded then (decoded, true) else decodeRounds n (unquote decoded)

/-- `_decode_resource(value)`. -/
def decodeResource (value : Str) : Except Exc Str := do
  raiseIf ('\x00' ∈ value) (actionCanonicalizationError "NUL byte in resource")
  let (decoded, done) := decodeRounds 3 value
  raiseIf (!done ∧ unquote decoded ≠ decoded)
    (actionCanonicalizationError "resource contains excessively nested percent-encoding")
  return decoded

variable (L : Urllib)

/-- `_reject_unicode_separator_or_dot_folding(value)`. -/
def rejectFolding (value : Str) : Except Exc Unit :=
  let folded := L.unicode.nfkc value
  raiseIf (folded ≠ value ∧ ∃ marker ∈ ['.', '/', '\\'], folded.count marker > value.count marker)
    (actionCanonicalizationError "filesystem resource has Unicode normalization ambiguity")

/-- `canonicalize_filesystem_resource(resource)`. -/
def canonicalizeFilesystemResource (resource : Str) : Except Exc Str := do
  let decoded ← decodeResource resource
  rejectFolding L decoded
  let decoded := decoded.map fun c => if c = '\\' then '/' else c
  raiseIf ("//".toList.isPrefixOf decoded)
    (actionCanonicalizationError "filesystem resource has ambiguous leading slashes")
  raiseIf (decoded.any fun c => c.toNat < 0x20 || c.toNat == 0x7f)
    (actionCanonicalizationError "filesystem resource contains ASCII control characters")
  raiseIf (decoded.head? ≠ some '/')
    (actionCanonicalizationError "filesystem resource must be an absolute path")
  raiseIf ("..".toList ∈ Str.splitOn '/' decoded)
    (actionCanonicalizationError "parent-directory traversal in filesystem resource")
  let normalized := normpath decoded
  raiseIf ("//".toList.isPrefixOf normalized)
    (actionCanonicalizationError "normalized filesystem resource has ambiguous leading slashes")
  raiseIf (normalized.head? ≠ some '/')
    (actionCanonicalizationError "filesystem resource escaped absolute path namespace")
  return normalized

/-- `operation.lower().strip()`. -/
def normalOperation (operation : Str) : Str := Str.strip (L.unicode.lower operation)

/-- `canonicalize_resource(operation, resource)`. -/
def canonicalizeResource (operation resource : Str) : Except Exc Str := do
  let raw := Str.strip resource
  raiseIf (raw = []) (actionCanonicalizationError "missing resource")
  if normalOperation L operation ∈ pathOperations ∨ raw.head? = some '/' ∨ raw.head? = some '\\' then
    canonicalizeFilesystemResource L raw
  else decodeResource raw

/-- `resource == "/workspace" or resource.startswith("/workspace/")`. -/
def inWorkspace (resource : Str) : Bool :=
  resource == "/workspace".toList || "/workspace/".toList.isPrefixOf resource

/-- The capability of a network operation. -/
def networkCapability (resource : Str) : Except Exc Capability := do
  let parsed ← orRaise (L.urlsplit resource) (Exc.builtin .valueError)
  raiseIf (parsed.scheme ≠ [] ∧ parsed.scheme ≠ "http".toList ∧ parsed.scheme ≠ "https".toList)
    (actionCanonicalizationError "unsupported network resource scheme")
  return .networkOutbound

/-- The branches of `derive_capability` on the normalised operation and the canonical resource. -/
def capabilityOf (op resource : Str) : Except Exc Capability :=
  if sensitiveMarkers.any (Str.contains (L.unicode.lower resource)) then .ok .credentialRead
  else if op ∈ secretOperations then .ok .credentialRead
  else if op ∈ ["execute".toList, "exec".toList, "run".toList, "shell".toList, "bash".toList] then
    .ok .processExec
  else if op ∈ ["spawn".toList, "create_agent".toList, "agent.create".toList] then .ok .agentSpawn
  else if op ∈ ["message".toList, "agent.message".toList] then .ok .agentMessage
  else if op ∈ ["post".toList, "upload".toList, "send".toList] then .ok .networkPost
  else if op ∈ ["connect".toList, "fetch".toList, "get".toList, "head".toList] then
    networkCapability L resource
  else if op ∈ ["write".toList, "create".toList, "modify".toList] then
    .ok (if inWorkspace resource then .fsWriteProject else .fsWriteHome)
  else if op ∈ ["read".toList, "inspect".toList] then
    .ok (if inWorkspace resource then .fsReadProject else .fsReadHome)
  else .error (actionCanonicalizationError "cannot derive capability for operation")

/-- `derive_capability(operation, resource)`. -/
def deriveCapability (operation resource : Str) : Except Exc Capability := do
  let op := normalOperation L operation
  let canonical ← canonicalizeResource L op resource
  capabilityOf L op canonical

/-- The `metadata` of an action in this context. -/
def contextMetadata (trusted : TrustedExecutionContext) : Metadata :=
  ("security_context_id", trusted.securityContextId) ::
    [("domain_id", trusted.domainId), ("root_domain_id", trusted.rootDomainId),
      ("parent_domain_id", trusted.parentDomainId),
      ("initial_intent_hash", trusted.initialIntentHash),
      ("initial_command_hash", trusted.initialCommandHash), ("model_id", trusted.modelId),
      ("model_id_hash", trusted.modelIdHash), ("domain_fingerprint", trusted.domainFingerprint),
      ("spawn_depth", some (renderInt trusted.spawnDepth))].filterMap
      fun (key, value) => value.map (key, ·)

/-- `canonicalize_action(proposal, trusted=..., granted_capabilities=..., parent_capabilities=...)`. -/
def canonicalizeAction (proposal : Proposal) (trusted : TrustedExecutionContext)
    (granted : Finset Capability) (parent : Option (Finset Capability)) :
    Except Exc ActionRequest := do
  let operation := Str.strip proposal.operation
  let resource := Str.strip proposal.resource
  raiseIf (operation = []) (actionCanonicalizationError "missing operation")
  let canonical ← canonicalizeResource L operation resource
  let capability ← deriveCapability L operation canonical
  return {
    actor := trusted.actor
    task := proposal.task
    operation := operation
    resource := canonical
    capability := capability
    grantedCapabilities := granted
    provenance := trusted.provenance
    parentCapabilities := parent
    irreversible := false
    externalSideEffect := false
    metadata := contextMetadata trusted }

end Canonicalizer

end Bulldog
