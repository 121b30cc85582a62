import Bulldog.Lib.Urllib
import Bulldog.Models

/-!
# The deterministic policy

`DeterministicPolicy.evaluate` of `policy.py`: the hard blocks in their order, then the score of what
is left.
-/

namespace Bulldog

/-- `DeterministicPolicy`. -/
structure DeterministicPolicy where
  projectRoot : Str
  globalCapabilityCeiling : Option (Finset Capability)

namespace Policy

/-- `SENSITIVE_PATH_MARKERS`. -/
def sensitivePathMarkers : List Str :=
  ["/.ssh/", "/.gnupg/", "/.aws/", "/.config/gcloud/", "/etc/shadow", "/etc/sudoers"]

/-- `CANARY_MARKERS`, in lower case. -/
def canaryMarkers : List Str :=
  ["ai_canary_key", ".bulldog-canary", "sentinel_admin_token", "agent_mailbox_canary"]

/-- `HIGH_RISK_CAPABILITIES`. -/
def highRiskCapabilities : List Capability :=
  [.credentialRead, .securityControlWrite, .packageInstall, .agentSpawn]

/-- `BROKERED_SECRET_OPERATIONS`. -/
def brokeredSecretOperations : List Str := ["secret.get", "credential.get", "credential.read"]

/-- `PERSISTENCE_PATHS`. -/
def persistencePaths : List Str :=
  ["/.bashrc", "/.zshrc", "/.profile", "/.bash_profile", "/.config/autostart/", "/.config/systemd/",
    "/etc/systemd/", "/etc/cron", "/crontab"]

/-- `SECRET_HINTS`. -/
def secretHints : List Str :=
  ["secret", "token", "password", "passwd", "api_key", "apikey", "credential", "private_key",
    "access_key", "session_key", "bearer"]

/-- A hard block. -/
def block (reasons : List String) : Evaluation := ⟨.deny, 1, reasons, true⟩

/-- The running reasons and risk of `evaluate`. -/
structure Score where
  reasons : List String
  risk : ℚ

/-- Where `c` holds, `reasons.append(reason)` and a change of the risk. -/
def Score.when (c : Prop) [Decidable c] (reason : String) (f : ℚ → ℚ) (score : Score) : Score :=
  if c then ⟨score.reasons ++ [reason], f score.risk⟩ else score

variable (L : Urllib)

/-- `resource.replace("\\", "/").split("/")`. -/
def slashParts (resource : Str) : List Str :=
  Str.splitOn '/' (resource.map fun c => if c = '\\' then '/' else c)

/-- The query of an outbound resource, or all of it where it is no URL. -/
def queryOf (decoded : Str) : Str :=
  match L.urlsplit decoded with
  | some parsed => L.unicode.lower parsed.query
  | none => L.unicode.lower decoded

/-- The decision on a risk. -/
def decide (risk : ℚ) : Decision :=
  if 85 / 100 ≤ risk then .escalate else if 55 / 100 ≤ risk then .sandbox else .allow

/-- The part of `evaluate` after the hard blocks, from the score of the resource and the provenance
on. -/
def assess (action : ActionRequest) (score : Score) (external : Bool) : Evaluation :=
  let decoded := unquote action.resource
  if action.capability = .credentialRead ∧
      Str.strip (L.unicode.lower action.operation) ∈ brokeredSecretOperations then
    if external then
      block (score.reasons ++ ["externally influenced credential access is forbidden"])
    else ⟨.allow, max score.risk (20 / 100),
      ["credential access is mediated by the scoped secret broker"], false⟩
  else
    let score := score.when (action.capability ∈ highRiskCapabilities) "high-risk capability"
      (· + 55 / 100)
    let score := score.when (external ∧ action.capability = .processExec)
      "externally influenced process execution requires review" (max · (90 / 100))
    let score := score.when (external ∧ action.capability = .agentSpawn)
      "externally influenced agent creation requires review" (max · (90 / 100))
    if external ∧ action.capability = .credentialRead then
      block (score.reasons ++ ["externally influenced credential access is forbidden"])
    else
      let score := score.when (external ∧ action.capability = .networkPost)
        "externally influenced outbound data transfer" (max · (90 / 100))
      let score := score.when
        ((action.capability = .networkOutbound ∨ action.capability = .networkPost) ∧
          secretHints.any (Str.contains (queryOf L decoded)))
        "outbound resource contains possible secret-bearing data" (max · (90 / 100))
      let score := score.when action.externalSideEffect "operation has an external side effect"
        (· + 25 / 100)
      let score := score.when action.irreversible "operation is marked irreversible" (· + 35 / 100)
      let risk := min score.risk 1
      ⟨decide risk, risk, if score.reasons = [] then ["within explicitly granted capability envelope"]
        else score.reasons, false⟩

/-- The score of the resource and the provenance. -/
def resourceScore (action : ActionRequest) : Score :=
  let decoded := unquote action.resource
  let lower := L.unicode.lower decoded
  let score : Score := ⟨[], 0⟩
  let score := score.when (sensitivePathMarkers.any (Str.contains (pathStr decoded)))
    "resource is security-sensitive" (· + 70 / 100)
  let score := score.when (persistencePaths.any (Str.contains lower) ∧
      (action.capability = .fsWriteHome ∨ action.capability = .securityControlWrite))
    "write targets a resource capable of persisting beyond session" (max · (90 / 100))
  score.when (hasExternalProvenance action.provenance)
    "action is downstream of untrusted external content" (· + 25 / 100)

/-- `evaluate(action)`. -/
def evaluate (policy : DeterministicPolicy) (action : ActionRequest) : Evaluation :=
  let decoded := unquote action.resource
  if policy.globalCapabilityCeiling.any (action.capability ∉ ·) then
    block ["capability is outside the signed deployment policy ceiling"]
  else if action.capability ∉ action.grantedCapabilities then
    block ["requested capability was not explicitly granted"]
  else if action.parentCapabilities.any (action.capability ∉ ·) then
    block ["child agent attempted to exercise authority not held by its parent"]
  else if "..".toList ∈ slashParts action.resource then
    block ["parent-directory traversal detected"]
  else if "..".toList ∈ slashParts decoded then
    block ["encoded parent-directory traversal detected"]
  else if (action.capability = .fsReadProject ∨ action.capability = .fsWriteProject) ∧
      !isRelativeTo (pathStr decoded) policy.projectRoot then
    block ["project-scoped capability attempted to access resource outside project root"]
  else if canaryMarkers.any (Str.contains (L.unicode.lower decoded)) then
    block ["canary/honeypot resource accessed"]
  else assess L action (resourceScore L action) (hasExternalProvenance action.provenance)

end Policy

end Bulldog
