import Mathlib
import Bulldog.Lib.Action
import Bulldog.Canonicalizer

/-!
# The security-domain registry

`SecurityDomainRegistry` of `security_domain.py`. A domain's charter, all that is fixed when it is
created, is a structure of its own, and the domain extends it by the fields that change. An
operation does its work in one locked section and then hands an event to the audit sinks. What these
do with the event is part of the call, and when they raise the work stays done.
-/

namespace Bulldog.Domain

/-- `GoalTransition`. -/
structure GoalTransition where
  sequence : ℕ
  previousIntentHash : Str
  nextIntentHash : Str
  reason : Str
  approvedBy : Str
  deriving DecidableEq

/-- What a `SecurityDomain` is created with. -/
structure Charter where
  domainId : Str
  rootDomainId : Str
  parentDomainId : Option Str
  actor : Str
  capabilityCeiling : Finset Capability
  egressHosts : Finset Str
  provenance : List Provenance
  initialIntentHash : Str
  initialCommandHash : Option Str
  modelId : Option Str
  modelIdHash : Option Str
  domainFingerprint : Str
  spawnDepth : ℕ
  deriving DecidableEq

/-- `SecurityDomain`. -/
structure SecurityDomain extends Charter where
  currentIntentHash : Str
  frozen : Bool
  freezeReason : Option Str
  transitions : List GoalTransition
  deriving DecidableEq

/-- `_domains`, in insertion order and without its keys, which are the ids of the domains. -/
abbrev Domains := List SecurityDomain

/-- An event for the audit sinks, which holds no float. -/
abbrev Event := Fields Literal

/-- `SecurityDomainRegistry`, less its domains and sinks. -/
structure Registry where
  crypto : Crypto
  unicode : Unicode
  maxSpawnDepth : ℕ
  strictIdentityBinding : Bool

/-! ## Hashes -/

/-- `hash_intent(text)`. -/
def hashIntent (C : Crypto) (text : Str) : Except Exc Str := do
  let normalized := [' '].intercalate (Str.words text)
  raiseIf (normalized = []) (securityDomainError "initial intent cannot be empty")
  return hexdigest (C.sha256 (encodeUtf8 normalized))

/-- The compact JSON array that `hash_command` hashes. -/
def commandText (command : List Str) : Str :=
  (Json.arr (command.map .str) : Json Literal).render ⟨false, false⟩

/-- `hash_command(command)`. -/
def hashCommand (C : Crypto) (command : List Str) : Str :=
  hexdigest (C.sha256 (encodeUtf8 (commandText command)))

/-- `hash_model_id(model_id)`. -/
def hashModelId (C : Crypto) : Option Str → Except Exc (Option Str)
  | none => .ok none
  | some modelId => do
    raiseIf (Str.strip modelId = []) (securityDomainError "model_id cannot be empty")
    return some (hexdigest (C.sha256 (encodeUtf8 (Str.strip modelId))))

/-- A string or `None`. -/
def optionJson : Option Str → Json Literal
  | some s => .str s
  | none => .null

/-- `sorted(egress_hosts)`. -/
def sortedHosts (hosts : Finset Str) : Json Literal := .arr (hosts.sort.map .str)

/-- `_domain_fingerprint(...)`, of all of a charter but its fingerprint. -/
def fingerprint (C : Crypto) (charter : Charter) : Str :=
  hexdigest (C.sha256 (encodeUtf8 ((Json.obj [
    ("domain_id", .str charter.domainId),
    ("root_domain_id", .str charter.rootDomainId),
    ("parent_domain_id", optionJson charter.parentDomainId),
    ("actor", .str charter.actor),
    ("model_id_hash", optionJson charter.modelIdHash),
    ("initial_intent_hash", .str charter.initialIntentHash),
    ("initial_command_hash", optionJson charter.initialCommandHash),
    ("capability_ceiling",
      .arr ((Capability.sortedValues charter.capabilityCeiling).map fun v => .str v.toList)),
    ("egress_hosts", sortedHosts charter.egressHosts)] : Json Literal).norm.render ⟨false, true⟩)))

/-! ## Operations -/

/-- What `create_root` and `spawn_child` are told about the new domain. -/
structure Birth where
  actor : Str
  initialPrompt : Str
  capabilityCeiling : List Capability
  /-- `provenance` of a root, `provenance_append` of a child. -/
  provenance : List Provenance
  egressHosts : List Str
  initialCommand : Option (List Str)
  modelId : Option Str

namespace Registry

variable (R : Registry)

/-- `_normalize_hosts(hosts)`. -/
def normalizeHosts : List Str → Except Exc (Finset Str)
  | [] => .ok ∅
  | host :: hosts => do
    let value := Str.rstrip (· == '.') (R.unicode.lower (Str.strip host))
    raiseIf (value = []) (securityDomainError "empty egress host")
    raiseIf ('/' ∈ value) (securityDomainError "egress authority must be an exact hostname")
    return insert value (← normalizeHosts hosts)

/-- `_validate_identity_binding(model_id=model_id, initial_command=initial_command)`. -/
def validateIdentityBinding (birth : Birth) : Except Exc Unit := do
  raiseIf (R.strictIdentityBinding ∧ Str.strip (birth.modelId.getD []) = [])
    (securityDomainError "strict identity binding requires model_id")
  raiseIf (R.strictIdentityBinding ∧ birth.initialCommand.getD [] = [])
    (securityDomainError "strict identity binding requires initial_command")

/-- `_domains[domain.domain_id] = domain`. -/
def put (domain : SecurityDomain) (domains : Domains) : Domains :=
  if domains.any (·.domainId = domain.domainId) then
    domains.map fun d => if d.domainId = domain.domainId then domain else d
  else domains ++ [domain]

/-- `_domain_event(event, domain)`. -/
def domainEvent (event : String) (charter : Charter) : Event :=
  [("event", .str event.toList),
    ("domain_id", .str charter.domainId),
    ("root_domain_id", .str charter.rootDomainId),
    ("parent_domain_id", optionJson charter.parentDomainId),
    ("actor", .str charter.actor),
    ("model_id", optionJson charter.modelId),
    ("model_id_hash", optionJson charter.modelIdHash),
    ("domain_fingerprint", .str charter.domainFingerprint),
    ("capability_ceiling",
      .arr ((Capability.sortedValues charter.capabilityCeiling).map fun v => .str v.toList)),
    ("egress_hosts", sortedHosts charter.egressHosts),
    ("initial_intent_hash", .str charter.initialIntentHash),
    ("initial_command_hash", optionJson charter.initialCommandHash),
    ("spawn_depth", .int charter.spawnDepth)]

/-- A new domain. -/
def newDomain (charter : Charter) : SecurityDomain :=
  { charter with
    domainFingerprint := fingerprint R.crypto charter
    currentIntentHash := charter.initialIntentHash
    frozen := false
    freezeReason := none
    transitions := [] }

/-- `create_root(...)`, with the id that `_new_id` returns. -/
def createRoot (sink : Event → Except Exc Unit) (newId : Str) (birth : Birth) :
    Action Domains Exc SecurityDomain := do
  R.validateIdentityBinding birth
  let intentHash ← hashIntent R.crypto birth.initialPrompt
  let modelHash ← hashModelId R.crypto (birth.modelId.map Str.strip)
  let hosts ← R.normalizeHosts birth.egressHosts
  let domain := R.newDomain {
    domainId := newId
    rootDomainId := newId
    parentDomainId := none
    actor := birth.actor
    capabilityCeiling := birth.capabilityCeiling.toFinset
    egressHosts := hosts
    provenance := birth.provenance
    initialIntentHash := intentHash
    initialCommandHash := birth.initialCommand.map (hashCommand R.crypto)
    modelId := birth.modelId.map Str.strip
    modelIdHash := modelHash
    domainFingerprint := []
    spawnDepth := 0 }
  .update (put domain)
  sink (domainEvent "security_domain_created" domain.toCharter)
  return domain

/-- `get(domain_id)`. -/
def get (domainId : Str) (domains : Domains) : Except Exc SecurityDomain :=
  orRaise (domains.find? (·.domainId = domainId)) (securityDomainError "unknown security domain")

/-- The message of a frozen domain, whose reason is left out where it is empty. -/
def frozenMessage (reason : Option Str) : String :=
  match reason with
  | none | some [] => "security domain is frozen"
  | some reason => "security domain is frozen: " ++ String.ofList reason

/-- `require_active(domain_id)`. -/
def requireActive (domainId : Str) (domains : Domains) : Except Exc SecurityDomain := do
  let domain ← get domainId domains
  raiseIf domain.frozen (securityDomainError (frozenMessage domain.freezeReason))
  return domain

/-- The child of `parent` that `spawn_child` makes, once its checks pass. -/
def child (parent : Charter) (newId : Str) (birth : Birth) : Except Exc SecurityDomain := do
  raiseIf (Capability.agentSpawn ∉ parent.capabilityCeiling)
    (securityDomainError "parent domain lacks agent.spawn authority")
  let capabilities := birth.capabilityCeiling.toFinset
  raiseIf (¬ capabilities ⊆ parent.capabilityCeiling)
    (securityDomainError "child capability ceiling exceeds parent authority")
  let hosts ← R.normalizeHosts birth.egressHosts
  raiseIf (¬ hosts ⊆ parent.egressHosts)
    (securityDomainError "child egress authority exceeds parent authority")
  raiseIf (parent.spawnDepth + 1 > R.maxSpawnDepth)
    (securityDomainError "maximum agent spawn depth exceeded")
  let intentHash ← hashIntent R.crypto birth.initialPrompt
  let modelHash ← hashModelId R.crypto (birth.modelId.map Str.strip)
  return R.newDomain {
    domainId := newId
    rootDomainId := parent.rootDomainId
    parentDomainId := some parent.domainId
    actor := birth.actor
    capabilityCeiling := capabilities
    egressHosts := hosts
    provenance := parent.provenance ++ birth.provenance
    initialIntentHash := intentHash
    initialCommandHash := birth.initialCommand.map (hashCommand R.crypto)
    modelId := birth.modelId.map Str.strip
    modelIdHash := modelHash
    domainFingerprint := []
    spawnDepth := parent.spawnDepth + 1 }

/-- `spawn_child(...)`, with the id that `_new_id` returns. -/
def spawnChild (sink : Event → Except Exc Unit) (newId parentId : Str) (birth : Birth) :
    Action Domains Exc SecurityDomain := do
  R.validateIdentityBinding birth
  let parent ← requireActive parentId (← .read)
  let domain ← R.child parent.toCharter newId birth
  .update (put domain)
  sink (domainEvent "security_domain_spawned" domain.toCharter)
  return domain

/-- A change of the domain with this id, in place. -/
def modify (domainId : Str) (f : SecurityDomain → SecurityDomain) (domains : Domains) : Domains :=
  domains.map fun d => if d.domainId = domainId then f d else d

/-- `transition_goal(domain_id, next_goal=..., reason=..., approved_by=...)`. -/
def transitionGoal (sink : Event → Except Exc Unit) (domainId nextGoal reason approvedBy : Str) :
    Action Domains Exc GoalTransition := do
  raiseIf (Str.strip reason = [] ∨ Str.strip approvedBy = [])
    (securityDomainError "goal transition requires reason and trusted approver")
  let domain ← requireActive domainId (← .read)
  let nextHash ← hashIntent R.crypto nextGoal
  let transition : GoalTransition :=
    ⟨domain.transitions.length + 1, domain.currentIntentHash, nextHash, reason, approvedBy⟩
  .update (modify domainId fun d =>
    { d with currentIntentHash := nextHash, transitions := d.transitions ++ [transition] })
  sink [("event", .str "security_domain_goal_transition".toList),
    ("domain_id", .str domain.domainId),
    ("root_domain_id", .str domain.rootDomainId),
    ("domain_fingerprint", .str domain.domainFingerprint),
    ("sequence", .int transition.sequence),
    ("previous_intent_hash", .str transition.previousIntentHash),
    ("next_intent_hash", .str transition.nextIntentHash),
    ("reason", .str transition.reason),
    ("approved_by", .str transition.approvedBy)]
  return transition

/-- The mark of a frozen domain. -/
def freezeDomain (reason : Str) (d : SecurityDomain) : SecurityDomain :=
  { d with frozen := true, freezeReason := some reason }

/-- `freeze(domain_id, reason)`. -/
def freeze (sink : Event → Except Exc Unit) (domainId reason : Str) : Action Domains Exc Unit := do
  let domain ← get domainId (← .read)
  .update (modify domainId (freezeDomain reason))
  sink [("event", .str "security_domain_frozen".toList),
    ("domain_id", .str domain.domainId),
    ("root_domain_id", .str domain.rootDomainId),
    ("domain_fingerprint", .str domain.domainFingerprint),
    ("reason", .str reason)]

/-- The locked section of `freeze_root`. -/
def freezeFamily (rootId reason : Str) (domains : Domains) : Domains :=
  domains.map fun d => if d.rootDomainId = rootId then freezeDomain reason d else d

/-- `freeze_root(root_domain_id, reason)`. -/
def freezeRoot (sink : Event → Except Exc Unit) (rootId reason : Str) :
    Action Domains Exc Unit := do
  let domains ← .read
  let frozenIds := (domains.filter (·.rootDomainId = rootId)).map (·.domainId)
  .update (freezeFamily rootId reason)
  sink [("event", .str "security_domain_root_frozen".toList),
    ("root_domain_id", .str rootId),
    ("domain_ids", .arr ((frozenIds.mergeSort (· ≤ ·)).map .str)),
    ("reason", .str reason)]

/-! ## What dispatchers ask -/

/-- `assert_capabilities(domain_id, requested)`. -/
def assertCapabilities (domainId : Str) (requested : Finset Capability) (domains : Domains) :
    Except Exc Unit := do
  let domain ← requireActive domainId domains
  raiseIf (¬ requested ⊆ domain.capabilityCeiling)
    (securityDomainError "dispatch requested authority outside domain ceiling")

/-- `parent_capabilities(domain_id)`. -/
def parentCapabilities (domainId : Str) (domains : Domains) :
    Except Exc (Option (Finset Capability)) := do
  let domain ← requireActive domainId domains
  match domain.parentDomainId with
  | none => return none
  | some parentId =>
    let parent ← get parentId domains
    return some parent.capabilityCeiling

/-- `trusted_context(domain_id)`. -/
def trustedContext (domainId : Str) (domains : Domains) : Except Exc TrustedExecutionContext := do
  let domain ← requireActive domainId domains
  return {
    actor := domain.actor
    provenance := domain.provenance
    securityContextId := "root-domain:" ++ domain.rootDomainId
    domainId := some domain.domainId
    rootDomainId := some domain.rootDomainId
    parentDomainId := domain.parentDomainId
    initialIntentHash := some domain.initialIntentHash
    initialCommandHash := domain.initialCommandHash
    modelId := domain.modelId
    modelIdHash := domain.modelIdHash
    domainFingerprint := some domain.domainFingerprint
    spawnDepth := domain.spawnDepth }

/-- The host of a URL, in lower case and without trailing dots. -/
def hostOf (L : Urllib) (url : Str) : Except Exc Str := do
  let parsed ← orRaise (L.urlsplit url) (Exc.builtin .valueError)
  return Str.rstrip (· == '.') (L.unicode.lower (L.hostname parsed))

/-- `assert_egress(domain_id, url)`. -/
def assertEgress (L : Urllib) (domainId url : Str) (domains : Domains) : Except Exc Unit := do
  let domain ← requireActive domainId domains
  let hostname ← hostOf L url
  raiseIf (hostname = [] ∨ hostname ∉ domain.egressHosts)
    (securityDomainError "egress destination is outside domain authority")

/-- The event of `record_dispatch`. -/
def dispatchEvent (C : Crypto) (domain : SecurityDomain) (capability : Capability) (resource : Str)
    (command : List Str) : Event :=
  [("event", .str "security_domain_dispatch".toList),
    ("domain_id", .str domain.domainId),
    ("root_domain_id", .str domain.rootDomainId),
    ("domain_fingerprint", .str domain.domainFingerprint),
    ("model_id_hash", optionJson domain.modelIdHash),
    ("current_intent_hash", .str domain.currentIntentHash),
    ("initial_command_hash", optionJson domain.initialCommandHash),
    ("command_hash", .str (hashCommand C command)),
    ("capability", .str capability.value.toList),
    ("resource", .str resource)]

/-- The event of `record_broker_event`. -/
def brokerEvent (domain : SecurityDomain) (broker operation : Str) (allowed : Bool)
    (detail : Event) : Event :=
  [("event", .str "security_domain_broker".toList),
    ("domain_id", .str domain.domainId),
    ("root_domain_id", .str domain.rootDomainId),
    ("domain_fingerprint", .str domain.domainFingerprint),
    ("model_id_hash", optionJson domain.modelIdHash),
    ("broker", .str broker),
    ("operation", .str operation),
    ("allowed", .bool allowed),
    ("detail", .obj detail)]

end Registry

end Bulldog.Domain
