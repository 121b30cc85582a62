import Bulldog.Dispatch.Runtime

/-!
# The dispatchers

`CapabilityDispatcher` of `dispatcher.py` and the `ProductionDispatcher` of `profiles.py` that
overrides three of its methods. Both are one definition here, with the kind of the dispatcher as a
parameter.
-/

namespace Bulldog.Dispatch

open Domain

/-! ## The egress broker -/

/-- `EgressBroker`. -/
structure EgressBroker where
  allowedHosts : Finset Str
  allowedMethods : Finset Str
  requireHttps : Bool

/-- `raise EgressDenied(message)`. -/
def egressDenied (message : String) : Exc := .raised .egressDenied message

/-- What `EgressBroker.fetch` does before it resolves the host: the host, and the port. -/
def EgressBroker.admit (broker : EgressBroker) (L : Urllib) (method url : Str) :
    Except Exc (Str × ℕ) := do
  raiseIf (L.unicode.upper method ∉ broker.allowedMethods) (egressDenied "HTTP method is not granted")
  let parsed ← orRaise (L.urlsplit url) (Exc.builtin .valueError)
  raiseIf (parsed.scheme ≠ "http".toList ∧ parsed.scheme ≠ "https".toList)
    (egressDenied "unsupported URL scheme")
  raiseIf (broker.requireHttps ∧ parsed.scheme ≠ "https".toList) (egressDenied "HTTPS is required")
  raiseIf (Urllib.hasCredentials parsed) (egressDenied "URL credentials are forbidden")
  let hostname := Str.rstrip (· == '.') (L.unicode.lower (L.hostname parsed))
  raiseIf (hostname ∉ broker.allowedHosts) (egressDenied "destination host is not granted")
  -- port 0 counts as none
  let port ← orRaise (Urllib.port parsed) (Exc.builtin .valueError)
  let default := if parsed.scheme = "https".toList then 443 else 80
  return (hostname, if port.getD 0 = 0 then default else port.getD 0)

/-- `EgressBroker.fetch(method=method, url=url)`. -/
def EgressBroker.fetch (broker : EgressBroker) (L : Urllib) (env : Env) (method url : Str) :
    Action World Exc EgressResponse := do
  record (.fetch method url)
  let (hostname, port) ← broker.admit L method url
  let address ← env.resolveHost hostname port
  record (.connect hostname)
  env.respond hostname address port

/-! ## Requests and permits -/

/-- `DispatchRequest`. -/
structure DispatchRequest where
  proposal : Proposal
  trusted : TrustedExecutionContext
  grantedCapabilities : Finset Capability
  parentCapabilities : Option (Finset Capability)
  domainId : Option Str
  authorizedCommand : Option (List Str)

/-- Which of the two classes a dispatcher is of. -/
inductive Kind where
  | capability
  /-- With the `_permit_key` of its `ProductionRuntime`. -/
  | production (permitKey : Bytes)

/-- A dispatcher. -/
structure Dispatcher where
  kind : Kind
  registry : Option Registry
  runtime : BulldogRuntime
  hasSecretBroker : Bool
  egressBroker : Option EgressBroker
  freezeOnViolation : Bool

/-- `_ExecutionPermit`. -/
structure ExecutionPermit where
  token : Str
  argvHash : Str
  actionHash : Str
  deriving DecidableEq

/-- What a broker operation asks for. -/
inductive BrokerCall where
  | network (method : Str)
  | secret
  deriving DecidableEq

/-- Whether an operation may be routine: a `network.request` whose method is `GET` or `HEAD`. -/
def BrokerCall.mayBeRoutine : BrokerCall → Bool
  | .network method => method = "GET".toList || method = "HEAD".toList
  | .secret => false

/-- `_action_hash(action)`. -/
def actionHash (C : Crypto) (action : ActionRequest) : Str :=
  hexdigest (C.sha256 (encodeUtf8 (['\x00'].intercalate [action.actor, action.operation,
    action.resource, action.capability.value.toList, (action.metadata.get "domain_id").getD [],
    (action.metadata.get "root_domain_id").getD []])))

/-- The token of a permit. -/
def permitToken (C : Crypto) (key : Bytes) (actionHash argvHash : Str) : Str :=
  hexdigest (C.hmac key (encodeUtf8 (actionHash ++ ':' :: argvHash)))

/-- `_mint_dispatch_permit(action, command)`. -/
def mintDispatchPermit (C : Crypto) (key : Bytes) (action : ActionRequest) (command : List Str) :
    ExecutionPermit where
  token := permitToken C key (actionHash C action) (hashCommand C command)
  argvHash := hashCommand C command
  actionHash := actionHash C action

/-- `_valid_permit(action, command, permit)`. -/
def validPermit (C : Crypto) (key : Bytes) (action : ActionRequest) (command : List Str)
    (permit : ExecutionPermit) : Bool :=
  permit.argvHash = hashCommand C command && permit.actionHash = actionHash C action &&
    permit.token = permitToken C key (actionHash C action) (hashCommand C command)

/-- `ProductionRuntime.execute(action, command, project_root=..., permit=permit)`. -/
def productionExecute (rt : BulldogRuntime) (key : Bytes) (env : Env) (action : ActionRequest)
    (command : List Str) (projectRoot : Str) (permit : ExecutionPermit) :
    Action World Exc ExecutionResult :=
  if !validPermit rt.crypto key action command permit then do
    resetTrace (BulldogRuntime.parentHas action)
    BulldogRuntime.denyBinding env action
      "production runtime requires a dispatcher-minted execution permit"
  else rt.execute env action command projectRoot

namespace Dispatcher

variable (D : Dispatcher) (env : Env)

/-- `except SecurityDomainError as exc: raise DispatchDenied(str(exc)) from exc`. -/
def denying {α : Type} (m : Action World Exc α) : Action World Exc α :=
  except .securityDomainError m fun e => .raise (.wrapped .dispatchDenied "" e)

/-! ## Authorisation -/

/-- `_trusted_context_for(request)`. -/
def trustedContextFor (request : DispatchRequest) :
    Action World Exc (TrustedExecutionContext × Option (Finset Capability)) :=
  match D.registry with
  | none => pure (request.trusted, request.parentCapabilities)
  | some _ => do
    let domainId := request.domainId.getD []
    raiseIf (domainId = [])
      (dispatchDenied "domain-enabled dispatcher requires a security domain")
    denying do
      ask env (Registry.assertCapabilities domainId request.grantedCapabilities)
      let trusted ← ask env (Registry.trustedContext domainId)
      let parent ← ask env (Registry.parentCapabilities domainId)
      return (trusted, parent)

/-- `canonicalize(request)`. -/
def canonicalize (request : DispatchRequest) : Action World Exc ActionRequest := do
  let (trusted, parent) ← D.trustedContextFor env request
  Canonicalizer.canonicalizeAction D.runtime.engine.urllib request.proposal trusted
    request.grantedCapabilities parent

/-- `production_mode`. -/
def productionMode : Bool :=
  match D.kind with
  | .capability => false
  | .production _ => true

/-- The executable of a command, in its canonical form. -/
def executable (command : List Str) : Except Exc Str :=
  match Canonicalizer.canonicalizeFilesystemResource D.runtime.engine.urllib (command.headD []) with
  | .ok executable => .ok executable
  | .error e => .error (.wrapped .dispatchDenied "invalid command executable: " e)

/-- `_bind_execution(action, command, request)`. -/
def bindExecution (action : ActionRequest) (command : List Str) (request : DispatchRequest) :
    Except Exc ActionRequest := do
  raiseIf (action.capability ≠ .processExec)
    (dispatchDenied "command dispatch requires process.exec authority")
  raiseIf (command = []) (dispatchDenied "command cannot be empty")
  let executable ← D.executable command
  raiseIf (executable ≠ action.resource)
    (dispatchDenied ("command executable does not match authorized resource: " ++
      String.ofList executable ++ " != " ++ String.ofList action.resource))
  raiseIf (D.productionMode ∧ request.authorizedCommand = none)
    (dispatchDenied "production command dispatch requires host-authorized full argv")
  match request.authorizedCommand with
  | none => return action
  | some authorized =>
    raiseIf (command ≠ authorized)
      (dispatchDenied "command argv does not match host-authorized argv")
    let metadata := action.metadata.set "authorized_argv_hash" (hashCommand D.runtime.crypto authorized)
    let metadata := metadata.set "actual_argv_hash" (hashCommand D.runtime.crypto command)
    return { action with metadata }

/-- `_evaluate_broker_action(action)`. -/
def evaluateBrokerAction (action : ActionRequest) : Action World Exc ActionRequest := do
  .onlyIf D.productionMode env.verifyTrustedState
  let evaluation ← BulldogRuntime.evaluate env D.runtime.engine action
  raiseIf (evaluation.decision ≠ .allow)
    (dispatchDenied ("broker operation requires explicit ALLOW; got " ++
      evaluation.decision.value ++ ": " ++ "; ".intercalate evaluation.reasons))
  return action

/-- `canonicalize_resource(...)`, with its errors as denials. -/
def expectedResource (operation resource : Str) : Except Exc Str :=
  match Canonicalizer.canonicalizeResource D.runtime.engine.urllib operation resource with
  | .error e =>
    if e.cls = .actionCanonicalizationError then .error (.wrapped .dispatchDenied "" e) else .error e
  | .ok resource => .ok resource

/-- `_authorize_legacy_broker_action(...)`. -/
def authorizeLegacyBrokerAction (request : Option DispatchRequest) (expected : Capability)
    (resource : Str) : Action World Exc ActionRequest := do
  let request ← orRaise request
    (dispatchDenied "broker operation requires an authorized DispatchRequest")
  let action ← D.canonicalize env request
  raiseIf (action.capability ≠ expected)
    (dispatchDenied ("broker request capability mismatch: expected " ++ expected.value ++ ", got " ++
      action.capability.value))
  let canonical ← D.expectedResource action.operation resource
  raiseIf (action.resource ≠ canonical)
    (dispatchDenied "broker resource does not match authorized resource")
  D.evaluateBrokerAction env action

/-- What `_authorize_domain_broker_action` asks the registry. -/
def domainAuthority (domainId : Str) (expected : Capability) : Action World Exc
    (Finset Capability × TrustedExecutionContext × Option (Finset Capability)) :=
  denying do
    let domain ← ask env (Registry.requireActive domainId)
    raiseIf (expected ∉ domain.capabilityCeiling)
      (securityDomainError ("domain lacks " ++ expected.value ++ " authority"))
    let trusted ← ask env (Registry.trustedContext domainId)
    let parent ← ask env (Registry.parentCapabilities domainId)
    return (domain.capabilityCeiling, trusted, parent)

/-- `_authorize_domain_broker_action(...)`, where there is a registry. -/
def authorizeDomainBrokerAction (domainId : Str) (proposal : Proposal) (expected : Capability) :
    Action World Exc ActionRequest := do
  let (ceiling, trusted, parent) ← domainAuthority env domainId expected
  let action ← Canonicalizer.canonicalizeAction D.runtime.engine.urllib proposal trusted ceiling
    parent
  raiseIf (action.capability ≠ expected)
    (dispatchDenied ("domain broker capability mismatch: expected " ++ expected.value ++ ", got " ++
      action.capability.value))
  D.evaluateBrokerAction env action

/-! ## Execution -/

/-- `record_dispatch(domain_id, ...)`. -/
def recordDispatch (domainId : Str) (action : ActionRequest) (command : List Str) :
    Action World Exc Unit :=
  denying do
    let domain ← ask env (Registry.requireActive domainId)
    let event := Registry.dispatchEvent D.runtime.crypto domain action.capability action.resource
      command
    env.sink event
    record (.recorded (← .read).domains domain event)

/-- The runtime's `execute`, with a permit where it wants one. -/
def runtimeExecute (action : ActionRequest) (command : List Str) (projectRoot : Str) :
    Action World Exc ExecutionResult :=
  match D.kind with
  | .capability => D.runtime.execute env action command projectRoot
  | .production key => productionExecute D.runtime key env action command projectRoot
      (mintDispatchPermit D.runtime.crypto key action command)

/-- Whether the evaluation is a violation: a hard block, or a reason of the session guard. -/
def isViolation (evaluation : Evaluation) : Bool :=
  evaluation.hardBlock || evaluation.reasons.any (·.startsWith "session behavior:")

/-- The end of `execute`, which freezes the family of a domain after a violation. -/
def punish (domainId : Str) (evaluation : Evaluation) : Action World Exc Unit :=
  .onlyIf (isViolation evaluation) do
    let domain ← ask env (Registry.get domainId)
    access env (Registry.freezeRoot env.sink domain.rootDomainId
      (if evaluation.hardBlock then "hard policy block" else "cross-agent behavioral violation"))

/-- `execute(request, command, project_root=...)`. -/
def execute (request : DispatchRequest) (command : List Str) (projectRoot : Str) :
    Action World Exc ExecutionResult := do
  .onlyIf D.productionMode env.verifyTrustedState
  let action ← D.canonicalize env request
  let action ← D.bindExecution action command request
  .onlyIf D.registry.isSome (D.recordDispatch env (request.domainId.getD []) action command)
  let result ← D.runtimeExecute env action command projectRoot
  .onlyIf (D.registry.isSome ∧ D.freezeOnViolation)
    (punish env (request.domainId.getD []) result.evaluation)
  return result

/-! ## Brokers -/

/-- `record_broker_event(domain_id, ...)`. -/
def recordBrokerEvent (domainId broker operation : Str) (allowed : Bool) (detail : Event) :
    Action World Exc Unit := do
  let domain ← ask env (Registry.requireActive domainId)
  env.sink (Registry.brokerEvent domain broker operation allowed detail)

/-- `issue_domain_secret_grant(...)`. -/
def issueDomainSecretGrant (domainId : Str) (allowedNames : Finset Str) (maxUses : ℤ) :
    Action World Exc SecretGrant := do
  raiseIf (!D.hasSecretBroker) (dispatchDenied "secret broker is not configured")
  raiseIf (!D.registry.isSome)
    (dispatchDenied "domain secret grants require a security domain registry")
  denying do
    let domain ← ask env (Registry.requireActive domainId)
    raiseIf (Capability.credentialRead ∉ domain.capabilityCeiling)
      (securityDomainError "domain lacks credential.read authority")
  record (.issueGrant allowedNames domainId)
  let grant ← env.issueGrant
  recordBrokerEvent env domainId "secret" "grant" true
    [("allowed_names", sortedHosts allowedNames), ("max_uses", .int maxUses)]
  return grant

/-- The recheck of a domain before an approved effect. -/
def recheckDomain (action : ActionRequest) : Action World Exc Unit :=
  .onlyIf D.registry.isSome do
    let domainId ← orRaise (action.metadata.get "domain_id") (Exc.builtin .keyError)
    let _ ← ask env (Registry.requireActive domainId)

/-- `_perform_broker_effect(action, ...)`. -/
def performBrokerEffect {α : Type} (action : ActionRequest) (call : BrokerCall) (approval : Bool)
    (effect : Action World Exc α) : Action World Exc α :=
  match D.kind with
  | .capability => do
    raiseIf approval (dispatchDenied "credential approval requires ProductionDispatcher")
    effect
  | .production _ => do
    let gate ← env.approvalGate
    if call.mayBeRoutine ∧ action.resource ∈ gate.routineEgressUrls then
      raiseIf approval (dispatchDenied "routine operation does not consume an approval")
      effect
    else
      let requestId ← env.consume
      let result ← .handle (do
          env.verifyTrustedState
          let current ← env.currentDigest
          raiseIf (current ≠ gate.policyDigest) (dispatchDenied "approval policy changed before effect")
          D.recheckDomain env action
          effect)
        fun e => do
          env.finish requestId "uncertain"
          .raise e
      env.finish requestId "completed"
      return result

/-- A broker effect whose outcome is recorded. -/
def brokered {α : Type} (domainId : Option Str) (broker operation : Str) (failed : Exc → Event)
    (done : α → Event) (m : Action World Exc α) : Action World Exc α := do
  let value ← .handle m fun e => do
    match D.registry, domainId with
    | some _, some domainId =>
      recordBrokerEvent env domainId broker operation false (failed e)
      .raise e
    | _, _ => .raise e
  match D.registry, domainId with
  | some _, some domainId => do
    recordBrokerEvent env domainId broker operation true (done value)
    return value
  | _, _ => return value

/-- `type(exc).__name__`. -/
def excName (e : Exc) : Str :=
  match e.cls with
  | .dispatchDenied => "DispatchDenied"
  | .egressDenied => "EgressDenied"
  | .approvalError => "ApprovalError"
  | _ => "Exception"

/-- The authorised name of `get_secret` and its sandbox. -/
def authorizeSecret (name : Str) (sandboxId domainId : Option Str)
    (request : Option DispatchRequest) : Action World Exc (ActionRequest × Option Str) :=
  match D.registry with
  | some _ => do
    let domainId := domainId.getD []
    raiseIf (domainId = [])
      (dispatchDenied "domain-enabled dispatcher requires domain_id for secrets")
    let _ ← denying (ask env (Registry.requireActive domainId))
    raiseIf (sandboxId.any (· ≠ domainId))
      (dispatchDenied "caller cannot select another domain's sandbox identity")
    let action ← D.authorizeDomainBrokerAction env domainId
      ⟨"brokered secret access", "secret.get", name⟩ .credentialRead
    return (action, some domainId)
  | none => do
    let action ← D.authorizeLegacyBrokerAction env request .credentialRead name
    return (action, sandboxId)

/-- `get_secret(token=..., name=..., ...)`. -/
def getSecret (token name : Str) (sandboxId domainId : Option Str)
    (request : Option DispatchRequest) (approval : Bool) : Action World Exc Str := do
  raiseIf (!D.hasSecretBroker) (dispatchDenied "secret broker is not configured")
  let (action, sandboxId) ← D.authorizeSecret env name sandboxId domainId request
  D.brokered env domainId "secret" "get" (fun e => [("name", .str name), ("error_type", .str (excName e))])
    (fun _ => [("name", .str name)])
    (D.performBrokerEffect env action .secret approval do
      record (.requestSecret token action.resource sandboxId)
      env.requestSecret)

/-- The check of the domain's hosts in `fetch_egress`. -/
def checkEgress (domainId url method : Str) : Action World Exc Unit :=
  except .securityDomainError (ask env (Registry.assertEgress D.runtime.engine.urllib domainId url)) fun e => do
    except .securityDomainError
      (recordBrokerEvent env domainId "egress" method false
        [("url", .str url), ("reason", .str (env.str e).toList)])
      fun _ => pure ()
    .raise (.wrapped .dispatchDenied "" e)

/-- The operation of a method: `head`, `fetch` or `post`. -/
def egressOperation (method : Str) : Str :=
  if method = "HEAD".toList then "head" else if method = "GET".toList then "fetch" else "post"

/-- The capability that a method requires. -/
def egressCapability (method : Str) : Capability :=
  if method = "GET".toList ∨ method = "HEAD".toList then .networkOutbound else .networkPost

/-- The authorised action of `fetch_egress`. -/
def authorizeEgress (url method : Str) (domainId : Option Str) (request : Option DispatchRequest) :
    Action World Exc ActionRequest :=
  match D.registry with
  | some _ => do
    let domainId := domainId.getD []
    raiseIf (domainId = [])
      (dispatchDenied "domain-enabled dispatcher requires domain_id for egress")
    D.checkEgress env domainId url method
    D.authorizeDomainBrokerAction env domainId
      ⟨"brokered network egress", egressOperation method, url⟩ (egressCapability method)
  | none => D.authorizeLegacyBrokerAction env request (egressCapability method) url

/-- `fetch_egress(url=url, method=method, ...)`. -/
def fetchEgress (url method : Str) (domainId : Option Str) (request : Option DispatchRequest)
    (approval : Bool) : Action World Exc EgressResponse := do
  let broker ← orRaise D.egressBroker (dispatchDenied "egress broker is not configured")
  let method := D.runtime.engine.urllib.unicode.upper method
  let action ← D.authorizeEgress env url method domainId request
  D.brokered env domainId "egress" method
    (fun e => [("url", .str url), ("error_type", .str (excName e))])
    (fun response => [("url", .str url), ("status", .int response.status)])
    (D.performBrokerEffect env action (.network method) approval
      (broker.fetch D.runtime.engine.urllib env method action.resource))

end Dispatcher

end Bulldog.Dispatch
