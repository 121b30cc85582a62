import Bulldog.Dispatch.Host

/-!
# The runtime

`BulldogRuntime` of `runtime.py`: the binding of the command to the action, the engine's verdict,
the snapshot of the project, its scan, and the sandbox.
-/

namespace Bulldog.Dispatch

open Domain

/-- `BulldogRuntime`, less its trace and history. -/
structure BulldogRuntime where
  crypto : Crypto
  engine : BulldogEngine
  malwareScanRequired : Bool
  /-- `malware_scanner is not None`. -/
  hasScanner : Bool
  requireFullArgvBinding : Bool

/-- `ExecutionResult`, less the sandbox's attestation and timings. -/
structure ExecutionResult where
  evaluation : Evaluation
  executed : Bool
  sandboxed : Bool
  reviewRequired : Bool
  returncode : Option ℤ
  stdout : Str
  stderr : Str
  malwareScanPerformed : Bool
  malwareClean : Option Bool
  malwareDetections : List Str
  traceState : BullTraceState

/-- The result of a command that was not executed. -/
def ExecutionResult.refused (evaluation : Evaluation) (stderr : String) (trace : BullTraceState) :
    ExecutionResult where
  evaluation := evaluation
  executed := false
  sandboxed := false
  reviewRequired := false
  returncode := none
  stdout := []
  stderr := stderr.toList
  malwareScanPerformed := false
  malwareClean := none
  malwareDetections := []
  traceState := trace

namespace BulldogRuntime

variable (rt : BulldogRuntime) (env : Env)

/-- The two canonical executables that `_binding_failure` compares. -/
def executables (action : ActionRequest) (command : List Str) : Except Exc (Str × Str) := do
  let authorized ← Canonicalizer.canonicalizeFilesystemResource rt.engine.urllib action.resource
  let requested ← Canonicalizer.canonicalizeFilesystemResource rt.engine.urllib (command.headD [])
  return (authorized, requested)

/-- `_binding_failure(action, command)`. -/
def bindingFailure (action : ActionRequest) (command : List Str) : Option String :=
  let expected := (action.metadata.get "authorized_argv_hash").getD []
  if action.capability ≠ .processExec then
    some "runtime command execution requires process.exec capability"
  else if command = [] then some "runtime command cannot be empty"
  else match rt.executables action command with
    | .error e => some ("invalid execution binding: " ++ env.str e)
    | .ok (authorized, requested) =>
      if requested ≠ authorized then
        some ("runtime executable does not match authorized resource: " ++
          String.ofList requested ++ " != " ++ String.ofList authorized)
      else if rt.requireFullArgvBinding ∧ expected = [] then
        some "runtime requires a host-authorized full argv binding"
      else if expected ≠ [] ∧ hashCommand rt.crypto command ≠ expected then
        some "runtime argv does not match host-authorized argv"
      else none

/-- `_deny_binding(action, reason)`. -/
def denyBinding (action : ActionRequest) (reason : String) : Action World Exc ExecutionResult := do
  let evaluation : Evaluation := ⟨.deny, 1, [reason], true⟩
  emit (.evaluate .deny)
  emit .resolveDeny
  env.append action evaluation
  return .refused evaluation reason (← traceState)

/-- A refusal for malware. -/
def blockMalware (evaluation : Evaluation) (stderr : String) (performed : Bool)
    (clean : Option Bool) (detections : List Str) : Action World Exc ExecutionResult := do
  emit .scanMalware
  emit .blockMalware
  return { ExecutionResult.refused evaluation stderr (← traceState) with
    malwareScanPerformed := performed
    malwareClean := clean
    malwareDetections := detections }

/-- The sandbox, on a snapshot that is still as it was scanned. -/
def runSandbox (evaluation : Evaluation) (command : List Str) (root : Str) :
    Action World Exc ExecutionResult := do
  record (.sandboxRun command root)
  let result ← env.sandboxRun command root
  emit (.execute true true)
  return { ExecutionResult.refused evaluation "" (← traceState) with
    executed := true
    sandboxed := true
    returncode := some result.returncode
    stdout := result.stdout
    stderr := result.stderr
    malwareScanPerformed := true
    malwareClean := some true }

/-- After a clean scan: the check that the snapshot has not changed, and the sandbox. -/
def runScanned (evaluation : Evaluation) (command : List Str) (snapshot : Snapshot) :
    Action World Exc ExecutionResult := do
  emit .scanClean
  let hash ← env.hashTree snapshot.snapshotRoot
  record (.hashTree snapshot.snapshotRoot hash)
  if hash ≠ snapshot.snapshotHash then
    return { ExecutionResult.refused evaluation "execution snapshot changed after malware scan"
        (← traceState) with
      malwareScanPerformed := true
      malwareClean := some true }
  else runSandbox env evaluation command snapshot.snapshotRoot

/-- The scan. -/
def runAdmitted (evaluation : Evaluation) (command : List Str) (snapshot : Snapshot) :
    Action World Exc ExecutionResult :=
  if !rt.malwareScanRequired then
    .raise (.raised .runtimeError "formal runtime instrumentation requires malware scanning")
  else if !rt.hasScanner then
    blockMalware evaluation "malware scan required but scanner unavailable" false none []
  else match env.scanProject snapshot.snapshotRoot with
    | .error e => blockMalware evaluation ("malware scan failed closed: " ++ env.str e) true none []
    | .ok scan => do
      record (.scan snapshot.snapshotRoot scan)
      if !scan.clean then
        blockMalware evaluation "malware detection blocked execution" true (some false)
          scan.detections
      else runScanned env evaluation command snapshot

/-- The body of the `try` after the snapshot. -/
def runSnapshot (evaluation : Evaluation) (command : List Str) (snapshot : Snapshot) :
    Action World Exc ExecutionResult :=
  match env.buildManifest snapshot.snapshotRoot with
  | .error e =>
    if e.cls = .filesystemManifestViolation then do
      return .refused evaluation ("execution snapshot manifest rejected: " ++ env.str e)
        (← traceState)
    else .raise e
  | .ok () => do
    record (.manifest snapshot.snapshotRoot)
    rt.runAdmitted env evaluation command snapshot

/-- The part of `execute` after an `ALLOW` or `SANDBOX`. -/
def runApproved (evaluation : Evaluation) (command : List Str) (projectRoot : Str) :
    Action World Exc ExecutionResult := do
  let projectRoot ← env.resolve projectRoot
  match env.createSnapshot projectRoot with
  | .error e =>
    if e.cls = .snapshotViolation then
      return .refused evaluation ("project admission/snapshot rejected: " ++ env.str e)
        (← traceState)
    else .raise e
  | .ok snapshot =>
    record (.snapshot snapshot)
    .ensuring (rt.runSnapshot env evaluation command snapshot) (do env.destroySnapshot snapshot)

/-- `engine.evaluate(action)`. -/
def evaluate (engine : BulldogEngine) (action : ActionRequest) : Action World Exc Evaluation := do
  let evaluation ← .zoom World.history (fun history w => { w with history })
    (engine.evaluate env.advise env.append action)
  record (.evaluated action evaluation)
  return evaluation

/-- Whether the parent holds the capability of an action. -/
def parentHas (action : ActionRequest) : Bool :=
  action.parentCapabilities.any (action.capability ∈ ·)

/-- The part of `execute` after the verdict. -/
def executeVerdict (evaluation : Evaluation) (command : List Str) (projectRoot : Str) :
    Action World Exc ExecutionResult := do
  emit (.evaluate evaluation.decision)
  match evaluation.decision with
  | .deny =>
    emit .resolveDeny
    return .refused evaluation "execution denied by BULL policy" (← traceState)
  | .escalate =>
    emit .resolveEscalate
    return { ExecutionResult.refused evaluation "execution requires review" (← traceState) with
      reviewRequired := true }
  | .allow | .sandbox => rt.runApproved env evaluation command projectRoot

/-- `execute(action, command, project_root=...)`. -/
def execute (action : ActionRequest) (command : List Str) (projectRoot : Str) :
    Action World Exc ExecutionResult := do
  resetTrace (parentHas action)
  match rt.bindingFailure env action command with
  | some reason => denyBinding env action reason
  | none =>
    let evaluation ← evaluate env rt.engine action
    rt.executeVerdict env evaluation command projectRoot

end BulldogRuntime

end Bulldog.Dispatch
