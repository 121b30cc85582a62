import Bulldog.Domain.Registry
import Bulldog.Engine
import Bulldog.Trace

/-!
# The host of a dispatcher

The state that a dispatcher and its runtime work on, and what the rest of the host answers during
one call. Every request to the host that matters outside is logged with its answer. Other threads
use the registry at the same time: before each access of a call they may bring the domains to
another state.
-/

namespace Bulldog.Dispatch

open Domain

/-- `Snapshot`. -/
structure Snapshot where
  snapshotRoot : Str
  snapshotHash : Str
  deriving DecidableEq

/-- `ScanResult` of a project. -/
structure ScanResult where
  clean : Bool
  detections : List Str
  deriving DecidableEq

/-- `SandboxResult`, less its attestation and timings. -/
structure SandboxResult where
  returncode : ℤ
  stdout : Str
  stderr : Str
  deriving DecidableEq

/-- `EgressResponse`. -/
structure EgressResponse where
  status : ℕ
  headers : List (Str × Str)
  body : Bytes
  deriving DecidableEq

/-- `SecretGrant`, less its expiry. -/
structure SecretGrant where
  token : Str
  allowedNames : Finset Str
  sandboxId : Option Str
  maxUses : ℤ
  deriving DecidableEq

/-- The signed approval configuration that `approval_gate` returns. -/
structure GateView where
  routineEgressUrls : List Str
  policyDigest : Str
  deriving DecidableEq

/-- What is logged of a call. -/
inductive LogEntry where
  /-- `record_dispatch` found this one of the domains active and passed the event on. -/
  | recorded (domains : Domains) (domain : SecurityDomain) (event : Event)
  /-- `engine.evaluate` returned. -/
  | evaluated (action : ActionRequest) (evaluation : Evaluation)
  /-- `create_snapshot` returned. -/
  | snapshot (snapshot : Snapshot)
  /-- `build_manifest` returned. -/
  | manifest (root : Str)
  /-- `scan_project` returned. -/
  | scan (root : Str) (result : ScanResult)
  /-- `hash_tree` returned. -/
  | hashTree (root hash : Str)
  /-- `sandbox.run` was called. -/
  | sandboxRun (argv : List Str) (projectRoot : Str)
  /-- `egress_broker.fetch` was called. -/
  | fetch (method url : Str)
  /-- The egress broker connected to a host. -/
  | connect (hostname : Str)
  /-- `request_secret` was called. -/
  | requestSecret (token name : Str) (sandboxId : Option Str)
  /-- `secret_broker.issue_grant` was called. -/
  | issueGrant (names : Finset Str) (sandboxId : Str)

/-- The state of the host. -/
structure World where
  domains : Domains
  history : History
  trace : RuntimeTraceVerifier
  log : List LogEntry
  /-- The accesses to the registry so far. -/
  accesses : ℕ

/-- What the rest of the host answers during one call. -/
structure Env where
  /-- What other threads do to the domains before each access of the call. -/
  others : ℕ → Domains → Domains
  /-- `str(exception)`. -/
  str : Exc → String
  /-- The registry's ledger and audit callback. -/
  sink : Event → Except Exc Unit
  /-- `advisory.evaluate`. -/
  advise : ActionRequest → Except Exc Advisory
  /-- The engine's ledger. -/
  append : ActionRequest → Evaluation → Except Exc Unit
  /-- `verify_trusted_state()`. -/
  verifyTrustedState : Except Exc Unit
  /-- `Path(project_root).resolve(strict=True)`. -/
  resolve : Str → Except Exc Str
  createSnapshot : Str → Except Exc Snapshot
  buildManifest : Str → Except Exc Unit
  scanProject : Str → Except Exc ScanResult
  hashTree : Str → Except Exc Str
  sandboxRun : List Str → Str → Except Exc SandboxResult
  destroySnapshot : Snapshot → Except Exc Unit
  /-- `_resolve_public_addresses(hostname, port)`, the first of them. -/
  resolveHost : Str → ℕ → Except Exc Str
  /-- The answer of a host that the egress broker connects to, at this address and port. -/
  respond : Str → Str → ℕ → Except Exc EgressResponse
  requestSecret : Except Exc Str
  issueGrant : Except Exc SecretGrant
  /-- `runtime.approval_gate()`. -/
  approvalGate : Except Exc GateView
  /-- `gate.consume(binding, approval)`. -/
  consume : Except Exc Str
  /-- The digest of the policy bundle, when it is loaded again. -/
  currentDigest : Except Exc Str
  /-- `gate.finish(request_id, outcome)`. -/
  finish : Str → String → Except Exc Unit

/-- Log an entry. -/
def record (entry : LogEntry) : Action World Exc Unit :=
  .update fun w => { w with log := w.log ++ [entry] }

/-- What other threads do before the next access. -/
def World.interfere (env : Env) (w : World) : World :=
  { w with domains := env.others w.accesses w.domains, accesses := w.accesses + 1 }

/-- An access to the registry, after what other threads did. -/
def access {α : Type} (env : Env) (m : Action Domains Exc α) : Action World Exc α := do
  .update (World.interfere env)
  .zoom World.domains (fun domains w => { w with domains }) m

/-- A method of the registry that only reads. -/
def ask {α : Type} (env : Env) (f : Domains → Except Exc α) : Action World Exc α :=
  access env (do f (← .read))

/-- `self.trace.emit(...)`. -/
def emit (event : TraceEvent) : Action World Exc Unit :=
  .zoom World.trace (fun trace w => { w with trace }) (RuntimeTraceVerifier.emit event)

/-- `self.trace.reset(...)`. -/
def resetTrace (parentHasCapability : Bool) : Action World Exc Unit :=
  .zoom World.trace (fun trace w => { w with trace }) (RuntimeTraceVerifier.reset parentHasCapability)

/-- `self.trace.snapshot()`. -/
def traceState : Action World Exc BullTraceState := do
  return (← .read).trace.state

/-- Hand exceptions of one class to a handler. -/
def except {α : Type} (cls : ExcClass) (m : Action World Exc α) (h : Exc → Action World Exc α) :
    Action World Exc α :=
  .handle m fun e => if e.cls = cls then h e else .raise e

section Rules

variable {α : Type} {Q : α → World → Prop} {E : Exc → World → Prop} {w : World}

@[simp] theorem wp_record {Q : Unit → World → Prop} (entry : LogEntry) :
    (record entry).wp Q E w ↔ Q () { w with log := w.log ++ [entry] } := Iff.rfl

@[simp] theorem wp_access (env : Env) (m : Action Domains Exc α) :
    (access env m).wp Q E w ↔ m.wp (fun a s => Q a { w.interfere env with domains := s })
      (fun e s => E e { w.interfere env with domains := s }) (w.interfere env).domains := by
  simp only [access, Action.wp_bind, Action.wp_update, Action.wp_zoom]

theorem wp_ask (env : Env) (f : Domains → Except Exc α) :
    (ask env f).wp Q E w ↔
      (∀ a, f (w.interfere env).domains = .ok a → Q a (w.interfere env)) ∧
        ∀ e, f (w.interfere env).domains = .error e → E e (w.interfere env) := by
  simp only [ask, wp_access, Action.wp_bind, Action.wp_read, Action.wp_lift]

theorem wp_ask_of_ok {env : Env} {f : Domains → Except Exc α} {a : α}
    (hf : f (w.interfere env).domains = .ok a) (hQ : Q a (w.interfere env)) :
    (ask env f).wp Q E w := by
  rw [wp_ask, hf]
  exact ⟨fun _ h => Except.ok.inj h ▸ hQ, nofun⟩

theorem wp_except (cls : ExcClass) (m : Action World Exc α) (h : Exc → Action World Exc α) :
    (except cls m h).wp Q E w ↔
      m.wp Q (fun e w' => if e.cls = cls then (h e).wp Q E w' else E e w') w := by
  simp only [except, Action.wp_handle]
  refine iff_of_eq (congrArg (fun E' => m.wp Q E' w) ?_)
  funext e w'
  split_ifs <;> rfl

end Rules

/-! ## The log of a run -/

section Logs

variable {α : Type} {w : World}

/-- The log, and what was added to it. -/
def Appends (log : List LogEntry) (P : List LogEntry → Prop) (w : World) : Prop :=
  ∃ es, w.log = log ++ es ∧ P es

theorem Appends.nil {log : List LogEntry} {P : List LogEntry → Prop} (hw : w.log = log) (h : P []) :
    Appends log P w := ⟨[], by rw [hw, List.append_nil], h⟩

theorem Appends.mono {log : List LogEntry} {P P' : List LogEntry → Prop} (h : Appends log P w)
    (hP : ∀ es, P es → P' es) : Appends log P' w :=
  h.imp fun _ h => ⟨h.1, hP _ h.2⟩

theorem Appends.cons {log : List LogEntry} {e : LogEntry} {P P' : List LogEntry → Prop}
    (h : Appends (log ++ [e]) P w) (hP : ∀ es, P es → P' (e :: es)) : Appends log P' w := by
  obtain ⟨es, hes, h⟩ := h
  exact ⟨e :: es, by rw [hes, List.append_assoc, List.singleton_append], hP es h⟩

theorem Appends.append {log es : List LogEntry} {P P' : List LogEntry → Prop}
    (h : Appends (log ++ es) P w) (hP : ∀ es', P es' → P' (es ++ es')) : Appends log P' w := by
  obtain ⟨es', hes', h⟩ := h
  exact ⟨es ++ es', by rw [hes', List.append_assoc], hP es' h⟩

/-- Whatever an action does, it adds such entries to the log. -/
def Logs (m : Action World Exc α) (P : List LogEntry → Prop) : Prop :=
  ∀ w, m.wp (fun _ => Appends w.log P) (fun _ => Appends w.log P) w

/-- An action that adds nothing to the log. -/
def Silent (m : Action World Exc α) : Prop := ∀ w, (m w).2.log = w.log

theorem silent_lift (x : Except Exc α) : Silent (liftM x : Action World Exc α) := fun _ => rfl

theorem silent_emit (event : TraceEvent) : Silent (emit event) := fun _ => rfl

theorem silent_resetTrace (b : Bool) : Silent (resetTrace b) := fun _ => rfl

theorem silent_traceState : Silent traceState := fun _ => rfl

theorem silent_raise (e : Exc) : Silent (Action.raise e : Action World Exc α) := fun _ => rfl

theorem silent_pure (a : α) : Silent (pure a : Action World Exc α) := fun _ => rfl

theorem Silent.bind {β : Type} {m : Action World Exc β} {f : β → Action World Exc α}
    (hm : Silent m) (hf : ∀ b, Silent (f b)) : Silent (m >>= f) := by
  intro w
  rw [Action.bind_apply]
  have hw := hm w
  rcases hmw : m w with ⟨_ | b, w'⟩ <;> rw [hmw] at hw
  · exact hw
  · exact (hf b w').trans hw

theorem Silent.wp {m : Action World Exc α} (hm : Silent m) {Q : α → World → Prop}
    {E : Exc → World → Prop} (hQ : ∀ a w', w'.log = w.log → Q a w')
    (hE : ∀ e w', w'.log = w.log → E e w') : m.wp Q E w := by
  have hw := hm w
  unfold Action.wp
  rcases hmw : m w with ⟨_ | b, w'⟩ <;> rw [hmw] at hw
  · exact hE _ _ hw
  · exact hQ _ _ hw

theorem Silent.logs {m : Action World Exc α} (hm : Silent m) {P : List LogEntry → Prop}
    (h : P []) : Logs m P := fun _ => hm.wp (fun _ _ hw => .nil hw h) fun _ _ hw => .nil hw h

/-- A silent step first. -/
theorem Silent.bind_logs {β : Type} {m : Action World Exc β} {f : β → Action World Exc α}
    {P : List LogEntry → Prop} (hm : Silent m) (h : P []) (hf : ∀ b, Logs (f b) P) :
    Logs (m >>= f) P := by
  intro w
  rw [Action.wp_bind]
  refine hm.wp (fun b w' hw => ?_) fun _ _ hw => .nil hw h
  rw [← hw]
  exact hf b w'

/-- An entry first. -/
theorem logs_record {e : LogEntry} {f : Unit → Action World Exc α} {P P' : List LogEntry → Prop}
    (hf : Logs (f ()) P) (hP : ∀ es, P es → P' (e :: es)) : Logs (record e >>= f) P' := by
  intro w
  rw [Action.wp_bind, wp_record]
  exact Action.wp_mono (hf _) (fun _ _ h => h.cons hP) fun _ _ h => h.cons hP

theorem Logs.mono {m : Action World Exc α} {P P' : List LogEntry → Prop} (h : Logs m P)
    (hP : ∀ es, P es → P' es) : Logs m P' := fun w =>
  Action.wp_mono (h w) (fun _ _ h => h.mono hP) fun _ _ h => h.mono hP

/-- A silent step last, that is done in any case. -/
theorem Logs.ensuring {m : Action World Exc α} {f : Action World Exc Unit}
    {P : List LogEntry → Prop} (h : Logs m P) (hf : Silent f) : Logs (.ensuring m f) P := by
  intro w
  rw [Action.wp_ensuring]
  refine Action.wp_mono (h w) (fun _ w' hw => ?_) fun _ w' hw => ?_ <;> obtain ⟨es, hes, hP⟩ := hw
  · exact hf.wp (fun _ _ heq => ⟨es, heq.trans hes, hP⟩) fun _ _ heq => ⟨es, heq.trans hes, hP⟩
  · exact hf.wp (fun _ _ heq => ⟨es, heq.trans hes, hP⟩) fun _ _ heq => ⟨es, heq.trans hes, hP⟩

/-- Silent steps last. -/
theorem Logs.bind_silent {β : Type} {m : Action World Exc β} {f : β → Action World Exc α}
    {P : List LogEntry → Prop} (h : Logs m P) (hf : ∀ b, Silent (f b)) : Logs (m >>= f) P := by
  intro w
  rw [Action.wp_bind]
  refine Action.wp_mono (h w) (fun b w' hw => ?_) fun _ _ hw => hw
  obtain ⟨es, hes, hP⟩ := hw
  exact (hf b).wp (fun _ _ heq => ⟨es, heq.trans hes, hP⟩) fun _ _ heq => ⟨es, heq.trans hes, hP⟩

/-- A silent handler. -/
theorem Logs.handle {m : Action World Exc α} {f : Exc → Action World Exc α}
    {P : List LogEntry → Prop} (h : Logs m P) (hf : ∀ e, Silent (f e)) : Logs (.handle m f) P := by
  intro w
  rw [Action.wp_handle]
  refine Action.wp_mono (h w) (fun _ _ hw => hw) fun e w' hw => ?_
  obtain ⟨es, hes, hP⟩ := hw
  exact (hf e).wp (fun _ _ heq => ⟨es, heq.trans hes, hP⟩) fun _ _ heq => ⟨es, heq.trans hes, hP⟩

theorem silent_access (env : Env) (m : Action Domains Exc α) : Silent (access env m) := fun _ => rfl

theorem silent_onlyIf (c : Prop) [Decidable c] {m : Action World Exc Unit} (hm : Silent m) :
    Silent (Action.onlyIf c m) := by
  unfold Action.onlyIf
  split_ifs
  · exact hm
  · exact silent_pure ()

theorem silent_except (cls : ExcClass) {m : Action World Exc α} {h : Exc → Action World Exc α}
    (hm : Silent m) (hh : ∀ e, Silent (h e)) : Silent (except cls m h) := by
  refine fun w => Action.wp_state (P := fun w' : World => w'.log = w.log) |>.1 ?_
  rw [wp_except]
  refine hm.wp (fun _ _ hw => hw) fun e w' hw => ?_
  split_ifs
  · exact (hh e).wp (fun _ _ hw' => hw'.trans hw) fun _ _ hw' => hw'.trans hw
  · exact hw

end Logs

end Bulldog.Dispatch
