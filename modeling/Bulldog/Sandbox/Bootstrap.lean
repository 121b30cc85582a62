import Bulldog.Lib.Splitlines
import Bulldog.Sandbox.Landlock
import Bulldog.Sandbox.Seccomp
import Bulldog.Secrets.Socket

/-!
# The start of a sandbox

The Python part of `_namespace_launcher.sh`, which confines itself before it becomes the workload, and the thread
of `NamespaceSandbox.run` that lets it. The bootstrap writes an attestation to one pipe and waits at another, to
which the host writes once it has accepted the attestation. What the kernel and the libraries answer is arbitrary,
and so are the order in which the two go on and the pieces in which the host reads.
-/

namespace Bulldog.Sandbox

open Sockets

/-! ## The bootstrap -/

/-- `DENIED_SYSCALLS`. -/
def deniedSyscalls : List Str :=
  ["mount", "umount2", "pivot_root", "ptrace", "fspick", "fsmount", "fsconfig", "fsopen", "open_tree",
    "move_mount", "pidfd_getfd", "clone3", "name_to_handle_at", "open_by_handle_at", "io_uring_register",
    "io_uring_enter", "io_uring_setup", "userfaultfd", "process_vm_writev", "process_vm_readv", "bpf",
    "perf_event_open", "keyctl", "add_key", "request_key", "setns", "unshare", "kexec_load",
    "finit_module", "init_module", "delete_module", "reboot"].map String.toList

/-- `STRICT_ALLOWED_SYSCALLS`. -/
def strictAllowedSyscalls : List Str :=
  ["execve", "execveat", "exit", "exit_group", "clone", "fork", "vfork", "wait4", "waitid", "getpid",
    "getppid", "gettid", "getuid", "geteuid", "getgid", "getegid", "getgroups", "setuid", "setgid",
    "setreuid", "setregid", "setresuid", "setresgid", "setgroups", "setsid", "getpgid", "setpgid",
    "getpgrp", "brk", "mmap", "mprotect", "munmap", "mremap", "madvise", "mlock", "munlock", "futex",
    "rseq", "set_tid_address", "set_robust_list", "arch_prctl", "prctl", "membarrier", "rt_sigaction",
    "rt_sigprocmask", "rt_sigreturn", "rt_sigsuspend", "rt_sigpending", "rt_sigtimedwait", "sigaltstack",
    "kill", "tgkill", "sched_yield", "sched_getaffinity", "sched_setaffinity", "clock_gettime",
    "clock_getres", "clock_nanosleep", "nanosleep", "gettimeofday", "time", "times", "read", "write",
    "readv", "writev", "pread64", "pwrite64", "preadv", "pwritev", "close", "close_range", "lseek", "open",
    "openat", "creat", "newfstatat", "stat", "lstat", "fstat", "statx", "access", "faccessat",
    "faccessat2", "readlink", "readlinkat", "getdents", "getdents64", "getcwd", "chdir", "fchdir", "mkdir",
    "mkdirat", "rmdir", "unlink", "unlinkat", "rename", "renameat", "renameat2", "link", "linkat",
    "symlink", "symlinkat", "chmod", "fchmod", "fchmodat", "chown", "fchown", "fchownat", "lchown",
    "truncate", "ftruncate", "fsync", "fdatasync", "sync_file_range", "umask", "fcntl", "ioctl", "dup",
    "dup2", "dup3", "flock", "pipe", "pipe2", "sendfile", "copy_file_range", "splice", "tee", "select",
    "pselect6", "poll", "ppoll", "epoll_create", "epoll_create1", "epoll_ctl", "epoll_wait", "epoll_pwait",
    "epoll_pwait2", "eventfd", "eventfd2", "signalfd", "signalfd4", "timerfd_create", "timerfd_settime",
    "timerfd_gettime", "socket", "socketpair", "bind", "listen", "accept", "accept4", "connect",
    "getsockname", "getpeername", "sendto", "recvfrom", "sendmsg", "recvmsg", "shutdown", "setsockopt",
    "getsockopt", "uname", "sysinfo", "getrandom", "getrlimit", "setrlimit", "prlimit64", "getrusage",
    "getcpu", "personality"].map String.toList

variable {File : Type}

/-- What the process that becomes the workload has of its confinement. -/
structure SandboxProcess (File : Type) where
  noNewPrivs : Bool
  landlock : LandlockProcess File
  filters : List SeccompFilter

/-- What the bootstrap meets. -/
structure SandboxHost (File : Type) where
  libseccomp : Libseccomp
  landlock : LandlockKernel File
  /-- `prctl(PR_SET_NO_NEW_PRIVS, 1, 0, 0, 0)`, or its `errno`. -/
  setNoNewPrivs : Except ℤ Unit
  /-- The names of `socket.if_nameindex()`, sorted. -/
  interfaces : Except ℤ (List Str)
  /-- `os.getpid()`. -/
  pid : ℤ
  /-- `sys.executable`. -/
  executable : Str
  /-- `time.monotonic_ns()`. -/
  monotonicNs : ℤ

/-- What ends the bootstrap. -/
inductive BootstrapError where
  | osError (errno : ℤ)
  | landlock (exc : LandlockException)
  | seccomp (exc : SeccompError)
  | valueError
  deriving DecidableEq

/-- What the host gives to the sandbox in its environment. -/
structure SandboxEnv where
  /-- `BULL_SECCOMP_PROFILE`, which is `self.seccomp_profile`. -/
  seccompProfile : Str
  /-- `BULL_WORKSPACE_MODE`. -/
  workspaceMode : Str
  /-- `BULL_ATTEST_NONCE`. -/
  nonce : Str

/-- Code of a module on its part of the process, with its exceptions. -/
def within {σ τ ε ε' α : Type} (get : σ → τ) (set : τ → σ → σ) (inject : ε → ε') (m : Action τ ε α) :
    Action σ ε' α := fun s => ((m (get s)).1.mapError inject, set (m (get s)).2 s)

variable (H : SandboxHost File)

/-- `install_bull_landlock(workspace_writable=workspace_writable)`. -/
def installLandlock (workspaceWritable : Bool) : Action (SandboxProcess File) BootstrapError ℕ :=
  within (·.landlock) (fun landlock process => { process with landlock }) .landlock
    (installBullLandlock H.landlock workspaceWritable)

/-- Whether Landlock is active, and its ABI. The strict profile does not go on without it. -/
def tryLandlock (profile : Str) (workspaceWritable : Bool) :
    Action (SandboxProcess File) BootstrapError (Bool × ℕ) :=
  Action.handle (do return (true, ← installLandlock H workspaceWritable)) fun exc =>
    match exc with
    | .landlock (.landlockUnavailable message) =>
      if profile = "strict".toList then .raise (.landlock (.landlockUnavailable message)) else pure (false, 0)
    | exc => .raise exc

/-- `install_bull_seccomp(profile=profile)`. -/
def installSeccomp (profile : Str) : Action (SandboxProcess File) BootstrapError (List String) :=
  within (·.filters) (fun filters process => { process with filters }) .seccomp
    (installBullSeccomp H.libseccomp profile deniedSyscalls strictAllowedSyscalls 1)

variable {F : Type} [PyFloat F]

/-- `attestation`, in the order of its keys. -/
def attestationFields (env : SandboxEnv) (profile : Str) (landlock : Bool × ℕ) (interfaces : List Str)
    (noNewPrivs : Bool) (installed : List String) : Fields F :=
  [("bootstrap_complete_ns".toList, .int H.monotonicNs),
    ("format".toList, .str "bull-sandbox-attestation-v2".toList),
    ("landlock".toList, .bool landlock.1),
    ("landlock_abi".toList, .int landlock.2),
    ("network_interfaces".toList, .arr (interfaces.map .str)),
    ("network_isolated".toList, .bool (interfaces.all (· = "lo".toList))),
    ("no_new_privs".toList, .bool noNewPrivs),
    ("nonce".toList, .str env.nonce),
    ("pid".toList, .int H.pid),
    ("python".toList, .str H.executable),
    ("runtime_root".toList, .str "/bull_runtime".toList),
    ("seccomp".toList, .bool true),
    ("seccomp_profile".toList, .str profile),
    ("seccomp_rules".toList, .int installed.length)]

/-- The bootstrap up to the gate: the members of the attestation that it has written. The host sets every variable
that it looks for. -/
def bootstrap (env : SandboxEnv) : Action (SandboxProcess File) BootstrapError (Fields F) := do
  H.setNoNewPrivs.mapError BootstrapError.osError
  .update fun process => { process with noNewPrivs := true }
  let profile := H.libseccomp.unicode.lower (Str.strip env.seccompProfile)
  let landlock ← tryLandlock H profile (env.workspaceMode = "rw".toList)
  let interfaces ← H.interfaces.mapError BootstrapError.osError
  let installed ← installSeccomp H profile
  -- `PR_GET_NO_NEW_PRIVS`
  let process ← .read
  let attestation := attestationFields H env profile landlock interfaces process.noNewPrivs installed
  raiseIf ((Json.obj attestation : Json F).writable true = false) BootstrapError.valueError
  return attestation

/-! ## The host -/

/-- `SandboxAttestation`. -/
structure SandboxAttestation where
  nonce : Str
  seccompProfile : Str
  seccompRules : ℤ
  landlock : Bool
  landlockAbi : ℤ
  networkInterfaces : List Str
  python : Str
  bootstrapCompleteNs : ℤ

/-- What the text of the record is not. -/
inductive RecordFault where
  | encoding
  | notOneRecord
  | json
  deriving DecidableEq

/-- What `_parse_attestation` raises. -/
inductive AttestationError where
  /-- `SandboxAttestationError(message)`. -/
  | attestation (message : String)
  /-- `SandboxAttestationError("invalid sandbox attestation: " + str(exc))`. -/
  | invalid (fault : RecordFault)
  /-- An exception of a builtin on a value of another type. -/
  | builtin
  deriving DecidableEq

/-- The one line that is not blank, as an object. -/
def readRecord (raw : Bytes) : Except AttestationError (Fields F) := do
  let text ← orRaise (decodeUtf8 raw) (.invalid .encoding)
  match (Str.splitlines [] text).filter (fun line => Str.strip line ≠ []) with
  | [line] =>
    match ← orRaise (loads line) (.invalid .json) with
    | .obj data => return data
    | _ => .error .builtin
  | _ => .error (.invalid .notOneRecord)

variable (P : Python F)

/-- `str(data.get(key, ""))`. -/
def strOf (data : Fields F) (key : String) : Str := ((data.get key.toList).map P.str).getD []

/-- `int(data.get(key, default))`. -/
def intOf (data : Fields F) (key : String) (default : ℤ) : Except AttestationError ℤ :=
  match data.get key.toList with
  | none => .ok default
  | some value => orRaise (P.int value) .builtin

/-- `data.get(key) == text`. -/
def isText (data : Fields F) (key text : String) : Bool :=
  match data.get key.toList with
  | some (.str s) => s = text.toList
  | _ => false

/-- `data.get(key) is True`. -/
def isTrue (data : Fields F) (key : String) : Bool :=
  match data.get key.toList with
  | some (.bool b) => b
  | _ => false

/-- `tuple(str(x) for x in data.get("network_interfaces", ()))`. -/
def interfacesOf (data : Fields F) : Except AttestationError (List Str) :=
  match data.get "network_interfaces".toList with
  | none => .ok []
  | some (.arr xs) => .ok (xs.map P.str)
  | some (.str s) => .ok (s.map fun c => [c])
  | some (.obj fields) => .ok (Fields.keys fields)
  | some _ => .error .builtin

/-- `SandboxAttestationError(message)` where the condition holds. -/
def refuseIf (c : Prop) [Decidable c] (message : String) : Except AttestationError Unit :=
  raiseIf c (.attestation message)

/-- The two checks of Landlock, which the strict profile makes. -/
def checkLandlock (data : Fields F) (expectedProfile : Str) : Except AttestationError Unit :=
  if expectedProfile = "strict".toList then do
    refuseIf (isTrue data "landlock" = false) "Landlock attestation failed"
    let abi ← intOf P data "landlock_abi" 0
    refuseIf (abi < 1) "Landlock ABI attestation failed"
  else pure ()

/-- The part of `_parse_attestation` that looks into the record. -/
def examineAttestation (data : Fields F) (expectedNonce expectedProfile : Str) :
    Except AttestationError SandboxAttestation := do
  refuseIf (isText data "format" "bull-sandbox-attestation-v2" = false) "unknown sandbox attestation format"
  -- `secrets.compare_digest` takes ASCII only
  raiseIf ((isAscii (strOf P data "nonce") && isAscii expectedNonce) = false) .builtin
  refuseIf (strOf P data "nonce" ≠ expectedNonce) "sandbox attestation nonce mismatch"
  let pid ← intOf P data "pid" (-1)
  refuseIf (pid ≠ 1) "PID namespace attestation failed: bootstrap is not PID 1"
  refuseIf (isTrue data "no_new_privs" = false) "no_new_privs attestation failed"
  refuseIf (isTrue data "seccomp" = false) "seccomp attestation failed"
  refuseIf (strOf P data "seccomp_profile" ≠ expectedProfile) "seccomp profile attestation mismatch"
  let rules ← intOf P data "seccomp_rules" 0
  refuseIf (rules < 1) "seccomp installed no rules"
  checkLandlock P data expectedProfile
  refuseIf (isTrue data "network_isolated" = false) "network namespace attestation failed"
  refuseIf (strOf P data "runtime_root" ≠ "/bull_runtime".toList) "trusted runtime mount attestation failed"
  let interfaces ← interfacesOf P data
  refuseIf (∃ name ∈ interfaces, name ≠ "lo".toList) "network namespace exposes a non-loopback interface"
  let landlockAbi ← intOf P data "landlock_abi" 0
  let bootstrapCompleteNs ← intOf P data "bootstrap_complete_ns" 0
  return ⟨expectedNonce, expectedProfile, rules, ((data.get "landlock".toList).map P.bool).getD false,
    landlockAbi, interfaces, strOf P data "python", bootstrapCompleteNs⟩

/-- `_parse_attestation(raw, expected_nonce=..., expected_profile=...)`. -/
def parseAttestation (raw : Bytes) (expectedNonce expectedProfile : Str) :
    Except AttestationError SandboxAttestation := do
  refuseIf (raw = []) "sandbox emitted no backend attestation"
  refuseIf (16384 < raw.length) "sandbox attestation exceeded size limit"
  let data ← readRecord raw
  examineAttestation P data expectedNonce expectedProfile

/-! ## The two of them -/

/-- How far the process is. -/
inductive Child where
  | booting
  | waiting
  | running
  | exited
  deriving DecidableEq

/-- How far the thread of the host is. Without `require_attestation` it accepts without an attestation. -/
inductive Gate where
  | reading (buffer : Bytes)
  | accepted (attestation : Option SandboxAttestation)
  | refused

/-- The two, and the two pipes. -/
structure GateWorld (File : Type) where
  process : SandboxProcess File
  child : Child
  pipe : Bytes
  gate : Gate
  goSent : Bool
  goClosed : Bool

/-- The byte of the gate, which cannot be written once the pipe is closed. -/
def GateWorld.accept (w : GateWorld File) (attestation : Option SandboxAttestation) : GateWorld File :=
  if w.goClosed then { w with gate := .refused }
  else { w with gate := .accepted attestation, goSent := true, goClosed := true }

/-- `_attestation_gate_reader` after its loop. -/
def judge (requireAttestation : Bool) (env : SandboxEnv) (buffer : Bytes) (w : GateWorld File) : GateWorld File :=
  if requireAttestation then
    match parseAttestation P buffer env.nonce env.seccompProfile with
    | .ok attestation => w.accept (some attestation)
    | .error _ => { w with gate := .refused, goClosed := true }
  else w.accept none

/-- `_attestation_gate_reader` after a chunk. -/
def readChunk (buffer chunk : Bytes) (w : GateWorld File) : GateWorld File :=
  if 16384 < (buffer ++ chunk).length then { w with gate := .refused, goClosed := true }
  else { w with gate := .reading (buffer ++ chunk), pipe := w.pipe.drop chunk.length }

/-- What may happen next. -/
inductive GateStep (requireAttestation : Bool) (env : SandboxEnv) (w : GateWorld File) : GateWorld File → Prop
  /-- The bootstrap writes its attestation. -/
  | attest (fields : Fields F) (process : SandboxProcess File) (child : w.child = .booting)
      (boot : bootstrap H env w.process = (.ok fields, process)) :
      GateStep requireAttestation env w
        { w with child := .waiting, process, pipe := w.pipe ++ jsonLine (.obj fields) }
  /-- The bootstrap ends before that. -/
  | fail (exc : BootstrapError) (process : SandboxProcess File) (child : w.child = .booting)
      (boot : (bootstrap H env w.process : Except _ (Fields F) × _) = (.error exc, process)) :
      GateStep requireAttestation env w { w with child := .exited, process }
  /-- The host reads some bytes. -/
  | read (buffer chunk : Bytes) (gate : w.gate = .reading buffer) (unfinished : 10 ∉ buffer) (nonempty : chunk ≠ [])
      (bytes : chunk <+: w.pipe) (size : chunk.length ≤ 4096) :
      GateStep requireAttestation env w (readChunk buffer chunk w)
  /-- The host has a line, or there is no more to come. -/
  | judge (buffer : Bytes) (gate : w.gate = .reading buffer)
      (finished : 10 ∈ buffer ∨ w.pipe = [] ∧ w.child = .exited) :
      GateStep requireAttestation env w (judge P requireAttestation env buffer w)
  /-- `run` gives up, and closes the pipes. -/
  | giveUp : GateStep requireAttestation env w { w with goClosed := true }
  /-- The bootstrap reads the byte of the gate, and becomes the workload. -/
  | release (child : w.child = .waiting) (sent : w.goSent = true) :
      GateStep requireAttestation env w { w with child := .running }
  /-- It reads the end of the pipe, or is killed. -/
  | exit : GateStep requireAttestation env w { w with child := .exited }

/-- A sandbox from its start. -/
def sandboxStart (requireAttestation : Bool) (env : SandboxEnv) : System (GateWorld File) where
  init w := w.child = .booting ∧ w.pipe = [] ∧ w.gate = .reading [] ∧ w.goSent = false ∧ w.goClosed = false
  next := GateStep H P requireAttestation env

/-! ## What is attested -/

variable {H P} {env : SandboxEnv}

theorem wp_within {σ τ ε ε' α : Type} {get : σ → τ} {set : τ → σ → σ} {inject : ε → ε'} {m : Action τ ε α}
    {Q : α → σ → Prop} {E : ε' → σ → Prop} {s : σ} :
    (within get set inject m).wp Q E s ↔
      m.wp (fun a t => Q a (set t s)) (fun e t => E (inject e) (set t s)) (get s) := by
  rcases hm : m (get s) with ⟨_ | a, t⟩ <;> simp [Action.wp, within, hm, Except.mapError]

/-- A ruleset with the rules of the policy. -/
def IsPolicy (K : LandlockKernel File) (abi : ℕ) (workspaceWritable : Bool) (ruleset : Ruleset File) : Prop :=
  ∀ request, request ∈ ruleset.granted ↔
    ∀ bit, request.rights.getLsbD bit = true → (handledAccess abi).getLsbD bit = true →
      PolicyGrants K (handledAccess abi) workspaceWritable request bit

/-- What the bootstrap has done where it writes these values. -/
structure Confines (H : SandboxHost File) (env : SandboxEnv) (profile : Str) (active : Bool × ℕ)
    (interfaces : List Str) (installed : List String) (start process : SandboxProcess File) : Prop where
  noNewPrivs : process.noNewPrivs = true
  landlock : active.1 = true → ∃ ruleset, process.landlock.layers = ruleset :: start.landlock.layers ∧
    IsPolicy H.landlock active.2 (env.workspaceMode = "rw".toList) ruleset
  strict : profile = "strict".toList → active.1 = true
  interfaces : H.interfaces = .ok interfaces
  seccomp : ∃ filter, process.filters = filter :: start.filters ∧ ∃ strict : Bool,
    H.libseccomp.unicode.lower (Str.strip profile) = (if strict then "strict" else "compat").toList ∧
      filter.allowed = profileCalls H.libseccomp strict deniedSyscalls strictAllowedSyscalls ∧
      installed.length = filter.rules.length

theorem wp_installLandlock (workspaceWritable : Bool) (process : SandboxProcess File) :
    (installLandlock H workspaceWritable).wp
      (fun abi process' => process'.noNewPrivs = process.noNewPrivs ∧ process'.filters = process.filters ∧
        ∃ ruleset, process'.landlock.layers = ruleset :: process.landlock.layers ∧
          IsPolicy H.landlock abi workspaceWritable ruleset)
      (fun _ process' => process'.noNewPrivs = process.noNewPrivs ∧ process'.filters = process.filters) process := by
  unfold installLandlock
  rw [wp_within]
  refine Action.wp_mono (wp_installBullLandlock H.landlock workspaceWritable process.landlock)
    (fun abi landlock h => ?_) fun _ _ _ => ⟨rfl, rfl⟩
  obtain ⟨-, -, ruleset, hlayers, hhandled, hrules, -⟩ := h
  exact ⟨rfl, rfl, ruleset, hlayers, fun request => granted_iff hhandled hrules⟩

theorem wp_tryLandlock (profile : Str) (workspaceWritable : Bool) (process : SandboxProcess File) :
    (tryLandlock H profile workspaceWritable).wp
      (fun landlock process' => process'.noNewPrivs = process.noNewPrivs ∧ process'.filters = process.filters ∧
        (landlock.1 = true → ∃ ruleset, process'.landlock.layers = ruleset :: process.landlock.layers ∧
          IsPolicy H.landlock landlock.2 workspaceWritable ruleset) ∧
        (profile = "strict".toList → landlock.1 = true))
      (fun _ _ => True) process := by
  unfold tryLandlock
  simp only [Action.wp_handle, Action.wp_bind, Action.wp_pure]
  refine Action.wp_mono (wp_installLandlock workspaceWritable process) (fun abi process' h => ?_)
    fun exc process' h => ?_
  · obtain ⟨hprivs, hfilters, hruleset⟩ := h
    exact ⟨hprivs, hfilters, fun _ => hruleset, fun _ => trivial⟩
  · obtain ⟨hprivs, hfilters⟩ := h
    split
    · split_ifs with hprofile
      · trivial
      · exact ⟨hprivs, hfilters, fun hactive => absurd hactive (by decide), fun h => absurd h hprofile⟩
    · trivial

/-- Where the bootstrap writes an attestation, it says what has been done. -/
theorem wp_bootstrap (H : SandboxHost File) (env : SandboxEnv) (start : SandboxProcess File) :
    (bootstrap H env : Action _ _ (Fields F)).wp
      (fun fields process => ∃ landlock interfaces installed,
        fields = attestationFields H env (H.libseccomp.unicode.lower (Str.strip env.seccompProfile)) landlock
            interfaces true installed ∧
          (Json.obj fields : Json F).writable true = true ∧
          Confines H env (H.libseccomp.unicode.lower (Str.strip env.seccompProfile)) landlock interfaces installed
            start process)
      (fun _ _ => True) start := by
  unfold bootstrap
  simp only [Action.wp_bind, Action.wp_update, Action.wp_read, Action.wp_pure]
  refine Action.wp_lift_intro (fun _ _ => ?_) fun _ => trivial
  refine Action.wp_mono (wp_tryLandlock _ _ _) (fun landlock process h => ?_) fun _ _ _ => trivial
  obtain ⟨hprivs, hfilters, hlandlock, hstrict⟩ := h
  refine Action.wp_lift_intro (fun interfaces hinterfaces => ?_) fun _ => trivial
  unfold installSeccomp
  rw [wp_within]
  refine Action.wp_mono (wp_installBullSeccomp H.libseccomp _ deniedSyscalls strictAllowedSyscalls 1 process.filters)
    (fun installed filters h => ?_) fun _ _ _ => trivial
  refine Action.wp_lift_intro (fun _ hwritable => ?_) fun _ => trivial
  obtain ⟨filter, rfl, hprofile⟩ := h
  refine ⟨landlock, interfaces, installed, by rw [hprivs], ?_, hprivs, hlandlock, hstrict,
    mapError_eq_ok.1 hinterfaces, filter, by rw [hfilters], hprofile⟩
  simpa using raiseIf_eq_ok.1 hwritable

/-! ## What is accepted -/

theorem oneLine_of_printable {s : Str} (h : Printable s) : Str.OneLine s := fun c hc => by
  obtain ⟨hlow, hhigh⟩ := h c hc
  simp only [Str.isLineBoundary, Bool.or_eq_false_iff, Bool.and_eq_false_iff, decide_eq_false_iff_not,
    beq_eq_false_iff_ne]
  omega

theorem strip_obj_ne_nil (fields : Fields F) : Str.strip ((Json.obj fields).render ⟨true, true⟩) ≠ [] := by
  have hhead : ∃ s, (Json.obj fields : Json F).render ⟨true, true⟩ = '\x7b' :: s := by
    rcases fields with _ | ⟨⟨key, value⟩, fields⟩
    · exact ⟨_, rfl⟩
    · exact ⟨_, rfl⟩
  obtain ⟨s, hs⟩ := hhead
  rw [hs, Str.strip, List.dropWhile_cons_of_neg (by decide), Str.rstrip, Ne, List.rdropWhile_eq_nil_iff]
  exact fun h => absurd (h _ List.mem_cons_self) (by decide)

/-- The host reads the record that the bootstrap writes. -/
theorem readRecord_jsonLine {fields : Fields F} (hwf : (Json.obj fields).WF)
    (hwritable : (Json.obj fields).writable true = true) : readRecord (jsonLine (.obj fields)) = .ok fields := by
  have hline := oneLine_of_printable (printable_render true (Json.obj fields))
  have hloads : loads ((Json.obj fields).render ⟨true, true⟩) = some (Json.obj fields) := by
    rw [loads, parse_render _ _ _ hwritable, Option.map_some, Json.dict_of_WF hwf]
  have hsplit : Str.splitlines [] ((Json.obj fields).render ⟨true, true⟩ ++ ['\n']) =
      [(Json.obj fields).render ⟨true, true⟩] := by
    rw [Str.splitlines_line hline]
    rfl
  unfold readRecord jsonLine
  rw [decodeUtf8_encodeUtf8]
  refine bind_eq_ok.2 ⟨_, rfl, ?_⟩
  have hfilter : [(Json.obj fields).render ⟨true, true⟩].filter (fun line => Str.strip line ≠ []) =
      [(Json.obj fields).render ⟨true, true⟩] := List.filter_eq_self.2 fun line hline => by
    obtain rfl := List.mem_singleton.1 hline
    exact decide_eq_true (strip_obj_ne_nil fields)
  rw [hsplit, hfilter]
  exact bind_eq_ok.2 ⟨_, by rw [hloads]; rfl, rfl⟩

theorem refuseIf_eq_ok {c : Prop} [Decidable c] {message : String} {u : Unit} :
    refuseIf c message = .ok u ↔ ¬ c := raiseIf_eq_ok

omit [PyFloat F] in
theorem checkLandlock_ok {data : Fields F} {profile : Str} {u : Unit} (h : checkLandlock P data profile = .ok u)
    (hstrict : profile = "strict".toList) :
    isTrue data "landlock" = true ∧ ∃ abi, intOf P data "landlock_abi" 0 = .ok abi ∧ 1 ≤ abi := by
  rw [checkLandlock, if_pos hstrict] at h
  obtain ⟨_, hactive, h⟩ := bind_eq_ok.1 h
  obtain ⟨abi, habi, h⟩ := bind_eq_ok.1 h
  exact ⟨by simpa using refuseIf_eq_ok.1 hactive, abi, habi, not_lt.1 (refuseIf_eq_ok.1 h)⟩

omit [PyFloat F] in
/-- What the host has seen in a record that it accepts. -/
theorem examineAttestation_ok {data : Fields F} {nonce profile : Str} {attestation : SandboxAttestation}
    (h : examineAttestation P data nonce profile = .ok attestation) :
    isAscii nonce = true ∧ intOf P data "pid" (-1) = .ok 1 ∧ isTrue data "no_new_privs" = true ∧
      strOf P data "seccomp_profile" = profile ∧
      intOf P data "seccomp_rules" 0 = .ok attestation.seccompRules ∧ 1 ≤ attestation.seccompRules ∧
      (profile = "strict".toList → isTrue data "landlock" = true ∧
        intOf P data "landlock_abi" 0 = .ok attestation.landlockAbi ∧ 1 ≤ attestation.landlockAbi) ∧
      interfacesOf P data = .ok attestation.networkInterfaces ∧
      (∀ name ∈ attestation.networkInterfaces, name = "lo".toList) ∧ attestation.nonce = nonce := by
  unfold examineAttestation at h
  simp only [bind_eq_ok, refuseIf_eq_ok, raiseIf_eq_ok, not_not] at h
  obtain ⟨_, -, _, hascii, _, -, _, hpid, _, rfl, _, hprivs, _, -, _, hprofile, rules, hrules, _, hpositive, _,
    hlandlock, _, -, _, -, interfaces, hinterfaces, _, hlo, abi, habi, ns, -, h⟩ := h
  obtain rfl := Except.ok.inj h
  rw [Bool.not_eq_false, Bool.and_eq_true] at hascii
  refine ⟨hascii.2, hpid, by simpa using hprivs, hprofile, hrules, not_lt.1 hpositive, fun hstrict => ?_,
    hinterfaces, fun name hname => ?_, rfl⟩
  · obtain ⟨hactive, abi', habi', hone⟩ := checkLandlock_ok hlandlock hstrict
    obtain rfl := Except.ok.inj (habi.symm.trans habi')
    exact ⟨hactive, habi, hone⟩
  · by_contra hne
    exact hlo ⟨name, hname, hne⟩

omit [PyFloat F] in
theorem wfItems_str (names : List Str) : WFItems (names.map Json.str : List (Json F)) := by
  induction names with
  | nil => trivial
  | cons name names ih => exact ⟨trivial, ih⟩

variable {profile : Str} {active : Bool × ℕ} {interfaces : List Str} {installed : List String} {noNewPrivs : Bool}

/-- The keys of the attestation. -/
def attestationKeys : List Str :=
  ["bootstrap_complete_ns", "format", "landlock", "landlock_abi", "network_interfaces", "network_isolated",
    "no_new_privs", "nonce", "pid", "python", "runtime_root", "seccomp", "seccomp_profile",
    "seccomp_rules"].map String.toList

theorem attestationKeys_nodup : attestationKeys.Nodup := by decide

omit [PyFloat F] in
theorem attestationFields_wf :
    (Json.obj (attestationFields H env profile active interfaces noNewPrivs installed) : Json F).WF :=
  ⟨attestationKeys_nodup, trivial, trivial, trivial, trivial, wfItems_str interfaces, trivial, trivial, trivial, trivial,
    trivial, trivial, trivial, trivial, trivial, trivial⟩

/-- An attestation of a process that is confined as the host expects. -/
structure Acceptable (H : SandboxHost File) (env : SandboxEnv) (profile : Str) (active : Bool × ℕ)
    (interfaces : List Str) (noNewPrivs : Bool) (installed : List String) : Prop where
  nonce : isAscii env.nonce = true
  pid : H.pid = 1
  noNewPrivs : noNewPrivs = true
  profile_eq : profile = env.seccompProfile
  rules : 1 ≤ installed.length
  landlock : profile = "strict".toList → active.1 = true ∧ 1 ≤ active.2
  interfaces : ∀ name ∈ interfaces, name = "lo".toList

/-- What the host knows of the bootstrap whose attestation it accepts. -/
theorem parse_attestationFields {attestation : SandboxAttestation}
    (hwritable : (Json.obj (attestationFields H env profile active interfaces noNewPrivs installed) : Json F).writable
      true = true)
    (h : parseAttestation P
      (jsonLine (.obj (attestationFields H env profile active interfaces noNewPrivs installed) : Json F))
      env.nonce env.seccompProfile = .ok attestation) :
    (jsonLine (.obj (attestationFields H env profile active interfaces noNewPrivs installed) : Json F)).length ≤ 16384 ∧
      Acceptable H env profile active interfaces noNewPrivs installed ∧ attestation.nonce = env.nonce ∧
      attestation.seccompRules = installed.length ∧
      (profile = "strict".toList → attestation.landlockAbi = active.2) := by
  obtain ⟨_, -, h⟩ := bind_eq_ok.1 h
  obtain ⟨_, hlength, h⟩ := bind_eq_ok.1 h
  obtain ⟨data, hdata, h⟩ := bind_eq_ok.1 h
  have hrecord := readRecord_jsonLine attestationFields_wf hwritable
  obtain rfl := Except.ok.inj (hrecord.symm.trans hdata)
  obtain ⟨hascii, hpid, hprivs, hprofile, hrules, hpositive, hlandlock, hinterfaces, hlo, hnonce⟩ :=
    examineAttestation_ok h
  have hint : ∀ i j : ℤ, orRaise (P.int (.int i)) AttestationError.builtin = .ok j → j = i := fun i j hij => by
    rw [P.int_int] at hij
    exact (Except.ok.inj hij).symm
  have hrules' := hint _ _ hrules
  have hsame : profile = env.seccompProfile := (P.str_str profile).symm.trans hprofile
  have hnames : attestation.networkInterfaces = (interfaces.map Json.str).map P.str :=
    (Except.ok.inj hinterfaces).symm
  refine ⟨not_lt.1 (refuseIf_eq_ok.1 hlength), ⟨hascii, (hint _ _ hpid).symm, hprivs, hsame, by omega,
    fun hstrict => ?_, fun name hname => ?_⟩, hnonce, hrules', fun hstrict => ?_⟩
  · obtain ⟨hactive, habi, hone⟩ := hlandlock (hsame.symm.trans hstrict)
    have habi' := hint _ _ habi
    exact ⟨hactive, by omega⟩
  · refine hlo name ?_
    rw [hnames, List.map_map]
    exact List.mem_map.2 ⟨name, hname, P.str_str name⟩
  · obtain ⟨-, habi, -⟩ := hlandlock (hsame.symm.trans hstrict)
    exact hint _ _ habi

omit [PyFloat F] in
/-- The host refuses nothing that is acceptable. -/
theorem examine_acceptable
    (h : Acceptable H env profile active interfaces noNewPrivs installed) :
    ∃ attestation, examineAttestation P (attestationFields H env profile active interfaces noNewPrivs installed : Fields F)
      env.nonce env.seccompProfile = .ok attestation := by
  obtain ⟨hnonce, hpid, hprivs, hprofile, hrules, hlandlock, hlo⟩ := h
  have hint : ∀ i : ℤ, orRaise (P.int (.int i)) AttestationError.builtin = .ok i := fun i => by
    rw [P.int_int]
    rfl
  have hchecked : checkLandlock P (attestationFields H env profile active interfaces noNewPrivs installed : Fields F)
      env.seccompProfile = .ok () := by
    unfold checkLandlock
    split_ifs with hstrict
    · obtain ⟨hactive, hone⟩ := hlandlock (hprofile.trans hstrict)
      refine bind_eq_ok.2 ⟨(), refuseIf_eq_ok.2 ?_, bind_eq_ok.2 ⟨active.2, hint active.2, refuseIf_eq_ok.2 ?_⟩⟩
      · exact fun hfalse => absurd (hactive.symm.trans hfalse) (by decide)
      · omega
    · rfl
  have hnames : interfacesOf P (attestationFields H env profile active interfaces noNewPrivs installed : Fields F) =
      .ok interfaces := by
    refine congrArg Except.ok ?_
    rw [List.map_map]
    exact (List.map_congr_left fun name _ => P.str_str name).trans (List.map_id interfaces)
  have hformat : isText (attestationFields H env profile active interfaces noNewPrivs installed : Fields F) "format"
      "bull-sandbox-attestation-v2" = true := by
    change decide ("bull-sandbox-attestation-v2".toList = "bull-sandbox-attestation-v2".toList) = true
    exact decide_eq_true rfl
  have hseccomp : isTrue (attestationFields H env profile active interfaces noNewPrivs installed : Fields F)
      "seccomp" = true := rfl
  have hisolated : isTrue (attestationFields H env profile active interfaces noNewPrivs installed : Fields F)
      "network_isolated" = true := List.all_eq_true.2 fun name hname => decide_eq_true (hlo name hname)
  have hset : isTrue (attestationFields H env profile active interfaces noNewPrivs installed : Fields F)
      "no_new_privs" = true := hprivs
  have hascii : (isAscii (strOf P (attestationFields H env profile active interfaces noNewPrivs installed : Fields F)
      "nonce") && isAscii env.nonce) = true := by
    rw [show strOf P (attestationFields H env profile active interfaces noNewPrivs installed : Fields F) "nonce" =
      env.nonce from P.str_str env.nonce, hnonce]
    rfl
  refine ⟨_, bind_eq_ok.2 ⟨(), refuseIf_eq_ok.2 ?_, bind_eq_ok.2 ⟨(), raiseIf_eq_ok.2 ?_,
    bind_eq_ok.2 ⟨(), refuseIf_eq_ok.2 (not_not.2 (P.str_str env.nonce)), bind_eq_ok.2 ⟨H.pid, hint H.pid,
    bind_eq_ok.2 ⟨(), refuseIf_eq_ok.2 (not_not.2 hpid), bind_eq_ok.2 ⟨(), refuseIf_eq_ok.2 ?_,
    bind_eq_ok.2 ⟨(), refuseIf_eq_ok.2 ?_,
    bind_eq_ok.2 ⟨(), refuseIf_eq_ok.2 (not_not.2 ((P.str_str profile).trans hprofile)),
    bind_eq_ok.2 ⟨installed.length, hint installed.length, bind_eq_ok.2 ⟨(), refuseIf_eq_ok.2 (by omega),
    bind_eq_ok.2 ⟨(), hchecked, bind_eq_ok.2 ⟨(), refuseIf_eq_ok.2 ?_,
    bind_eq_ok.2 ⟨(), refuseIf_eq_ok.2 (not_not.2 (P.str_str "/bull_runtime".toList)),
    bind_eq_ok.2 ⟨interfaces, hnames, bind_eq_ok.2 ⟨(), refuseIf_eq_ok.2 ?_,
    bind_eq_ok.2 ⟨active.2, hint active.2, bind_eq_ok.2 ⟨H.monotonicNs, hint H.monotonicNs, rfl⟩⟩⟩⟩⟩⟩⟩⟩⟩⟩⟩⟩⟩⟩⟩⟩⟩⟩
  · rw [hformat]
    decide
  · rw [hascii]
    decide
  · rw [hset]
    decide
  · rw [hseccomp]
    decide
  · rw [hisolated]
    decide
  · rintro ⟨name, hname, hne⟩
    exact hne (hlo name hname)

theorem parse_acceptable
    (hwritable : (Json.obj (attestationFields H env profile active interfaces noNewPrivs installed) : Json F).writable
      true = true)
    (hlength : (jsonLine (.obj (attestationFields H env profile active interfaces noNewPrivs installed) :
      Json F)).length ≤ 16384)
    (h : Acceptable H env profile active interfaces noNewPrivs installed) :
    ∃ attestation, parseAttestation P
      (jsonLine (.obj (attestationFields H env profile active interfaces noNewPrivs installed) : Json F))
      env.nonce env.seccompProfile = .ok attestation := by
  obtain ⟨attestation, hexamine⟩ := examine_acceptable (F := F) (P := P) h
  have hne : jsonLine (.obj (attestationFields H env profile active interfaces noNewPrivs installed) : Json F) ≠ [] := by
    rw [jsonLine, encodeUtf8_append]
    exact List.append_ne_nil_of_right_ne_nil _ (by decide)
  exact ⟨attestation, bind_eq_ok.2 ⟨(), refuseIf_eq_ok.2 hne, bind_eq_ok.2 ⟨(), refuseIf_eq_ok.2 (by omega),
    bind_eq_ok.2 ⟨_, readRecord_jsonLine attestationFields_wf hwritable, hexamine⟩⟩⟩⟩

/-! ## The runs -/

/-- What holds between the steps: the host has in its buffer what the bootstrap wrote and is no longer in the pipe,
and the byte of the gate is for what the host accepted. -/
structure GateInv (H : SandboxHost File) (P : Python F) (requireAttestation : Bool) (env : SandboxEnv)
    (start : SandboxProcess File) (w : GateWorld File) : Prop where
  booting : w.child = .booting → w.process = start ∧ w.pipe = [] ∧ w.gate = .reading []
  booted : w.child = .waiting ∨ w.child = .running → ∃ fields : Fields F,
    bootstrap H env start = (.ok fields, w.process) ∧
      (∀ buffer, w.gate = .reading buffer → buffer ++ w.pipe = jsonLine (.obj fields)) ∧
      ∀ attestation, w.gate = .accepted (some attestation) →
        parseAttestation P (jsonLine (.obj fields)) env.nonce env.seccompProfile = .ok attestation
  sent : w.goSent = true → ∃ attestation, w.gate = .accepted attestation ∧
    (requireAttestation = true → attestation.isSome = true)
  running : w.child = .running → w.goSent = true

variable {requireAttestation : Bool} {start : SandboxProcess File} {w w' : GateWorld File}

/-- While the host reads, the byte of the gate is not sent. -/
theorem GateInv.unsent (h : GateInv H P requireAttestation env start w) {buffer : Bytes}
    (hgate : w.gate = .reading buffer) : w.goSent = false := by
  by_contra hsent
  obtain ⟨attestation, haccepted, -⟩ := h.sent (by simpa using hsent)
  rw [hgate] at haccepted
  cases haccepted

theorem GateInv.not_running (h : GateInv H P requireAttestation env start w) {buffer : Bytes}
    (hgate : w.gate = .reading buffer) : w.child ≠ .running := fun hrunning => by
  have hsent := h.running hrunning
  rw [h.unsent hgate] at hsent
  cases hsent

/-- A host that has refused. -/
theorem GateInv.refuse (h : GateInv H P requireAttestation env start w) {buffer : Bytes}
    (hgate : w.gate = .reading buffer) (hbooted : w.child ≠ .booting) :
    GateInv H P requireAttestation env start { w with gate := .refused, goClosed := true } where
  booting hchild := absurd hchild hbooted
  booted hchild := by
    obtain ⟨fields, hboot, -, -⟩ := h.booted hchild
    exact ⟨fields, hboot, fun _ hgate' => (by cases hgate'), fun _ hgate' => (by cases hgate')⟩
  sent hsent := by
    have hunsent := h.unsent hgate
    exact absurd (hsent.symm.trans hunsent) (by decide)
  running hrunning := absurd hrunning (h.not_running hgate)

theorem GateInv.accept (h : GateInv H P requireAttestation env start w) {buffer : Bytes}
    (hgate : w.gate = .reading buffer) (hbooted : w.child ≠ .booting) {attestation : Option SandboxAttestation}
    (hsome : requireAttestation = true → attestation.isSome = true)
    (hparse : ∀ fields : Fields F, bootstrap H env start = (.ok fields, w.process) → w.child = .waiting →
      ∀ a, attestation = some a →
        parseAttestation P (jsonLine (.obj fields)) env.nonce env.seccompProfile = .ok a) :
    GateInv H P requireAttestation env start (w.accept attestation) := by
  unfold GateWorld.accept
  split_ifs with hclosed
  · have hrefuse := h.refuse hgate hbooted
    rw [← hclosed] at hrefuse
    exact hrefuse
  · refine ⟨fun hchild => absurd hchild hbooted, fun hchild => ?_, fun _ => ⟨attestation, rfl, hsome⟩,
      fun _ => rfl⟩
    obtain ⟨fields, hboot, -, -⟩ := h.booted hchild
    have hwaiting := hchild.resolve_right (h.not_running hgate)
    refine ⟨fields, hboot, fun _ hgate' => (by cases hgate'), fun a ha => ?_⟩
    exact hparse fields hboot hwaiting a (Gate.accepted.inj ha)

theorem GateInv.init (hinit : (sandboxStart H P requireAttestation env).init w) :
    GateInv H P requireAttestation env w.process w := by
  obtain ⟨hchild, hpipe, hgate, hsent, -⟩ := hinit
  refine ⟨fun _ => ⟨rfl, hpipe, hgate⟩, fun h => ?_, fun h => ?_, fun h => ?_⟩
  · rcases h with h | h <;> cases hchild.symm.trans h
  · exact absurd (h.symm.trans hsent) (by decide)
  · cases hchild.symm.trans h

/-- Every step keeps the invariant. -/
theorem GateInv.next (h : GateInv H P requireAttestation env start w)
    (hstep : GateStep H P requireAttestation env w w') : GateInv H P requireAttestation env start w' := by
  cases hstep with
  | attest fields process child boot =>
    obtain ⟨hprocess, hpipe, hgate⟩ := h.booting child
    rw [hprocess] at boot
    refine ⟨fun hchild => (by cases hchild), fun _ => ⟨fields, boot, fun buffer hbuffer => ?_, fun a ha => ?_⟩,
      fun hsent => ?_, fun hchild => (by cases hchild)⟩
    · obtain rfl := Gate.reading.inj (hgate.symm.trans hbuffer)
      rw [hpipe]
      rfl
    · cases hgate.symm.trans ha
    · exact absurd (hsent.symm.trans (h.unsent hgate)) (by decide)
  | fail exc process child boot =>
    obtain ⟨-, -, hgate⟩ := h.booting child
    refine ⟨fun hchild => (by cases hchild), fun hchild => ?_, fun hsent => ?_, fun hchild => (by cases hchild)⟩
    · rcases hchild with hchild | hchild <;> cases hchild
    · exact absurd (hsent.symm.trans (h.unsent hgate)) (by decide)
  | read buffer chunk gate unfinished nonempty bytes size =>
    have hbooted : w.child ≠ .booting := fun hchild => by
      rw [(h.booting hchild).2.1, List.prefix_nil] at bytes
      exact nonempty bytes
    unfold readChunk
    split_ifs with hlong
    · exact h.refuse gate hbooted
    · refine ⟨fun hchild => absurd hchild hbooted, fun hchild => ?_, fun hsent => ?_,
        fun hchild => absurd hchild (h.not_running gate)⟩
      · obtain ⟨fields, hboot, hread, -⟩ := h.booted hchild
        refine ⟨fields, hboot, fun buffer' hbuffer' => ?_, fun _ ha => (by cases ha)⟩
        obtain rfl := Gate.reading.inj hbuffer'
        obtain ⟨rest, hrest⟩ := bytes
        rw [← hread buffer gate, ← hrest, List.drop_left, List.append_assoc]
      · exact absurd (hsent.symm.trans (h.unsent gate)) (by decide)
  | judge buffer gate finished =>
    have hbooted : w.child ≠ .booting := fun hchild => by
      obtain ⟨-, -, hgate⟩ := h.booting hchild
      obtain rfl := Gate.reading.inj (gate.symm.trans hgate)
      rcases finished with hmem | ⟨-, hexited⟩
      · cases hmem
      · cases hchild.symm.trans hexited
    -- the whole line has been read where the line feed has
    have hparse : ∀ fields : Fields F, bootstrap H env start = (.ok fields, w.process) → w.child = .waiting →
        buffer = jsonLine (.obj fields) := fun fields hboot hwaiting => by
      obtain ⟨fields', hboot', hread, -⟩ := h.booted (.inl hwaiting)
      obtain rfl := Except.ok.inj (congrArg Prod.fst (hboot.symm.trans hboot'))
      have hmem : 10 ∈ buffer := finished.resolve_right fun hend => by
        cases hwaiting.symm.trans hend.2
      have hline : buffer ++ w.pipe = encodeUtf8 ((Json.obj fields).render ⟨true, true⟩) ++ [10] := by
        rw [hread buffer gate, jsonLine, encodeUtf8_append]
        rfl
      have hempty := eq_nil_of_mem_terminator (not_mem_encodeUtf8 (printable_render true (Json.obj fields))) hmem hline
      rw [← hread buffer gate, hempty, List.append_nil]
    unfold judge
    split_ifs with hrequire
    · rcases hresult : parseAttestation P buffer env.nonce env.seccompProfile with _ | attestation
      · exact h.refuse gate hbooted
      · refine h.accept gate hbooted (fun _ => rfl) fun fields hboot hwaiting a ha => ?_
        obtain rfl := Option.some.inj ha
        rw [← hparse fields hboot hwaiting]
        exact hresult
    · exact h.accept gate hbooted (fun hrequire' => absurd hrequire' hrequire) fun _ _ _ _ ha => (by cases ha)
  | giveUp => exact ⟨h.booting, h.booted, h.sent, h.running⟩
  | release child sent =>
    refine ⟨fun hchild => (by cases hchild), fun _ => h.booted (.inl child), h.sent, fun _ => sent⟩
  | exit =>
    refine ⟨fun hchild => (by cases hchild), fun hchild => ?_, h.sent, fun hchild => (by cases hchild)⟩
    rcases hchild with hchild | hchild <;> cases hchild

theorem GateInv.run (hinit : (sandboxStart H P requireAttestation env).init w)
    (hrun : (sandboxStart H P requireAttestation env).Run w w') :
    GateInv H P requireAttestation env w.process w' :=
  hrun.invariant (P := GateInv H P requireAttestation env w.process) (fun _ _ h => h.next) (GateInv.init hinit)

/-- A process confined as the strict profile says, and as the attestation says. -/
structure Released (H : SandboxHost File) (env : SandboxEnv) (start process : SandboxProcess File)
    (attestation : SandboxAttestation) : Prop where
  nonce : attestation.nonce = env.nonce
  pid : H.pid = 1
  noNewPrivs : process.noNewPrivs = true
  seccomp : ∃ filter, process.filters = filter :: start.filters ∧
    filter.allowed = profileCalls H.libseccomp true deniedSyscalls strictAllowedSyscalls ∧
    attestation.seccompRules = filter.rules.length ∧ 1 ≤ attestation.seccompRules
  landlock : ∃ abi ruleset, process.landlock.layers = ruleset :: start.landlock.layers ∧
    IsPolicy H.landlock abi (env.workspaceMode = "rw".toList) ruleset ∧ attestation.landlockAbi = abi ∧ 1 ≤ abi
  interfaces : ∃ names, H.interfaces = .ok names ∧ ∀ name ∈ names, name = "lo".toList

/-- In whatever order the two go on, and in whatever pieces the host reads, a process becomes the workload of the
strict profile only after the host has accepted an attestation with its nonce, and then it is confined as the
attestation says. -/
theorem sandbox_release (H : SandboxHost File) (P : Python F) (env : SandboxEnv) {w₀ w : GateWorld File}
    (hprofile : env.seccompProfile = "strict".toList)
    (hlower : H.libseccomp.unicode.lower "strict".toList = "strict".toList)
    (hinit : (sandboxStart H P true env).init w₀) (hrun : (sandboxStart H P true env).Run w₀ w)
    (hrunning : w.child = .running) :
    ∃ attestation, w.gate = .accepted (some attestation) ∧ Released H env w₀.process w.process attestation := by
  have hinv := GateInv.run hinit hrun
  obtain ⟨attestation, haccepted, hsome⟩ := hinv.sent (hinv.running hrunning)
  obtain ⟨attestation, rfl⟩ := Option.isSome_iff_exists.1 (hsome rfl)
  obtain ⟨fields, hboot, -, hparsed⟩ := hinv.booted (.inr hrunning)
  have hspec := Action.wp_elim (wp_bootstrap H env w₀.process) (congrArg Prod.fst hboot)
  rw [hboot] at hspec
  obtain ⟨active, interfaces, installed, rfl, hwritable, hconfines⟩ := hspec
  obtain ⟨-, hacceptable, hnonce, hrules, habi⟩ :=
    parse_attestationFields hwritable (hparsed attestation haccepted)
  have hpositive := hacceptable.rules
  have hstrict := hacceptable.profile_eq.trans hprofile
  obtain ⟨ruleset, hlayers, hpolicy⟩ := hconfines.landlock (hconfines.strict hstrict)
  obtain ⟨filter, hfilters, strict, hlowered, hallowed, hlength⟩ := hconfines.seccomp
  obtain rfl : strict = true := by
    rw [hstrict, show Str.strip "strict".toList = "strict".toList by decide, hlower] at hlowered
    cases strict with
    | true => rfl
    | false => exact absurd hlowered (by decide)
  exact ⟨attestation, haccepted, hnonce, hacceptable.pid, hconfines.noNewPrivs,
    ⟨filter, hfilters, hallowed, by rw [hrules, hlength], by omega⟩,
    ⟨active.2, ruleset, hlayers, hpolicy, habi hstrict, (hacceptable.landlock hstrict).2⟩, interfaces,
    hconfines.interfaces, hacceptable.interfaces⟩

/-! ## That the gate opens -/

/-- The host can read what is left of the line. -/
theorem run_read (H : SandboxHost File) (P : Python F) (requireAttestation : Bool) (env : SandboxEnv)
    {line : Bytes} (hline : (10 : UInt8) ∉ line) (hlength : line.length < 16384) (rest : Bytes) :
    ∀ (w : GateWorld File) (buffer : Bytes), w.gate = .reading buffer → w.pipe = rest →
      buffer ++ rest = line ++ [10] → (sandboxStart H P requireAttestation env).Run w
        { w with gate := .reading (line ++ [10]), pipe := [] } := by
  induction rest with
  | nil =>
    intro w buffer hgate hpipe hall
    rw [List.append_nil] at hall
    rw [← hall, ← hgate, ← hpipe]
    exact System.Run.refl w
  | cons byte rest ih =>
    intro w buffer hgate hpipe hall
    have hunfinished : (10 : UInt8) ∉ buffer := fun hmem => by
      cases eq_nil_of_mem_terminator hline hmem hall
    have hshort : ¬ 16384 < (buffer ++ [byte]).length := by
      have hlengths := congrArg List.length hall
      simp only [List.length_append, List.length_cons, List.length_nil] at hlengths ⊢
      omega
    have hstep : GateStep H P requireAttestation env w (readChunk buffer [byte] w) :=
      .read buffer [byte] hgate hunfinished (List.cons_ne_nil _ _) (by rw [hpipe]; exact ⟨rest, rfl⟩)
        (by simp only [List.length_cons, List.length_nil]; omega)
    have hnext : readChunk buffer [byte] w = { w with gate := .reading (buffer ++ [byte]), pipe := rest } := by
      rw [readChunk, if_neg hshort, hpipe]
      rfl
    have hrun := ih { w with gate := .reading (buffer ++ [byte]), pipe := rest } (buffer ++ [byte]) rfl rfl
      (by rw [List.append_assoc]; exact hall)
    exact System.Run.trans (.single (hnext ▸ hstep)) hrun

/-- A bootstrap that waits becomes the workload, where the host reads on and accepts what it wrote. -/
theorem run_started {fields : Fields F} {buffer : Bytes} {attestation : SandboxAttestation}
    (hwaiting : w.child = .waiting) (hopen : w.goClosed = false) (hgate : w.gate = .reading buffer)
    (hread : buffer ++ w.pipe = jsonLine (.obj fields))
    (hparse : parseAttestation P (jsonLine (.obj fields)) env.nonce env.seccompProfile = .ok attestation) :
    ∃ w', (sandboxStart H P true env).Run w w' ∧ w'.child = .running := by
  have hline : jsonLine (.obj fields) = encodeUtf8 ((Json.obj fields).render ⟨true, true⟩) ++ [10] := by
    rw [jsonLine, encodeUtf8_append]
    rfl
  have hlength : (jsonLine (.obj fields)).length ≤ 16384 := by
    obtain ⟨_, -, h⟩ := bind_eq_ok.1 hparse
    obtain ⟨_, h, -⟩ := bind_eq_ok.1 h
    exact not_lt.1 (refuseIf_eq_ok.1 h)
  rw [hline, List.length_append, List.length_singleton] at hlength
  have hall := run_read H P true env (not_mem_encodeUtf8 (printable_render true (Json.obj fields))) (by omega)
    w.pipe w buffer hgate rfl (hread.trans hline)
  rw [← hline] at hall
  have hmem : (10 : UInt8) ∈ jsonLine (.obj fields) := by
    rw [hline]
    exact List.mem_append_right _ (List.mem_singleton_self _)
  have hjudge : GateStep H P true env { w with gate := .reading (jsonLine (.obj fields)), pipe := [] }
      { w with gate := .accepted (some attestation), pipe := [], goSent := true, goClosed := true } := by
    have haccept : judge P true env (jsonLine (.obj fields))
        { w with gate := .reading (jsonLine (.obj fields)), pipe := [] } =
        { w with gate := .accepted (some attestation), pipe := [], goSent := true, goClosed := true } := by
      rw [judge, if_pos rfl, hparse]
      exact if_neg (by simp [hopen])
    rw [← haccept]
    exact .judge _ rfl (.inl hmem)
  exact ⟨_, System.Run.trans hall <| System.Run.trans (.single hjudge) (.single (.release hwaiting rfl)), rfl⟩

/-- The host reads on until it has closed the gate. -/
theorem reading_of_open (hinit : (sandboxStart H P true env).init w) (hrun : (sandboxStart H P true env).Run w w')
    (hopen : w'.goClosed = false) : ∃ buffer, w'.gate = .reading buffer := by
  refine hrun.invariant (P := fun w => w.goClosed = false → ∃ buffer, w.gate = .reading buffer)
    (fun w w' h hstep => ?_) (fun _ => ⟨[], hinit.2.2.1⟩) hopen
  cases hstep with
  | attest fields process child boot => exact h
  | fail exc process child boot => exact h
  | read buffer chunk gate unfinished nonempty bytes size =>
    unfold readChunk
    split_ifs with hlong
    · exact fun hclosed => by cases hclosed
    · exact fun _ => ⟨_, rfl⟩
  | judge buffer gate finished =>
    unfold judge GateWorld.accept
    rw [if_pos rfl]
    split
    · split_ifs with hclosed
      · exact fun hopen => absurd (hclosed.symm.trans hopen) (by decide)
      · exact fun hopen => by cases hopen
    · exact fun hopen => by cases hopen
  | giveUp => exact fun hopen => by cases hopen
  | release child sent => exact h
  | exit => exact h

/-- While the gate is open, a bootstrap that waits at it can become the workload exactly where the attestation that
it wrote is acceptable and not too long: the host turns nothing else away, in whatever pieces it has read so far. -/
theorem sandbox_started_iff (H : SandboxHost File) (P : Python F) (env : SandboxEnv) {w₀ w : GateWorld File}
    (hinit : (sandboxStart H P true env).init w₀) (hrun : (sandboxStart H P true env).Run w₀ w)
    (hwaiting : w.child = .waiting) (hopen : w.goClosed = false) :
    ∃ active interfaces installed,
      bootstrap H env w₀.process = (.ok (attestationFields H env
        (H.libseccomp.unicode.lower (Str.strip env.seccompProfile)) active interfaces true installed : Fields F),
          w.process) ∧
      ((∃ w', (sandboxStart H P true env).Run w w' ∧ w'.child = .running) ↔
        (jsonLine (.obj (attestationFields H env (H.libseccomp.unicode.lower (Str.strip env.seccompProfile)) active
          interfaces true installed) : Json F)).length ≤ 16384 ∧
        Acceptable H env (H.libseccomp.unicode.lower (Str.strip env.seccompProfile)) active interfaces true
          installed) := by
  have hinv := GateInv.run hinit hrun
  obtain ⟨fields, hboot, hread, -⟩ := hinv.booted (.inl hwaiting)
  obtain ⟨buffer, hgate⟩ := reading_of_open hinit hrun hopen
  have hspec := Action.wp_elim (wp_bootstrap H env w₀.process) (congrArg Prod.fst hboot)
  obtain ⟨active, interfaces, installed, rfl, hwritable, -⟩ := hspec
  refine ⟨active, interfaces, installed, hboot, fun hstarted => ?_, fun h => ?_⟩
  · obtain ⟨w', hrun', hrunning⟩ := hstarted
    have hinv' := GateInv.run hinit (hrun.trans hrun')
    obtain ⟨attestation, haccepted, hsome⟩ := hinv'.sent (hinv'.running hrunning)
    obtain ⟨attestation, rfl⟩ := Option.isSome_iff_exists.1 (hsome rfl)
    obtain ⟨fields', hboot', -, hparsed⟩ := hinv'.booted (.inr hrunning)
    obtain rfl := Except.ok.inj (congrArg Prod.fst (hboot.symm.trans hboot'))
    obtain ⟨hlength, hacceptable, -⟩ := parse_attestationFields hwritable (hparsed attestation haccepted)
    exact ⟨hlength, hacceptable⟩
  · obtain ⟨attestation, hparse⟩ := parse_acceptable (P := P) hwritable h.1 h.2
    exact run_started hwaiting hopen hgate (hread buffer hgate) hparse

/-- A bootstrap that writes what the host accepts comes to the gate, and through it. -/
theorem run_of_boot (hinit : (sandboxStart H P true env).init w) {fields : Fields F}
    {attestation : SandboxAttestation} (hboot : (bootstrap H env w.process).1 = .ok fields)
    (hlength : (jsonLine (.obj fields)).length ≤ 16384)
    (hexamine : examineAttestation P fields env.nonce env.seccompProfile = .ok attestation) :
    ∃ w' w'', (sandboxStart H P true env).Run w w' ∧ w'.child = .waiting ∧ w'.goClosed = false ∧
      (sandboxStart H P true env).Run w' w'' ∧ w''.child = .running := by
  obtain ⟨hchild, hpipe, hgate, -, hopen⟩ := hinit
  obtain ⟨active, interfaces, installed, hfields, hwritable, -⟩ := Action.wp_elim (wp_bootstrap H env w.process) hboot
  have hne : jsonLine (.obj fields) ≠ [] := by
    rw [jsonLine, encodeUtf8_append]
    exact List.append_ne_nil_of_right_ne_nil _ (by decide)
  have hread : readRecord (jsonLine (.obj fields)) = .ok fields :=
    readRecord_jsonLine (hfields ▸ attestationFields_wf) hwritable
  have hparse : parseAttestation P (jsonLine (.obj fields)) env.nonce env.seccompProfile = .ok attestation :=
    bind_eq_ok.2 ⟨(), refuseIf_eq_ok.2 hne, bind_eq_ok.2 ⟨(), refuseIf_eq_ok.2 (by omega),
      bind_eq_ok.2 ⟨fields, hread, hexamine⟩⟩⟩
  have hattest : GateStep H P true env w { w with
      child := .waiting, process := (bootstrap H env w.process : Except _ (Fields F) × _).2,
      pipe := w.pipe ++ jsonLine (.obj fields) } := .attest fields _ hchild (Prod.ext hboot rfl)
  obtain ⟨w'', hrun, hrunning⟩ := run_started (w := { w with
    child := .waiting, process := (bootstrap H env w.process : Except _ (Fields F) × _).2,
    pipe := w.pipe ++ jsonLine (.obj fields) }) rfl hopen hgate (by rw [hpipe]; rfl) hparse
  exact ⟨_, w'', System.Run.single hattest, rfl, hopen, hrun, hrunning⟩

/-! ## A sandbox that starts -/

/-- A host on which everything works. -/
def sampleHost : SandboxHost String where
  libseccomp := sampleLibseccomp
  landlock := sampleKernel
  setNoNewPrivs := .ok ()
  interfaces := .ok ["lo".toList]
  pid := 1
  executable := "/usr/bin/python3".toList
  monotonicNs := 1

/-- The environment of a strict sandbox. -/
def sampleEnv : SandboxEnv := ⟨"strict".toList, "rw".toList, "nonce".toList⟩

/-- A sandbox before its start. -/
def sampleStart : GateWorld String :=
  ⟨⟨false, sampleProcess, []⟩, .booting, [], .reading [], false, false⟩

theorem sampleStart_init : (sandboxStart sampleHost samplePython true sampleEnv).init sampleStart :=
  ⟨rfl, rfl, rfl, rfl, rfl⟩

/-- The host accepts what the bootstrap writes. -/
def accepts (boot : Except BootstrapError (Fields Literal)) : Bool :=
  match boot with
  | .ok fields =>
    (examineAttestation samplePython fields sampleEnv.nonce sampleEnv.seccompProfile).toBool &&
      decide ((jsonLine (.obj fields)).length ≤ 16384)
  | .error _ => false

theorem exists_of_accepts {boot : Except BootstrapError (Fields Literal)} (h : accepts boot = true) :
    ∃ fields attestation, boot = .ok fields ∧ (jsonLine (.obj fields)).length ≤ 16384 ∧
      examineAttestation samplePython fields sampleEnv.nonce sampleEnv.seccompProfile = .ok attestation := by
  rcases boot with exc | fields
  · cases h
  · rw [accepts, Bool.and_eq_true, decide_eq_true_eq] at h
    obtain ⟨hexamine, hlength⟩ := h
    rcases hresult : examineAttestation samplePython fields sampleEnv.nonce sampleEnv.seccompProfile with
      exc | attestation
    · rw [hresult] at hexamine
      cases hexamine
    · exact ⟨fields, attestation, rfl, hlength, hresult⟩

theorem sample_accepts : accepts (bootstrap sampleHost sampleEnv sampleStart.process).1 = true := by decide +kernel

theorem sample_runs : ∃ w w', (sandboxStart sampleHost samplePython true sampleEnv).Run sampleStart w ∧
    w.child = .waiting ∧ w.goClosed = false ∧
    (sandboxStart sampleHost samplePython true sampleEnv).Run w w' ∧ w'.child = .running := by
  obtain ⟨fields, attestation, hboot, hlength, hexamine⟩ := exists_of_accepts sample_accepts
  exact run_of_boot sampleStart_init hboot hlength hexamine

theorem sandbox_release_sample : ∃ (w : GateWorld String) (attestation : SandboxAttestation),
    w.gate = .accepted (some attestation) ∧
      Released sampleHost sampleEnv sampleStart.process w.process attestation := by
  obtain ⟨w, w', hrun, -, -, hrun', hrunning⟩ := sample_runs
  exact ⟨w', sandbox_release sampleHost samplePython sampleEnv rfl rfl sampleStart_init (hrun.trans hrun') hrunning⟩

theorem sandbox_started_iff_sample : ∃ (w : GateWorld String) (active : Bool × ℕ) (interfaces : List Str)
    (installed : List String),
    bootstrap sampleHost sampleEnv sampleStart.process = (.ok (attestationFields sampleHost sampleEnv
      (sampleLibseccomp.unicode.lower (Str.strip "strict".toList)) active interfaces true installed :
        Fields Literal), w.process) ∧
    ((∃ w', (sandboxStart sampleHost samplePython true sampleEnv).Run w w' ∧ w'.child = .running) ↔
      (jsonLine (.obj (attestationFields sampleHost sampleEnv
        (sampleLibseccomp.unicode.lower (Str.strip "strict".toList)) active interfaces true installed) :
          Json Literal)).length ≤ 16384 ∧
      Acceptable sampleHost sampleEnv (sampleLibseccomp.unicode.lower (Str.strip "strict".toList)) active interfaces
        true installed) := by
  obtain ⟨w, -, hrun, hwaiting, hopen, -⟩ := sample_runs
  exact ⟨w, sandbox_started_iff sampleHost samplePython sampleEnv sampleStart_init hrun hwaiting hopen⟩

end Bulldog.Sandbox
