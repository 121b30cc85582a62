import Bulldog.Lib.Action
import Bulldog.Lib.Confinement

/-!
# The Landlock policy

`landlock_policy.py`: the rules for files that a sandbox installs before its workload. A ruleset handles some
rights, and a right that it handles is granted for a file by a rule on the file or on a directory above it. What
the kernel and the file system answer is arbitrary.
-/

namespace Bulldog.Sandbox

/-! ## The rights -/

/-- A mask of rights. -/
abbrev Rights := BitVec 64

def accessExecute : Rights := 1 <<< 0
def accessWriteFile : Rights := 1 <<< 1
def accessReadFile : Rights := 1 <<< 2
def accessReadDir : Rights := 1 <<< 3
def accessRemoveDir : Rights := 1 <<< 4
def accessRemoveFile : Rights := 1 <<< 5
def accessMakeChar : Rights := 1 <<< 6
def accessMakeDir : Rights := 1 <<< 7
def accessMakeReg : Rights := 1 <<< 8
def accessMakeSock : Rights := 1 <<< 9
def accessMakeFifo : Rights := 1 <<< 10
def accessMakeBlock : Rights := 1 <<< 11
def accessMakeSym : Rights := 1 <<< 12
def accessRefer : Rights := 1 <<< 13
def accessTruncate : Rights := 1 <<< 14

/-- `_BASE_ACCESS`. -/
def baseAccess : Rights :=
  accessExecute ||| accessWriteFile ||| accessReadFile ||| accessReadDir ||| accessRemoveDir |||
    accessRemoveFile ||| accessMakeChar ||| accessMakeDir ||| accessMakeReg ||| accessMakeSock |||
    accessMakeFifo ||| accessMakeBlock ||| accessMakeSym

/-- `_handled_access(abi)`. -/
def handledAccess (abi : ℕ) : Rights :=
  let handled := baseAccess
  let handled := if 2 ≤ abi then handled ||| accessRefer else handled
  if 3 ≤ abi then handled ||| accessTruncate else handled

/-- The rights that are for directories only. -/
def directoryAccess : Rights :=
  accessReadDir ||| accessRemoveDir ||| accessMakeChar ||| accessMakeDir ||| accessMakeReg |||
    accessMakeSock ||| accessMakeFifo ||| accessMakeBlock ||| accessMakeSym ||| accessRefer

/-- `allowed`, without what a file that is no directory cannot have. -/
def rightsFor (isDirectory : Bool) (allowed : Rights) : Rights :=
  if isDirectory then allowed else allowed &&& ~~~directoryAccess

/-! ## The kernel -/

variable {File : Type}

/-- A rule that has been added, with the file of its descriptor. -/
structure PathRule (File : Type) where
  allowedAccess : Rights
  file : File

/-- A ruleset. -/
structure Ruleset (File : Type) where
  handledAccessFs : Rights
  rules : List (PathRule File)

/-- What is asked for: rights on a file, with the file and the directories above it. -/
structure FileRequest (File : Type) where
  chain : List File
  rights : Rights

/-- The requests that a ruleset lets through. -/
def Ruleset.granted (ruleset : Ruleset File) : RequestFilter (FileRequest File) :=
  {request | ∀ bit, request.rights.getLsbD bit = true → ruleset.handledAccessFs.getLsbD bit = true →
    ∃ rule ∈ ruleset.rules, rule.file ∈ request.chain ∧ rule.allowedAccess.getLsbD bit = true}

/-- The process: the rulesets that it is under, the one that it is making, and how many descriptors it has open. -/
structure LandlockProcess (File : Type) where
  layers : List (Ruleset File)
  ruleset : Ruleset File
  descriptors : ℕ

/-- The answers, each an `errno` or a result. -/
structure LandlockKernel (File : Type) where
  /-- `landlock_create_ruleset(NULL, 0, LANDLOCK_CREATE_RULESET_VERSION)`. -/
  rulesetVersion : Except ℤ ℕ
  /-- `landlock_create_ruleset` for these rights. -/
  createRuleset : Rights → Except ℤ ℕ
  /-- `landlock_add_rule`. -/
  addRule : Ruleset File → PathRule File → Except ℤ ℕ
  /-- `landlock_restrict_self`. -/
  restrictSelf : LandlockProcess File → Except ℤ ℕ
  /-- `os.strerror`. -/
  strerror : ℤ → String
  /-- `Path(path).exists()`. -/
  pathExists : String → Except ℤ Bool
  /-- `os.open(path, O_PATH | O_CLOEXEC | O_NOFOLLOW)`. -/
  openPath : String → Except ℤ File
  /-- `stat.S_ISDIR(os.fstat(fd).st_mode)`. -/
  isDirectory : File → Except ℤ Bool

/-! ## The installation -/

/-- The exceptions of this module, and `OSError`. -/
inductive LandlockException where
  | landlockUnavailable (message : String)
  | landlockError (message : String)
  | osError (errno : ℤ)
  deriving DecidableEq

/-- `str(exc)`, where the module catches it. -/
def LandlockException.message : LandlockException → String
  | .landlockUnavailable message => message
  | .landlockError message => message
  | .osError errno => toString errno

/-- `errno.ENOSYS`. -/
def enosys : ℤ := 38

/-- `errno.EOPNOTSUPP`. -/
def eopnotsupp : ℤ := 95

def sysCreateRuleset : ℕ := 444
def sysAddRule : ℕ := 445
def sysRestrictSelf : ℕ := 446

variable (K : LandlockKernel File)

/-- `_syscall(number, *args)`, with the answer. -/
def landlockSyscall (number : ℕ) (answer : Except ℤ ℕ) : Except LandlockException ℕ :=
  answer.mapError fun err =>
    if err = enosys ∨ err = eopnotsupp then .landlockUnavailable (K.strerror err)
    else .landlockError ("landlock syscall " ++ toString number ++ " failed: [errno " ++ toString err ++ "] " ++
      K.strerror err)

/-- A hexadecimal number. -/
def hex (rights : Rights) : String := String.ofList (Nat.toDigits 16 rights.toNat)

/-- The part of `_add_path_rule` that has the descriptor. No path of the policy has a character that `repr`
escapes. -/
def addRuleAt (path : String) (file : File) (allowed : Rights) :
    Action (LandlockProcess File) LandlockException Unit := do
  let isDirectory ← (K.isDirectory file).mapError LandlockException.osError
  let allowed := rightsFor isDirectory allowed
  if allowed = 0 then pure ()
  else do
    let process ← .read
    let _ ← (landlockSyscall K sysAddRule (K.addRule process.ruleset ⟨allowed, file⟩)).mapError
      fun exc => LandlockException.landlockError ("failed Landlock rule for '" ++ path ++
        "', allowed_access=0x" ++ hex allowed ++ ": " ++ exc.message)
    .update fun process => { process with
      ruleset := { process.ruleset with rules := process.ruleset.rules ++ [⟨allowed, file⟩] } }

/-- `os.close` of a descriptor. -/
def closeDescriptor : Action (LandlockProcess File) LandlockException Unit :=
  .update fun process => { process with descriptors := process.descriptors - 1 }

/-- `_add_path_rule(ruleset_fd, path, allowed)`. -/
def addPathRule (path : String) (allowed : Rights) : Action (LandlockProcess File) LandlockException Unit := do
  let there ← (K.pathExists path).mapError LandlockException.osError
  if there = false then pure ()
  else do
    let file ← (K.openPath path).mapError LandlockException.osError
    .update fun process => { process with descriptors := process.descriptors + 1 }
    (addRuleAt K path file allowed).ensuring closeDescriptor

def readOnly (handled : Rights) : Rights := (accessExecute ||| accessReadFile ||| accessReadDir) &&& handled

def workspaceWrite (handled : Rights) : Rights :=
  (accessExecute ||| accessReadFile ||| accessReadDir ||| accessWriteFile ||| accessRemoveFile |||
    accessRemoveDir ||| accessMakeDir ||| accessMakeReg ||| accessMakeSym ||| accessTruncate) &&& handled

def tmpWrite (handled : Rights) : Rights :=
  (accessReadFile ||| accessReadDir ||| accessWriteFile ||| accessRemoveFile ||| accessRemoveDir |||
    accessMakeDir ||| accessMakeReg ||| accessMakeSym ||| accessTruncate) &&& handled

def deviceAccess (handled : Rights) : Rights := (accessReadFile ||| accessWriteFile ||| accessReadDir) &&& handled

/-- The paths that are read-only in every case. -/
def runtimePaths : List String := ["/usr", "/bin", "/sbin", "/lib", "/lib64", "/etc", "/bull_runtime"]

/-- The calls of `_add_path_rule`, in their order. -/
def policyPaths (handled : Rights) (workspaceWritable : Bool) : List (String × Rights) :=
  runtimePaths.map (fun path => (path, readOnly handled)) ++
    [("/workspace", if workspaceWritable then workspaceWrite handled else readOnly handled),
      ("/tmp", tmpWrite handled), ("/dev", deviceAccess handled)]

/-- The part of `install_bull_landlock` that has the ruleset's descriptor. -/
def fillRuleset (paths : List (String × Rights)) : Action (LandlockProcess File) LandlockException Unit := do
  paths.forM fun path => addPathRule K path.1 path.2
  let process ← .read
  let _ ← landlockSyscall K sysRestrictSelf (K.restrictSelf process)
  .update fun process => { process with layers := process.ruleset :: process.layers }

/-- `install_bull_landlock(workspace_writable=workspace_writable)`. -/
def installBullLandlock (workspaceWritable : Bool) : Action (LandlockProcess File) LandlockException ℕ := do
  let abi ← landlockSyscall K sysCreateRuleset K.rulesetVersion
  let handled := handledAccess abi
  let _ ← landlockSyscall K sysCreateRuleset (K.createRuleset handled)
  .update fun process => { process with ruleset := ⟨handled, []⟩, descriptors := process.descriptors + 1 }
  (fillRuleset K (policyPaths handled workspaceWritable)).ensuring closeDescriptor
  return abi

/-! ## The rules that are added -/

variable {K} {path : String} {paths : List (String × Rights)} {allowed handled : Rights} {file : File}
  {process process' : LandlockProcess File}

/-- A rule of a path that is there. -/
structure RuleOf (K : LandlockKernel File) (path : String) (allowed : Rights) (rule : PathRule File) : Prop where
  pathExists : K.pathExists path = .ok true
  openPath : K.openPath path = .ok rule.file
  isDirectory : ∃ isDirectory, K.isDirectory rule.file = .ok isDirectory ∧
    rule.allowedAccess = rightsFor isDirectory allowed
  ne_zero : rule.allowedAccess ≠ 0

/-- The kernel has taken the rule, in a ruleset for these rights. -/
def Taken (K : LandlockKernel File) (handled : Rights) (rule : PathRule File) : Prop :=
  ∃ ruleset n, ruleset.handledAccessFs = handled ∧ K.addRule ruleset rule = .ok n

/-- The process has added the rules of `P`, and has done nothing else. -/
def Adds (K : LandlockKernel File) (P : PathRule File → Prop) (process process' : LandlockProcess File) : Prop :=
  ∃ added, process' = { process with
      ruleset := { process.ruleset with rules := process.ruleset.rules ++ added } } ∧
    (∀ rule, rule ∈ added ↔ P rule) ∧ ∀ rule ∈ added, Taken K process.ruleset.handledAccessFs rule

theorem Adds.nothing {P : PathRule File → Prop} (h : ∀ rule, ¬ P rule) : Adds K P process process :=
  ⟨[], by rw [List.append_nil], fun rule => iff_of_false List.not_mem_nil (h rule),
    fun rule hrule => (List.not_mem_nil hrule).elim⟩

theorem mapError_eq_ok {α ε ε' : Type} {x : Except ε α} {f : ε → ε'} {a : α} :
    x.mapError f = .ok a ↔ x = .ok a := by
  cases x <;> simp [Except.mapError]

theorem wp_addRuleAt (path : String) (file : File) (allowed : Rights) :
    (addRuleAt K path file allowed).wp
      (fun _ => Adds K (fun rule => rule.file = file ∧ (∃ isDirectory, K.isDirectory file = .ok isDirectory ∧
        rule.allowedAccess = rightsFor isDirectory allowed) ∧ rule.allowedAccess ≠ 0) process)
      (fun _ process' => process' = process) process := by
  unfold addRuleAt
  simp only [Action.wp_bind]
  refine (Action.wp_lift _).2 ⟨fun isDirectory hdirectory => ?_, fun _ _ => rfl⟩
  rw [mapError_eq_ok] at hdirectory
  by_cases hzero : rightsFor isDirectory allowed = 0
  · rw [if_pos hzero, Action.wp_pure]
    refine Adds.nothing fun rule hrule => ?_
    obtain ⟨-, ⟨isDirectory', hdirectory', hrights⟩, hne⟩ := hrule
    obtain rfl := Except.ok.inj (hdirectory.symm.trans hdirectory')
    exact hne (hrights.trans hzero)
  · rw [if_neg hzero]
    simp only [Action.wp_bind, Action.wp_read, Action.wp_update]
    refine (Action.wp_lift _).2 ⟨fun n hn => ⟨[_], rfl, fun rule => ?_, fun rule hrule => ?_⟩, fun _ _ => rfl⟩
    · rw [List.mem_singleton, hdirectory]
      constructor
      · rintro rfl
        exact ⟨rfl, ⟨isDirectory, rfl, rfl⟩, hzero⟩
      · rintro ⟨rfl, ⟨isDirectory', hdirectory', hrights⟩, -⟩
        obtain rfl := Except.ok.inj hdirectory'
        cases rule
        simp_all
    · obtain rfl := List.mem_singleton.1 hrule
      exact ⟨_, n, rfl, mapError_eq_ok.1 (mapError_eq_ok.1 hn)⟩

/-- A path adds its rule, or the descriptors are as they were. -/
theorem wp_addPathRule (path : String) (allowed : Rights) :
    (addPathRule K path allowed).wp (fun _ => Adds K (RuleOf K path allowed) process)
      (fun _ process' => process' = process) process := by
  unfold addPathRule
  simp only [Action.wp_bind]
  refine (Action.wp_lift _).2 ⟨fun there hthere => ?_, fun _ _ => rfl⟩
  rw [mapError_eq_ok] at hthere
  cases there with
  | false =>
    refine Adds.nothing fun rule hrule => ?_
    exact absurd (hthere.symm.trans hrule.pathExists) (by simp)
  | true =>
    rw [if_neg (by decide)]
    simp only [Action.wp_bind]
    refine (Action.wp_lift _).2 ⟨fun file hfile => ?_, fun _ _ => rfl⟩
    rw [mapError_eq_ok] at hfile
    simp only [Action.wp_update, Action.wp_ensuring, closeDescriptor]
    refine Action.wp_mono (wp_addRuleAt path file allowed) (fun _ process' h => ?_) fun _ process' h => ?_
    · obtain ⟨added, rfl, hadded, htaken⟩ := h
      refine ⟨added, rfl, fun rule => (hadded rule).trans ⟨fun h => ?_, fun h => ?_⟩, htaken⟩
      · obtain ⟨rfl, hdirectory, hne⟩ := h
        exact ⟨hthere, hfile, hdirectory, hne⟩
      · obtain ⟨-, hfile', hdirectory, hne⟩ := h
        obtain rfl := Except.ok.inj (hfile.symm.trans hfile')
        exact ⟨rfl, hdirectory, hne⟩
    · obtain rfl := h
      rfl

/-- The loop over the paths. -/
theorem wp_addPathRules (paths : List (String × Rights)) :
    (paths.forM fun path => addPathRule K path.1 path.2).wp
      (fun _ => Adds K (fun rule => ∃ path ∈ paths, RuleOf K path.1 path.2 rule) process)
      (fun _ process' => process'.layers = process.layers ∧ process'.descriptors = process.descriptors)
      process := by
  induction paths generalizing process with
  | nil => exact Adds.nothing fun rule hrule => by simp at hrule
  | cons path paths ih =>
    change (addPathRule K path.1 path.2 >>= fun _ =>
      paths.forM fun path => addPathRule K path.1 path.2).wp _ _ _
    rw [Action.wp_bind]
    refine Action.wp_mono (wp_addPathRule path.1 path.2) (fun _ process' h => ?_) fun _ process' h => ?_
    · obtain ⟨added, rfl, hadded, htaken⟩ := h
      refine Action.wp_mono ih (fun _ process' h => ?_) fun _ process' h => h
      obtain ⟨added', rfl, hadded', htaken'⟩ := h
      refine ⟨added ++ added', by simp only [List.append_assoc], fun rule => ?_, fun rule hrule => ?_⟩
      · rw [List.mem_append, hadded, hadded']
        exact (List.exists_mem_cons_iff (fun path : String × Rights => RuleOf K path.1 path.2 rule) _ _).symm
      · exact (List.mem_append.1 hrule).elim (htaken rule) (htaken' rule)
    · rw [h]
      exact ⟨rfl, rfl⟩

theorem wp_fillRuleset (paths : List (String × Rights)) :
    (fillRuleset K paths).wp
      (fun _ process' => process'.descriptors = process.descriptors ∧
        ∃ added, process'.layers = ⟨process.ruleset.handledAccessFs, process.ruleset.rules ++ added⟩ ::
            process.layers ∧ (∀ rule, rule ∈ added ↔ ∃ path ∈ paths, RuleOf K path.1 path.2 rule) ∧
          ∀ rule ∈ added, Taken K process.ruleset.handledAccessFs rule)
      (fun _ process' => process'.layers = process.layers ∧ process'.descriptors = process.descriptors)
      process := by
  unfold fillRuleset
  simp only [Action.wp_bind, Action.wp_read, Action.wp_update]
  refine Action.wp_mono (wp_addPathRules paths) (fun _ process' h => ?_) fun _ process' h => h
  obtain ⟨added, rfl, hadded, htaken⟩ := h
  exact (Action.wp_lift _).2 ⟨fun _ _ => ⟨rfl, added, rfl, hadded, htaken⟩, fun _ _ => ⟨rfl, rfl⟩⟩

/-- The installation puts the process under one more ruleset, with the rules of the policy for the paths that are
there, or it raises and does not. It leaves no descriptor open. -/
theorem wp_installBullLandlock (K : LandlockKernel File) (workspaceWritable : Bool) (process : LandlockProcess File) :
    (installBullLandlock K workspaceWritable).wp
      (fun abi process' => K.rulesetVersion = .ok abi ∧ process'.descriptors = process.descriptors ∧
        ∃ ruleset, process'.layers = ruleset :: process.layers ∧
          ruleset.handledAccessFs = handledAccess abi ∧
          (∀ rule, rule ∈ ruleset.rules ↔
            ∃ path ∈ policyPaths (handledAccess abi) workspaceWritable, RuleOf K path.1 path.2 rule) ∧
          ∀ rule ∈ ruleset.rules, Taken K (handledAccess abi) rule)
      (fun _ process' => process'.layers = process.layers ∧ process'.descriptors = process.descriptors)
      process := by
  unfold installBullLandlock
  simp only [Action.wp_bind, Action.wp_update, Action.wp_ensuring, Action.wp_pure, closeDescriptor]
  refine (Action.wp_lift _).2 ⟨fun abi habi => ?_, fun _ _ => ⟨rfl, rfl⟩⟩
  refine (Action.wp_lift _).2 ⟨fun _ _ => ?_, fun _ _ => ⟨rfl, rfl⟩⟩
  refine Action.wp_mono (wp_fillRuleset _) (fun _ process' h => ?_) fun _ process' h => ?_
  · obtain ⟨hdescriptors, added, hlayers, hadded, htaken⟩ := h
    refine ⟨mapError_eq_ok.1 habi, ?_, _, hlayers, rfl, hadded, htaken⟩
    simp only [hdescriptors, Nat.add_sub_cancel]
  · obtain ⟨hlayers, hdescriptors⟩ := h
    exact ⟨hlayers, by simp only [hdescriptors, Nat.add_sub_cancel]⟩

/-! ## What is granted -/

/-- A path of the policy has the right for the file that is asked for, or for a directory above it. -/
def PolicyGrants (K : LandlockKernel File) (handled : Rights) (workspaceWritable : Bool)
    (request : FileRequest File) (bit : ℕ) : Prop :=
  ∃ path ∈ policyPaths handled workspaceWritable, ∃ file ∈ request.chain, ∃ isDirectory,
    K.pathExists path.1 = .ok true ∧ K.openPath path.1 = .ok file ∧ K.isDirectory file = .ok isDirectory ∧
      (rightsFor isDirectory path.2).getLsbD bit = true

theorem granted_iff {ruleset : Ruleset File} {workspaceWritable : Bool} {request : FileRequest File}
    (hhandled : ruleset.handledAccessFs = handled)
    (hrules : ∀ rule, rule ∈ ruleset.rules ↔
      ∃ path ∈ policyPaths handled workspaceWritable, RuleOf K path.1 path.2 rule) :
    request ∈ ruleset.granted ↔ ∀ bit, request.rights.getLsbD bit = true → handled.getLsbD bit = true →
      PolicyGrants K handled workspaceWritable request bit := by
  unfold Ruleset.granted
  rw [Set.mem_ofPred_eq, hhandled]
  refine forall_congr' fun bit => imp_congr_right fun _ => imp_congr_right fun _ => ⟨fun h => ?_, fun h => ?_⟩
  · obtain ⟨rule, hrule, hchain, hbit⟩ := h
    obtain ⟨path, hpath, hof⟩ := (hrules rule).1 hrule
    obtain ⟨isDirectory, hfile, hrights⟩ := hof.isDirectory
    exact ⟨path, hpath, rule.file, hchain, isDirectory, hof.pathExists, hof.openPath, hfile, hrights ▸ hbit⟩
  · obtain ⟨path, hpath, file, hchain, isDirectory, hthere, hopen, hfile, hbit⟩ := h
    refine ⟨⟨rightsFor isDirectory path.2, file⟩, (hrules _).2 ⟨path, hpath, hthere, hopen,
      ⟨isDirectory, hfile, rfl⟩, fun hzero => ?_⟩, hchain, hbit⟩
    have hzero' : rightsFor isDirectory path.2 = 0 := hzero
    rw [hzero'] at hbit
    simp at hbit

/-- Where the installation returns, the process is let to what it was let to before and the policy grants. Where it
raises, it is under the rulesets that it was under before. No descriptor is left open. -/
theorem landlock_exact (K : LandlockKernel File) (workspaceWritable : Bool) (process : LandlockProcess File) :
    (installBullLandlock K workspaceWritable).wp
      (fun abi process' => process'.descriptors = process.descriptors ∧
        ∀ request, request ∈ letThrough (process'.layers.map Ruleset.granted) ↔
          request ∈ letThrough (process.layers.map Ruleset.granted) ∧
            ∀ bit, request.rights.getLsbD bit = true → (handledAccess abi).getLsbD bit = true →
              PolicyGrants K (handledAccess abi) workspaceWritable request bit)
      (fun _ process' => process'.descriptors = process.descriptors ∧ process'.layers = process.layers)
      process := by
  refine Action.wp_mono (wp_installBullLandlock K workspaceWritable process) (fun abi process' h => ?_)
    fun _ _ h => h.symm
  obtain ⟨-, hdescriptors, ruleset, hlayers, hhandled, hrules, -⟩ := h
  refine ⟨hdescriptors, fun request => ?_⟩
  rw [hlayers, List.map_cons, letThrough_cons, Set.mem_inter_iff, granted_iff hhandled hrules, and_comm]

/-- One of the files at these paths is the file that is asked for, or is above it. -/
def Beneath (K : LandlockKernel File) (roots : List String) (chain : List File) : Prop :=
  ∃ root ∈ roots, ∃ file ∈ chain, K.openPath root = .ok file

/-- `handled` takes three values. -/
theorem handledAccess_cases (abi : ℕ) :
    (abi < 2 ∧ handledAccess abi = handledAccess 1) ∨ handledAccess abi = handledAccess 2 ∨
      handledAccess abi = handledAccess 3 := by
  unfold handledAccess
  by_cases h2 : 2 ≤ abi
  · right
    by_cases h3 : 3 ≤ abi
    · simp [h2, h3]
    · simp [h2, h3]
  · have h3 : ¬ 3 ≤ abi := by omega
    exact .inl ⟨by omega, by simp [h2, h3]⟩

theorem exists_bit {mask : Rights} (h : mask ≠ 0) : ∃ bit, mask.getLsbD bit = true := by
  by_contra hnone
  refine h (BitVec.eq_of_getLsbD_eq fun bit _ => ?_)
  change mask.getLsbD bit = (0#64).getLsbD bit
  rw [BitVec.getLsbD_zero]
  exact Bool.eq_false_iff.2 fun hbit => hnone ⟨bit, hbit⟩

theorem rightsFor_subset {isDirectory : Bool} {bit : ℕ}
    (h : (rightsFor isDirectory allowed).getLsbD bit = true) : allowed.getLsbD bit = true := by
  cases isDirectory with
  | true => exact h
  | false =>
    rw [rightsFor, if_neg (by decide), BitVec.getLsbD_and, Bool.and_eq_true] at h
    exact h.1

/-- Rights that only some paths of the policy have are granted beneath those. -/
theorem granted_beneath {ruleset : Ruleset File} {request : FileRequest File} {mask : Rights}
    (hrules : ∀ rule ∈ ruleset.rules, ∃ path ∈ paths, RuleOf K path.1 path.2 rule)
    (hhandled : mask &&& ~~~ruleset.handledAccessFs = 0) {roots : List String}
    (hroots : ∀ path ∈ paths, path.1 ∈ roots ∨ path.2 &&& mask = 0) (hrequest : request ∈ ruleset.granted)
    (hasked : request.rights &&& mask ≠ 0) : Beneath K roots request.chain := by
  obtain ⟨bit, hbit⟩ := exists_bit hasked
  rw [BitVec.getLsbD_and, Bool.and_eq_true] at hbit
  have hlayer : ruleset.handledAccessFs.getLsbD bit = true := by
    have hzero : (mask &&& ~~~ruleset.handledAccessFs).getLsbD bit = false := by rw [hhandled]; simp
    have hlt := BitVec.lt_of_getLsbD hbit.2
    simpa [hbit.2, hlt] using hzero
  obtain ⟨rule, hrule, hchain, hrights⟩ := hrequest bit hbit.1 hlayer
  obtain ⟨path, hpath, hof⟩ := hrules rule hrule
  obtain ⟨isDirectory, -, heq⟩ := hof.isDirectory
  rw [heq] at hrights
  rcases hroots path hpath with hroot | hzero
  · exact ⟨path.1, hroot, rule.file, hchain, hof.openPath⟩
  · have hboth : (path.2 &&& mask).getLsbD bit = true := by
      rw [BitVec.getLsbD_and, rightsFor_subset hrights, hbit.2]
      rfl
    rw [hzero] at hboth
    simp at hboth

/-- Rights to make devices, sockets and pipes. -/
def specialAccess : Rights := accessMakeChar ||| accessMakeSock ||| accessMakeFifo ||| accessMakeBlock

/-- Rights to make, remove and cut files. -/
def changeAccess : Rights :=
  accessRemoveDir ||| accessRemoveFile ||| accessMakeDir ||| accessMakeReg ||| accessMakeSym ||| accessTruncate

/-- The paths beneath which files change. -/
def changePaths (workspaceWritable : Bool) : List String :=
  if workspaceWritable then ["/workspace", "/tmp"] else ["/tmp"]

/-- The paths of the policy. -/
def allPaths : List String := runtimePaths ++ ["/workspace", "/tmp", "/dev"]

/-- Each group of rights, and the paths of the policy that have one of the group. -/
theorem policy_roots (abi : ℕ) (workspaceWritable : Bool) :
    ∀ path ∈ policyPaths (handledAccess abi) workspaceWritable,
      path.1 ∈ allPaths ∧ path.2 &&& specialAccess = 0 ∧ path.2 &&& accessRefer = 0 ∧
        (path.1 ∈ changePaths workspaceWritable ∨ path.2 &&& (changeAccess &&& handledAccess abi) = 0) ∧
        (path.1 ∈ "/dev" :: changePaths workspaceWritable ∨ path.2 &&& accessWriteFile = 0) ∧
        (path.1 ∈ "/workspace" :: runtimePaths ∨ path.2 &&& accessExecute = 0) := by
  rcases handledAccess_cases abi with ⟨-, h⟩ | h | h <;> rw [h] <;> cases workspaceWritable <;> decide

theorem handledAccess_subset (abi : ℕ) {mask : Rights} (h : mask &&& ~~~handledAccess 1 = 0) :
    mask &&& ~~~handledAccess abi = 0 := by
  have hsub : ~~~handledAccess abi = ~~~handledAccess abi &&& ~~~handledAccess 1 := by
    rcases handledAccess_cases abi with ⟨-, h⟩ | h | h <;> rw [h] <;> decide
  rw [hsub, BitVec.and_comm (~~~handledAccess abi), ← BitVec.and_assoc, h]
  exact BitVec.zero_and

/-- After the installation, whatever rulesets are added, no descendant of the process makes a device, a socket or
a pipe, or (from ABI 2 on) moves a file to another directory. It makes and removes files, and from ABI 3 on
truncates them, beneath `/tmp` and a writable `/workspace` only, writes to them there and beneath `/dev`, executes
them beneath `/workspace` and the paths of the runtime only, and gets no right that is handled outside the paths of
the policy. -/
theorem landlock_confined (K : LandlockKernel File) {workspaceWritable : Bool} {process : LandlockProcess File}
    {abi : ℕ} (hinstall : (installBullLandlock K workspaceWritable process).1 = .ok abi)
    {ps ps' : Processes (FileRequest File)} {family : Set ℕ} {pid child : ℕ}
    (hps : ps pid = some ((installBullLandlock K workspaceWritable process).2.layers.map Ruleset.granted))
    (hrun : families.Run (ps, {pid}) (ps', family)) (hchild : child ∈ family) :
    ∃ stack, ps' child = some stack ∧ ∀ request ∈ letThrough stack,
      request.rights &&& specialAccess = 0 ∧ (2 ≤ abi → request.rights &&& accessRefer = 0) ∧
      (request.rights &&& (changeAccess &&& handledAccess abi) ≠ 0 →
        Beneath K (changePaths workspaceWritable) request.chain) ∧
      (request.rights &&& accessWriteFile ≠ 0 →
        Beneath K ("/dev" :: changePaths workspaceWritable) request.chain) ∧
      (request.rights &&& accessExecute ≠ 0 → Beneath K ("/workspace" :: runtimePaths) request.chain) ∧
      (request.rights &&& handledAccess abi ≠ 0 → Beneath K allPaths request.chain) := by
  obtain ⟨-, -, ruleset, hlayers, hhandled, hrules, -⟩ :=
    Action.wp_elim (wp_installBullLandlock K workspaceWritable process) hinstall
  have hconfined : Confined ruleset.granted (ps, {pid}) := fun p hp => by
    obtain rfl := Set.mem_singleton_iff.1 hp
    exact ⟨_, hps, by rw [hlayers]; exact List.mem_cons_self⟩
  obtain ⟨stack, hstack, hsubset⟩ := confined_run hconfined hrun hchild
  have hroots := policy_roots abi workspaceWritable
  refine ⟨stack, hstack, fun request hrequest => ?_⟩
  have hbeneath : ∀ (mask : Rights) (roots : List String), mask &&& ~~~handledAccess abi = 0 →
      (∀ path ∈ policyPaths (handledAccess abi) workspaceWritable, path.1 ∈ roots ∨ path.2 &&& mask = 0) →
      request.rights &&& mask ≠ 0 → Beneath K roots request.chain := fun mask roots hmask hpaths =>
    granted_beneath (fun rule hrule => (hrules rule).1 hrule) (by rw [hhandled]; exact hmask) hpaths
      (hsubset hrequest)
  have hnone : ∀ mask : Rights, mask &&& ~~~handledAccess abi = 0 →
      (∀ path ∈ policyPaths (handledAccess abi) workspaceWritable, path.2 &&& mask = 0) →
      request.rights &&& mask = 0 := fun mask hmask hpaths => by
    by_contra hne
    obtain ⟨root, hroot, -⟩ := hbeneath mask [] hmask (fun path hpath => .inr (hpaths path hpath)) hne
    exact List.not_mem_nil hroot
  refine ⟨hnone _ (handledAccess_subset abi (by decide)) fun path hpath => (hroots path hpath).2.1,
    ?_, ?_, ?_, ?_, ?_⟩
  · refine fun habi => hnone _ ?_ fun path hpath => (hroots path hpath).2.2.1
    rcases handledAccess_cases abi with ⟨hlt, -⟩ | h | h
    · omega
    · rw [h]
      decide
    · rw [h]
      decide
  · exact hbeneath _ _ (by rw [BitVec.and_assoc, BitVec.and_not_self]; exact BitVec.and_zero)
      fun path hpath => (hroots path hpath).2.2.2.1
  · exact hbeneath _ _ (handledAccess_subset abi (by decide)) fun path hpath => (hroots path hpath).2.2.2.2.1
  · exact hbeneath _ _ (handledAccess_subset abi (by decide)) fun path hpath => (hroots path hpath).2.2.2.2.2
  · exact hbeneath _ _ (BitVec.and_not_self _) fun path hpath => .inl (hroots path hpath).1

/-! ## A kernel that keeps to its documentation -/

/-- `LANDLOCK_ACCESS_FS_IOCTL_DEV`, which the policy does not handle. -/
def accessIoctlDev : Rights := 1 <<< 15

/-- The rights that a kernel of this ABI knows. -/
def abiRights (abi : ℕ) : Rights :=
  handledAccess abi ||| if 5 ≤ abi then accessIoctlDev else 0

/-- The rights that a file that is no directory can have. -/
def fileAccess : Rights :=
  accessExecute ||| accessWriteFile ||| accessReadFile ||| accessTruncate ||| accessIoctlDev

/-- The kernel takes what its documentation says that it takes, and the paths can be looked at. -/
structure LandlockKernel.Documented (K : LandlockKernel File) (abi : ℕ) : Prop where
  version : K.rulesetVersion = .ok abi
  create : ∀ handled, handled ≠ 0 → handled &&& ~~~abiRights abi = 0 → ∃ fd, K.createRuleset handled = .ok fd
  add : ∀ ruleset rule isDirectory, K.isDirectory rule.file = .ok isDirectory →
    ((∃ n, K.addRule ruleset rule = .ok n) ↔ rule.allowedAccess ≠ 0 ∧
      rule.allowedAccess &&& ~~~ruleset.handledAccessFs = 0 ∧
      (isDirectory = false → rule.allowedAccess &&& ~~~fileAccess = 0))
  restrict : ∀ process, process.layers.length < 16 → ∃ n, K.restrictSelf process = .ok n
  paths : ∀ path, K.pathExists path = .ok false ∨ K.pathExists path = .ok true ∧
    ∃ file isDirectory, K.openPath path = .ok file ∧ K.isDirectory file = .ok isDirectory

/-- What is at the path is a directory, if it is there. -/
def DirectoryAt (K : LandlockKernel File) (path : String) : Prop :=
  ∀ file, K.pathExists path = .ok true → K.openPath path = .ok file → K.isDirectory file = .ok true

/-- The step has changed the rules only, and the descriptors. -/
def SameLayers (process process' : LandlockProcess File) : Prop :=
  process'.layers = process.layers ∧ process'.ruleset.handledAccessFs = process.ruleset.handledAccessFs

variable {abi : ℕ}

theorem rightsFor_handled (isDirectory : Bool) (h : allowed &&& ~~~handled = 0) :
    rightsFor isDirectory allowed &&& ~~~handled = 0 := by
  cases isDirectory with
  | true => exact h
  | false =>
    rw [rightsFor, if_neg (by decide), BitVec.and_assoc, BitVec.and_comm (~~~directoryAccess), ← BitVec.and_assoc, h]
    exact BitVec.zero_and

/-- The rights of the policy are handled. `directoryAccess` leaves `accessRemoveFile` to files that are no
directories, and those rights for which this matters are the ones to change files. -/
theorem policy_fits (abi : ℕ) (workspaceWritable : Bool) :
    ∀ path ∈ policyPaths (handledAccess abi) workspaceWritable, path.2 &&& ~~~handledAccess abi = 0 ∧
      (path.1 ∉ changePaths workspaceWritable → rightsFor false path.2 &&& ~~~fileAccess = 0) ∧
      (path.1 ∈ changePaths workspaceWritable → rightsFor false path.2 &&& ~~~fileAccess ≠ 0) := by
  rcases handledAccess_cases abi with ⟨-, h⟩ | h | h <;> rw [h] <;> cases workspaceWritable <;> decide

theorem addRuleAt_returns (hK : K.Documented abi) (process : LandlockProcess File) {isDirectory : Bool}
    (hfile : K.isDirectory file = .ok isDirectory)
    (hhandled : process.ruleset.handledAccessFs = handledAccess abi)
    (hallowed : allowed &&& ~~~handledAccess abi = 0)
    (hfits : isDirectory = false → rightsFor false allowed &&& ~~~fileAccess = 0) (path : String) :
    (addRuleAt K path file allowed).wp (fun _ => SameLayers process) (fun _ _ => False) process := by
  unfold addRuleAt
  rw [hfile]
  simp only [Action.wp_bind]
  refine Action.wp_lift_of_ok rfl ?_
  by_cases hzero : rightsFor isDirectory allowed = 0
  · rw [if_pos hzero]
    exact ⟨rfl, rfl⟩
  · rw [if_neg hzero]
    simp only [Action.wp_bind, Action.wp_read, Action.wp_update]
    have hsubset : rightsFor isDirectory allowed &&& ~~~process.ruleset.handledAccessFs = 0 := by
      rw [hhandled]
      exact rightsFor_handled isDirectory hallowed
    obtain ⟨n, hn⟩ := (hK.add process.ruleset ⟨rightsFor isDirectory allowed, file⟩ isDirectory hfile).2
      ⟨hzero, hsubset, fun hdirectory => by rw [hdirectory]; exact hfits hdirectory⟩
    rw [hn]
    exact Action.wp_lift_of_ok rfl ⟨rfl, rfl⟩

theorem addPathRule_returns (hK : K.Documented abi) (process : LandlockProcess File)
    (hhandled : process.ruleset.handledAccessFs = handledAccess abi)
    (hallowed : allowed &&& ~~~handledAccess abi = 0)
    (hfits : DirectoryAt K path ∨ rightsFor false allowed &&& ~~~fileAccess = 0) :
    (addPathRule K path allowed).wp (fun _ => SameLayers process) (fun _ _ => False) process := by
  unfold addPathRule
  rcases hK.paths path with hnone | ⟨hthere, file, isDirectory, hopen, hfile⟩
  · rw [hnone]
    exact Action.wp_lift_of_ok rfl ⟨rfl, rfl⟩
  · have hfits' : isDirectory = false → rightsFor false allowed &&& ~~~fileAccess = 0 := fun hfalse => by
      rcases hfits with hdirectory | hfits
      · have htrue := Except.ok.inj (hfile.symm.trans (hdirectory file hthere hopen))
        exact absurd (hfalse.symm.trans htrue) (by decide)
      · exact hfits
    rw [hthere, hopen]
    simp only [Action.wp_bind]
    refine Action.wp_lift_of_ok rfl ?_
    rw [if_neg (by decide)]
    simp only [Action.wp_bind]
    refine Action.wp_lift_of_ok rfl ?_
    simp only [Action.wp_update, Action.wp_ensuring, closeDescriptor]
    exact addRuleAt_returns hK { process with descriptors := process.descriptors + 1 } hfile hhandled hallowed
      hfits' path

theorem addPathRules_return (hK : K.Documented abi) (process : LandlockProcess File)
    (hhandled : process.ruleset.handledAccessFs = handledAccess abi)
    (hpaths : ∀ path ∈ paths, path.2 &&& ~~~handledAccess abi = 0 ∧
      (DirectoryAt K path.1 ∨ rightsFor false path.2 &&& ~~~fileAccess = 0)) :
    (paths.forM fun path => addPathRule K path.1 path.2).wp (fun _ => SameLayers process) (fun _ _ => False)
      process := by
  induction paths generalizing process with
  | nil => exact ⟨rfl, rfl⟩
  | cons path paths ih =>
    change (addPathRule K path.1 path.2 >>= fun _ =>
      paths.forM fun path => addPathRule K path.1 path.2).wp _ _ _
    rw [Action.wp_bind]
    obtain ⟨hallowed, hfits⟩ := hpaths path List.mem_cons_self
    refine Action.wp_mono (addPathRule_returns hK process hhandled hallowed hfits) (fun _ process' h => ?_)
      fun _ _ h => h
    refine Action.wp_mono (ih process' (h.2.trans hhandled) fun path hpath =>
      hpaths path (List.mem_cons_of_mem _ hpath)) (fun _ process'' h' => ?_) fun _ _ h => h
    exact ⟨h'.1.trans h.1, h'.2.trans h.2⟩

theorem changePaths_policy (handled : Rights) {workspaceWritable : Bool} (h : path ∈ changePaths workspaceWritable) :
    ∃ entry ∈ policyPaths handled workspaceWritable, entry.1 = path := by
  cases workspaceWritable with
  | true =>
    rcases List.mem_pair.1 h with rfl | rfl
    · exact ⟨("/workspace", workspaceWrite handled), by simp [policyPaths], rfl⟩
    · exact ⟨("/tmp", tmpWrite handled), by simp [policyPaths], rfl⟩
  | false =>
    obtain rfl := List.mem_singleton.1 h
    exact ⟨("/tmp", tmpWrite handled), by simp [policyPaths], rfl⟩

theorem install_returns (hK : K.Documented abi) (workspaceWritable : Bool) (hlayers : process.layers.length < 16)
    (hdirectories : ∀ path ∈ changePaths workspaceWritable, DirectoryAt K path) :
    (installBullLandlock K workspaceWritable).wp (fun abi' _ => abi' = abi) (fun _ _ => False) process := by
  have hpaths : ∀ path ∈ policyPaths (handledAccess abi) workspaceWritable, path.2 &&& ~~~handledAccess abi = 0 ∧
      (DirectoryAt K path.1 ∨ rightsFor false path.2 &&& ~~~fileAccess = 0) := fun path hpath => by
    obtain ⟨hhandled, hother, -⟩ := policy_fits abi workspaceWritable path hpath
    by_cases hchange : path.1 ∈ changePaths workspaceWritable
    · exact ⟨hhandled, .inl (hdirectories _ hchange)⟩
    · exact ⟨hhandled, .inr (hother hchange)⟩
  have hnonzero : handledAccess abi ≠ 0 := by
    rcases handledAccess_cases abi with ⟨-, h⟩ | h | h <;> rw [h] <;> decide
  have hknown : handledAccess abi &&& ~~~abiRights abi = 0 := by
    unfold abiRights
    split_ifs <;> rcases handledAccess_cases abi with ⟨-, h⟩ | h | h <;> rw [h] <;> decide
  obtain ⟨fd, hfd⟩ := hK.create _ hnonzero hknown
  unfold installBullLandlock
  rw [hK.version]
  simp only [Action.wp_bind]
  refine Action.wp_lift_of_ok rfl ?_
  rw [hfd]
  refine Action.wp_lift_of_ok rfl ?_
  simp only [Action.wp_update, Action.wp_ensuring, Action.wp_pure, closeDescriptor, fillRuleset, Action.wp_bind,
    Action.wp_read]
  refine Action.wp_mono (addPathRules_return hK _ rfl hpaths) (fun _ process' h => ?_) fun _ _ h => h
  obtain ⟨n, hn⟩ := hK.restrict process' (by rw [h.1]; exact hlayers)
  rw [hn]
  exact Action.wp_lift_of_ok rfl trivial

/-- On every ABI the kernel takes every rule of the policy, unless what is at a path with rights to change files is
no directory. -/
theorem landlock_installs (hK : K.Documented abi) (workspaceWritable : Bool)
    (hlayers : process.layers.length < 16) :
    (installBullLandlock K workspaceWritable process).1 = .ok abi ↔
      ∀ path ∈ changePaths workspaceWritable, DirectoryAt K path := by
  constructor
  · intro hinstall path hpath file hthere hopen
    obtain ⟨-, -, ruleset, -, -, hrules, htaken⟩ :=
      Action.wp_elim (wp_installBullLandlock K workspaceWritable process) hinstall
    obtain ⟨entry, hentry, rfl⟩ := changePaths_policy (handledAccess abi) hpath
    rcases hK.paths entry.1 with hnone | ⟨-, file', isDirectory, hopen', hfile⟩
    · exact absurd (hnone.symm.trans hthere) (by simp)
    obtain rfl := Except.ok.inj (hopen'.symm.trans hopen)
    cases isDirectory with
    | true => exact hfile
    | false =>
      have hunfit := (policy_fits abi workspaceWritable entry hentry).2.2 hpath
      have hof : RuleOf K entry.1 entry.2 ⟨rightsFor false entry.2, file'⟩ :=
        ⟨hthere, hopen', ⟨false, hfile, rfl⟩, fun hzero => hunfit (by
          have hzero' : rightsFor false entry.2 = 0 := hzero
          rw [hzero']
          exact BitVec.zero_and)⟩
      obtain ⟨ruleset', n, -, hn⟩ := htaken _ ((hrules _).2 ⟨entry, hentry, hof⟩)
      exact absurd (((hK.add ruleset' _ false hfile).1 ⟨n, hn⟩).2.2 rfl) hunfit
  · intro hdirectories
    have hwp := install_returns hK workspaceWritable hlayers hdirectories
    unfold Action.wp at hwp
    split at hwp
    · next heq => rw [heq, hwp]
    · exact hwp.elim

/-! ## A kernel with a few files -/

/-- A kernel of ABI 4, with four files, of which `/lib64` is no directory. -/
def sampleKernel : LandlockKernel String where
  rulesetVersion := .ok 4
  createRuleset handled := if handled ≠ 0 ∧ handled &&& ~~~abiRights 4 = 0 then .ok 3 else .error 22
  addRule ruleset rule :=
    if rule.allowedAccess ≠ 0 ∧ rule.allowedAccess &&& ~~~ruleset.handledAccessFs = 0 ∧
      (rule.file = "/lib64" → rule.allowedAccess &&& ~~~fileAccess = 0) then .ok 0 else .error 22
  restrictSelf process := if process.layers.length < 16 then .ok 0 else .error 7
  strerror _ := "error"
  pathExists path := .ok (path ∈ ["/usr", "/lib64", "/workspace", "/tmp"])
  openPath path := if path ∈ ["/usr", "/lib64", "/workspace", "/tmp"] then .ok path else .error 2
  isDirectory file := .ok (file ≠ "/lib64")

theorem sampleKernel_documented : sampleKernel.Documented 4 where
  version := rfl
  create handled hne hknown := ⟨3, if_pos ⟨hne, hknown⟩⟩
  add ruleset rule isDirectory hfile := by
    have hdirectory : isDirectory = false ↔ rule.file = "/lib64" := by
      rw [← Except.ok.inj hfile]
      simp
    unfold sampleKernel
    simp only [hdirectory]
    split_ifs with h
    · exact iff_of_true ⟨0, rfl⟩ h
    · exact iff_of_false (by simp) h
  restrict process hlayers := ⟨0, if_pos hlayers⟩
  paths path := by
    by_cases h : path ∈ ["/usr", "/lib64", "/workspace", "/tmp"]
    · exact .inr ⟨congrArg Except.ok (decide_eq_true h), path, path ≠ "/lib64", if_pos h, rfl⟩
    · exact .inl (congrArg Except.ok (decide_eq_false h))

/-- A process that has no ruleset. -/
def sampleProcess : LandlockProcess String := ⟨[], ⟨0, []⟩, 3⟩

theorem landlock_installs_sample : (installBullLandlock sampleKernel true sampleProcess).1 = .ok 4 ↔
    ∀ path ∈ changePaths true, DirectoryAt sampleKernel path :=
  landlock_installs sampleKernel_documented true (by decide)

/-- The processes after the installation. -/
def sampleConfined : Processes (FileRequest String)
  | 1 => some ((installBullLandlock sampleKernel true sampleProcess).2.layers.map Ruleset.granted)
  | _ => none

theorem landlock_confined_child : ∃ stack, sampleConfined.after (.fork 1 2) 2 = some stack ∧
    ∀ request ∈ letThrough stack,
      request.rights &&& specialAccess = 0 ∧ (2 ≤ 4 → request.rights &&& accessRefer = 0) ∧
      (request.rights &&& (changeAccess &&& handledAccess 4) ≠ 0 →
        Beneath sampleKernel (changePaths true) request.chain) ∧
      (request.rights &&& accessWriteFile ≠ 0 →
        Beneath sampleKernel ("/dev" :: changePaths true) request.chain) ∧
      (request.rights &&& accessExecute ≠ 0 →
        Beneath sampleKernel ("/workspace" :: runtimePaths) request.chain) ∧
      (request.rights &&& handledAccess 4 ≠ 0 → Beneath sampleKernel allPaths request.chain) := by
  have hinstall : (installBullLandlock sampleKernel true sampleProcess).1 = .ok 4 := by rfl
  exact landlock_confined sampleKernel hinstall (by rfl) (System.Run.single ⟨.fork 1 2, rfl⟩)
    (Or.inr ⟨rfl, rfl, rfl⟩)

end Bulldog.Sandbox
