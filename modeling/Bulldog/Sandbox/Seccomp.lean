import Bulldog.Lib.Action
import Bulldog.Lib.Confinement
import Bulldog.Platform

/-!
# The seccomp policy

`seccomp_policy.py`: the filter that a sandbox installs before its workload. A libseccomp context is a default
action and rules, each an action for a system call whose arguments compare as it says; a rule without comparisons
is for every call of its number. The library's answers are arbitrary.

Both profiles give all their rules one action, so that which of several matching rules decides makes no difference.
-/

namespace Bulldog.Sandbox

/-! ## libseccomp -/

/-- A system call: its number and its six arguments, as the registers hold them. -/
structure Syscall where
  number : ℤ
  args : Fin 6 → BitVec 64

/-- `enum scmp_compare`, as far as it is used. -/
inductive ScmpCompare where
  | eq
  | maskedEq
  deriving DecidableEq

/-- `_ScmpArgCmp`. -/
structure ScmpArgCmp where
  arg : Fin 6
  op : ScmpCompare
  datumA : BitVec 64
  datumB : BitVec 64
  deriving DecidableEq

/-- A comparison holds of a call. -/
def ScmpArgCmp.Holds (cmp : ScmpArgCmp) (call : Syscall) : Prop :=
  match cmp.op with
  | .eq => call.args cmp.arg = cmp.datumA
  | .maskedEq => call.args cmp.arg &&& cmp.datumA = cmp.datumB

instance (cmp : ScmpArgCmp) (call : Syscall) : Decidable (cmp.Holds call) := by
  unfold ScmpArgCmp.Holds
  cases cmp.op <;> infer_instance

/-- `SCMP_ACT_ALLOW`. -/
def scmpActAllow : ℕ := 0x7FFF0000

/-- `SCMP_ACT_ERRNO_BASE`. -/
def scmpActErrnoBase : ℕ := 0x00050000

/-- `SCMP_ACT_ERRNO(value)`. -/
def scmpActErrno (value : ℤ) : ℕ := scmpActErrnoBase ||| (value % 0x10000).toNat

/-- A rule of a context. -/
structure SeccompRule where
  action : ℕ
  number : ℤ
  comparisons : List ScmpArgCmp
  deriving DecidableEq

/-- The rule is for this call. -/
def SeccompRule.Matches (rule : SeccompRule) (call : Syscall) : Prop :=
  rule.number = call.number ∧ ∀ cmp ∈ rule.comparisons, cmp.Holds call

instance (rule : SeccompRule) (call : Syscall) : Decidable (rule.Matches call) :=
  inferInstanceAs (Decidable (_ ∧ _))

/-- A context, and the filter that it is loaded as. -/
structure SeccompFilter where
  defaultAction : ℕ
  rules : List SeccompRule

/-- What the filter does with a call. -/
def SeccompFilter.decide (filter : SeccompFilter) (call : Syscall) : ℕ :=
  ((filter.rules.find? fun rule => rule.Matches call).map SeccompRule.action).getD filter.defaultAction

/-- The calls that the filter lets through. -/
def SeccompFilter.allowed (filter : SeccompFilter) : RequestFilter Syscall :=
  {call | filter.decide call = scmpActAllow}

/-- What the library answers. -/
structure Libseccomp where
  unicode : Unicode
  /-- `seccomp_init`, which may give `NULL`. -/
  init : ℕ → Bool
  /-- `seccomp_syscall_resolve_name`, negative where there is no such call. -/
  resolveName : Str → ℤ
  /-- `seccomp_rule_add` and `seccomp_rule_add_array` on a context. -/
  ruleAdd : SeccompFilter → SeccompRule → ℤ
  /-- `seccomp_load`. -/
  load : SeccompFilter → ℤ
  /-- `errno.errorcode`. -/
  errorcode : ℤ → Option String

/-! ## The installation -/

/-- An exception of this module, or of the interpreter. -/
inductive SeccompError where
  | seccompError (message : String)
  | unicodeEncodeError
  deriving DecidableEq

variable (L : Libseccomp)

/-- `_check(rc, operation)`. -/
def seccompCheck (rc : ℤ) (operation : String) : Except SeccompError Unit :=
  raiseIf (rc < 0) (.seccompError (operation ++ " failed: [errno " ++ toString (-rc) ++ "] " ++
    (L.errorcode (-rc)).getD "UNKNOWN"))

/-- `_resolve(name)`. -/
def resolve (name : Str) : Except SeccompError (Option ℤ) := do
  raiseIf (isAscii name = false) .unicodeEncodeError
  let number := L.resolveName name
  return if number < 0 then none else some number

/-- `seccomp_rule_add(ctx, ...)` or `seccomp_rule_add_array(ctx, ...)`, checked. -/
def addRule (rule : SeccompRule) (operation : String) : Action SeccompFilter SeccompError Unit := do
  let ctx ← .read
  seccompCheck L (L.ruleAdd ctx rule) operation
  .update fun ctx => { ctx with rules := ctx.rules ++ [rule] }

/-- `_add_cmp_rule(ctx, action=action, ...)`. -/
def addCmpRule (action : ℕ) (number : ℤ) (comparisons : List ScmpArgCmp) (label : String) :
    Action SeccompFilter SeccompError Unit := do
  raiseIf (comparisons = [])
    (SeccompError.seccompError "comparison rule must contain at least one argument constraint")
  addRule L ⟨action, number, comparisons⟩ ("seccomp_rule_add_array(" ++ label ++ ")")

/-- A turn of the loop over the names of a profile, with what it appends to the list of the installed. -/
def addName (action : ℕ) (name : Str) : Action SeccompFilter SeccompError (List String) := do
  match ← resolve L name with
  | none => return []
  | some number =>
    addRule L ⟨action, number, []⟩ ("seccomp_rule_add(" ++ String.ofList name ++ ")")
    return [String.ofList name]

/-- The loop over the names of a profile. -/
def addNames (action : ℕ) : List Str → List String → Action SeccompFilter SeccompError (List String)
  | [], installed => pure installed
  | name :: names, installed => do
    let added ← addName L action name
    addNames action names (installed ++ added)

/-- The name of `socket(2)`. -/
def socketName : Str := "socket".toList

/-- The domains and types of the sockets that are not local, with their names. -/
def internetSockets : List ((BitVec 64 × String) × (BitVec 64 × String)) :=
  [(2, "AF_INET"), (10, "AF_INET6")].flatMap fun domain =>
    [(1, "SOCK_STREAM"), (2, "SOCK_DGRAM"), (5, "SOCK_SEQPACKET")].map fun type => (domain, type)

/-- The comparisons of a rule for sockets of a domain and a type. The flags above the type's nibble are ignored. -/
def internetComparisons (domain type : BitVec 64) : List ScmpArgCmp :=
  [⟨0, .eq, domain, 0⟩, ⟨1, .maskedEq, 0xF, type⟩]

/-- The two loops over the domains and types. -/
def addInternet (number : ℤ) : List ((BitVec 64 × String) × (BitVec 64 × String)) → List String →
    Action SeccompFilter SeccompError (List String)
  | [], installed => pure installed
  | (domain, type) :: sockets, installed => do
    addCmpRule L scmpActAllow number (internetComparisons domain.1 type.1)
      ("socket:" ++ domain.2 ++ ":" ++ type.2)
    addInternet number sockets (installed ++ ["socket(" ++ domain.2 ++ "," ++ type.2 ++ ")"])

/-- The part for `socket`, whose rules compare its arguments. -/
def addSocket (installed : List String) : Action SeccompFilter SeccompError (List String) := do
  match ← resolve L socketName with
  | none => return installed
  | some number =>
    addCmpRule L scmpActAllow number [⟨0, .eq, 1, 0⟩] "socket:AF_UNIX"
    addInternet L number internetSockets (installed ++ ["socket(AF_UNIX)"])

/-- The rules of `install_bull_seccomp`, in the context that it made. -/
def fillContext (strict : Bool) (deniedSyscalls allowedSyscalls : List Str) (errnoValue : ℤ) :
    Action SeccompFilter SeccompError (List String) := do
  let installed ← addNames L (if strict then scmpActAllow else scmpActErrno errnoValue)
    (if strict then allowedSyscalls.filter (· ≠ socketName) else deniedSyscalls) []
  if strict ∧ socketName ∈ allowedSyscalls then addSocket L installed else pure installed

/-- `install_bull_seccomp(profile=profile, denied_syscalls=..., allowed_syscalls=..., errno_value=...)`, in a process
with these filters. The context is released in every case. -/
def installBullSeccomp (profile : Str) (deniedSyscalls allowedSyscalls : List Str) (errnoValue : ℤ) :
    Action (List SeccompFilter) SeccompError (List String) := do
  let profile := L.unicode.lower (Str.strip profile)
  raiseIf (profile ∉ ["compat".toList, "strict".toList])
    (SeccompError.seccompError ("unknown seccomp profile: " ++ String.ofList profile))
  let strict := decide (profile = "strict".toList)
  let defaultAction := if strict then scmpActErrno errnoValue else scmpActAllow
  raiseIf (L.init defaultAction = false) (SeccompError.seccompError "seccomp_init returned NULL")
  let filled := fillContext L strict deniedSyscalls allowedSyscalls errnoValue ⟨defaultAction, []⟩
  let installed ← filled.1
  seccompCheck L (L.load filled.2) "seccomp_load"
  .update (filled.2 :: ·)
  return installed

/-! ## What the filter lets through -/

/-- A filter all of whose rules have one action. -/
theorem decide_uniform (filter : SeccompFilter) {action : ℕ}
    (h : ∀ rule ∈ filter.rules, rule.action = action) (call : Syscall) :
    (∃ rule ∈ filter.rules, rule.Matches call) ∧ filter.decide call = action ∨
      (∀ rule ∈ filter.rules, ¬ rule.Matches call) ∧ filter.decide call = filter.defaultAction := by
  rcases hfind : filter.rules.find? fun rule => rule.Matches call with _ | rule
  · refine .inr ⟨fun rule hrule => ?_, by rw [SeccompFilter.decide, hfind]; rfl⟩
    simpa using List.find?_eq_none.1 hfind rule hrule
  · have hmem := List.mem_of_find?_eq_some hfind
    have hmatch : rule.Matches call := by simpa using List.find?_some hfind
    exact .inl ⟨⟨rule, hmem, hmatch⟩, by rw [SeccompFilter.decide, hfind]; exact h rule hmem⟩

/-- The name is that of the call. -/
def Resolves (name : Str) (call : Syscall) : Prop :=
  0 ≤ L.resolveName name ∧ L.resolveName name = call.number

/-- The arguments of `socket(2)` that a strict filter lets through. -/
def SocketArgs (call : Syscall) : Prop :=
  call.args 0 = 1 ∨ (call.args 0 = 2 ∨ call.args 0 = 10) ∧
    (call.args 1 &&& 0xF = 1 ∨ call.args 1 &&& 0xF = 2 ∨ call.args 1 &&& 0xF = 5)

/-- The calls that a profile is meant to let through. -/
def profileCalls (strict : Bool) (deniedSyscalls allowedSyscalls : List Str) : Set Syscall :=
  if strict then
    {call | (∃ name ∈ allowedSyscalls, name ≠ socketName ∧ Resolves L name call) ∨
      socketName ∈ allowedSyscalls ∧ Resolves L socketName call ∧ SocketArgs call}
  else {call | ∀ name ∈ deniedSyscalls, ¬ Resolves L name call}

/-- The names that the library knows. -/
def knownNames (names : List Str) : List Str := names.filter fun name => 0 ≤ L.resolveName name

/-- The rule for every call of a name. -/
def nameRule (action : ℕ) (name : Str) : SeccompRule := ⟨action, L.resolveName name, []⟩

/-- The rules for `socket`. -/
def socketRules (number : ℤ) : List SeccompRule :=
  ⟨scmpActAllow, number, [⟨0, .eq, 1, 0⟩]⟩ :: internetSockets.map fun socket =>
    ⟨scmpActAllow, number, internetComparisons socket.1.1 socket.2.1⟩

/-- The action of a profile's rules. -/
def ruleAction (strict : Bool) (errnoValue : ℤ) : ℕ := if strict then scmpActAllow else scmpActErrno errnoValue

/-- The rules of a profile. -/
def profileRules (strict : Bool) (deniedSyscalls allowedSyscalls : List Str) (errnoValue : ℤ) : List SeccompRule :=
  (knownNames L (if strict then allowedSyscalls.filter (· ≠ socketName) else deniedSyscalls)).map
      (nameRule L (ruleAction strict errnoValue)) ++
    if strict ∧ socketName ∈ allowedSyscalls then
      (knownNames L [socketName]).flatMap fun name => socketRules (L.resolveName name)
    else []

variable {L} {ctx : SeccompFilter} {action : ℕ} {name : Str} {names denied allowed : List Str}
  {installed : List String} {number : ℤ}

theorem resolve_eq_ok {result : Option ℤ} (h : resolve L name = .ok result) :
    result = if L.resolveName name < 0 then none else some (L.resolveName name) := by
  obtain ⟨_, -, h⟩ := bind_eq_ok.1 h
  exact (Except.ok.inj h).symm

theorem wp_addRule {Q : Unit → SeccompFilter → Prop} {rule : SeccompRule} {operation : String}
    (hQ : Q () { ctx with rules := ctx.rules ++ [rule] }) :
    (addRule L rule operation).wp Q (fun _ _ => True) ctx := by
  unfold addRule
  simp only [Action.wp_bind, Action.wp_read, Action.wp_update]
  exact Action.wp_lift_intro (fun _ _ => hQ) fun _ => trivial

theorem wp_addCmpRule {Q : Unit → SeccompFilter → Prop} {comparisons : List ScmpArgCmp} {label : String}
    (hQ : Q () { ctx with rules := ctx.rules ++ [⟨action, number, comparisons⟩] }) :
    (addCmpRule L action number comparisons label).wp Q (fun _ _ => True) ctx := by
  unfold addCmpRule
  simp only [Action.wp_bind]
  exact Action.wp_lift_intro (fun _ _ => wp_addRule hQ) fun _ => trivial

/-- A known name gets its rule. -/
theorem wp_addName (action : ℕ) (name : Str) : (addName L action name).wp
    (fun added ctx' => ctx' = { ctx with rules := ctx.rules ++ (knownNames L [name]).map (nameRule L action) } ∧
      added = (knownNames L [name]).map String.ofList)
    (fun _ _ => True) ctx := by
  unfold addName
  rw [Action.wp_bind]
  refine Action.wp_lift_intro (fun result hresult => ?_) fun _ => trivial
  rw [resolve_eq_ok hresult]
  by_cases hknown : L.resolveName name < 0
  · rw [if_pos hknown, knownNames, List.filter_cons_of_neg (by simpa using hknown), List.filter_nil]
    simp only [Action.wp_pure]
    exact ⟨by simp, rfl⟩
  · rw [if_neg hknown, knownNames, List.filter_cons_of_pos (by simpa using hknown), List.filter_nil]
    simp only [Action.wp_bind]
    exact wp_addRule ⟨rfl, rfl⟩

theorem knownNames_cons (name : Str) (names : List Str) :
    knownNames L (name :: names) = knownNames L [name] ++ knownNames L names := by
  rw [knownNames, knownNames, knownNames, ← List.filter_append]
  rfl

/-- The loop over the names adds a rule for each name that is known. -/
theorem wp_addNames (action : ℕ) (names : List Str) (installed : List String) :
    (addNames L action names installed).wp
      (fun result ctx' => ctx' = { ctx with rules := ctx.rules ++ (knownNames L names).map (nameRule L action) } ∧
        result = installed ++ (knownNames L names).map String.ofList)
      (fun _ _ => True) ctx := by
  induction names generalizing ctx installed with
  | nil =>
    rw [addNames, Action.wp_pure, knownNames, List.filter_nil, List.map_nil, List.map_nil, List.append_nil,
      List.append_nil]
    exact ⟨rfl, rfl⟩
  | cons name names ih =>
    rw [addNames, Action.wp_bind, knownNames_cons]
    refine Action.wp_mono (wp_addName action name) (fun added ctx' h => ?_) fun _ _ _ => trivial
    obtain ⟨rfl, rfl⟩ := h
    refine Action.wp_mono (ih _) (fun result ctx' h => ?_) fun _ _ _ => trivial
    obtain ⟨rfl, rfl⟩ := h
    exact ⟨by simp only [List.map_append, List.append_assoc], by simp only [List.map_append, List.append_assoc]⟩

theorem wp_addInternet (number : ℤ) (sockets : List ((BitVec 64 × String) × (BitVec 64 × String)))
    (installed : List String) : (addInternet L number sockets installed).wp
      (fun result ctx' => ctx' = { ctx with rules := ctx.rules ++ sockets.map fun socket =>
          ⟨scmpActAllow, number, internetComparisons socket.1.1 socket.2.1⟩ } ∧
        result.length = installed.length + sockets.length)
      (fun _ _ => True) ctx := by
  induction sockets generalizing ctx installed with
  | nil => exact ⟨by simp, rfl⟩
  | cons socket sockets ih =>
    obtain ⟨domain, type⟩ := socket
    unfold addInternet
    simp only [Action.wp_bind]
    refine wp_addCmpRule (Action.wp_mono (ih _) (fun result ctx' h => ?_) fun _ _ _ => trivial)
    obtain ⟨rfl, hlength⟩ := h
    refine ⟨by simp, hlength.trans ?_⟩
    simp only [List.length_append, List.length_cons, List.length_nil]
    omega

/-- The rules for `socket` are added where the library knows it. -/
theorem wp_addSocket (installed : List String) : (addSocket L installed).wp
    (fun result ctx' => ctx' = { ctx with rules := ctx.rules ++
        (knownNames L [socketName]).flatMap fun name => socketRules (L.resolveName name) } ∧
      result.length + ctx.rules.length = installed.length + ctx'.rules.length)
    (fun _ _ => True) ctx := by
  unfold addSocket
  simp only [Action.wp_bind]
  refine Action.wp_lift_intro (fun result hresult => ?_) fun _ => trivial
  rw [resolve_eq_ok hresult]
  by_cases hknown : L.resolveName socketName < 0
  · rw [if_pos hknown, knownNames, List.filter_cons_of_neg (by simpa using hknown)]
    simp only [Action.wp_pure]
    exact ⟨by simp, by simp⟩
  · rw [if_neg hknown, knownNames, List.filter_cons_of_pos (by simpa using hknown)]
    simp only [Action.wp_bind]
    refine wp_addCmpRule (Action.wp_mono (wp_addInternet _ _ _) (fun result ctx' h => ?_) fun _ _ _ => trivial)
    obtain ⟨rfl, hlength⟩ := h
    refine ⟨by simp [socketRules], ?_⟩
    rw [hlength]
    simp only [List.length_append, List.length_cons, List.length_nil, List.length_map]
    omega

/-- The context, where nothing was raised. -/
theorem wp_fillContext (strict : Bool) (denied allowed : List Str) (errnoValue : ℤ) (defaultAction : ℕ) :
    (fillContext L strict denied allowed errnoValue).wp
      (fun installed ctx' => ctx' = ⟨defaultAction, profileRules L strict denied allowed errnoValue⟩ ∧
        installed.length = ctx'.rules.length)
      (fun _ _ => True) ⟨defaultAction, []⟩ := by
  unfold fillContext profileRules
  rw [Action.wp_bind]
  refine Action.wp_mono (wp_addNames _ _ _) (fun installed ctx' h => ?_) fun _ _ _ => trivial
  obtain ⟨rfl, rfl⟩ := h
  by_cases hsocket : strict = true ∧ socketName ∈ allowed
  · rw [if_pos hsocket, if_pos hsocket]
    refine Action.wp_mono (wp_addSocket _) (fun installed ctx' h => ?_) fun _ _ _ => trivial
    obtain ⟨rfl, hlength⟩ := h
    refine ⟨rfl, ?_⟩
    simp only [List.length_append, List.length_map, List.length_nil] at hlength ⊢
    omega
  · rw [if_neg hsocket, if_neg hsocket, Action.wp_pure]
    exact ⟨by rw [List.append_nil, List.nil_append]; rfl, by simp⟩

theorem mem_knownNames : name ∈ knownNames L names ↔ name ∈ names ∧ 0 ≤ L.resolveName name := by
  simp [knownNames]

theorem socketRules_action {rule : SeccompRule} (h : rule ∈ socketRules number) : rule.action = scmpActAllow := by
  rcases List.mem_cons.1 h with rfl | h
  · rfl
  · obtain ⟨socket, -, rfl⟩ := List.mem_map.1 h
    rfl

/-- All the rules of a profile have one action. -/
theorem profileRules_action {strict : Bool} {errnoValue : ℤ} {rule : SeccompRule}
    (h : rule ∈ profileRules L strict denied allowed errnoValue) : rule.action = ruleAction strict errnoValue := by
  rcases List.mem_append.1 h with h | h
  · obtain ⟨name, -, rfl⟩ := List.mem_map.1 h
    rfl
  · split_ifs at h with hsocket
    · obtain ⟨name, -, h⟩ := List.mem_flatMap.1 h
      rw [socketRules_action h, ruleAction, if_pos hsocket.1]
    · cases h

theorem nameRule_matches (action : ℕ) {call : Syscall} :
    (∃ rule ∈ (knownNames L names).map (nameRule L action), rule.Matches call) ↔
      ∃ name ∈ names, Resolves L name call := by
  constructor
  · rintro ⟨rule, hrule, hmatch, -⟩
    obtain ⟨name, hname, rfl⟩ := List.mem_map.1 hrule
    obtain ⟨hname, hknown⟩ := mem_knownNames.1 hname
    exact ⟨name, hname, hknown, hmatch⟩
  · rintro ⟨name, hname, hknown, hnumber⟩
    exact ⟨_, List.mem_map_of_mem (mem_knownNames.2 ⟨hname, hknown⟩), hnumber,
      fun cmp hcmp => (List.not_mem_nil hcmp).elim⟩

theorem unix_matches (action : ℕ) {call : Syscall} :
    SeccompRule.Matches ⟨action, number, [⟨0, .eq, 1, 0⟩]⟩ call ↔ number = call.number ∧ call.args 0 = 1 :=
  and_congr_right fun _ => List.forall_mem_singleton

theorem internet_matches {domain type : BitVec 64} {call : Syscall} :
    SeccompRule.Matches ⟨action, number, internetComparisons domain type⟩ call ↔
      number = call.number ∧ call.args 0 = domain ∧ call.args 1 &&& 0xF = type := by
  refine and_congr_right fun _ => ?_
  rw [internetComparisons, List.forall_mem_cons, List.forall_mem_singleton]
  rfl

/-- The pairs of a domain and a type. -/
theorem internetSockets_args {call : Syscall} :
    (∃ socket ∈ internetSockets, call.args 0 = socket.1.1 ∧ call.args 1 &&& 0xF = socket.2.1) ↔
      (call.args 0 = 2 ∨ call.args 0 = 10) ∧
        (call.args 1 &&& 0xF = 1 ∨ call.args 1 &&& 0xF = 2 ∨ call.args 1 &&& 0xF = 5) := by
  generalize call.args 0 = domain, call.args 1 &&& 0xF = type
  simp only [internetSockets, List.flatMap_cons, List.flatMap_nil, List.map_cons, List.map_nil, List.append_nil,
    List.cons_append, List.nil_append, List.mem_cons, List.not_mem_nil, or_false, exists_eq_or_imp,
    exists_eq_left]
  tauto

/-- The rules for `socket`, by the arguments that they are for. -/
theorem socketRules_matches {call : Syscall} :
    (∃ rule ∈ socketRules number, rule.Matches call) ↔ number = call.number ∧ SocketArgs call := by
  rw [SocketArgs, and_or_left, ← unix_matches scmpActAllow, ← internetSockets_args, socketRules,
    List.exists_mem_cons_iff]
  refine or_congr_right ⟨fun h => ?_, fun h => ?_⟩
  · obtain ⟨rule, hrule, hmatch⟩ := h
    obtain ⟨socket, hsocket, rfl⟩ := List.mem_map.1 hrule
    obtain ⟨hnumber, hargs⟩ := internet_matches.1 hmatch
    exact ⟨hnumber, socket, hsocket, hargs⟩
  · obtain ⟨hnumber, socket, hsocket, hargs⟩ := h
    exact ⟨_, List.mem_map_of_mem hsocket, internet_matches.2 ⟨hnumber, hargs⟩⟩

theorem knownSocket_matches {call : Syscall} :
    (∃ rule ∈ (knownNames L [socketName]).flatMap fun name => socketRules (L.resolveName name),
      rule.Matches call) ↔ Resolves L socketName call ∧ SocketArgs call := by
  constructor
  · rintro ⟨rule, hrule, hmatch⟩
    obtain ⟨name, hname, hrule⟩ := List.mem_flatMap.1 hrule
    obtain ⟨hname, hknown⟩ := mem_knownNames.1 hname
    obtain rfl := List.mem_singleton.1 hname
    obtain ⟨hnumber, hargs⟩ := socketRules_matches.1 ⟨rule, hrule, hmatch⟩
    exact ⟨⟨hknown, hnumber⟩, hargs⟩
  · rintro ⟨⟨hknown, hnumber⟩, hargs⟩
    obtain ⟨rule, hrule, hmatch⟩ := socketRules_matches.2 ⟨hnumber, hargs⟩
    exact ⟨rule, List.mem_flatMap.2 ⟨_, mem_knownNames.2 ⟨List.mem_singleton_self _, hknown⟩, hrule⟩, hmatch⟩

/-- A rule is for a call exactly where the strict profile is to let it through, or the other to refuse it. -/
theorem profileRules_matches {strict : Bool} {errnoValue : ℤ} {call : Syscall} :
    (∃ rule ∈ profileRules L strict denied allowed errnoValue, rule.Matches call) ↔
      (strict = true ↔ call ∈ profileCalls L strict denied allowed) := by
  have hsplit : (∃ rule ∈ profileRules L strict denied allowed errnoValue, rule.Matches call) ↔
      (∃ name ∈ if strict then allowed.filter (· ≠ socketName) else denied, Resolves L name call) ∨
        (strict = true ∧ socketName ∈ allowed) ∧ Resolves L socketName call ∧ SocketArgs call := by
    rw [← nameRule_matches (ruleAction strict errnoValue), ← knownSocket_matches, profileRules]
    by_cases hsocket : strict = true ∧ socketName ∈ allowed
    · rw [if_pos hsocket]
      simp only [List.mem_append, or_and_right, exists_or, hsocket, true_and]
    · rw [if_neg hsocket]
      simp only [List.append_nil, hsocket, false_and, or_false]
  rw [hsplit]
  cases strict with
  | true => simp [profileCalls, and_assoc]
  | false => simp [profileCalls]

theorem scmpActErrno_ne_allow (value : ℤ) : scmpActErrno value ≠ scmpActAllow := by
  have hlt : (value % 0x10000).toNat < 2 ^ 20 := by omega
  have hbase : scmpActErrnoBase < 2 ^ 20 := by decide
  exact ne_of_lt (lt_of_lt_of_le (Nat.or_lt_two_pow hbase hlt) (by decide))

/-- The filter of a profile lets through what the profile is meant to. -/
theorem profile_allowed (strict : Bool) (denied allowed : List Str) (errnoValue : ℤ) :
    SeccompFilter.allowed ⟨if strict then scmpActErrno errnoValue else scmpActAllow,
      profileRules L strict denied allowed errnoValue⟩ = profileCalls L strict denied allowed := by
  ext call
  have hne := scmpActErrno_ne_allow errnoValue
  rcases decide_uniform ⟨if strict then scmpActErrno errnoValue else scmpActAllow,
    profileRules L strict denied allowed errnoValue⟩ (fun _ => profileRules_action) call with
    ⟨hmatch, hdecide⟩ | ⟨hmatch, hdecide⟩
  · have hiff := profileRules_matches.1 hmatch
    rw [SeccompFilter.allowed, Set.mem_ofPred_eq, hdecide, ruleAction, ← hiff]
    cases strict <;> simp [hne]
  · have hiff : ¬ (strict = true ↔ call ∈ profileCalls L strict denied allowed) := fun h => by
      obtain ⟨rule, hrule, hcall⟩ := profileRules_matches.2 h
      exact hmatch rule hrule hcall
    rw [SeccompFilter.allowed, Set.mem_ofPred_eq, hdecide]
    cases strict <;> simp_all

/-- The installation adds one filter, or it raises and adds none. -/
theorem wp_installBullSeccomp (L : Libseccomp) (profile : Str) (denied allowed : List Str) (errnoValue : ℤ)
    (filters : List SeccompFilter) :
    (installBullSeccomp L profile denied allowed errnoValue).wp
      (fun installed filters' => ∃ filter, filters' = filter :: filters ∧
        ∃ strict : Bool, L.unicode.lower (Str.strip profile) = (if strict then "strict" else "compat").toList ∧
          filter.allowed = profileCalls L strict denied allowed ∧ installed.length = filter.rules.length)
      (fun _ filters' => filters' = filters) filters := by
  unfold installBullSeccomp
  generalize L.unicode.lower (Str.strip profile) = lowered
  simp only [Action.wp_bind, Action.wp_lift]
  refine ⟨fun _ hprofile => ⟨fun _ _ => ⟨fun installed hfilled => ⟨fun _ _ => ?_, fun _ _ => trivial⟩,
    fun _ _ => trivial⟩, fun _ _ => trivial⟩, fun _ _ => trivial⟩
  simp only [Action.wp_update, Action.wp_pure]
  obtain ⟨hcontext, hlength⟩ := Action.wp_elim (wp_fillContext _ _ _ _ _) hfilled
  refine ⟨_, rfl, decide (lowered = "strict".toList), ?_, ?_, hlength⟩
  · have hmem := not_not.1 (raiseIf_eq_ok.1 hprofile)
    rcases List.mem_pair.1 hmem with rfl | rfl
    · rw [decide_eq_false (by decide)]
      rfl
    · rw [decide_eq_true rfl]
      rfl
  · rw [hcontext]
    exact profile_allowed _ _ _ _

/-- Where the installation returns, the process makes the calls of the profile, among those that it could make
before, and no others. Where it raises, no filter is added. -/
theorem seccomp_exact (L : Libseccomp) (profile : Str) (denied allowed : List Str) (errnoValue : ℤ)
    (filters : List SeccompFilter) :
    (installBullSeccomp L profile denied allowed errnoValue).wp
      (fun _ filters' => ∃ strict : Bool,
        L.unicode.lower (Str.strip profile) = (if strict then "strict" else "compat").toList ∧
          letThrough (filters'.map SeccompFilter.allowed) =
            profileCalls L strict denied allowed ∩ letThrough (filters.map SeccompFilter.allowed))
      (fun _ filters' => filters' = filters) filters := by
  refine Action.wp_mono (wp_installBullSeccomp L profile denied allowed errnoValue filters)
    (fun installed filters' h => ?_) fun _ _ h => h
  obtain ⟨filter, rfl, strict, hlowered, hallowed, -⟩ := h
  exact ⟨strict, hlowered, by rw [List.map_cons, letThrough_cons, hallowed]⟩

/-! ## The sockets of a family -/

/-- The sockets that `socket(2)` makes of the 32 bit registers that it reads. -/
def OrdinarySocket (call : Syscall) : Prop :=
  (call.args 0).setWidth 32 = 1#32 ∨
    ((call.args 0).setWidth 32 = 2#32 ∨ (call.args 0).setWidth 32 = 10#32) ∧
      ((call.args 1).setWidth 32 &&& 0xF#32 = 1#32 ∨ (call.args 1).setWidth 32 &&& 0xF#32 = 2#32 ∨
        (call.args 1).setWidth 32 &&& 0xF#32 = 5#32)

/-- The kernel reads half of a register, and the filter compares all of it. -/
theorem SocketArgs.ordinary {call : Syscall} (h : SocketArgs call) : OrdinarySocket call := by
  have hmask : (call.args 1).setWidth 32 &&& 0xF#32 = (call.args 1 &&& 0xF).setWidth 32 := by
    rw [BitVec.setWidth_and]
    rfl
  unfold OrdinarySocket
  rw [hmask]
  rcases h with h | ⟨h, htype⟩
  · left
    rw [h]
    rfl
  · right
    constructor
    · rcases h with h | h <;> rw [h] <;> decide
    · rcases htype with htype | htype | htype <;> rw [htype] <;> decide

/-- After the strict profile is installed, no descendant of the process makes a raw socket by `socket(2)`, or one of
another domain, whatever filters it adds. -/
theorem no_raw_socket (L : Libseccomp) {profile : Str} {denied allowed : List Str} {errnoValue : ℤ}
    {filters : List SeccompFilter} {installed : List String}
    (hstrict : L.unicode.lower (Str.strip profile) = "strict".toList)
    (hnames : ∀ name ∈ allowed, L.resolveName name = L.resolveName socketName → name = socketName)
    (hinstall : (installBullSeccomp L profile denied allowed errnoValue filters).1 = .ok installed)
    {ps ps' : Processes Syscall} {family : Set ℕ} {pid child : ℕ}
    (hps : ps pid = some ((installBullSeccomp L profile denied allowed errnoValue filters).2.map
      SeccompFilter.allowed))
    (hrun : families.Run (ps, {pid}) (ps', family)) (hchild : child ∈ family) :
    ∃ stack, ps' child = some stack ∧
      ∀ call ∈ letThrough stack, call.number = L.resolveName socketName → OrdinarySocket call := by
  obtain ⟨filter, hfilters, strict, hlowered, hallowed, -⟩ :=
    Action.wp_elim (wp_installBullSeccomp L profile denied allowed errnoValue filters) hinstall
  obtain rfl : strict = true := by
    cases strict with
    | true => rfl
    | false => exact absurd (hlowered.symm.trans hstrict) (by decide)
  have hconfined : Confined filter.allowed (ps, {pid}) := fun p hp => by
    obtain rfl := Set.mem_singleton_iff.1 hp
    exact ⟨_, hps, by rw [hfilters]; exact List.mem_cons_self⟩
  obtain ⟨stack, hstack, hsubset⟩ := confined_run hconfined hrun hchild
  refine ⟨stack, hstack, fun call hcall hnumber => ?_⟩
  have hprofile := hsubset hcall
  rw [hallowed] at hprofile
  rcases hprofile with ⟨name, hname, hne, -, hresolves⟩ | ⟨-, -, hargs⟩
  · exact absurd (hnames name hname (hresolves.trans hnumber)) hne
  · exact hargs.ordinary

/-- A library that knows three calls, and takes every rule. -/
def sampleLibseccomp : Libseccomp where
  unicode := ⟨id, id, id⟩
  init _ := true
  resolveName name := if name = "read".toList then 0 else if name = socketName then 41 else -1
  ruleAdd _ _ := 0
  load _ := 0
  errorcode _ := none

/-- A process with a strict filter. -/
def sampleProcesses : Processes Syscall
  | 1 => some ((installBullSeccomp sampleLibseccomp "strict ".toList [] ["read".toList, socketName] 1 []).2.map
      SeccompFilter.allowed)
  | _ => none

theorem no_raw_socket_child : ∃ stack, sampleProcesses.after (.fork 1 2) 2 = some stack ∧
    ∀ call ∈ letThrough stack, call.number = 41 → OrdinarySocket call := by
  have hnames : ∀ name ∈ ["read".toList, socketName],
      sampleLibseccomp.resolveName name = sampleLibseccomp.resolveName socketName → name = socketName := by
    intro name hname heq
    rcases List.mem_pair.1 hname with rfl | rfl
    · exact absurd heq (by decide)
    · rfl
  have hinstall : (installBullSeccomp sampleLibseccomp "strict ".toList [] ["read".toList, socketName] 1 []).1 =
      .ok ["read", "socket(AF_UNIX)", "socket(AF_INET,SOCK_STREAM)", "socket(AF_INET,SOCK_DGRAM)",
        "socket(AF_INET,SOCK_SEQPACKET)", "socket(AF_INET6,SOCK_STREAM)", "socket(AF_INET6,SOCK_DGRAM)",
        "socket(AF_INET6,SOCK_SEQPACKET)"] := by rfl
  exact no_raw_socket sampleLibseccomp (by rfl) hnames hinstall (by rfl)
    (System.Run.single ⟨.fork 1 2, rfl⟩) (Or.inr ⟨rfl, rfl, rfl⟩)

end Bulldog.Sandbox
