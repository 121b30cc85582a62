import Bulldog.Lib.Action
import Bulldog.Lib.Paths

/-!
# Files beneath a root

`secure_fs.py`: the file at a path beneath a trusted directory, opened without following a symbolic link, by one
call where the kernel has `openat2` and otherwise directory by directory. Other processes may change the files
between any two calls.
-/

namespace Bulldog.SecureFs

/-! ## The kernel -/

/-- What a file is. -/
inductive FileKind where
  | directory
  | symlink
  | other
  deriving DecidableEq

/-- The errors of the calls that matter here. -/
inductive OpenErrno where
  | nosys
  | inval
  | tooBig
  | notDir
  | loop
  | access
  | exist
  | noEntry
  | other
  deriving DecidableEq

/-- The flags of a call beside `O_NOFOLLOW` and `O_CLOEXEC`, which every call has. -/
structure OpenFlags where
  directory : Bool
  create : Bool
  exclusive : Bool
  /-- The access mode and what else the caller asks for. -/
  rest : ℕ
  deriving DecidableEq

/-- `os.O_RDONLY | os.O_DIRECTORY | os.O_NOFOLLOW | os.O_CLOEXEC`. -/
def directoryFlags : OpenFlags := ⟨true, false, false, 0⟩

variable {File : Type}

/-- The files at one time: what each is, what its entries other than `.` and `..` are, which directories may be
searched, what may be opened, and what comes of the creation of an entry. -/
structure FileSystem (File : Type) where
  kind : File → FileKind
  entry : File → Str → Option File
  maySearch : File → Bool
  mayOpen : File → OpenFlags → Bool
  created : File → Str → Except OpenErrno File

namespace FileSystem

variable (fs : FileSystem File)

/-- The file of an entry, which is not followed where it is a symbolic link. -/
def openFound (file : File) (flags : OpenFlags) : Except OpenErrno File :=
  if flags.create && flags.exclusive then .error .exist
  else if fs.kind file = .symlink then .error .loop
  else if flags.directory ∧ fs.kind file ≠ .directory then .error .notDir
  else if fs.mayOpen file flags then .ok file
  else .error .other

/-- The entry that a path continues with. -/
def lookup (dir : File) (name : Str) : Except OpenErrno (Option File) :=
  if fs.kind dir ≠ .directory then .error .notDir
  else if fs.maySearch dir then .ok (fs.entry dir name)
  else .error .access

/-- `openat(dir, name, flags | O_NOFOLLOW, mode)` of a name without a slash. -/
def openAt (dir : File) (name : Str) (flags : OpenFlags) : Except OpenErrno File := do
  match ← fs.lookup dir name with
  | some file => fs.openFound file flags
  | none => if flags.create then fs.created dir name else .error .noEntry

/-- `openat2` with `RESOLVE_BENEATH`, `RESOLVE_NO_SYMLINKS` and `RESOLVE_NO_MAGICLINKS`, name by name. -/
def resolve (flags : OpenFlags) : File → List Str → Except OpenErrno File
  | _, [] => .error .noEntry
  | dir, [name] => fs.openAt dir name flags
  | dir, name :: rest => do
    match ← fs.lookup dir name with
    | none => .error .noEntry
    | some file => if fs.kind file = .symlink then .error .loop else resolve flags file rest

end FileSystem

/-- The files at each call, what `openat2` fails with where the kernel does not have it, and whether a descriptor
can be duplicated. -/
structure OpenKernel (File : Type) where
  files : ℕ → FileSystem File
  openat2 : Option OpenErrno
  dup : Except OpenErrno Unit

/-! ## The code -/

/-- What `open_beneath` raises. -/
inductive OpenError where
  /-- `SecurePathViolation(message)`. -/
  | component (message : String)
  /-- `SecurePathViolation("openat2 rejected ...")`. -/
  | openat2 (path : Str) (errno : OpenErrno)
  /-- `SecurePathViolation("kernel-constrained open rejected ...")`. -/
  | walk (path : Str) (errno : OpenErrno)
  /-- The `OSError` of `os.dup`. -/
  | os (errno : OpenErrno)
  deriving DecidableEq

/-- `_components(relative_path)`. -/
def components (relativePath : Str) : Except OpenError (List Str) := do
  let raw := relativePath.map fun c => if c = '\\' then '/' else c
  raiseIf ((pathParts raw).1 ≠ []) (.component "secure path must be relative to trusted root")
  let parts := (pathParts raw).2
  raiseIf (parts = []) (.component "secure path cannot be empty")
  parts.forM fun part => do
    raiseIf (part = [] ∨ part = ['.'] ∨ part = ['.', '.']) (.component "unsafe path component")
    raiseIf (part.any (· = '\x00') = true) (.component "NUL byte in path component")
  return parts

/-- The process: how many calls it has made, the files that its descriptors refer to, and `current`. -/
structure OpenProcess (File : Type) where
  calls : ℕ
  descriptors : List File
  current : File

section

variable (K : OpenKernel File)

/-- A call of the kernel that opens a file. -/
def openCall (call : FileSystem File → OpenProcess File → Except OpenErrno File) :
    Action (OpenProcess File) OpenErrno File := do
  let p ← .read
  .update fun p => { p with calls := p.calls + 1 }
  let file ← call (K.files p.calls) p
  .update fun p => { p with descriptors := file :: p.descriptors }
  return file

/-- `os.open(name, flags | os.O_NOFOLLOW | os.O_CLOEXEC, mode, dir_fd=current)`. -/
def openName (name : Str) (flags : OpenFlags) : Action (OpenProcess File) OpenErrno File :=
  openCall K fun fs p => fs.openAt p.current name flags

variable [DecidableEq File]

/-- `os.close(current)`. -/
def closeCurrent {ε : Type} : Action (OpenProcess File) ε Unit :=
  .update fun p => { p with descriptors := p.descriptors.erase p.current }

/-- The body of `for component in parts[:-1]`. -/
def descend (component : Str) : Action (OpenProcess File) OpenErrno Unit := do
  let next ← openName K component directoryFlags
  closeCurrent
  .update fun p => { p with current := next }

/-- The part of `open_beneath` inside its `try`. -/
def walk (flags : OpenFlags) : List Str → Action (OpenProcess File) OpenErrno File
  | [] => .raise .noEntry
  | [last] => openName K last flags
  | component :: rest => do
    descend K component
    walk flags rest

/-- The errors after which there is another way. -/
def OpenErrno.isOld (errno : OpenErrno) : Bool := errno = .nosys || errno = .inval || errno = .tooBig

/-- What `openat2` answers, of a path that the kernel takes apart again. -/
def callOpenat2 (root : File) (path : Str) (flags : OpenFlags) : Action (OpenProcess File) OpenErrno File :=
  openCall K fun fs _ =>
    match K.openat2 with
    | some errno => .error errno
    | none => fs.resolve flags root (Str.splitOn '/' path)

/-- `_openat2(root_fd, relative_path, flags=..., mode=...)`. -/
def openat2 (root : File) (path : Str) (flags : OpenFlags) : Action (OpenProcess File) OpenError (Option File) :=
  fun p =>
    match callOpenat2 K root path flags p with
    | (.ok file, p') => (.ok (some file), p')
    | (.error errno, p') => (if errno.isOld then .ok none else .error (.openat2 path errno), p')

/-- `except OSError as exc: raise ... from exc`. -/
def reraise {σ ε ε' α : Type} (f : ε → ε') (m : Action σ ε α) : Action σ ε' α := fun s =>
  ((m s).1.mapError f, (m s).2)

/-- `current = os.dup(root_fd)` and the `try` of `open_beneath`. -/
def openWalking (root : File) (relativePath : Str) (parts : List Str) (flags : OpenFlags) :
    Action (OpenProcess File) OpenError File := do
  match K.dup with
  | .error errno => .raise (.os errno)
  | .ok () =>
    -- the descriptor of the root is the caller's, and the walk closes its own
    .update fun p => { p with descriptors := root :: p.descriptors, current := root }
    .ensuring (reraise (.walk relativePath) (walk K flags parts)) closeCurrent

/-- `open_beneath(root_fd, relative_path, flags=..., mode=..., directory=...)`. -/
def openBeneath (root : File) (relativePath : Str) (flags : OpenFlags) (directory : Bool) :
    Action (OpenProcess File) OpenError File := do
  let parts ← components relativePath
  let finalFlags := { flags with directory := flags.directory || directory }
  match ← openat2 K root (['/'].intercalate parts) finalFlags with
  | some file => return file
  | none => openWalking K root relativePath parts finalFlags

end

/-! ## Names -/

/-- A name that leads to an entry of its directory. -/
def IsName (part : Str) : Prop :=
  part ≠ [] ∧ part ≠ ['.'] ∧ part ≠ ['.', '.'] ∧ '/' ∉ part ∧ '\x00' ∉ part

theorem components_eq_ok {path : Str} {parts : List Str} (h : components path = .ok parts) :
    parts ≠ [] ∧ ∀ part ∈ parts, IsName part := by
  unfold components at h
  obtain ⟨_, -, h⟩ := bind_eq_ok.1 h
  obtain ⟨_, hne, h⟩ := bind_eq_ok.1 h
  obtain ⟨_, hparts, h⟩ := bind_eq_ok.1 h
  obtain rfl := Except.ok.inj h
  refine ⟨raiseIf_eq_ok.1 hne, fun part hpart => ?_⟩
  obtain ⟨_, hsafe, hnul⟩ := bind_eq_ok.1 (forM_eq_ok.1 hparts part hpart)
  have hsafe' := raiseIf_eq_ok.1 hsafe
  rw [not_or, not_or] at hsafe'
  refine ⟨hsafe'.1, hsafe'.2.1, hsafe'.2.2, ?_, fun hmem => raiseIf_eq_ok.1 hnul ?_⟩
  · exact Str.not_mem_of_mem_splitOn (List.mem_of_mem_filter hpart)
  · exact List.any_eq_true.2 ⟨_, hmem, decide_eq_true rfl⟩

/-- The kernel gets the names that the code has. -/
theorem splitOn_normalized {parts : List Str} (hne : parts ≠ []) (h : ∀ part ∈ parts, IsName part) :
    Str.splitOn '/' (['/'].intercalate parts) = parts :=
  Str.splitOn_intercalate hne fun part hpart => (h part hpart).2.2.2.1

/-! ## The way to a file -/

/-- A way from a directory to a file, each name looked up at some later time: what it goes through is a directory
at that time and no symbolic link. -/
inductive Trail (files : ℕ → FileSystem File) (flags : OpenFlags) : ℕ → File → List Str → File → Prop
  | last {n m : ℕ} {dir file : File} {name : Str} (time : n ≤ m)
      (opened : (files m).openAt dir name flags = .ok file) : Trail files flags n dir [name] file
  | step {n m : ℕ} {dir next file : File} {name : Str} {rest : List Str} (time : n ≤ m)
      (directory : (files m).kind dir = .directory) (entry : (files m).entry dir name = some next)
      (nofollow : (files m).kind next ≠ .symlink) (trail : Trail files flags m next rest file) :
      Trail files flags n dir (name :: rest) file

/-- A set of files that the names of its directories do not lead out of. -/
def Encloses (s : Set File) (fs : FileSystem File) : Prop :=
  ∀ dir ∈ s, ∀ name, IsName name →
    (∀ file, fs.entry dir name = some file → file ∈ s) ∧ ∀ file, fs.created dir name = .ok file → file ∈ s

variable {K : OpenKernel File} {flags : OpenFlags} {fs : FileSystem File} {dir file : File} {name : Str}

theorem lookup_eq_ok {entry : Option File} (h : fs.lookup dir name = .ok entry) :
    fs.kind dir = .directory ∧ fs.maySearch dir = true ∧ fs.entry dir name = entry := by
  unfold FileSystem.lookup at h
  split_ifs at h with hkind hsearch
  exact ⟨not_not.1 hkind, hsearch, Except.ok.inj h⟩

theorem lookup_of_search (hkind : fs.kind dir = .directory) (hsearch : fs.maySearch dir = true) :
    fs.lookup dir name = .ok (fs.entry dir name) := by
  rw [FileSystem.lookup, if_neg (not_not.2 hkind), if_pos hsearch]

/-- What is opened is an entry that is no symbolic link, or has just been created. -/
theorem openAt_eq_ok (h : fs.openAt dir name flags = .ok file) : fs.kind dir = .directory ∧
    (fs.entry dir name = some file ∧ fs.openFound file flags = .ok file ∧ fs.kind file ≠ .symlink ∨
      flags.create = true ∧ fs.created dir name = .ok file) := by
  obtain ⟨entry, hlookup, h⟩ := bind_eq_ok.1 h
  obtain ⟨hkind, -, rfl⟩ := lookup_eq_ok hlookup
  refine ⟨hkind, ?_⟩
  rcases hentry : fs.entry dir name with _ | found
  · rw [hentry] at h
    dsimp only at h
    split_ifs at h with hcreate
    exact .inr ⟨hcreate, h⟩
  · rw [hentry] at h
    have hfound := h
    dsimp only [FileSystem.openFound] at hfound
    split_ifs at hfound with hexclusive hlink hdirectory hopen
    obtain rfl := Except.ok.inj hfound
    exact .inl ⟨rfl, h, hlink⟩

theorem Trail.mono {files : ℕ → FileSystem File} {n m : ℕ} {parts : List Str}
    (h : Trail files flags m dir parts file) (hle : n ≤ m) : Trail files flags n dir parts file := by
  cases h with
  | last time opened => exact .last (hle.trans time) opened
  | step time directory entry nofollow trail => exact .step (hle.trans time) directory entry nofollow trail

/-- The way does not leave a set that encloses it at all times. -/
theorem Trail.mem {files : ℕ → FileSystem File} {n : ℕ} {parts : List Str} (h : Trail files flags n dir parts file)
    {s : Set File} (hs : ∀ m, Encloses s (files m)) (hdir : dir ∈ s) (hparts : ∀ part ∈ parts, IsName part) :
    file ∈ s := by
  induction h with
  | last time opened =>
    obtain ⟨hentry, hcreated⟩ := hs _ _ hdir _ (hparts _ (List.mem_singleton_self _))
    rcases (openAt_eq_ok opened).2 with ⟨hfound, -⟩ | ⟨-, hnew⟩
    · exact hentry _ hfound
    · exact hcreated _ hnew
  | step time directory entry nofollow trail ih =>
    refine ih ((hs _ _ hdir _ (hparts _ (List.mem_cons_self ..))).1 _ entry) fun part hpart => ?_
    exact hparts part (List.mem_cons_of_mem _ hpart)

/-- So is the way of `openat2`, at one time. -/
theorem Trail.of_resolve (n : ℕ) {parts : List Str} : ∀ {dir : File},
    (K.files n).resolve flags dir parts = .ok file → Trail K.files flags n dir parts file := by
  induction parts with
  | nil =>
    intro dir h
    cases h
  | cons name rest ih =>
    intro dir h
    rcases rest with _ | ⟨name', rest⟩
    · exact .last le_rfl h
    · obtain ⟨entry, hlookup, h⟩ := bind_eq_ok.1 h
      obtain ⟨hkind, -, rfl⟩ := lookup_eq_ok hlookup
      rcases hentry : (K.files n).entry dir name with _ | next
      · rw [hentry] at h
        cases h
      · rw [hentry] at h
        dsimp only at h
        split_ifs at h with hlink
        exact .step le_rfl hkind hentry hlink (ih h)

/-! ## The walk -/

theorem wp_openCall {call : FileSystem File → OpenProcess File → Except OpenErrno File} {p : OpenProcess File}
    {Q : File → OpenProcess File → Prop} {E : OpenErrno → OpenProcess File → Prop}
    (hok : ∀ file, call (K.files p.calls) p = .ok file →
      Q file { p with calls := p.calls + 1, descriptors := file :: p.descriptors })
    (herror : ∀ errno, E errno { p with calls := p.calls + 1 }) : (openCall K call).wp Q E p := by
  simp only [openCall, Action.wp_bind, Action.wp_read, Action.wp_update, Action.wp_lift, Action.wp_pure]
  exact ⟨hok, fun errno _ => herror errno⟩

variable [DecidableEq File]

/-- The descriptor of the directory that is left is closed. -/
theorem erase_second (file current : File) (ds : List File) : (file :: current :: ds).erase current = file :: ds := by
  by_cases h : file = current
  · rw [h, List.erase_cons_head]
  · rw [List.erase_cons_tail (by simpa using h), List.erase_cons_head]

theorem wp_descend {component : Str} {p : OpenProcess File} {ds : List File}
    (hp : p.descriptors = p.current :: ds) : (descend K component).wp
      (fun _ p' => p'.descriptors = p'.current :: ds ∧ p'.calls = p.calls + 1 ∧
        (K.files p.calls).openAt p.current component directoryFlags = .ok p'.current)
      (fun _ p' => p'.descriptors = p'.current :: ds) p := by
  simp only [descend, openName, closeCurrent, Action.wp_bind]
  refine wp_openCall (fun file hfile => ?_) fun _ => hp
  simp only [Action.wp_update]
  refine ⟨?_, trivial, hfile⟩
  rw [hp]
  exact erase_second file p.current ds

/-- The walk keeps one descriptor of its own, of the directory that it is in. -/
theorem wp_walk (flags : OpenFlags) (ds : List File) (parts : List Str) :
    ∀ p : OpenProcess File, p.descriptors = p.current :: ds → (walk K flags parts).wp
      (fun file p' => p'.descriptors = file :: p'.current :: ds ∧
        Trail K.files flags p.calls p.current parts file)
      (fun _ p' => p'.descriptors = p'.current :: ds) p := by
  induction parts with
  | nil => exact fun p hp => hp
  | cons name rest ih =>
    intro p hp
    rcases rest with _ | ⟨name', rest⟩
    · change (openName K name flags).wp _ _ p
      exact wp_openCall (fun file hfile => ⟨congrArg (file :: ·) hp, .last le_rfl hfile⟩) fun _ => hp
    · change (descend K name >>= fun _ => walk K flags (name' :: rest)).wp _ _ p
      rw [Action.wp_bind]
      refine Action.wp_mono (wp_descend hp) (fun _ p' hp' => ?_) fun _ _ h => h
      obtain ⟨hdescriptors, hcalls, hopened⟩ := hp'
      refine Action.wp_mono (ih p' hdescriptors) (fun file p'' h => ⟨h.1, ?_⟩) fun _ _ h => h
      -- no directory is created on the way
      obtain ⟨hkind, ⟨hentry, -, hlink⟩ | ⟨hcreate, -⟩⟩ := openAt_eq_ok hopened
      · exact .step le_rfl hkind hentry hlink (h.2.mono (by omega))
      · cases hcreate

theorem wp_reraise {σ ε ε' α : Type} (f : ε → ε') (m : Action σ ε α) {Q : α → σ → Prop} {E : ε' → σ → Prop} {s : σ} :
    (reraise f m).wp Q E s ↔ m.wp Q (fun e s' => E (f e) s') s := by
  unfold Action.wp reraise
  rcases m s with ⟨_ | _, _⟩ <;> exact Iff.rfl

/-- What is opened, and what the descriptors are afterwards. -/
structure Beneath (K : OpenKernel File) (root : File) (parts : List Str) (flags : OpenFlags) (p : OpenProcess File)
    (file : File) (p' : OpenProcess File) : Prop where
  descriptors : p'.descriptors = file :: p.descriptors
  trail : Trail K.files flags p.calls root parts file

theorem wp_openWalking (root : File) (relativePath : Str) (parts : List Str) (flags : OpenFlags)
    (p : OpenProcess File) : (openWalking K root relativePath parts flags).wp (Beneath K root parts flags p)
      (fun _ p' => p'.descriptors = p.descriptors) p := by
  unfold openWalking
  rcases K.dup with errno | _
  · exact rfl
  · rw [Action.wp_bind, Action.wp_update, Action.wp_ensuring, wp_reraise]
    refine Action.wp_mono (wp_walk flags p.descriptors parts _ rfl) (fun file p' h => ⟨?_, h.2⟩) fun _ p' h => ?_
    · change p'.descriptors.erase p'.current = file :: p.descriptors
      rw [h.1]
      exact erase_second file p'.current p.descriptors
    · change p'.descriptors.erase p'.current = p.descriptors
      rw [h, List.erase_cons_head]

omit [DecidableEq File] in
theorem wp_openat2 (root : File) {parts : List Str} (hne : parts ≠ []) (hparts : ∀ part ∈ parts, IsName part)
    (flags : OpenFlags) (p : OpenProcess File) : (openat2 K root (['/'].intercalate parts) flags).wp
      (fun opened p' => (∀ file, opened = some file → Beneath K root parts flags p file p') ∧
        (opened = none → p'.descriptors = p.descriptors ∧ p.calls ≤ p'.calls))
      (fun _ p' => p'.descriptors = p.descriptors) p := by
  have hcall : (callOpenat2 K root (['/'].intercalate parts) flags).wp (Beneath K root parts flags p)
      (fun _ p' => p'.descriptors = p.descriptors ∧ p.calls ≤ p'.calls) p := by
    refine wp_openCall (fun file hfile => ⟨rfl, ?_⟩) fun _ => ⟨rfl, Nat.le_succ _⟩
    rw [splitOn_normalized hne hparts] at hfile
    rcases hold : K.openat2 with _ | errno
    · rw [hold] at hfile
      exact .of_resolve _ hfile
    · rw [hold] at hfile
      cases hfile
  unfold Action.wp openat2 at *
  rcases hresult : callOpenat2 K root (['/'].intercalate parts) flags p with ⟨errno | file, p'⟩
  · rw [hresult] at hcall
    rcases hold : errno.isOld with _ | _
    · simpa [hold] using hcall.1
    · simpa [hold] using hcall
  · rw [hresult] at hcall
    refine ⟨fun file' heq => ?_, fun heq => (by cases heq)⟩
    obtain rfl := Option.some.inj heq
    exact hcall

omit [DecidableEq File] in
theorem Beneath.of_later {root file : File} {parts : List Str} {p p₁ p' : OpenProcess File}
    (h : Beneath K root parts flags p₁ file p') (hdescriptors : p₁.descriptors = p.descriptors)
    (hcalls : p.calls ≤ p₁.calls) : Beneath K root parts flags p file p' :=
  ⟨hdescriptors ▸ h.descriptors, h.trail.mono hcalls⟩

theorem wp_openBeneath (K : OpenKernel File) (root : File) (relativePath : Str) (flags : OpenFlags) (directory : Bool)
    (p : OpenProcess File) : (openBeneath K root relativePath flags directory).wp
      (fun file p' => ∃ parts, components relativePath = .ok parts ∧
        Beneath K root parts { flags with directory := flags.directory || directory } p file p')
      (fun _ p' => p'.descriptors = p.descriptors) p := by
  unfold openBeneath
  rw [Action.wp_bind]
  refine Action.wp_lift_intro (fun parts hparts => ?_) fun _ => rfl
  obtain ⟨hne, hnames⟩ := components_eq_ok hparts
  rw [Action.wp_bind]
  refine Action.wp_mono (wp_openat2 root hne hnames _ p) (fun opened p₁ h => ?_) fun _ _ h => h
  rcases opened with _ | file
  · obtain ⟨hdescriptors, hcalls⟩ := h.2 rfl
    refine Action.wp_mono (wp_openWalking root relativePath parts _ p₁)
      (fun file p' h' => ⟨parts, hparts, h'.of_later hdescriptors hcalls⟩) fun _ p' h' => h'.trans hdescriptors
  · exact ⟨parts, hparts, h.1 file rfl⟩

/-- Whatever other processes do to the files between the calls: a file that `open_beneath` returns was come to from
the root by names alone, through directories and no symbolic link, and is in every set that encloses the root at all
times. One descriptor more is open then, that of the file, and after an exception none. -/
theorem open_beneath_confined (K : OpenKernel File) (root : File) (relativePath : Str) (flags : OpenFlags)
    (directory : Bool) (p : OpenProcess File) : (openBeneath K root relativePath flags directory).wp
      (fun file p' => p'.descriptors = file :: p.descriptors ∧
        (∃ parts, components relativePath = .ok parts ∧ (∀ part ∈ parts, IsName part) ∧
          Trail K.files { flags with directory := flags.directory || directory } p.calls root parts file) ∧
        ∀ s : Set File, root ∈ s → (∀ n, Encloses s (K.files n)) → file ∈ s)
      (fun _ p' => p'.descriptors = p.descriptors) p := by
  refine Action.wp_mono (wp_openBeneath K root relativePath flags directory p) (fun file p' h => ?_) fun _ _ h => h
  obtain ⟨parts, hparts, hbeneath⟩ := h
  have hnames := (components_eq_ok hparts).2
  exact ⟨hbeneath.descriptors, ⟨parts, hparts, hnames, hbeneath.trail⟩,
    fun s hroot hs => hbeneath.trail.mem hs hroot hnames⟩

/-! ## The two ways agree -/

/-- The directories on the way may be opened, which the walk does with each and `openat2` with none. -/
def Readable (fs : FileSystem File) : File → List Str → Prop
  | _, [] => True
  | _, [_] => True
  | dir, name :: rest => ∀ next, fs.entry dir name = some next →
      fs.mayOpen next directoryFlags = true ∧ Readable fs next rest

omit [DecidableEq File] in
theorem openAt_directory {next : File} : fs.openAt dir name directoryFlags = .ok next ↔
    fs.kind dir = .directory ∧ fs.maySearch dir = true ∧ fs.entry dir name = some next ∧
      fs.kind next = .directory ∧ fs.mayOpen next directoryFlags = true := by
  constructor
  · intro h
    obtain ⟨entry, hlookup, h⟩ := bind_eq_ok.1 h
    obtain ⟨hkind, hsearch, rfl⟩ := lookup_eq_ok hlookup
    rcases hentry : fs.entry dir name with _ | found
    · rw [hentry] at h
      cases h
    · rw [hentry] at h
      dsimp only [FileSystem.openFound] at h
      split_ifs at h with hexclusive hlink hdirectory hopen
      obtain rfl := Except.ok.inj h
      exact ⟨hkind, hsearch, rfl, by_contra fun hother => hdirectory ⟨rfl, hother⟩, hopen⟩
  · rintro ⟨hkind, hsearch, hentry, hnext, hopen⟩
    refine bind_eq_ok.2 ⟨_, lookup_of_search hkind hsearch, ?_⟩
    rw [hentry]
    dsimp only [FileSystem.openFound]
    rw [if_neg (by decide), if_neg (by rw [hnext]; decide), if_neg fun h => h.2 hnext, if_pos hopen]

omit [DecidableEq File] in
theorem resolve_cons {name' : Str} {rest : List Str} : fs.resolve flags dir (name :: name' :: rest) = .ok file ↔
    fs.kind dir = .directory ∧ fs.maySearch dir = true ∧ ∃ next, fs.entry dir name = some next ∧
      fs.kind next ≠ .symlink ∧ fs.resolve flags next (name' :: rest) = .ok file := by
  constructor
  · intro h
    obtain ⟨entry, hlookup, h⟩ := bind_eq_ok.1 h
    obtain ⟨hkind, hsearch, rfl⟩ := lookup_eq_ok hlookup
    rcases hentry : fs.entry dir name with _ | next
    · rw [hentry] at h
      cases h
    · rw [hentry] at h
      dsimp only at h
      split_ifs at h with hlink
      exact ⟨hkind, hsearch, next, rfl, hlink, h⟩
  · rintro ⟨hkind, hsearch, next, hentry, hlink, h⟩
    refine bind_eq_ok.2 ⟨_, lookup_of_search hkind hsearch, ?_⟩
    rw [hentry]
    exact (if_neg hlink).trans h

omit [DecidableEq File] in
theorem resolve_directory {parts : List Str} (h : fs.resolve flags dir parts = .ok file) :
    fs.kind dir = .directory := by
  rcases parts with _ | ⟨name, _ | ⟨name', rest⟩⟩
  · cases h
  · exact (openAt_eq_ok h).1
  · exact (resolve_cons.1 h).1

omit [DecidableEq File] in
theorem openCall_apply (call : FileSystem File → OpenProcess File → Except OpenErrno File) (p : OpenProcess File) :
    openCall K call p = match call (K.files p.calls) p with
      | .ok file => (.ok file, { p with calls := p.calls + 1, descriptors := file :: p.descriptors })
      | .error errno => (.error errno, { p with calls := p.calls + 1 }) := by
  change (liftM (call (K.files p.calls) p) >>= _ : Action (OpenProcess File) OpenErrno File) _ = _
  rcases call (K.files p.calls) p with errno | file <;> rfl

/-- Where nothing changes, the walk opens what `openat2` does and only needs to open the directories too. -/
theorem walk_eq_ok (hquiet : ∀ n, K.files n = fs) (parts : List Str) : ∀ p : OpenProcess File,
    (walk K flags parts p).1 = .ok file ↔
      fs.resolve flags p.current parts = .ok file ∧ Readable fs p.current parts := by
  induction parts with
  | nil => exact fun p => ⟨fun h => (by cases h), fun h => (by cases h.1)⟩
  | cons name rest ih =>
    intro p
    rcases rest with _ | ⟨name', rest⟩
    · change (openCall K _ p).1 = .ok file ↔ fs.openAt p.current name flags = .ok file ∧ True
      rw [openCall_apply, hquiet, and_true]
      rcases fs.openAt p.current name flags with errno | found <;> exact Iff.rfl
    · have hstep (next : File) : fs.openAt p.current name directoryFlags = .ok next →
          ∃ p', p'.current = next ∧ walk K flags (name :: name' :: rest) p = walk K flags (name' :: rest) p' := by
        intro hnext
        refine ⟨⟨p.calls + 1, (next :: p.descriptors).erase p.current, next⟩, rfl, ?_⟩
        change (descend K name >>= fun _ => walk K flags (name' :: rest)) p = _
        rw [Action.bind_apply, descend, Action.bind_apply, openName, openCall_apply, hquiet, hnext]
        rfl
      -- without this directory there is no file on either way
      constructor
      · intro h
        rcases hopened : fs.openAt p.current name directoryFlags with errno | next
        · change ((descend K name >>= fun _ => walk K flags (name' :: rest)) p).1 = _ at h
          rw [Action.bind_apply, descend, Action.bind_apply, openName, openCall_apply, hquiet, hopened] at h
          cases h
        · obtain ⟨p', rfl, hwalk⟩ := hstep next hopened
          rw [hwalk, ih] at h
          obtain ⟨hkind, hsearch, hentry, hdirectory, hopen⟩ := openAt_directory.1 hopened
          refine ⟨resolve_cons.2 ⟨hkind, hsearch, _, hentry, by rw [hdirectory]; decide, h.1⟩, fun next hnext => ?_⟩
          obtain rfl := Option.some.inj (hentry.symm.trans hnext)
          exact ⟨hopen, h.2⟩
      · rintro ⟨hresolve, hreadable⟩
        obtain ⟨hkind, hsearch, next, hentry, -, hrest⟩ := resolve_cons.1 hresolve
        obtain ⟨hopen, hrest'⟩ := hreadable next hentry
        obtain ⟨p', rfl, hwalk⟩ := hstep next
          (openAt_directory.2 ⟨hkind, hsearch, hentry, resolve_directory hrest, hopen⟩)
        rw [hwalk, ih]
        exact ⟨hrest, hrest'⟩

theorem openWalking_eq_ok (hdup : K.dup = .ok ()) (hquiet : ∀ n, K.files n = fs) (root : File) (relativePath : Str)
    (parts : List Str) (p : OpenProcess File) : (openWalking K root relativePath parts flags p).1 = .ok file ↔
      fs.resolve flags root parts = .ok file ∧ Readable fs root parts := by
  have hwalk : (walk K flags parts { p with descriptors := root :: p.descriptors, current := root }).1 = .ok file ↔
      fs.resolve flags root parts = .ok file ∧ Readable fs root parts := walk_eq_ok hquiet parts _
  rw [← hwalk]
  unfold openWalking
  rw [hdup]
  change ((walk K flags parts { p with descriptors := root :: p.descriptors, current := root }).1.mapError _) = _ ↔ _
  rcases (walk K flags parts { p with descriptors := root :: p.descriptors, current := root }).1 with errno | found
  · exact ⟨fun h => (by cases h), fun h => (by cases h)⟩
  · exact ⟨fun h => congrArg Except.ok (Except.ok.inj h), fun h => congrArg Except.ok (Except.ok.inj h)⟩

theorem openBeneath_apply {relativePath : Str} {parts : List Str} (hparts : components relativePath = .ok parts)
    (root : File) (directory : Bool) (p : OpenProcess File) : openBeneath K root relativePath flags directory p =
      match openat2 K root (['/'].intercalate parts) { flags with directory := flags.directory || directory } p with
      | (.ok (some file), p') => (.ok file, p')
      | (.ok none, p') =>
        openWalking K root relativePath parts { flags with directory := flags.directory || directory } p'
      | (.error exc, p') => (.error exc, p') := by
  unfold openBeneath
  rw [hparts]
  change (openat2 K root (['/'].intercalate parts) { flags with directory := flags.directory || directory } >>= _ :
    Action (OpenProcess File) OpenError File) p = _
  rw [Action.bind_apply]
  rcases openat2 K root (['/'].intercalate parts) { flags with directory := flags.directory || directory } p with
    ⟨exc | _ | found, p'⟩ <;> rfl

/-- A project with a directory, a file in it, and a symbolic link. -/
def sampleFiles : FileSystem String where
  kind file := if file = "/" ∨ file = "/src" then .directory else if file = "/link" then .symlink else .other
  entry dir name :=
    if dir = "/" ∧ name = "src".toList then some "/src"
    else if dir = "/" ∧ name = "link".toList then some "/link"
    else if dir = "/src" ∧ name = "main.py".toList then some "/src/main.py"
    else none
  maySearch _ := true
  mayOpen _ _ := true
  created _ _ := .error .access

/-- A kernel without `openat2`, whose files nobody changes. -/
def sampleOpenKernel : OpenKernel String := ⟨fun _ => sampleFiles, some .nosys, .ok ()⟩

/-- A process without descriptors. -/
def sampleOpenProcess : OpenProcess String := ⟨0, [], "/"⟩

/-- For reading. -/
def readFlags : OpenFlags := ⟨false, false, false, 0⟩

example : (openBeneath sampleOpenKernel "/" "link".toList readFlags false sampleOpenProcess).1 =
    .error (.walk "link".toList .loop) := by rfl

end Bulldog.SecureFs
