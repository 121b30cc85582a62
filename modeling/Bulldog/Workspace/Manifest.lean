import Bulldog.Lib.Action
import Bulldog.Platform
import Mathlib

/-!
# Workspace admission

`build_manifest` of `filesystem_manifest.py`: a walk over a project tree that lists its nodes and
refuses the tree where it breaks a budget. The tree does not change during the walk, so what is opened is
what was inspected, and the deadline does not expire. The interpreter has some frames left for the recursion.
-/

namespace Bulldog.Workspace

/-! ## Names -/

/-- A Python string as its code points. A file name whose bytes are no UTF-8 has surrogates in it. -/
abbrev Name := List ℕ

/-- `name.encode("utf-8")`, or nothing where Python raises `UnicodeEncodeError`. -/
def Name.encode (name : Name) : Option Bytes :=
  (name.mapM fun n : ℕ => if n.isValidChar then some (Char.ofNat n) else none).map encodeUtf8

/-- A literal. -/
def Name.ofText (text : String) : Name := text.toList.map Char.toNat

/-- `"/".join(parts)`. -/
def joinParts (parts : List Name) : Name := List.intercalate [47] parts

/-- `".git"`. -/
def gitName : Name := Name.ofText ".git"

/-! ## The budget -/

/-- `WorkspaceBudget`. -/
structure WorkspaceBudget where
  maxFiles : ℤ := 50000
  maxTotalBytes : ℤ := 2 * 1024 * 1024 * 1024
  maxFileBytes : ℤ := 128 * 1024 * 1024
  maxDepth : ℤ := 32
  maxPathBytes : ℤ := 4096
  manifestTimeoutSeconds : ℚ := 20
  snapshotTimeoutSeconds : ℚ := 30
  malwareScanTimeoutSeconds : ℚ := 60
  snapshotMinFreeBytes : ℤ := 512 * 1024 * 1024

/-- `raise WorkspaceLimitViolation(message)` or `FilesystemManifestViolation(message)`, with the path
that the message ends with, or an exception of the system or of the interpreter. -/
inductive Violation where
  | refused (message : String) (relative : Option Name)
  | unicodeEncodeError
  | osError
  | recursionError
  deriving DecidableEq

/-- `WorkspaceBudget.validate`. -/
def WorkspaceBudget.validate (self : WorkspaceBudget) : Except Violation Unit := do
  raiseIf ([self.maxFiles, self.maxTotalBytes, self.maxFileBytes, self.maxDepth, self.maxPathBytes,
    self.snapshotMinFreeBytes].any (· < 1)) (.refused "workspace limits must be positive" none)
  raiseIf (self.maxTotalBytes < self.maxFileBytes)
    (.refused "maximum file size cannot exceed maximum workspace size" none)
  raiseIf (min self.manifestTimeoutSeconds (min self.snapshotTimeoutSeconds
    self.malwareScanTimeoutSeconds) ≤ 0) (.refused "workspace timeouts must be positive" none)

/-! ## Trees -/

/-- What the walk reads of an `os.stat_result`. -/
structure Stat where
  device : ℕ
  inode : ℕ
  mode : ℕ
  uid : ℕ
  gid : ℕ
  size : ℕ
  nlink : ℕ

/-- The file type bits of a mode. -/
def fileType (mode : ℕ) : ℕ := mode &&& 0o170000

/-- `stat.S_ISLNK(mode)`. -/
def isLnk (mode : ℕ) : Bool := fileType mode = 0o120000

/-- `stat.S_ISDIR(mode)`. -/
def isDir (mode : ℕ) : Bool := fileType mode = 0o040000

/-- `stat.S_ISREG(mode)`. -/
def isReg (mode : ℕ) : Bool := fileType mode = 0o100000

/-- `mode & (stat.S_ISUID | stat.S_ISGID)`. -/
def isSetid (mode : ℕ) : Bool := mode &&& 0o6000 ≠ 0

/-- Which system calls on a node succeed. -/
structure Access where
  statable : Bool
  openable : Bool
  listable : Bool
  /-- `os.read` of what was opened. -/
  readable : Bool

/-- A node of a directory tree. What is no file has no content, and what is no directory no children. -/
inductive Node where
  | mk (name : Name) (stat : Stat) (access : Access) (content : Bytes) (children : List Node)

namespace Node

/-- Its name. -/
def name : Node → Name
  | mk name _ _ _ _ => name

/-- `os.stat(name, follow_symlinks=False)`. -/
def stat : Node → Stat
  | mk _ stat _ _ _ => stat

/-- What succeeds on it. -/
def access : Node → Access
  | mk _ _ access _ _ => access

/-- What is read from it. -/
def content : Node → Bytes
  | mk _ _ _ content _ => content

end Node

mutual
/-- The node with every listing in the order of `sorted(os.listdir(fd))`. -/
def Node.sorted : Node → Node
  | .mk name stat access content children =>
    .mk name stat access content
      ((sortedNodes children).insertionSort fun a b => a.name ≤ b.name)
/-- `sorted` on each of the nodes. -/
def sortedNodes : List Node → List Node
  | [] => []
  | node :: nodes => node.sorted :: sortedNodes nodes
end

/-! ## The walk -/

/-- `ManifestEntry.kind`. -/
inductive Kind where
  | directory
  | file
  deriving DecidableEq

/-- `ManifestEntry`. -/
structure ManifestEntry where
  path : Name
  kind : Kind
  device : ℕ
  inode : ℕ
  mode : ℕ
  uid : ℕ
  gid : ℕ
  size : ℕ
  sha256 : Option Str

/-- `entries` and `counters`. -/
structure Walked where
  entries : List ManifestEntry
  files : ℕ
  bytes : ℕ
  count : ℕ

/-- The arguments of a walk, with the device of the root and the frames that are left for its calls. -/
structure Config where
  requireSameDevice : Bool
  rejectSetid : Bool
  budget : WorkspaceBudget
  rootDevice : ℕ
  frames : ℕ

/-- `_check_path_budget(relative, depth=depth, budget=budget)`. -/
def checkPathBudget (budget : WorkspaceBudget) (relative : Name) (depth : ℕ) :
    Except Violation Unit := do
  raiseIf (budget.maxDepth < depth)
    (.refused ("directory depth exceeds limit (" ++ toString budget.maxDepth ++ "): ") relative)
  let encoded ← orRaise relative.encode .unicodeEncodeError
  raiseIf (budget.maxPathBytes < encoded.length)
    (.refused ("path length exceeds limit (" ++ toString budget.maxPathBytes ++ " bytes): ") relative)

/-- The entry of a node. -/
def entryOf (C : Crypto) (relative : Name) (node : Node) : ManifestEntry where
  path := relative
  kind := if isDir node.stat.mode then .directory else .file
  device := node.stat.device
  inode := node.stat.inode
  mode := node.stat.mode
  uid := node.stat.uid
  gid := node.stat.gid
  size := node.stat.size
  sha256 := if isDir node.stat.mode then none else some (hexdigest (C.sha256 node.content))

/-- The body of the loop of `walk`, up to the recursion. -/
def visit (C : Crypto) (config : Config) (parts : List Name) (node : Node) (walked : Walked) :
    Except Violation Walked := do
  let budget := config.budget
  let relative := joinParts parts
  let st := node.stat
  checkPathBudget budget relative parts.length
  let walked := { walked with count := walked.count + 1 }
  raiseIf (budget.maxFiles + budget.maxFiles < walked.count)
    (.refused "workspace entry count exceeds bounded admission limit" none)
  raiseIf (!node.access.statable) .osError
  raiseIf (isLnk st.mode) (.refused "symlink rejected: " relative)
  raiseIf (config.requireSameDevice ∧ st.device ≠ config.rootDevice)
    (.refused "filesystem boundary/mount point rejected: " relative)
  raiseIf (config.rejectSetid ∧ isSetid st.mode)
    (.refused "setuid/setgid entry rejected: " relative)
  if isDir st.mode then
    raiseIf (!node.access.openable) (.refused "directory open rejected: " relative)
    let walked := { walked with entries := walked.entries ++ [entryOf C relative node] }
    -- the recursive call starts with `require_before` and the listing
    raiseIf (config.frames < parts.length + 2) .recursionError
    raiseIf (!node.access.listable) (.refused "unable to enumerate workspace directory: " none)
    return walked
  else
    raiseIf (!isReg st.mode) (.refused "special filesystem object rejected: " relative)
    raiseIf (1 < st.nlink) (.refused "hardlink rejected: " relative)
    raiseIf (budget.maxFileBytes < st.size)
      (.refused ("file exceeds size limit (" ++ toString budget.maxFileBytes ++ "): ") relative)
    let walked := { walked with files := walked.files + 1, bytes := walked.bytes + st.size }
    raiseIf (budget.maxFiles < walked.files)
      (.refused ("file count exceeds limit (" ++ toString budget.maxFiles ++ ")") none)
    raiseIf (budget.maxTotalBytes < walked.bytes)
      (.refused ("workspace bytes exceed limit (" ++ toString budget.maxTotalBytes ++ ")") none)
    raiseIf (!node.access.openable) (.refused "file open rejected: " relative)
    -- of what `fstat` returns, only the number of links is not compared with what `stat` returned
    raiseIf (st.nlink ≠ 1) (.refused "file changed during admission: " relative)
    -- `_hash_fd`, which calls `require_before`
    raiseIf (config.frames < parts.length + 2) .recursionError
    raiseIf (!node.access.readable) .osError
    return { walked with entries := walked.entries ++ [entryOf C relative node] }

mutual
/-- An iteration of the loop of `walk`, for the children of this directory. -/
def walkNode (C : Crypto) (config : Config) (parents : List Name) :
    Node → Walked → Except Violation Walked
  | .mk name stat access content children, walked =>
    if name = gitName then .ok walked
    else do
      let walked ← visit C config (parents ++ [name]) (.mk name stat access content children) walked
      if isDir stat.mode then walk C config (parents ++ [name]) children walked else return walked
/-- `walk(dir_fd, prefix, depth)`, for a listing that is in order. -/
def walk (C : Crypto) (config : Config) (parents : List Name) :
    List Node → Walked → Except Violation Walked
  | [], walked => .ok walked
  | node :: nodes, walked => do walk C config parents nodes (← walkNode C config parents node walked)
end

/-- `FilesystemManifest`. -/
structure FilesystemManifest where
  root : Name
  device : ℕ
  entries : List ManifestEntry
  totalBytes : ℕ
  fileCount : ℕ

/-- `build_manifest(root, ...)`, of a root that resolves to this path and this node, with this many frames left. -/
def buildManifest (C : Crypto) (rootPath : Name) (root : Node) (requireSameDevice : Bool)
    (rejectSetid : Bool) (budget : WorkspaceBudget) (frames : ℕ) : Except Violation FilesystemManifest := do
  budget.validate
  match root.sorted with
  | .mk _ stat access _ children => do
    raiseIf (!access.openable ∨ !isDir stat.mode) .osError
    raiseIf (frames < 2) .recursionError
    raiseIf (!access.listable) (.refused "unable to enumerate workspace directory: " none)
    let walked ← walk C ⟨requireSameDevice, rejectSetid, budget, stat.device, frames⟩ [] children ⟨[], 0, 0, 0⟩
    return ⟨rootPath, stat.device, walked.entries, walked.bytes, walked.files⟩

end Bulldog.Workspace
