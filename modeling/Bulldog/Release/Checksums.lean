import Mathlib
import Bulldog.Lib.Action
import Bulldog.Lib.Splitlines
import Bulldog.Platform

/-!
# Checksums of a release

`write_checksums`, `read_checksums` and `verify_checksums` of `release_evidence.py` on a directory. A regular file
is an inode, and two names may have one. A link leads to a regular file that is there, or to something that is none
and cannot be written. A name is UTF-8, and the patterns of `exclude` are a test of names.
-/

namespace Bulldog.Release

/-! ## Directories -/

/-- What a name in a directory can be. -/
def IsName (name : Str) : Prop := name ≠ [] ∧ '/' ∉ name ∧ name ≠ ['.'] ∧ name ≠ ['.', '.']

instance (name : Str) : Decidable (IsName name) := inferInstanceAs (Decidable (_ ∧ _))

/-- An entry of a directory. -/
inductive Entry where
  | file (inode : ℕ)
  /-- A symbolic link, with the regular file that it leads to. -/
  | link (inode : Option ℕ)
  | other
  deriving DecidableEq

/-- The regular file that an entry is opened as. -/
def Entry.inode : Entry → Option ℕ
  | .file i => some i
  | .link i => i
  | .other => none

/-- A directory, and the contents of the regular files. -/
structure Directory where
  /-- In the order of `iterdir`. -/
  entries : AList fun _ : Str => Entry
  contents : ℕ → Bytes
  names : ∀ name ∈ entries, IsName name

/-- An exception. -/
inductive Failure where
  /-- `ReleaseEvidenceError(message)`. -/
  | evidence (message : String)
  /-- `ReleaseEvidenceError`, with a name at the end of its message. -/
  | subject (message : String) (name : Str)
  /-- `ReleaseEvidenceError`, with the names that are not listed and those that are missing. -/
  | inventory (unlisted missing : List Str)
  | osError
  | unicodeError
  deriving DecidableEq

/-- The number of a new file. -/
def Directory.fresh (d : Directory) : ℕ :=
  (d.entries.entries.filterMap fun e => e.2.inode).foldr max 0 + 1

/-- `(root / name).write_text(text, encoding="utf-8")`. -/
def Directory.writeText (d : Directory) (name : Str) (hname : IsName name) (text : Str) : Except Failure Directory :=
  match d.entries.lookup name with
  | none => .ok {
      entries := d.entries.insert name (.file d.fresh)
      contents := Function.update d.contents d.fresh (encodeUtf8 text)
      names := fun n hn => (AList.mem_insert _ |>.1 hn).elim (fun h => h ▸ hname) (d.names n) }
  | some entry =>
    match entry.inode with
    | some i => .ok { d with contents := Function.update d.contents i (encodeUtf8 text) }
    | none => .error .osError

/-- `(root / name).read_text(encoding="utf-8")`. -/
def Directory.readText (d : Directory) (name : Str) : Except Failure Str := do
  let inode ← orRaise ((d.entries.lookup name).bind Entry.inode) .osError
  let text ← orRaise (decodeUtf8 (d.contents inode)) .unicodeError
  return Str.universalNewlines text

/-- `sha256_file(root / name)`. -/
def Directory.sha256File (C : Crypto) (d : Directory) (name : Str) : Except Failure Str := do
  let inode ← orRaise ((d.entries.lookup name).bind Entry.inode) .osError
  return hexdigest (C.sha256 (d.contents inode))

/-- Whether a name is of a regular file and of no link. -/
def Directory.isSubject (d : Directory) (name : Str) : Bool :=
  match d.entries.lookup name with
  | some (.file _) => true
  | _ => false

/-- The names of the regular files other than the checksums. -/
def Directory.subjects (d : Directory) (checksumName : Str) : List Str :=
  d.entries.keys.filter fun name => d.isSubject name && name ≠ checksumName

/-! ## Checksums -/

/-- The names and digests of a checksum file. -/
abbrev Checksums := List (Str × Str)

/-- A line of a checksum file. -/
def checksumLine (entry : Str × Str) : Str := entry.2 ++ (' ' :: ' ' :: entry.1)

/-- `write_checksums(directory, output_name, exclude=...)`. -/
def writeChecksums (C : Crypto) (excluded : Str → Bool) (outputName : Str) (hname : IsName outputName)
    (d : Directory) : Except Failure Directory := do
  let names := (d.subjects outputName).filter (!excluded ·)
  raiseIf (names = []) (.evidence "no release subjects selected for checksums")
  let lines ← (names.insertionSort (· ≤ ·)).mapM fun name => do return checksumLine (name, ← d.sha256File C name)
  d.writeText outputName hname (List.intercalate ['\n'] lines ++ ['\n'])

/-- One turn of the loop of `read_checksums`. -/
def readLine (result : Checksums) (raw : Str) : Except Failure Checksums :=
  if raw = [] then .ok result
  else do
    raiseIf (raw.length < 67 ∨ (raw.drop 64).take 2 ≠ [' ', ' ']) (.evidence "invalid checksum line")
    let digest := raw.take 64
    let name := raw.drop 66
    raiseIf (!isHex64 digest) (.evidence "invalid checksum digest")
    raiseIf (name = [] ∨ name ∈ result.map Prod.fst ∨ '/' ∈ name ∨ '\\' ∈ name ∨ name = ['.'] ∨ name = ['.', '.'])
      (.evidence "invalid checksum filename")
    return result ++ [(name, digest)]

/-- `read_checksums`, of the text of the file. -/
def readChecksums (text : Str) : Except Failure Checksums := do
  let result ← (Str.splitlines [] text).foldlM readLine []
  raiseIf (result = []) (.evidence "checksum file is empty")
  return result

/-- One turn of the loop of `verify_checksums`. -/
def verifySubject (C : Crypto) (d : Directory) (entry : Str × Str) : Except Failure Unit := do
  raiseIf (!d.isSubject entry.1) (.subject "checksum subject missing or invalid: " entry.1)
  raiseIf ((← d.sha256File C entry.1) ≠ entry.2) (.subject "checksum mismatch: " entry.1)

/-- `verify_checksums(directory, checksum_name, complete=complete)`. -/
def verifyChecksums (C : Crypto) (checksumName : Str) (complete : Bool) (d : Directory) : Except Failure Checksums := do
  let text ← d.readText checksumName
  let expected ← readChecksums text
  expected.forM (verifySubject C d)
  let actual := (d.subjects checksumName).toFinset
  let listed := (expected.map Prod.fst).toFinset
  raiseIf (complete = true ∧ actual ≠ listed) (.inventory
    (((d.subjects checksumName).filter (· ∉ listed)).insertionSort (· ≤ ·))
    (((expected.map Prod.fst).filter (· ∉ actual)).insertionSort (· ≤ ·)))
  return expected

end Bulldog.Release
