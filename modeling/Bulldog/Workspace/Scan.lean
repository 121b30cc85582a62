import Bulldog.Workspace.ContentHash

/-!
# The malware scan of a project

`MalwareScanner.scan_project` lists the project by path, with `rglob`, where `build_manifest` walks it by
directory descriptors. The tree does not change, and the scan has no timeout or does not reach it. Whether
a path leads to a file is asked of the system, which may refuse to answer, and `scan_file` may raise.
-/

namespace Bulldog.Workspace

/-! ## The scan -/

/-- A path below the root, as its components, and the node it leads to. -/
abbrev Item := List Name × Node

mutual
/-- The node and what `rglob("*")` finds below it. A directory that cannot be listed is passed over. -/
def Node.rglob (parents : List Name) : Node → List Item
  | .mk name stat access content children =>
    (parents ++ [name], .mk name stat access content children) ::
      if isDir stat.mode ∧ access.openable ∧ access.listable then rglobOf (parents ++ [name]) children
      else []
/-- What it finds in a listing. -/
def rglobOf (parents : List Name) : List Node → List Item
  | [] => []
  | node :: nodes => node.rglob parents ++ rglobOf parents nodes
end

/-- `root.rglob("*")`. -/
def rglob (root : Node) : List Item :=
  if root.access.openable ∧ root.access.listable then rglobOf [] root.children else []

/-- `MalwareScannerError(message)`, or an exception of the system. -/
inductive ScanError where
  | scanner (message : String)
  | osError
  deriving DecidableEq

/-- What the scanner uses: `path.is_file()`, or nothing where it raises, and whether `scan_file(path)` finds
the file clean. -/
structure Scanner where
  isFile : Item → Option Bool
  scanFile : Item → Except ScanError Bool

/-- `results` and `total_bytes`. -/
structure Scanned where
  results : List (Item × Bool)
  totalBytes : ℕ

/-- The body of the loop of `scan_project`, below a root of these components. -/
def scanStep (S : Scanner) (rootParts : List Name) (maxTotalBytes maxFiles : Option ℤ) (scanned : Scanned)
    (item : Item) : Except ScanError Scanned := do
  let file ← orRaise (S.isFile item) .osError
  if !file || gitName ∈ rootParts ++ item.1 then return scanned
  raiseIf (∃ max ∈ maxFiles, max ≤ scanned.results.length)
    (.scanner "malware scan file-count budget exceeded")
  let totalBytes := scanned.totalBytes + item.2.stat.size
  raiseIf (∃ max ∈ maxTotalBytes, max < totalBytes) (.scanner "malware scan byte budget exceeded")
  let clean ← S.scanFile item
  return ⟨scanned.results ++ [(item, clean)], totalBytes⟩

/-- `ProjectScanResult`. -/
structure ProjectScanResult where
  clean : Bool
  filesScanned : ℕ
  detections : List (Item × Bool)
  results : List (Item × Bool)

/-- `scan_project(root, max_total_bytes=max_total_bytes, max_files=max_files)`. -/
def scanProject (S : Scanner) (rootParts : List Name) (root : Node) (maxTotalBytes maxFiles : Option ℤ) :
    Except ScanError ProjectScanResult := do
  raiseIf (!isDir root.stat.mode) (.scanner "scan root must be a directory")
  let scanned ← ((rglob root).insertionSort fun a b => a.1 ≤ b.1).foldlM
    (scanStep S rootParts maxTotalBytes maxFiles) ⟨[], 0⟩
  let detections := scanned.results.filter fun result => !result.2
  return ⟨detections.isEmpty, scanned.results.length, detections, scanned.results⟩

/-! ## What rglob finds -/

mutual
theorem rglob_sublist (parents : List Name) :
    ∀ node : Node, (node.rglob parents).Sublist (node.nodes parents)
  | .mk name stat access content children => by
    rw [Node.rglob, Node.nodes]
    refine List.Sublist.cons_cons _ ?_
    split_ifs with hlist hdir
    · exact rglobOf_sublist (parents ++ [name]) children
    · exact absurd hlist.1 hdir
    · exact List.nil_sublist _
    · exact List.nil_sublist _
theorem rglobOf_sublist (parents : List Name) :
    ∀ nodes : List Node, (rglobOf parents nodes).Sublist (nodesOf parents nodes)
  | [] => List.Sublist.slnil
  | node :: nodes => by
    rw [rglobOf, nodesOf]
    exact (rglob_sublist parents node).append (rglobOf_sublist parents nodes)
end

/-- Nothing below `.git` is outside of it. -/
theorem filter_outsideGit_eq_nil {parents : List Name} (h : gitName ∈ parents) (nodes : List Node) :
    (nodesOf parents nodes).filter outsideGit = [] := by
  refine List.filter_eq_nil_iff.2 fun item hitem => ?_
  have hmem := (prefix_of_mem_nodesOf parents nodes item hitem).subset h
  simpa [outsideGit] using hmem

mutual
/-- Where what is outside `.git` can be listed, it is found. -/
theorem rglob_outsideGit (parents : List Name) :
    ∀ node : Node, (∀ item ∈ (node.nodes parents).filter outsideGit, Reachable item.2) →
      (node.rglob parents).filter outsideGit = (node.nodes parents).filter outsideGit
  | .mk name stat access content children, h => by
    by_cases hoff : outsideGit (parents ++ [name], .mk name stat access content children) = true
    · rw [Node.nodes, List.filter_cons_of_pos hoff] at h
      rw [Node.rglob, Node.nodes, List.filter_cons_of_pos hoff, List.filter_cons_of_pos hoff]
      have hself := h _ List.mem_cons_self
      refine congrArg _ ?_
      by_cases hdir : isDir stat.mode = true
      · rw [if_pos hdir] at h
        rw [if_pos ⟨hdir, hself.openable, hself.listable hdir⟩, if_pos hdir]
        exact rglobOf_outsideGit (parents ++ [name]) children fun item hitem => h item (.tail _ hitem)
      · rw [if_neg (fun hlist => hdir hlist.1), if_neg hdir]
    · have hgit : gitName ∈ parents ++ [name] := by
        rw [outsideGit, decide_eq_true_eq] at hoff
        exact not_not.1 hoff
      -- below `.git` rglob may find less than the walk, but the filter keeps neither
      have hnone : ((Node.mk name stat access content children).nodes parents).filter outsideGit = [] := by
        rw [Node.nodes, List.filter_cons_of_neg hoff]
        split_ifs
        · exact filter_outsideGit_eq_nil hgit children
        · rfl
      rw [hnone]
      exact List.sublist_nil.1 (hnone ▸ (rglob_sublist parents _).filter outsideGit)
theorem rglobOf_outsideGit (parents : List Name) :
    ∀ nodes : List Node, (∀ item ∈ (nodesOf parents nodes).filter outsideGit, Reachable item.2) →
      (rglobOf parents nodes).filter outsideGit = (nodesOf parents nodes).filter outsideGit
  | [], _ => rfl
  | node :: nodes, h => by
    rw [nodesOf, List.filter_append] at h
    rw [rglobOf, nodesOf, List.filter_append, List.filter_append,
      rglob_outsideGit parents node fun item hitem => h item (List.mem_append_left _ hitem),
      rglobOf_outsideGit parents nodes fun item hitem => h item (List.mem_append_right _ hitem)]
end

/-- An accessible tree is found but for what is in `.git`. -/
theorem rglob_filter {root : Node} (h : Accessible root) :
    (rglob root).filter outsideGit = admittedNodes root.children := by
  rw [rglob, if_pos ⟨h.openable, h.listable⟩]
  exact rglobOf_outsideGit [] root.children h.nodes

/-! ## The loop -/

variable {S : Scanner} {rootParts : List Name} {maxTotalBytes maxFiles : Option ℤ} {scanned : Scanned}
  {items : List Item}

/-- The path is that of a file, and no component of it is `.git`. -/
def Scanner.scans (S : Scanner) (rootParts : List Name) (item : Item) : Bool :=
  S.isFile item = some true ∧ gitName ∉ rootParts ++ item.1

/-- The size of the files of a list. -/
def totalSize (items : List Item) : ℕ := (items.map fun item => item.2.stat.size).sum

/-- The loop goes on only where the system answers. -/
theorem isFile_of_scan {scanned' : Scanned}
    (h : items.foldlM (scanStep S rootParts maxTotalBytes maxFiles) scanned = .ok scanned') :
    ∀ item ∈ items, S.isFile item ≠ none := by
  induction items generalizing scanned with
  | nil => exact nofun
  | cons item items ih =>
    obtain ⟨next, hstep, hrest⟩ := bind_eq_ok.1 (List.foldlM_cons (m := Except ScanError) ▸ h)
    rintro other (_ | ⟨_, hother⟩) hnone
    · obtain ⟨file, hfile, -⟩ := bind_eq_ok.1 hstep
      rw [hnone] at hfile
      cases hfile
    · exact ih hrest other hother hnone

/-- What is no file, or in `.git`, is passed over. -/
theorem scanStep_skipped {item : Item} (hfile : S.isFile item ≠ none)
    (hscans : ¬ S.scans rootParts item = true) :
    scanStep S rootParts maxTotalBytes maxFiles scanned item = .ok scanned := by
  obtain ⟨file, hanswer⟩ := Option.ne_none_iff_exists'.1 hfile
  refine bind_eq_ok.2 ⟨file, orRaise_eq_ok.2 hanswer, ?_⟩
  rw [if_pos ?_]
  · rfl
  · cases file
    · rfl
    · by_contra hgit
      exact hscans (decide_eq_true ⟨hanswer, fun hmem => hgit (decide_eq_true hmem)⟩)

/-- Another file is scanned where the budgets have room for it. -/
theorem scanStep_scanned {item : Item} {clean : Bool} (hscans : S.scans rootParts item = true)
    (hroom : ∀ max ∈ maxFiles, (scanned.results.length : ℤ) < max)
    (hspace : ∀ max ∈ maxTotalBytes, (scanned.totalBytes + item.2.stat.size : ℤ) ≤ max)
    (hclean : S.scanFile item = .ok clean) :
    scanStep S rootParts maxTotalBytes maxFiles scanned item =
      .ok ⟨scanned.results ++ [(item, clean)], scanned.totalBytes + item.2.stat.size⟩ := by
  obtain ⟨hfile, hgit⟩ := of_decide_eq_true hscans
  have hcount : ¬ ∃ max ∈ maxFiles, max ≤ (scanned.results.length : ℤ) :=
    fun ⟨max, hmax, hle⟩ => not_lt.2 hle (hroom max hmax)
  have hsize : ¬ ∃ max ∈ maxTotalBytes, max < ((scanned.totalBytes + item.2.stat.size : ℕ) : ℤ) := by
    rintro ⟨max, hmax, hlt⟩
    push_cast at hlt
    exact not_lt.2 (hspace max hmax) hlt
  refine bind_eq_ok.2 ⟨true, orRaise_eq_ok.2 hfile, ?_⟩
  rw [if_neg (by simpa using hgit)]
  exact bind_eq_ok.2 ⟨(), raiseIf_eq_ok.2 hcount, bind_eq_ok.2 ⟨(), raiseIf_eq_ok.2 hsize,
    bind_eq_ok.2 ⟨clean, hclean, rfl⟩⟩⟩

/-- Where the system answers, what is scanned is within the budgets and no scan raises, every such file
is scanned. -/
theorem scan_eq_ok (hfile : ∀ item ∈ items, S.isFile item ≠ none)
    (hscan : ∀ item ∈ items.filter (S.scans rootParts), ∃ clean, S.scanFile item = .ok clean)
    (hfiles : ∀ max ∈ maxFiles, (scanned.results.length + (items.filter (S.scans rootParts)).length : ℤ) ≤ max)
    (hbytes : ∀ max ∈ maxTotalBytes,
      (scanned.totalBytes + totalSize (items.filter (S.scans rootParts)) : ℤ) ≤ max)
    (htold : ∀ result ∈ scanned.results, S.scanFile result.1 = .ok result.2) :
    ∃ scanned', items.foldlM (scanStep S rootParts maxTotalBytes maxFiles) scanned = .ok scanned' ∧
      scanned'.results.map Prod.fst =
        scanned.results.map Prod.fst ++ items.filter (S.scans rootParts) ∧
      ∀ result ∈ scanned'.results, S.scanFile result.1 = .ok result.2 := by
  induction items generalizing scanned with
  | nil => exact ⟨scanned, rfl, by simp, htold⟩
  | cons item items ih =>
    have hrest := fun other hother => hfile other (List.mem_cons_of_mem item hother)
    rw [List.foldlM_cons]
    by_cases hscans : S.scans rootParts item = true
    · rw [List.filter_cons_of_pos hscans] at hscan hfiles hbytes ⊢
      obtain ⟨clean, hclean⟩ := hscan item List.mem_cons_self
      -- the budgets are for all that is scanned, so they have room for the first file
      have hroom : ∀ max ∈ maxFiles, (scanned.results.length : ℤ) < max := by
        intro max hmax
        have := hfiles max hmax
        rw [List.length_cons] at this
        push_cast at this
        omega
      have hspace : ∀ max ∈ maxTotalBytes, (scanned.totalBytes + item.2.stat.size : ℤ) ≤ max := by
        intro max hmax
        have := hbytes max hmax
        rw [totalSize, List.map_cons, List.sum_cons] at this
        omega
      have hstep := scanStep_scanned hscans hroom hspace hclean
      obtain ⟨scanned', hok, hresults, htold'⟩ := @ih ⟨scanned.results ++ [(item, clean)],
          scanned.totalBytes + item.2.stat.size⟩ hrest (fun o ho => hscan o (.tail _ ho))
        (fun max hmax => by
          have := hfiles max hmax
          rw [List.length_cons] at this
          rw [List.length_append, List.length_singleton]
          push_cast at this ⊢
          omega)
        (fun max hmax => by
          have := hbytes max hmax
          rw [totalSize, List.map_cons, List.sum_cons] at this
          rw [totalSize]
          dsimp only
          omega)
        (fun result hresult => by
          rcases List.mem_append.1 hresult with hresult | hresult
          · exact htold result hresult
          · rwa [List.mem_singleton.1 hresult])
      exact ⟨scanned', bind_eq_ok.2 ⟨_, hstep, hok⟩, by rw [hresults]; simp, htold'⟩
    · rw [List.filter_cons_of_neg hscans] at hscan hfiles hbytes ⊢
      have hstep : scanStep S rootParts maxTotalBytes maxFiles scanned item = .ok scanned :=
        scanStep_skipped (hfile item List.mem_cons_self) hscans
      obtain ⟨scanned', hok, hresults⟩ := ih hrest hscan hfiles hbytes htold
      exact ⟨scanned', bind_eq_ok.2 ⟨_, hstep, hok⟩, hresults⟩

/-! ## Which files are scanned -/

/-- The files that are admitted. -/
def admittedFiles (root : Node) : List Item :=
  (admittedNodes root.children).filter fun item => isReg item.2.stat.mode

/-- `path.is_file()` of what can be inspected and is no link. -/
def Inspects (isFile : Item → Option Bool) : Prop := ∀ item : Item, item.2.access.statable = true →
  isLnk item.2.stat.mode = false → isFile item = some (isReg item.2.stat.mode)

/-- The root is not below a directory `.git`, unless there is nothing to scan, and the system answers for
everything that is found, also in `.git`. -/
def Scannable (isFile : Item → Option Bool) (rootParts : List Name) (root : Node) : Prop :=
  (∀ item ∈ rglob root, isFile item ≠ none) ∧ (gitName ∉ rootParts ∨ admittedFiles root = [])

/-- The scan takes the files of the manifest, each once, and none of them is passed over where it finds the
project clean. -/
def ScansFiles (isFile : Item → Option Bool) (rootParts : List Name) (root : Node)
    (budget : WorkspaceBudget) (manifest : FilesystemManifest) : Prop :=
  ∀ scanFile : Item → Except ScanError Bool,
    (∀ item ∈ admittedFiles root, ∃ clean, scanFile item = .ok clean) →
    ∃ result, scanProject ⟨isFile, scanFile⟩ rootParts root budget.maxTotalBytes budget.maxFiles =
        .ok result ∧
      (result.results.map fun result => joinParts result.1.1).Perm
        ((manifest.entries.filter (·.kind = .file)).map (·.path)) ∧
      (result.clean = true → ∀ item ∈ admittedFiles root, scanFile item = .ok true)

variable {C : Crypto} {path : Name} {root : Node} {device setid : Bool} {budget : WorkspaceBudget} {frames : ℕ}
  {manifest : FilesystemManifest} {isFile : Item → Option Bool}

/-- The files of the manifest are those that are admitted. -/
theorem files_of_manifest (h : buildManifest C path root device setid budget frames = .ok manifest) :
    ((manifest.entries.filter (·.kind = .file)).map (·.path)).Perm
      ((admittedFiles root).map fun item => joinParts item.1) := by
  obtain ⟨-, hadmissible, -, rfl⟩ := buildManifest_admits h
  have hreg : ∀ item ∈ admittedNodes root.children,
      decide ((entryOf C (joinParts item.1) item.2).kind = .file) = isReg item.2.stat.mode := by
    intro item hitem
    rcases (hadmissible.nodes item hitem).kind with hdir | hreg
    · simp [entryOf, hdir, isReg_of_isDir hdir]
    · have hdir : isDir item.2.stat.mode = false := by
        rcases hdir : isDir item.2.stat.mode with _ | _
        · rfl
        · rw [isReg_of_isDir hdir] at hreg
          cases hreg
      simp [entryOf, hdir, hreg]
  have hlisted := (admittedNodes_listing_perm root.children).map
    fun item => entryOf C (joinParts item.1) item.2
  refine ((hlisted.filter _).map _).trans (List.Perm.of_eq ?_)
  rw [List.map_map, List.filter_map, List.map_map, admittedFiles]
  refine congrArg₂ List.map (funext fun item => rfl) (List.filter_congr fun item hitem => ?_)
  rw [← hreg item hitem, Function.comp, Function.comp, asListed, Node.sorted_eq]
  rfl

/-- Of what is found, the files outside `.git` are scanned. -/
theorem filter_scans {rootParts : List Name} {scanFile : Item → Except ScanError Bool}
    (hadmissible : Admissible ⟨device, setid, budget, root.stat.device, frames⟩ root.children)
    (haccess : Accessible root) (hinspects : Inspects isFile) (hgit : gitName ∉ rootParts) :
    (rglob root).filter (Scanner.scans ⟨isFile, scanFile⟩ rootParts) = admittedFiles root := by
  rw [admittedFiles, ← rglob_filter haccess, List.filter_filter]
  refine List.filter_congr fun item hitem => ?_
  rcases hoff : outsideGit item with _ | _
  · rw [Bool.and_false, Bool.eq_false_iff]
    intro hscans
    rw [outsideGit, decide_eq_false_iff_not, not_not] at hoff
    exact (of_decide_eq_true hscans).2 (List.mem_append_right _ hoff)
  · have hmem : item ∈ admittedNodes root.children := by
      rw [← rglob_filter haccess]
      exact List.mem_filter.2 ⟨hitem, hoff⟩
    have hfile := hinspects item (haccess.nodes item hmem).statable
      (not_isLnk_of_kind (hadmissible.nodes item hmem).kind)
    rw [outsideGit, decide_eq_true_eq] at hoff
    have hpath : gitName ∉ rootParts ++ item.1 := fun h => (List.mem_append.1 h).elim hgit hoff
    rw [Bool.and_true, Bool.eq_iff_iff, Scanner.scans, decide_eq_true_eq]
    exact ⟨fun h => Option.some.inj (hfile.symm.trans h.1), fun h => ⟨hfile.trans (congrArg some h), hpath⟩⟩

/-- The bytes of a manifest are those of its files. -/
theorem totalSize_admittedFiles (root : Node) : totalSize (admittedFiles root) =
    ((admittedNodes root.children).map fun item => sizeOfNode item.2).sum := by
  rw [admittedFiles, totalSize]
  induction admittedNodes root.children with
  | nil => rfl
  | cons item items ih =>
    rw [List.map_cons, List.sum_cons, ← ih]
    rw [List.filter_cons, sizeOfNode]
    split_ifs
    · rw [List.map_cons, List.sum_cons]
    · rw [Nat.zero_add]

/-- Where the root is below `.git`, nothing is scanned. -/
theorem filter_scans_eq_nil {S : Scanner} {rootParts : List Name} (hgit : gitName ∈ rootParts)
    (items : List Item) : items.filter (S.scans rootParts) = [] :=
  List.filter_eq_nil_iff.2 fun _ _ hscans =>
    (of_decide_eq_true hscans).2 (List.mem_append_left _ hgit)

/-- The items in the order of the scan. -/
theorem scan_order (root : Node) : ((rglob root).insertionSort fun a b => a.1 ≤ b.1).Perm (rglob root) :=
  List.perm_insertionSort _ _

/-- What a scan of an admitted tree does, whatever the root is. -/
theorem scanProject_admitted (rootParts : List Name) (scanFile : Item → Except ScanError Bool)
    (h : buildManifest C path root device setid budget frames = .ok manifest) (hinspects : Inspects isFile)
    (hanswers : ∀ item ∈ rglob root, isFile item ≠ none)
    (hscan : ∀ item ∈ admittedFiles root, ∃ clean, scanFile item = .ok clean) :
    ∃ result, scanProject ⟨isFile, scanFile⟩ rootParts root budget.maxTotalBytes budget.maxFiles =
        .ok result ∧
      (result.results.map Prod.fst).Perm (if gitName ∈ rootParts then [] else admittedFiles root) ∧
      (result.clean = true → ∀ scanned ∈ result.results, scanFile scanned.1 = .ok true) := by
  obtain ⟨hdir, hadmissible, haccess, -⟩ := buildManifest_admits h
  have hperm := (scan_order root).filter (Scanner.scans ⟨isFile, scanFile⟩ rootParts)
  have hfilter : (rglob root).filter (Scanner.scans ⟨isFile, scanFile⟩ rootParts) =
      if gitName ∈ rootParts then [] else admittedFiles root := by
    split_ifs with hgit
    · exact filter_scans_eq_nil hgit _
    · exact filter_scans hadmissible haccess hinspects hgit
  rw [hfilter] at hperm
  generalize hitems : (rglob root).insertionSort (fun a b => a.1 ≤ b.1) = items at hperm
  -- what is scanned is part of what is admitted
  have hpart : (if gitName ∈ rootParts then [] else admittedFiles root).Sublist (admittedFiles root) := by
    split_ifs
    · exact List.nil_sublist _
    · exact List.Sublist.refl _
  have hlength := hperm.length_eq.trans_le hpart.length_le
  have htotal : totalSize (items.filter (Scanner.scans ⟨isFile, scanFile⟩ rootParts)) ≤
      totalSize (admittedFiles root) := by
    rw [totalSize, (hperm.map _).sum_eq]
    split_ifs
    · exact Nat.zero_le _
    · exact le_rfl
  have hfiles : ((admittedFiles root).length : ℤ) ≤ budget.maxFiles := by
    rw [admittedFiles, ← List.countP_eq_length_filter]
    exact hadmissible.files
  have hbytes : (totalSize (admittedFiles root) : ℤ) ≤ budget.maxTotalBytes := by
    rw [totalSize_admittedFiles]
    exact hadmissible.bytes
  obtain ⟨scanned, hok, hresults, htold⟩ := @scan_eq_ok ⟨isFile, scanFile⟩ rootParts
    budget.maxTotalBytes budget.maxFiles ⟨[], 0⟩ items
    (fun item hitem => hanswers item ((scan_order root).mem_iff.1 (hitems ▸ hitem)))
    (fun item hitem => hscan item (hpart.subset (hperm.mem_iff.1 hitem)))
    (by
      rintro max ⟨⟩
      simp only [List.length_nil]
      omega)
    (by
      rintro max ⟨⟩
      dsimp only
      push_cast
      omega)
    nofun
  refine ⟨_, bind_eq_ok.2 ⟨(), raiseIf_eq_ok.2 (by simp [hdir]), bind_eq_ok.2 ⟨scanned, hitems ▸ hok, rfl⟩⟩,
    ?_, fun hclean result hresult => ?_⟩
  · rw [hresults]
    exact hperm
  · have hnone := List.filter_eq_nil_iff.1 (List.isEmpty_iff.1 hclean) result hresult
    rw [Bool.not_eq_true', Bool.not_eq_false] at hnone
    exact (htold result hresult).trans (congrArg Except.ok hnone)

/-- A system that answers for every path. -/
def sampleIsFile (item : Item) : Option Bool := some (isReg item.2.stat.mode)

theorem sampleIsFile_inspects : Inspects sampleIsFile := fun _ _ _ => rfl

theorem sampleTree_manifest (path : Name) :
    buildManifest Crypto.standard path (sampleTree true) true true defaultBudget 900 =
      .ok (manifestOf Crypto.standard path (sampleTree true)) := by
  refine (buildManifest_eq_ok Crypto.standard path defaultBudget_valid rfl).2
    ⟨sampleTree_admissible true, ⟨rfl, rfl, ?_⟩, rfl⟩
  rw [sampleTree_nodes]
  intro item hitem
  rw [List.mem_singleton.1 hitem]
  exact ⟨rfl, rfl, (fun h => by cases h), fun _ => rfl⟩

end Bulldog.Workspace
