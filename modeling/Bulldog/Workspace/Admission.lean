import Bulldog.Workspace.Manifest

/-!
# What is admitted

The walk visits the nodes of the tree in pre-order, leaving out `.git` and what is under it, and its
counters only grow. So the checks on the way amount to a condition on each node and three bounds on the
totals, and an admitted tree is listed as it is.
-/

namespace Bulldog.Workspace

/-! ## The nodes of a tree -/

mutual
/-- The nodes from this one down, in pre-order, with the components of their paths. -/
def Node.nodes (parents : List Name) : Node → List (List Name × Node)
  | .mk name stat access content children =>
    (parents ++ [name], .mk name stat access content children) ::
      if isDir stat.mode then nodesOf (parents ++ [name]) children else []
/-- The nodes of a listing. -/
def nodesOf (parents : List Name) : List Node → List (List Name × Node)
  | [] => []
  | node :: nodes => node.nodes parents ++ nodesOf parents nodes
end

/-- No component of the path is `.git`. -/
def outsideGit (item : List Name × Node) : Bool := gitName ∉ item.1

/-- The nodes of a listing no component of whose path is `.git`. -/
def admittedNodes (children : List Node) : List (List Name × Node) :=
  (nodesOf [] children).filter outsideGit

mutual
/-- The paths of the nodes extend the path of the directory. -/
theorem prefix_of_mem_nodes (parents : List Name) :
    ∀ (node : Node), ∀ item ∈ node.nodes parents, parents ++ [node.name] <+: item.1
  | .mk name stat access content children => by
    intro item hitem
    rw [Node.nodes, List.mem_cons] at hitem
    rcases hitem with rfl | hitem
    · exact List.prefix_rfl
    · split_ifs at hitem
      · exact prefix_of_mem_nodesOf (parents ++ [name]) children item hitem
      · cases hitem
theorem prefix_of_mem_nodesOf (parents : List Name) :
    ∀ (nodes : List Node), ∀ item ∈ nodesOf parents nodes, parents <+: item.1
  | [] => by
    intro item hitem
    cases hitem
  | node :: nodes => by
    intro item hitem
    rw [nodesOf, List.mem_append] at hitem
    rcases hitem with hitem | hitem
    · exact (List.prefix_append _ _).trans (prefix_of_mem_nodes parents node item hitem)
    · exact prefix_of_mem_nodesOf parents nodes item hitem
end

/-! ## The walk is a loop over the nodes -/

section Loop

variable (C : Crypto) (config : Config)

/-- What the loop does with a node. -/
def visitItem (walked : Walked) (item : List Name × Node) : Except Violation Walked :=
  visit C config item.1 item.2 walked

mutual
theorem walkNode_eq_foldlM (parents : List Name) (hparents : gitName ∉ parents) :
    ∀ (node : Node) (walked : Walked), walkNode C config parents node walked =
      ((node.nodes parents).filter outsideGit).foldlM (visitItem C config) walked
  | .mk name stat access content children, walked => by
    rw [walkNode]
    by_cases hname : name = gitName
    · -- everything from here down has `.git` in its path
      have hnone : ((Node.mk name stat access content children).nodes parents).filter outsideGit =
          [] := by
        refine List.filter_eq_nil_iff.2 fun item hitem => ?_
        have hmem := (prefix_of_mem_nodes parents _ item hitem).subset
          (List.mem_append_right _ (List.mem_singleton_self _))
        rw [Node.name, hname] at hmem
        simpa [outsideGit] using hmem
      rw [if_pos hname, hnone]
      rfl
    · have hoff : gitName ∉ parents ++ [name] := by
        simp only [List.mem_append, List.mem_singleton, not_or]
        exact ⟨hparents, fun heq => hname heq.symm⟩
      have hself : outsideGit (parents ++ [name], .mk name stat access content children) = true :=
        decide_eq_true hoff
      rw [if_neg hname, Node.nodes, List.filter_cons_of_pos hself, List.foldlM_cons]
      refine congrArg _ (funext fun walked' => ?_)
      split_ifs
      · exact walk_eq_foldlM (parents ++ [name]) hoff children walked'
      · rfl
theorem walk_eq_foldlM (parents : List Name) (hparents : gitName ∉ parents) :
    ∀ (nodes : List Node) (walked : Walked), walk C config parents nodes walked =
      ((nodesOf parents nodes).filter outsideGit).foldlM (visitItem C config) walked
  | [], _ => rfl
  | node :: nodes, walked => by
    rw [walk, nodesOf, List.filter_append, List.foldlM_append,
      walkNode_eq_foldlM parents hparents node walked]
    exact congrArg _ (funext fun walked' => walk_eq_foldlM parents hparents nodes walked')
end

end Loop

/-! ## One node -/

/-- What the code asks of a node by itself, apart from the system calls. -/
structure Fine (config : Config) (parts : List Name) (node : Node) : Prop where
  depth : (parts.length : ℤ) ≤ config.budget.maxDepth
  path : ∃ encoded, (joinParts parts).encode = some encoded ∧
    (encoded.length : ℤ) ≤ config.budget.maxPathBytes
  kind : isDir node.stat.mode = true ∨ isReg node.stat.mode = true
  device : config.requireSameDevice = true → node.stat.device = config.rootDevice
  setid : config.rejectSetid = true → isSetid node.stat.mode = false
  links : isReg node.stat.mode = true → node.stat.nlink = 1
  size : isReg node.stat.mode = true → (node.stat.size : ℤ) ≤ config.budget.maxFileBytes
  /-- There is stack for the walk of a directory, and for the hash of a file. -/
  stack : parts.length + 2 ≤ config.frames

/-- The system calls on a node succeed. -/
structure Reachable (node : Node) : Prop where
  statable : node.access.statable = true
  openable : node.access.openable = true
  listable : isDir node.stat.mode = true → node.access.listable = true
  readable : isReg node.stat.mode = true → node.access.readable = true

/-- The size that a node adds to the total. -/
def sizeOfNode (node : Node) : ℕ := if isReg node.stat.mode then node.stat.size else 0

/-- The counters and the entries after a node. -/
def Walked.add (C : Crypto) (walked : Walked) (item : List Name × Node) : Walked where
  entries := walked.entries ++ [entryOf C (joinParts item.1) item.2]
  files := walked.files + if isReg item.2.stat.mode then 1 else 0
  bytes := walked.bytes + sizeOfNode item.2
  count := walked.count + 1

/-- The counters are within the budget. -/
structure Within (budget : WorkspaceBudget) (walked : Walked) : Prop where
  count : (walked.count : ℤ) ≤ budget.maxFiles + budget.maxFiles
  files : (walked.files : ℤ) ≤ budget.maxFiles
  bytes : (walked.bytes : ℤ) ≤ budget.maxTotalBytes

theorem checkPathBudget_eq_ok {budget : WorkspaceBudget} {relative : Name} {depth : ℕ} {u : Unit} :
    checkPathBudget budget relative depth = .ok u ↔ (depth : ℤ) ≤ budget.maxDepth ∧
      ∃ encoded, relative.encode = some encoded ∧ (encoded.length : ℤ) ≤ budget.maxPathBytes := by
  simp only [checkPathBudget, bind_eq_ok, raiseIf_eq_ok, orRaise_eq_ok, not_lt, exists_and_left,
    exists_const]

theorem isReg_of_isDir {mode : ℕ} (h : isDir mode = true) : isReg mode = false := by
  simp only [isDir, isReg, decide_eq_true_eq, decide_eq_false_iff_not] at *
  omega

theorem not_isLnk_of_kind {mode : ℕ} (h : isDir mode = true ∨ isReg mode = true) :
    isLnk mode = false := by
  simp only [isDir, isReg, isLnk, decide_eq_true_eq, decide_eq_false_iff_not] at *
  omega

variable {C : Crypto} {config : Config} {walked walked' : Walked}

/-- A node is taken in exactly where it is fine, the system calls on it succeed and the counters stay
within the budget. -/
theorem visit_eq_ok (hwithin : Within config.budget walked) (item : List Name × Node) :
    visitItem C config walked item = .ok walked' ↔
      Fine config item.1 item.2 ∧ Reachable item.2 ∧ Within config.budget (walked.add C item) ∧
        walked' = walked.add C item := by
  obtain ⟨parts, node⟩ := item
  have hfiles := hwithin.files
  have hbytes := hwithin.bytes
  simp only [visitItem, visit, bind_eq_ok, checkPathBudget_eq_ok, raiseIf_eq_ok, exists_and_left,
    exists_const, not_lt, Bool.not_eq_true', Bool.not_eq_false, Bool.not_eq_true, not_and, ne_eq,
    not_not]
  by_cases hdir : isDir node.stat.mode = true
  · -- a directory leaves the counters of files and bytes as they are
    have hreg := isReg_of_isDir hdir
    rw [if_pos hdir]
    simp only [bind_eq_ok, raiseIf_eq_ok, exists_and_left, exists_const, Bool.not_eq_false, not_lt]
    have hadd : walked.add C (parts, node) =
        { walked with
          count := walked.count + 1
          entries := walked.entries ++ [entryOf C (joinParts parts) node] } := by
      simp only [Walked.add, sizeOfNode, hreg, Bool.false_eq_true, if_false, Nat.add_zero]
    rw [hadd]
    constructor
    · rintro ⟨⟨hdepth, hpath⟩, hcount, hstat, -, hdevice, hsetid, hopen, hstack, hlist, hresult⟩
      exact ⟨⟨hdepth, hpath, .inl hdir, hdevice, hsetid, by simp [hreg], by simp [hreg], hstack⟩,
        ⟨hstat, hopen, fun _ => hlist, by simp [hreg]⟩, ⟨hcount, hfiles, hbytes⟩, (Except.ok.inj hresult).symm⟩
    · rintro ⟨hfine, hreach, hbounds, rfl⟩
      exact ⟨⟨hfine.depth, hfine.path⟩, hbounds.count, hreach.statable, not_isLnk_of_kind hfine.kind,
        hfine.device, hfine.setid, hreach.openable, hfine.stack, hreach.listable hdir, rfl⟩
  · rw [if_neg hdir]
    simp only [bind_eq_ok, raiseIf_eq_ok, exists_and_left, exists_const, Bool.not_eq_false, not_lt,
      not_not]
    constructor
    · rintro ⟨⟨hdepth, hpath⟩, hcount, hstat, -, hdevice, hsetid, hreg, -, hsize, hfiles', hbytes',
        hopen, hlinks, hstack, hread, hresult⟩
      have hadd : walked.add C (parts, node) = ⟨walked.entries ++ [entryOf C (joinParts parts) node],
          walked.files + 1, walked.bytes + node.stat.size, walked.count + 1⟩ := by
        simp only [Walked.add, sizeOfNode, hreg, if_true]
      rw [hadd]
      exact ⟨⟨hdepth, hpath, .inr hreg, hdevice, hsetid, fun _ => hlinks, fun _ => hsize, hstack⟩,
        ⟨hstat, hopen, fun h => absurd h hdir, fun _ => hread⟩, ⟨hcount, hfiles', hbytes'⟩,
        (Except.ok.inj hresult).symm⟩
    · rintro ⟨hfine, hreach, hbounds, rfl⟩
      have hreg := hfine.kind.resolve_left hdir
      have hadd : walked.add C (parts, node) = ⟨walked.entries ++ [entryOf C (joinParts parts) node],
          walked.files + 1, walked.bytes + node.stat.size, walked.count + 1⟩ := by
        simp only [Walked.add, sizeOfNode, hreg, if_true]
      rw [hadd] at hbounds ⊢
      exact ⟨⟨hfine.depth, hfine.path⟩, hbounds.count, hreach.statable, not_isLnk_of_kind hfine.kind,
        hfine.device, hfine.setid, hreg, (hfine.links hreg).le, hfine.size hreg, hbounds.files,
        hbounds.bytes, hreach.openable, hfine.links hreg, hfine.stack, hreach.readable hreg, rfl⟩

/-! ## The totals -/

/-- The counters and the entries after these nodes. -/
theorem foldl_add (items : List (List Name × Node)) (walked : Walked) :
    items.foldl (Walked.add C) walked =
      ⟨walked.entries ++ items.map fun item => entryOf C (joinParts item.1) item.2,
        walked.files + items.countP fun item => isReg item.2.stat.mode,
        walked.bytes + (items.map fun item => sizeOfNode item.2).sum, walked.count + items.length⟩ := by
  induction items generalizing walked with
  | nil => simp
  | cons item items ih =>
    rw [List.foldl_cons, ih]
    simp only [Walked.add, List.map_cons, List.countP_cons, List.sum_cons, List.length_cons,
      List.append_assoc, List.singleton_append, Walked.mk.injEq, true_and]
    omega

/-- The loop goes through exactly where every node is taken in and the totals are within the budget. -/
theorem foldlM_visit_eq_ok (items : List (List Name × Node)) (hwithin : Within config.budget walked) :
    items.foldlM (visitItem C config) walked = .ok walked' ↔
      (∀ item ∈ items, Fine config item.1 item.2 ∧ Reachable item.2) ∧
        Within config.budget (items.foldl (Walked.add C) walked) ∧
        walked' = items.foldl (Walked.add C) walked := by
  induction items generalizing walked with
  | nil =>
    simp only [List.foldlM_nil, List.foldl_nil, List.not_mem_nil, false_imp_iff, implies_true, true_and]
    exact ⟨fun h => ⟨hwithin, (Except.ok.inj h).symm⟩, fun h => h.2 ▸ rfl⟩
  | cons item items ih =>
    simp only [List.foldlM_cons, List.foldl_cons, bind_eq_ok, visit_eq_ok hwithin, List.mem_cons,
      forall_eq_or_imp]
    constructor
    · rintro ⟨_, ⟨hfine, hreach, hone, rfl⟩, hrest⟩
      obtain ⟨hitems, hbounds, hresult⟩ := (ih hone).1 hrest
      exact ⟨⟨⟨hfine, hreach⟩, hitems⟩, hbounds, hresult⟩
    · rintro ⟨⟨⟨hfine, hreach⟩, hitems⟩, hbounds, hresult⟩
      -- the counters only grow
      have hone : Within config.budget (walked.add C item) := by
        have hcount := hbounds.count
        have hfiles := hbounds.files
        have hbytes := hbounds.bytes
        rw [foldl_add] at hcount hfiles hbytes
        dsimp only at hcount hfiles hbytes
        exact ⟨by omega, by omega, by omega⟩
      exact ⟨_, ⟨hfine, hreach, hone, rfl⟩, (ih hone).2 ⟨hitems, hbounds, hresult⟩⟩

/-! ## Sorting -/

/-- `sorted(os.listdir(fd))`, at every level. -/
def listing (children : List Node) : List Node :=
  (sortedNodes children).insertionSort fun a b => a.name ≤ b.name

/-- The children of a directory. -/
def Node.children : Node → List Node
  | .mk _ _ _ _ children => children

theorem Node.sorted_eq (node : Node) : node.sorted =
    .mk node.name node.stat node.access node.content (listing node.children) := by
  cases node
  rw [Node.sorted]
  rfl

/-- A node of the tree as the walk finds it. -/
def asListed (item : List Name × Node) : List Name × Node := (item.1, item.2.sorted)

theorem nodesOf_eq_flatMap (parents : List Name) (nodes : List Node) :
    nodesOf parents nodes = nodes.flatMap (Node.nodes parents) := by
  induction nodes with
  | nil => rfl
  | cons node nodes ih => rw [nodesOf, ih, List.flatMap_cons]

mutual
theorem nodes_sorted_perm (parents : List Name) :
    ∀ node : Node, (node.sorted.nodes parents).Perm ((node.nodes parents).map asListed)
  | .mk name stat access content children => by
    have hlisting : (nodesOf (parents ++ [name]) ((sortedNodes children).insertionSort
        fun a b => a.name ≤ b.name)).Perm ((nodesOf (parents ++ [name]) children).map asListed) := by
      refine List.Perm.trans ?_ (nodesOf_sorted_perm (parents ++ [name]) children)
      rw [nodesOf_eq_flatMap, nodesOf_eq_flatMap]
      exact (List.perm_insertionSort _ _).flatMap_right _
    rw [Node.sorted, Node.nodes, Node.nodes, List.map_cons, asListed, Node.sorted]
    refine List.Perm.cons _ ?_
    split_ifs
    · exact hlisting
    · exact List.Perm.nil
theorem nodesOf_sorted_perm (parents : List Name) : ∀ nodes : List Node,
    (nodesOf parents (sortedNodes nodes)).Perm ((nodesOf parents nodes).map asListed)
  | [] => List.Perm.nil
  | node :: nodes => by
    rw [sortedNodes, nodesOf, nodesOf, List.map_append]
    exact (nodes_sorted_perm parents node).append (nodesOf_sorted_perm parents nodes)
end

/-- The walk finds the nodes of the tree, each once. -/
theorem admittedNodes_listing_perm (children : List Node) :
    (admittedNodes (listing children)).Perm ((admittedNodes children).map asListed) := by
  have hlisting : (nodesOf [] (listing children)).Perm ((nodesOf [] children).map asListed) := by
    refine List.Perm.trans ?_ (nodesOf_sorted_perm [] children)
    rw [nodesOf_eq_flatMap, nodesOf_eq_flatMap]
    exact (List.perm_insertionSort _ _).flatMap_right _
  refine (hlisting.filter outsideGit).trans ?_
  rw [List.filter_map]
  exact List.Perm.refl _

/-! ## Order -/

mutual
/-- The names in every directory are distinct. -/
def Node.Distinct : Node → Prop
  | .mk _ _ _ _ children => (children.map Node.name).Nodup ∧ DistinctAll children
/-- `Distinct` of each of the nodes. -/
def DistinctAll : List Node → Prop
  | [] => True
  | node :: nodes => node.Distinct ∧ DistinctAll nodes
end

mutual
/-- The names in every directory are in strict order. -/
def Node.Ordered : Node → Prop
  | .mk _ _ _ _ children => children.Pairwise (fun a b => a.name < b.name) ∧ OrderedAll children
/-- `Ordered` of each of the nodes. -/
def OrderedAll : List Node → Prop
  | [] => True
  | node :: nodes => node.Ordered ∧ OrderedAll nodes
end

theorem orderedAll_iff (nodes : List Node) : OrderedAll nodes ↔ ∀ node ∈ nodes, node.Ordered := by
  induction nodes with
  | nil => simp [OrderedAll]
  | cons node nodes ih => rw [OrderedAll, ih, List.forall_mem_cons]

theorem map_name_sortedNodes (nodes : List Node) :
    (sortedNodes nodes).map Node.name = nodes.map Node.name := by
  induction nodes with
  | nil => rfl
  | cons node nodes ih => rw [sortedNodes, List.map_cons, List.map_cons, ih, Node.sorted_eq, Node.name]

/-- Distinct names are in strict order once they are sorted. -/
theorem listing_pairwise {children : List Node} (h : (children.map Node.name).Nodup) :
    (listing children).Pairwise fun a b => a.name < b.name := by
  have hsorted : (listing children).Pairwise fun a b => a.name ≤ b.name :=
    List.pairwise_insertionSort (fun a b : Node => a.name ≤ b.name) _
  have hnodup : ((listing children).map Node.name).Nodup := by
    have hperm : (listing children).Perm (sortedNodes children) := List.perm_insertionSort _ _
    rw [(hperm.map _).nodup_iff, map_name_sortedNodes]
    exact h
  exact (hsorted.and (List.pairwise_map.1 hnodup)).imp fun ⟨hle, hne⟩ => lt_of_le_of_ne hle hne

mutual
theorem ordered_sorted : ∀ node : Node, node.Distinct → node.sorted.Ordered
  | .mk name stat access content children, h => by
    rw [Node.Distinct] at h
    rw [Node.sorted, Node.Ordered]
    refine ⟨listing_pairwise h.1, (orderedAll_iff _).2 fun node hnode => ?_⟩
    exact (orderedAll_iff _).1 (orderedAll_sortedNodes children h.2) node
      ((List.perm_insertionSort _ _).mem_iff.1 hnode)
theorem orderedAll_sortedNodes : ∀ nodes : List Node, DistinctAll nodes →
    OrderedAll (sortedNodes nodes)
  | [], _ => trivial
  | node :: nodes, h => ⟨ordered_sorted node h.1, orderedAll_sortedNodes nodes h.2⟩
end

/-- Paths in different children of a directory are in the order of the children. -/
theorem lt_of_prefix {parents x y : List Name} {a b : Name} (hlt : a < b)
    (hx : parents ++ [a] <+: x) (hy : parents ++ [b] <+: y) : x < y := by
  obtain ⟨s, rfl⟩ := hx
  obtain ⟨t, rfl⟩ := hy
  rw [List.append_assoc, List.append_assoc]
  exact List.Lex.append_left _ (List.Lex.rel hlt) parents

/-- A directory comes before what is under it. -/
theorem lt_of_mem_nodesOf {parents : List Name} {nodes : List Node} {item : List Name × Node}
    (h : item ∈ nodesOf parents nodes) : parents < item.1 := by
  rw [nodesOf_eq_flatMap, List.mem_flatMap] at h
  obtain ⟨node, -, h⟩ := h
  obtain ⟨s, hs⟩ := prefix_of_mem_nodes parents node item h
  rw [← hs, List.append_assoc]
  have hlt := List.Lex.append_left (· < ·) (List.Lex.nil : List.Lex _ [] ([node.name] ++ s)) parents
  rwa [List.append_nil] at hlt

mutual
theorem nodes_pairwise (parents : List Name) :
    ∀ node : Node, node.Ordered → (node.nodes parents).Pairwise fun a b => a.1 < b.1
  | .mk name stat access content children, h => by
    rw [Node.Ordered] at h
    rw [Node.nodes, List.pairwise_cons]
    split_ifs
    · exact ⟨fun item hitem => lt_of_mem_nodesOf hitem,
        nodesOf_pairwise (parents ++ [name]) children h.1 h.2⟩
    · exact ⟨nofun, List.Pairwise.nil⟩
theorem nodesOf_pairwise (parents : List Name) :
    ∀ nodes : List Node, nodes.Pairwise (fun a b => a.name < b.name) → OrderedAll nodes →
      (nodesOf parents nodes).Pairwise fun a b => a.1 < b.1
  | [], _, _ => List.Pairwise.nil
  | node :: nodes, hnames, h => by
    rw [List.pairwise_cons] at hnames
    rw [nodesOf, List.pairwise_append]
    refine ⟨nodes_pairwise parents node h.1, nodesOf_pairwise parents nodes hnames.2 h.2, ?_⟩
    intro item hitem other hother
    rw [nodesOf_eq_flatMap, List.mem_flatMap] at hother
    obtain ⟨sibling, hsibling, hother⟩ := hother
    exact lt_of_prefix (hnames.1 sibling hsibling) (prefix_of_mem_nodes parents node item hitem)
      (prefix_of_mem_nodes parents sibling other hother)
end

/-- The walk goes through the paths in strict order, component by component: a directory comes before
what is under it, and siblings come in the order of their names. -/
theorem admittedNodes_listing_pairwise {root : Node} (h : root.Distinct) :
    ((admittedNodes (listing root.children)).map Prod.fst).Pairwise (· < ·) := by
  have hordered := ordered_sorted root h
  rw [Node.sorted_eq, Node.Ordered] at hordered
  exact List.pairwise_map.2 (List.Pairwise.filter _ (nodesOf_pairwise [] _ hordered.1 hordered.2))

/-! ## Admission -/

/-- The tree meets its budget, and the stack that there is. -/
structure Admissible (config : Config) (children : List Node) : Prop where
  stack : 2 ≤ config.frames
  nodes : ∀ item ∈ admittedNodes children, Fine config item.1 item.2
  count : ((admittedNodes children).length : ℤ) ≤ 2 * config.budget.maxFiles
  files : ((admittedNodes children).countP fun item => isReg item.2.stat.mode : ℕ) ≤
    config.budget.maxFiles
  bytes : (((admittedNodes children).map fun item => sizeOfNode item.2).sum : ℤ) ≤
    config.budget.maxTotalBytes

/-- The system calls on the root and on the nodes succeed. -/
structure Accessible (root : Node) : Prop where
  openable : root.access.openable = true
  listable : root.access.listable = true
  nodes : ∀ item ∈ admittedNodes root.children, Reachable item.2

theorem fine_sorted {parts : List Name} {node : Node} :
    Fine config parts node.sorted ↔ Fine config parts node := by
  rw [Node.sorted_eq]
  exact ⟨fun h => ⟨h.depth, h.path, h.kind, h.device, h.setid, h.links, h.size, h.stack⟩,
    fun h => ⟨h.depth, h.path, h.kind, h.device, h.setid, h.links, h.size, h.stack⟩⟩

theorem reachable_sorted {node : Node} : Reachable node.sorted ↔ Reachable node := by
  rw [Node.sorted_eq]
  exact ⟨fun h => ⟨h.statable, h.openable, h.listable, h.readable⟩, fun h => ⟨h.statable, h.openable, h.listable, h.readable⟩⟩

/-- The manifest of a tree: its nodes as the walk finds them, and the totals. -/
def manifestOf (C : Crypto) (rootPath : Name) (root : Node) : FilesystemManifest where
  root := rootPath
  device := root.stat.device
  entries := (admittedNodes (listing root.children)).map fun item =>
    entryOf C (joinParts item.1) item.2
  totalBytes := ((admittedNodes root.children).map fun item => sizeOfNode item.2).sum
  fileCount := (admittedNodes root.children).countP fun item => isReg item.2.stat.mode

/-- The walk of a listing. -/
theorem walk_listing_eq_ok
    (hpositive : 1 ≤ config.budget.maxFiles ∧ 1 ≤ config.budget.maxTotalBytes) (hstack : 2 ≤ config.frames)
    (children : List Node) :
    walk C config [] (listing children) ⟨[], 0, 0, 0⟩ = .ok walked' ↔
      Admissible config children ∧ (∀ item ∈ admittedNodes children, Reachable item.2) ∧
      walked' = ⟨(admittedNodes (listing children)).map fun item => entryOf C (joinParts item.1) item.2,
        (admittedNodes children).countP fun item => isReg item.2.stat.mode,
        ((admittedNodes children).map fun item => sizeOfNode item.2).sum,
        (admittedNodes children).length⟩ := by
  have hzero : Within config.budget ⟨[], 0, 0, 0⟩ :=
    ⟨by push_cast; omega, by push_cast; omega, by push_cast; omega⟩
  -- what the checks add up does not depend on the order of the nodes
  have hperm := admittedNodes_listing_perm children
  have hlength : (admittedNodes (listing children)).length = (admittedNodes children).length := by
    rw [hperm.length_eq, List.length_map]
  have hfiles : ((admittedNodes (listing children)).countP fun item => isReg item.2.stat.mode) =
      (admittedNodes children).countP fun item => isReg item.2.stat.mode := by
    rw [hperm.countP_eq, List.countP_map]
    refine List.countP_congr fun item _ => ?_
    rw [Function.comp, asListed, Node.sorted_eq]
    rfl
  have hbytes : ((admittedNodes (listing children)).map fun item => sizeOfNode item.2).sum =
      ((admittedNodes children).map fun item => sizeOfNode item.2).sum := by
    rw [(hperm.map _).sum_eq, List.map_map]
    refine congrArg List.sum (List.map_congr_left fun item _ => ?_)
    rw [Function.comp, asListed, Node.sorted_eq]
    rfl
  have hnodes : (∀ item ∈ admittedNodes (listing children),
      Fine config item.1 item.2 ∧ Reachable item.2) ↔
      (∀ item ∈ admittedNodes children, Fine config item.1 item.2) ∧
        ∀ item ∈ admittedNodes children, Reachable item.2 := by
    simp only [hperm.mem_iff, List.forall_mem_map, asListed, fine_sorted, reachable_sorted,
      ← forall_and]
  rw [walk_eq_foldlM C config [] (by simp), foldlM_visit_eq_ok _ hzero]
  change (∀ item ∈ admittedNodes (listing children), _) ∧ Within config.budget
    ((admittedNodes (listing children)).foldl _ _) ∧ _ =
      (admittedNodes (listing children)).foldl _ _ ↔ _
  rw [hnodes, foldl_add, hfiles, hbytes, hlength]
  simp only [List.nil_append, Nat.zero_add]
  constructor
  · rintro ⟨⟨hfine, hreach⟩, hwithin, rfl⟩
    exact ⟨⟨hstack, hfine, by have := hwithin.count; dsimp only at this; omega, hwithin.files, hwithin.bytes⟩,
      hreach, rfl⟩
  · rintro ⟨hadmissible, hreach, rfl⟩
    exact ⟨⟨hadmissible.nodes, hreach⟩, ⟨by have := hadmissible.count; dsimp only; omega,
      hadmissible.files, hadmissible.bytes⟩, rfl⟩

theorem validate_positive {budget : WorkspaceBudget} {u : Unit} (h : budget.validate = .ok u) :
    1 ≤ budget.maxFiles ∧ 1 ≤ budget.maxTotalBytes := by
  obtain ⟨_, hall, -⟩ := bind_eq_ok.1 h
  have hnone := raiseIf_eq_ok.1 hall
  simp only [List.any_cons, List.any_nil, Bool.or_false, Bool.or_eq_true, decide_eq_true_eq, not_or,
    not_lt] at hnone
  exact ⟨hnone.1, hnone.2.1⟩

theorem buildManifest_eq_ok (C : Crypto) (rootPath : Name) {root : Node} {budget : WorkspaceBudget} {frames : ℕ}
    (hvalid : budget.validate = .ok ()) (hdir : isDir root.stat.mode = true)
    {manifest : FilesystemManifest} :
    buildManifest C rootPath root true true budget frames = .ok manifest ↔
      Admissible ⟨true, true, budget, root.stat.device, frames⟩ root.children ∧ Accessible root ∧
        manifest = manifestOf C rootPath root := by
  have hwalk := fun (hstack : 2 ≤ frames) (walked : Walked) => @walk_listing_eq_ok C
    ⟨true, true, budget, root.stat.device, frames⟩ walked (validate_positive hvalid) hstack root.children
  unfold buildManifest
  rw [hvalid, Node.sorted_eq]
  simp only [bind_eq_ok, raiseIf_eq_ok, exists_and_left, exists_const, hdir, Bool.not_true,
    Bool.false_eq_true, or_false, Bool.not_eq_true', Bool.not_eq_false, not_lt, true_and]
  constructor
  · rintro ⟨hopen, hstack, hlist, walked, hwalked, hresult⟩
    obtain ⟨hadmissible, hreach, rfl⟩ := (hwalk hstack walked).1 hwalked
    exact ⟨hadmissible, ⟨hopen, hlist, hreach⟩, (Except.ok.inj hresult).symm⟩
  · rintro ⟨hadmissible, haccess, rfl⟩
    exact ⟨haccess.openable, hadmissible.stack, haccess.listable, _,
      (hwalk hadmissible.stack _).2 ⟨hadmissible, haccess.nodes, rfl⟩, rfl⟩

/-- Whatever is checked, a manifest is built of an admissible tree only. -/
theorem buildManifest_admits {rootPath : Name} {root : Node} {device setid : Bool}
    {budget : WorkspaceBudget} {frames : ℕ} {manifest : FilesystemManifest}
    (h : buildManifest C rootPath root device setid budget frames = .ok manifest) :
    isDir root.stat.mode = true ∧ Admissible ⟨device, setid, budget, root.stat.device, frames⟩ root.children ∧
      Accessible root ∧ manifest = manifestOf C rootPath root := by
  unfold buildManifest at h
  obtain ⟨⟨⟩, hvalid, h⟩ := bind_eq_ok.1 h
  rw [Node.sorted_eq] at h
  dsimp only at h
  obtain ⟨_, hopen, h⟩ := bind_eq_ok.1 h
  obtain ⟨_, hstack, h⟩ := bind_eq_ok.1 h
  obtain ⟨_, hlist, h⟩ := bind_eq_ok.1 h
  obtain ⟨walked, hwalk, h⟩ := bind_eq_ok.1 h
  cases h
  obtain ⟨hadmissible, hreach, rfl⟩ := (walk_listing_eq_ok (validate_positive hvalid)
    (not_lt.1 (raiseIf_eq_ok.1 hstack)) root.children).1 hwalk
  simp only [raiseIf_eq_ok, not_or, Bool.not_eq_true', Bool.not_eq_false] at hopen hlist
  exact ⟨hopen.2, hadmissible, ⟨hopen.1, hlist, hreach⟩, rfl⟩

/-- The default budget. -/
def defaultBudget : WorkspaceBudget := {}

/-- A file, with what succeeds on it. -/
def sampleFile (openable : Bool) : Node :=
  .mk (Name.ofText "a.txt") ⟨1, 12, 0o100644, 1000, 1000, 5, 1⟩ ⟨true, openable, false, true⟩
    [104, 101, 108, 108, 111] []

/-- A directory with that file. -/
def sampleTree (openable : Bool) : Node :=
  .mk (Name.ofText "project") ⟨1, 10, 0o040755, 1000, 1000, 4096, 2⟩ ⟨true, true, true, false⟩ []
    [sampleFile openable]

theorem defaultBudget_valid : defaultBudget.validate = .ok () := by
  unfold WorkspaceBudget.validate defaultBudget
  norm_num [raiseIf]
  rfl

theorem sampleTree_distinct (openable : Bool) : (sampleTree openable).Distinct := by
  simp [sampleTree, sampleFile, Node.Distinct, DistinctAll]

theorem sampleTree_nodes (openable : Bool) : admittedNodes (sampleTree openable).children =
    [([Name.ofText "a.txt"], sampleFile openable)] := by
  cases openable <;> rfl

theorem sampleTree_admissible (openable : Bool) :
    Admissible ⟨true, true, defaultBudget, 1, 900⟩ (sampleTree openable).children := by
  refine ⟨by decide, ?_, ?_, ?_, ?_⟩ <;> rw [sampleTree_nodes]
  · intro item hitem
    rw [List.mem_singleton.1 hitem]
    refine ⟨?_, ⟨[97, 46, 116, 120, 116], ?_, ?_⟩, .inr ?_, ?_, ?_, ?_, ?_, ?_⟩ <;>
      cases openable <;> decide
  · cases openable <;> decide
  · cases openable <;> decide
  · cases openable <;> decide

end Bulldog.Workspace
