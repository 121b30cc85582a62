import Bulldog.Canonicalizer
import Bulldog.Lib.Paths
import Bulldog.Policy

/-!
# Inside the project

The canonicaliser calls a path project-scoped when its text is that of the fixed mount `/workspace`
or goes on from it; the policy compares components with the project root that the deployment signed.
`project_scope_iff` says for which paths and roots the two agree. Before that stands what a canonical
path is: rooted, without `..`, escapes or backslashes, and so its own lexical normal form.
-/

namespace Bulldog

namespace Canonicalizer

/-- `decoded.replace("\\", "/")`. -/
def slashed (decoded : Str) : Str := decoded.map fun c => if c = '\\' then '/' else c

theorem slashed_of_not_mem {s : Str} (h : '\\' ∉ s) : slashed s = s := by
  have hid : ∀ c ∈ s, (if c = '\\' then '/' else c) = id c := by
    intro c hc
    exact if_neg (ne_of_mem_of_not_mem hc h)
  rw [slashed, List.map_congr_left hid, List.map_id]

theorem not_mem_slashed (s : Str) : '\\' ∉ slashed s := by
  rw [slashed, List.mem_map]
  rintro ⟨c, -, hc⟩
  split_ifs at hc with hback
  · exact absurd hc (by decide)
  · exact hback hc

theorem slashed_respects : Str.Respects '/' slashed := Str.respects_map (by decide)

/-- Folding backslashes makes no escapes. -/
theorem escaped_slashed {s : Str} (h : escaped s = false) : escaped (slashed s) = false := by
  have hhex : ∀ t : Str, startsHex (slashed t) = true → startsHex t = true := by
    intro t ht
    rcases t with _ | ⟨a, _ | ⟨b, t⟩⟩
    · cases ht
    · cases ht
    · have hslash : hexDigit '/' = none := by decide
      simp only [slashed, List.map_cons, startsHex, Bool.and_eq_true] at ht ⊢
      split_ifs at ht <;> simp_all
  induction s with
  | nil => rfl
  | cons c s ih =>
    rw [escaped, Bool.or_eq_false_iff] at h
    have hs : escaped (slashed s) = false := ih h.2
    have hcons : slashed (c :: s) = (if c = '\\' then '/' else c) :: slashed s := rfl
    rw [hcons, escaped, hs, Bool.or_false]
    split_ifs with hback
    · rfl
    · rcases Bool.and_eq_false_iff.1 h.1 with hc | hstarts
      · rw [hc, Bool.false_and]
      · rw [Bool.and_eq_false_iff]
        exact .inr (Bool.eq_false_iff.2 fun ht => by rw [hhex s ht] at hstarts; cases hstarts)

/-- What each decoding keeps, the rounds keep. -/
theorem decodeRounds_keeps {P : Str → Prop} (hP : ∀ s, P s → P (unquote s)) {value : Str}
    (h : P value) (n : ℕ) : P (decodeRounds n value).1 := by
  induction n generalizing value with
  | zero => exact h
  | succ n ih =>
    rw [decodeRounds]
    split_ifs
    · exact h
    · exact ih (hP value h)

theorem decodeRounds_done {value : Str} {n : ℕ} (h : (decodeRounds n value).2 = true) :
    unquote (decodeRounds n value).1 = (decodeRounds n value).1 := by
  induction n generalizing value with
  | zero => cases h
  | succ n ih =>
    rw [decodeRounds] at h ⊢
    split_ifs at h ⊢ with heq
    · exact heq
    · exact ih h

/-- What `_decode_resource` returns has no escape left. -/
theorem decodeResource_eq_ok {value decoded : Str} (h : decodeResource value = .ok decoded) :
    decoded = (decodeRounds 3 value).1 ∧ escaped decoded = false := by
  simp only [decodeResource, bind_eq_ok, raiseIf_eq_ok] at h
  obtain ⟨-, -, -, hnested, hdecoded⟩ := h
  obtain rfl : (decodeRounds 3 value).1 = decoded := Except.ok.inj hdecoded
  refine ⟨rfl, (unquote_eq_self_iff _).1 ?_⟩
  by_cases hdone : (decodeRounds 3 value).2 = true
  · exact decodeRounds_done hdone
  · by_contra hne
    exact hnested ⟨by simpa using hdone, hne⟩

variable {L : Urllib}

/-- A path from the root, with one slash at its front. -/
def Rooted (path : Str) : Prop := path.head? = some '/' ∧ ¬ "//".toList.isPrefixOf path

/-- What `canonicalize_filesystem_resource` accepts: a rooted path without `..`, once it is
decoded. -/
theorem canonicalizeFilesystemResource_eq_ok {resource path : Str}
    (h : canonicalizeFilesystemResource L resource = .ok path) :
    ∃ decoded, decodeResource resource = .ok decoded ∧ Rooted (slashed decoded) ∧
      "..".toList ∉ Str.splitOn '/' (slashed decoded) ∧ path = normpath (slashed decoded) ∧
      Rooted path := by
  simp only [canonicalizeFilesystemResource, bind_eq_ok, raiseIf_eq_ok] at h
  obtain ⟨decoded, hdecoded, -, -, -, hslashes, -, -, -, habsolute, -, hdots, -, hslashes', -,
    habsolute', hpath⟩ := h
  obtain rfl : normpath (slashed decoded) = path := Except.ok.inj hpath
  exact ⟨decoded, hdecoded, ⟨not_not.1 habsolute, hslashes⟩, hdots, rfl, not_not.1 habsolute',
    hslashes'⟩

/-- A resource with a `..` of its own is not accepted: decoding cannot remove it. -/
theorem no_dots_of_ok {resource path : Str}
    (h : canonicalizeFilesystemResource L resource = .ok path) :
    "..".toList ∉ Str.splitOn '/' resource := by
  obtain ⟨decoded, hdecoded, -, hdots, -⟩ := canonicalizeFilesystemResource_eq_ok h
  intro hmem
  have hkeeps : "..".toList ∈ Str.splitOn '/' (decodeRounds 3 resource).1 :=
    decodeRounds_keeps (P := fun s => "..".toList ∈ Str.splitOn '/' s)
      (fun s hs => (unquote_respects separator_slash).mem hs (by decide)) hmem 3
  rw [← (decodeResource_eq_ok hdecoded).1] at hkeeps
  exact hdots (slashed_respects.mem hkeeps (by decide))

/-- A canonical path has neither escapes nor backslashes. -/
theorem plain_of_ok {resource path : Str}
    (h : canonicalizeFilesystemResource L resource = .ok path) :
    escaped path = false ∧ '\\' ∉ path := by
  obtain ⟨decoded, hdecoded, -, hdots, rfl, -⟩ := canonicalizeFilesystemResource_eq_ok h
  rw [escaped_normpath hdots, mem_normpath (by decide) (by decide) hdots]
  exact ⟨escaped_slashed (decodeResource_eq_ok hdecoded).2, not_mem_slashed decoded⟩

/-- The canonical form of a resource is what POSIX makes of its text exactly when the text has
neither escapes nor backslashes. -/
theorem canonical_eq_normpath_iff {resource path : Str}
    (h : canonicalizeFilesystemResource L resource = .ok path) :
    path = normpath resource ↔ unquote resource = resource ∧ '\\' ∉ resource := by
  rw [unquote_eq_self_iff]
  constructor
  · rintro rfl
    have hdots := no_dots_of_ok h
    have hplain := plain_of_ok h
    rwa [escaped_normpath hdots, mem_normpath (by decide) (by decide) hdots] at hplain
  · rintro ⟨hescaped, hback⟩
    obtain ⟨decoded, hdecoded, -, -, rfl, -⟩ := canonicalizeFilesystemResource_eq_ok h
    have hsame : (decodeRounds 3 resource).1 = resource := by
      rw [decodeRounds, if_pos ((unquote_eq_self_iff _).2 hescaped)]
    rw [(decodeResource_eq_ok hdecoded).1, hsame, slashed_of_not_mem hback]

/-! ## The form of a canonical path -/

theorem Rooted.leadingSlashes {path : Str} (h : Rooted path) : leadingSlashes path = ['/'] := by
  obtain ⟨hhead, hslashes⟩ := h
  rcases path with _ | ⟨a, rest⟩
  · cases hhead
  · obtain rfl : a = '/' := Option.some.inj hhead
    rcases rest with _ | ⟨b, rest⟩
    · rfl
    · have hb : b ≠ '/' := by
        rintro rfl
        exact hslashes rfl
      simp [Bulldog.leadingSlashes, hb]

theorem joinPath_root (comps : List Str) :
    joinPath ['/'] comps = '/' :: ['/'].intercalate comps := rfl

/-- A path that is rooted and its own normal form. -/
structure Normal (path : Str) : Prop where
  rooted : Rooted path
  text : path = joinPath ['/'] (named path)

theorem normal_normpath {path : Str} (hpath : Rooted path) (hnorm : Rooted (normpath path))
    (hdots : "..".toList ∉ Str.splitOn '/' path) : Normal (normpath path) where
  rooted := hnorm
  text := by rw [named_normpath hdots, normpath_eq hdots, hpath.leadingSlashes]

theorem normal_of_ok {resource path : Str}
    (h : canonicalizeFilesystemResource L resource = .ok path) : Normal path := by
  obtain ⟨decoded, -, hrooted, hdots, rfl, hrooted'⟩ := canonicalizeFilesystemResource_eq_ok h
  exact normal_normpath hrooted hrooted' hdots

/-- `str(PurePosixPath(path))` of a normal path is the path. -/
theorem Normal.pathStr_eq {path : Str} (h : Normal path) : pathStr path = path := by
  have hjoin : pathStr path = joinPath (Bulldog.leadingSlashes path) (named path) := rfl
  rw [hjoin, h.rooted.leadingSlashes, ← h.text]

/-- Relative to the mount, component by component, is what the canonicaliser tests on the text. -/
theorem Normal.inWorkspace_iff {path : Str} (h : Normal path) :
    inWorkspace path = true ↔ (named path).head? = some "workspace".toList := by
  rw [inWorkspace, Bool.or_eq_true, beq_iff_eq, List.isPrefixOf_iff_prefix]
  constructor
  · rintro (rfl | ⟨rest, rfl⟩)
    · decide
    · have hsplit : "/workspace/".toList ++ rest = "/workspace".toList ++ '/' :: rest := by simp
      have hmount : named "/workspace".toList = ["workspace".toList] := by decide
      rw [hsplit, named_append, hmount]
      rfl
  · intro hhead
    have htext := h.text
    rcases hnamed : named path with _ | ⟨comp, comps⟩
    · rw [hnamed] at hhead
      cases hhead
    · rw [hnamed] at hhead htext
      obtain rfl : comp = "workspace".toList := Option.some.inj hhead
      rcases comps with _ | ⟨next, comps⟩
      · exact .inl htext
      · refine .inr ⟨['/'].intercalate (next :: comps), ?_⟩
        rw [htext, joinPath_root, List.intercalate_cons_cons]
        simp

theorem isRelativeTo_mount {path : Str} (h : Rooted path) :
    isRelativeTo path "/workspace".toList = true ↔
      (named path).head? = some "workspace".toList := by
  have hmount : pathParts "/workspace".toList = (['/'], ["workspace".toList]) := by decide
  have hparts : pathParts path = (['/'], named path) := by
    rw [← h.leadingSlashes]
    rfl
  rw [isRelativeTo, hmount, hparts]
  rcases named path with _ | ⟨comp, comps⟩
  · decide
  · rw [List.isPrefixOf_cons_cons, List.isPrefixOf_nil_left, beq_self_eq_true, Bool.true_and,
      Bool.and_true, beq_iff_eq, List.head?_cons, Option.some.injEq]
    exact eq_comm

/-! ## The second reading

`derive_capability` canonicalises the canonical resource again, and strips it first. Where the last
component ends in white space, this is another path. -/

theorem strip_of_rooted {path : Str} (h : Rooted path) :
    Str.strip path = Str.rstrip Str.isSpace path := by
  obtain ⟨hhead, -⟩ := h
  rcases path with _ | ⟨a, rest⟩
  · cases hhead
  · obtain rfl : a = '/' := Option.some.inj hhead
    rw [Str.strip, List.dropWhile_cons_of_neg (by decide)]

theorem rstrip_slash (a b : Str) :
    Str.rstrip Str.isSpace (a ++ '/' :: b) = a ++ '/' :: Str.rstrip Str.isSpace b := by
  have hslash : List.dropWhile Str.isSpace ('/' :: a.reverse) = '/' :: a.reverse :=
    List.dropWhile_cons_of_neg (by decide)
  have hrev : (a ++ '/' :: b).reverse = b.reverse ++ '/' :: a.reverse := by simp
  rw [Str.rstrip, Str.rstrip, List.rdropWhile, List.rdropWhile, hrev, List.dropWhile_append, hslash]
  split_ifs with hempty
  · rw [List.isEmpty_iff.1 hempty]
    simp
  · simp

theorem escaped_of_append {a b : Str} (h : escaped (a ++ b) = false) : escaped a = false := by
  induction a with
  | nil => rfl
  | cons c a ih =>
    rw [List.cons_append, escaped, Bool.or_eq_false_iff] at h
    rw [escaped, ih h.2, Bool.or_false]
    rcases Bool.and_eq_false_iff.1 h.1 with hc | hstarts
    · rw [hc, Bool.false_and]
    · rcases a with _ | ⟨x, _ | ⟨y, a⟩⟩
      · simp [startsHex]
      · simp [startsHex]
      · rw [Bool.and_eq_false_iff]
        exact .inr hstarts

/-- Stripping takes characters off the end. -/
theorem exists_append_strip {path : Str} (h : Rooted path) :
    ∃ spaces, path = Str.strip path ++ spaces := by
  rw [strip_of_rooted h]
  obtain ⟨spaces, hspaces⟩ := List.rdropWhile_prefix Str.isSpace path
  exact ⟨spaces, hspaces.symm⟩

/-- What follows from the second reading being accepted. -/
theorem reread_eq {path path' : Str} (h : Normal path) (hplain : escaped path = false ∧ '\\' ∉ path)
    (hreread : canonicalizeFilesystemResource L (Str.strip path) = .ok path') :
    path' = normpath (Str.strip path) := by
  obtain ⟨spaces, hspaces⟩ := exists_append_strip h.rooted
  rw [hspaces] at hplain
  rw [canonical_eq_normpath_iff hreread, unquote_eq_self_iff]
  exact ⟨escaped_of_append hplain.1, fun hmem => hplain.2 (List.mem_append_left _ hmem)⟩

/-- The second reading is in the mount when the path is, or when stripping makes it the mount. -/
theorem named_strip_head {path : Str} (h : Normal path) :
    (named (Str.strip path)).head? = some "workspace".toList ↔
      (named path).head? = some "workspace".toList ∨ Str.strip path = "/workspace".toList := by
  have htext := h.text
  have hcomps := named_spec path
  rw [strip_of_rooted h.rooted]
  rcases hnamed : named path with _ | ⟨comp, _ | ⟨next, comps⟩⟩ <;> rw [hnamed] at htext hcomps
  · -- the root itself
    rw [htext]
    decide
  · -- one component, which may end in white space
    obtain ⟨hslash, hne, hdot⟩ := hcomps comp List.mem_cons_self
    have hstrip : Str.rstrip Str.isSpace path = '/' :: Str.rstrip Str.isSpace comp := by
      have hsingle : ['/'].intercalate [comp] = comp := by simp [List.intercalate]
      rw [htext, joinPath_root, hsingle]
      exact rstrip_slash [] comp
    have hmem : '/' ∉ Str.rstrip Str.isSpace comp := fun hmem =>
      hslash ((List.rdropWhile_prefix Str.isSpace comp).subset hmem)
    have hmount : "/workspace".toList = '/' :: "workspace".toList := rfl
    rw [hstrip, named_slash, List.head?_cons, Option.some.injEq, hmount, List.cons.injEq,
      eq_self, true_and]
    constructor
    · intro hhead
      refine .inr ?_
      have hmem' := List.mem_of_mem_head? hhead
      rw [mem_named, Str.splitOn_of_not_mem hmem, List.mem_singleton] at hmem'
      exact hmem'.1.symm
    · rintro (rfl | heq)
      · decide
      · rw [heq]
        decide
  · -- white space at the end does not reach the first component
    obtain ⟨hslash, hne, hdot⟩ := hcomps comp List.mem_cons_self
    have hstrip : Str.rstrip Str.isSpace path =
        '/' :: (comp ++ '/' :: Str.rstrip Str.isSpace (['/'].intercalate (next :: comps))) := by
      rw [htext, joinPath_root, List.intercalate_cons_cons, List.append_assoc,
        List.singleton_append]
      exact rstrip_slash ('/' :: comp) (['/'].intercalate (next :: comps))
    have hhead : (named (Str.rstrip Str.isSpace path)).head? = some comp := by
      rw [hstrip, named_slash, named_append, named_of_not_mem hslash hne hdot]
      rfl
    rw [hhead, List.head?_cons]
    constructor
    · exact .inl
    · rintro (h' | h')
      · exact h'
      · rw [h'] at hhead
        exact hhead.symm.trans (by decide)

/-- A path operation's capability, from the canonical resource. -/
theorem capabilityOf_path {op path : Str} {capability : Capability} (hop : op ∈ pathOperations)
    (h : capabilityOf L op path = .ok capability) :
    capability = .credentialRead ∧ sensitiveMarkers.any (Str.contains (L.unicode.lower path)) = true ∨
      capability ≠ .credentialRead ∧
        sensitiveMarkers.any (Str.contains (L.unicode.lower path)) = false ∧
        ((capability = .fsReadProject ∨ capability = .fsWriteProject) ↔ inWorkspace path = true) := by
  unfold capabilityOf at h
  by_cases hmarked : sensitiveMarkers.any (Str.contains (L.unicode.lower path)) = true
  · rw [if_pos hmarked] at h
    exact .inl ⟨(Except.ok.inj h).symm, hmarked⟩
  · rw [if_neg hmarked] at h
    refine .inr ?_
    rw [Bool.not_eq_true] at hmarked
    simp only [pathOperations, List.mem_cons, List.not_mem_nil, or_false] at hop
    rcases hop with rfl | rfl | rfl | rfl | rfl <;>
    · obtain rfl := Except.ok.inj h
      cases inWorkspace path <;> simp [hmarked]

end Canonicalizer

open Canonicalizer

/-- The canonicaliser and the policy agree on whether an action stays in the project. -/
def ScopeAgrees (root : Str) (action : ActionRequest) : Prop :=
  action.capability = .credentialRead ∨
    ((action.capability = .fsReadProject ∨ action.capability = .fsWriteProject) ↔
      isRelativeTo (pathStr (unquote action.resource)) root = true)

/-- They agree exactly on the sensitive paths, on those inside both the mount and the signed root,
and on those outside both. To the canonicaliser a path is also inside the mount when white space at
its end is all that tells it from the mount. -/
theorem project_scope_iff (L : Urllib) (proposal : Proposal) (trusted : TrustedExecutionContext)
    (granted : Finset Capability) (parent : Option (Finset Capability)) (root path : Str)
    (action : ActionRequest)
    (hop : normalOperation L (Str.strip proposal.operation) ∈ pathOperations)
    (hpath : canonicalizeResource L (Str.strip proposal.operation) (Str.strip proposal.resource) =
      .ok path)
    (h : canonicalizeAction L proposal trusted granted parent = .ok action) :
    ScopeAgrees root action ↔
      sensitiveMarkers.any (Str.contains (L.unicode.lower (normpath (Str.strip path)))) = true ∨
        ((isRelativeTo path "/workspace" = true ∨ Str.strip path = "/workspace".toList) ↔
          isRelativeTo path root = true) := by
  simp only [canonicalizeAction, bind_eq_ok, raiseIf_eq_ok] at h
  obtain ⟨-, -, path', hpath', capability, hcapability, haction⟩ := h
  obtain rfl : path = path' := Except.ok.inj (hpath.symm.trans hpath')
  obtain rfl := Except.ok.inj haction
  -- the first reading is of a path, and gives a normal one
  simp only [canonicalizeResource, bind_eq_ok, raiseIf_eq_ok, hop, true_or, if_true] at hpath
  obtain ⟨-, -, hfirst⟩ := hpath
  have hnormal := normal_of_ok hfirst
  have hplain := plain_of_ok hfirst
  -- so is the second, since the path starts with a slash
  have hhead : (Str.strip path).head? = some '/' := by
    rw [strip_of_rooted hnormal.rooted, hnormal.text, joinPath_root, ← List.nil_append ('/' :: _),
      rstrip_slash]
    rfl
  simp only [deriveCapability, canonicalizeResource, bind_eq_ok, raiseIf_eq_ok, hhead, true_or,
    or_true, if_true] at hcapability
  obtain ⟨path', ⟨-, -, hsecond⟩, hcapability⟩ := hcapability
  obtain rfl := reread_eq hnormal hplain hsecond
  have hmount : inWorkspace (normpath (Str.strip path)) = true ↔
      isRelativeTo path "/workspace" = true ∨ Str.strip path = "/workspace".toList := by
    rw [(normal_of_ok hsecond).inWorkspace_iff, named_normpath (no_dots_of_ok hsecond),
      named_strip_head hnormal, ← isRelativeTo_mount hnormal.rooted]
  have hcontained : pathStr (unquote path) = path := by
    rw [(unquote_eq_self_iff path).2 hplain.1, hnormal.pathStr_eq]
  simp only [ScopeAgrees, hcontained]
  rcases capabilityOf_path hop hcapability with ⟨hcred, hmarked⟩ | ⟨hcred, hmarked, hproject⟩
  · simp only [hcred, hmarked, true_or]
  · rw [hmarked, hproject, hmount]
    simp only [hcred, false_or, Bool.false_eq_true]

/-- The context of an agent without a domain. -/
def plainContext : TrustedExecutionContext :=
  ⟨"agent", [.human], [], none, none, none, none, none, none, none, none, 0⟩

/-- What the canonicaliser makes of that agent's reading a file. -/
def readAction (path : Str) (capability : Capability) : ActionRequest where
  actor := "agent"
  task := "task"
  operation := "read"
  resource := path
  capability := capability
  grantedCapabilities := {.fsReadProject}
  provenance := [.human]
  parentCapabilities := none
  irreversible := false
  externalSideEffect := false
  metadata := contextMetadata plainContext

/-- Reading a file of the project at the mount. -/
theorem mounted_scope_agrees :
    canonicalizeAction ⟨.ascii, fun _ => false⟩ ⟨"task", "read", "/workspace/notes"⟩ plainContext
        {.fsReadProject} none = .ok (readAction "/workspace/notes" .fsReadProject) ∧
      ScopeAgrees "/workspace" (readAction "/workspace/notes" .fsReadProject) := by
  have h : canonicalizeAction ⟨.ascii, fun _ => false⟩ ⟨"task", "read", "/workspace/notes"⟩
      plainContext {.fsReadProject} none = .ok (readAction "/workspace/notes" .fsReadProject) := by
    decide +kernel
  exact ⟨h, (project_scope_iff _ _ _ _ _ "/workspace" "/workspace/notes" _ (by decide +kernel)
    (by decide +kernel) h).2 (by decide +kernel)⟩

/-- With another project root, a file inside it is a file of the home directory, and a file at the
mount is one of the project that the policy blocks. -/
theorem signed_root_scope_differs :
    canonicalizeAction ⟨.ascii, fun _ => false⟩ ⟨"task", "read", "/srv/project/notes"⟩ plainContext
        {.fsReadProject} none = .ok (readAction "/srv/project/notes" .fsReadHome) ∧
      ¬ ScopeAgrees "/srv/project" (readAction "/srv/project/notes" .fsReadHome) ∧
    canonicalizeAction ⟨.ascii, fun _ => false⟩ ⟨"task", "read", "/workspace/notes"⟩ plainContext
        {.fsReadProject} none = .ok (readAction "/workspace/notes" .fsReadProject) ∧
      ¬ ScopeAgrees "/srv/project" (readAction "/workspace/notes" .fsReadProject) := by
  unfold ScopeAgrees
  decide +kernel

end Bulldog
