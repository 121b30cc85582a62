import Bulldog.Canonicalizer.Filesystem

/-!
# The resource of a canonical action

`canonicalize_action` stores the canonical resource and derives the capability from a second reading
of it, which strips it, chooses between a path and another resource, decodes and normalises once more.
The stored resource has no NUL and no escapes. The second reading returns it unchanged except in two
cases: an escape at the end of the resource, or of its last segment, decodes to white space, which is
stripped only the second time; and a resource that shows its slash only once it is decoded is taken
for a path only the second time.
-/

namespace Bulldog.Canonicalizer

/-! ## White space -/

theorem exists_strip (s : Str) :
    ∃ before after, s = before ++ Str.strip s ++ after ∧
      (∀ c ∈ before, Str.isSpace c = true) ∧ ∀ c ∈ after, Str.isSpace c = true := by
  refine ⟨s.takeWhile Str.isSpace, (s.dropWhile Str.isSpace).rtakeWhile Str.isSpace, ?_, ?_, ?_⟩
  · rw [Str.strip, Str.rstrip, List.append_assoc, List.rdropWhile_append_rtakeWhile,
      List.takeWhile_append_dropWhile]
  · exact fun c hc => List.mem_takeWhile_imp hc
  · exact fun c hc => List.mem_rtakeWhile_imp hc

theorem mem_strip {s : Str} {c : Char} (hspace : Str.isSpace c = false) (hc : c ∈ s) :
    c ∈ Str.strip s := by
  obtain ⟨before, after, hs, hbefore, hafter⟩ := exists_strip s
  rw [hs, List.mem_append, List.mem_append] at hc
  rcases hc with (hc | hc) | hc
  · rw [hbefore c hc] at hspace
    cases hspace
  · exact hc
  · rw [hafter c hc] at hspace
    cases hspace

theorem strip_strip (s : Str) : Str.strip (Str.strip s) = Str.strip s := by
  have hhead : (Str.strip s).dropWhile Str.isSpace = Str.strip s := by
    obtain ⟨after, hafter⟩ := List.rdropWhile_prefix Str.isSpace (s.dropWhile Str.isSpace)
    have hstrip : Str.strip s ++ after = s.dropWhile Str.isSpace := hafter
    rcases hs : Str.strip s with _ | ⟨c, t⟩
    · rfl
    · -- the first character is the first of what is left after the leading white space
      rw [hs, List.cons_append] at hstrip
      have hc := List.dropWhile_get_zero_not Str.isSpace s (by rw [← hstrip]; simp)
      simp only [← hstrip, List.get_eq_getElem, List.getElem_cons_zero] at hc
      exact List.dropWhile_cons_of_neg hc
  rw [Str.strip, hhead]
  exact List.rdropWhile_idempotent _ _

theorem escaped_of_append_right {a b : Str} (h : escaped (a ++ b) = false) : escaped b = false := by
  induction a with
  | nil => exact h
  | cons c a ih =>
    rw [List.cons_append, escaped, Bool.or_eq_false_iff] at h
    exact ih h.2

theorem escaped_strip {s : Str} (h : escaped s = false) : escaped (Str.strip s) = false := by
  obtain ⟨before, after, hs, -, -⟩ := exists_strip s
  rw [hs] at h
  exact escaped_of_append_right (escaped_of_append h)

theorem rstrip_eq_self_iff (s : Str) :
    Str.rstrip Str.isSpace s = s ↔ ∀ c, s.getLast? = some c → Str.isSpace c = false := by
  rw [Str.rstrip, List.rdropWhile_eq_self_iff]
  constructor
  · intro h c hc
    have hne : s ≠ [] := by
      rintro rfl
      cases hc
    rw [List.getLast?_eq_getLast_of_ne_nil hne, Option.some.injEq] at hc
    rw [← hc]
    exact Bool.eq_false_iff.2 (h hne)
  · intro h hne
    exact Bool.eq_false_iff.1 (h _ (List.getLast?_eq_getLast_of_ne_nil hne))

/-- The last segment, if there is one, ends in white space. -/
def EndsInSpace (segments : List Str) : Prop :=
  ∃ segment c, segments.getLast? = some segment ∧ segment.getLast? = some c ∧ Str.isSpace c = true

theorem exists_slash_last (init : List Str) (segment : Str) :
    ∃ front, '/' :: ['/'].intercalate (init ++ [segment]) = front ++ '/' :: segment := by
  induction init with
  | nil => exact ⟨[], by simp [List.intercalate]⟩
  | cons first init ih =>
    obtain ⟨front, hfront⟩ := ih
    have hne : init ++ [segment] ≠ [] := by simp
    obtain ⟨next, rest, hrest⟩ := List.exists_cons_of_ne_nil hne
    refine ⟨'/' :: first ++ front, ?_⟩
    rw [hrest] at hfront
    rw [List.cons_append, hrest, List.intercalate_cons_cons, List.append_assoc, List.singleton_append,
      hfront, List.append_assoc, List.cons_append]

/-- A normal path is stripped of nothing exactly when its last segment has no white space at its
end. -/
theorem Normal.strip_eq_self_iff {path : Str} (h : Normal path) :
    Str.strip path = path ↔ ¬ EndsInSpace (named path) := by
  have htext := h.text
  rw [joinPath_root] at htext
  rw [strip_of_rooted h.rooted]
  rcases List.eq_nil_or_concat (named path) with hnil | ⟨init, segment, hconcat⟩
  · rw [hnil] at htext ⊢
    rw [htext]
    exact iff_of_true (by decide) fun ⟨_, _, hlast, _⟩ => by cases hlast
  · obtain ⟨front, hfront⟩ := exists_slash_last init segment
    rw [List.concat_eq_append] at hconcat
    rw [hconcat] at htext ⊢
    rw [htext, hfront, rstrip_slash, List.append_cancel_left_eq, List.cons.injEq, eq_self, true_and,
      rstrip_eq_self_iff]
    constructor
    · rintro hends ⟨segment', c, hlast, hc, hspace⟩
      rw [List.getLast?_concat, Option.some.injEq] at hlast
      subst hlast
      rw [hends c hc] at hspace
      cases hspace
    · intro hends c hc
      by_contra hspace
      exact hends ⟨segment, c, List.getLast?_concat, hc, by simpa using hspace⟩

/-! ## Normalising -/

/-- Joining the named segments of a path takes no more characters than the path. -/
theorem length_intercalate_named (path : Str) :
    (['/'].intercalate (named path)).length ≤ path.length := by
  induction path using Str.sep_induction '/' with
  | part path hslash =>
    by_cases hne : path = [] ∨ path = ['.']
    · rcases hne with rfl | rfl <;> decide
    · obtain ⟨h₀, h₁⟩ := not_or.1 hne
      rw [named_of_not_mem hslash h₀ h₁]
      simp [List.intercalate]
  | cons a b hslash ih =>
    rw [named_append, List.length_append, List.length_cons]
    by_cases hne : a = [] ∨ a = ['.']
    · have hnamed : named a = [] := by rcases hne with rfl | rfl <;> decide
      rw [hnamed, List.nil_append]
      omega
    · obtain ⟨h₀, h₁⟩ := not_or.1 hne
      rw [named_of_not_mem hslash h₀ h₁]
      rcases hb : named b with _ | ⟨next, rest⟩
      · simp [List.intercalate]
      · rw [hb] at ih
        rw [List.singleton_append, List.intercalate_cons_cons, List.length_append, List.length_append,
          List.length_singleton]
        omega

theorem normpath_of_rooted {path : Str} (h : Rooted path)
    (hdots : "..".toList ∉ Str.splitOn '/' path) :
    normpath path = '/' :: ['/'].intercalate (named path) := by
  rw [normpath_eq hdots, h.leadingSlashes, joinPath_root]

theorem length_normpath_le {path : Str} (h : Rooted path)
    (hdots : "..".toList ∉ Str.splitOn '/' path) : (normpath path).length ≤ path.length := by
  rw [normpath_of_rooted h hdots]
  rcases path with _ | ⟨a, rest⟩
  · cases h.1
  · obtain rfl : a = '/' := Option.some.inj h.1
    rw [named_slash, List.length_cons, List.length_cons]
    have := length_intercalate_named rest
    omega

theorem Normal.normpath_eq_self {path : Str} (h : Normal path)
    (hdots : "..".toList ∉ Str.splitOn '/' path) : normpath path = path := by
  rw [normpath_of_rooted h.rooted hdots]
  exact h.text.symm

theorem head_strip_of_rooted {path : Str} (h : Rooted path) :
    (Str.strip path).head? = some '/' := by
  rw [strip_of_rooted h]
  rcases path with _ | ⟨a, rest⟩
  · cases h.1
  · obtain rfl : a = '/' := Option.some.inj h.1
    rw [← List.nil_append ('/' :: rest), rstrip_slash]
    rfl

theorem rooted_strip {path : Str} (h : Rooted path) : Rooted (Str.strip path) := by
  refine ⟨head_strip_of_rooted h, fun hslashes => h.2 ?_⟩
  obtain ⟨spaces, hspaces⟩ := exists_append_strip h
  rw [List.isPrefixOf_iff_prefix] at hslashes ⊢
  rw [hspaces]
  exact hslashes.trans (List.prefix_append _ _)

/-- Normalising does not put back what stripping took away. -/
theorem normpath_strip_eq_iff {path : Str} (h : Rooted path) (hself : normpath path = path)
    (hdots : "..".toList ∉ Str.splitOn '/' (Str.strip path)) :
    normpath (Str.strip path) = path ↔ Str.strip path = path := by
  constructor
  · intro hnorm
    have hle := length_normpath_le (rooted_strip h) hdots
    rw [hnorm] at hle
    obtain ⟨spaces, hspaces⟩ := exists_append_strip h
    exact List.IsPrefix.eq_of_length_le ⟨spaces, hspaces.symm⟩ hle
  · intro hstrip
    rw [hstrip, hself]

/-- A slash, and segments that are neither empty nor dots with one slash between them. -/
def Tidy (d : Str) : Prop :=
  d = ['/'] ∨ ∃ rest, d = '/' :: rest ∧ '\\' ∉ rest ∧
    ∀ segment ∈ Str.splitOn '/' rest, segment ≠ [] ∧ segment ≠ ".".toList

/-- A tidy path is one that normalising leaves as it is. -/
theorem normpath_slashed_eq_iff {d : Str} (h : Rooted (slashed d)) (hdots : ¬ ShowsDots d) :
    normpath (slashed d) = d ↔ Tidy d := by
  rw [normpath_of_rooted h hdots]
  constructor
  · intro htext
    have hback : '\\' ∉ d := by
      rw [← htext, List.mem_cons]
      rintro (hmem | hmem)
      · exact absurd hmem (by decide)
      · by_cases hnamed : named (slashed d) = []
        · rw [hnamed] at hmem
          cases hmem
        · rw [Str.mem_splitOn (by decide : '\\' ≠ '/'), Str.splitOn_intercalate hnamed
            fun segment hsegment => (named_spec _ segment hsegment).1] at hmem
          obtain ⟨segment, hsegment, hc⟩ := hmem
          exact not_mem_slashed d
            ((Str.mem_splitOn (by decide)).2 ⟨segment, (mem_named.1 hsegment).1, hc⟩)
    rw [slashed_of_not_mem hback] at htext
    by_cases hnamed : named d = []
    · rw [hnamed] at htext
      exact .inl htext.symm
    · refine .inr ⟨_, htext.symm, fun hmem => hback ?_, ?_⟩
      · rw [← htext]
        exact List.mem_cons_of_mem _ hmem
      · rw [Str.splitOn_intercalate hnamed fun segment hsegment => (named_spec _ segment hsegment).1]
        exact fun segment hsegment => (named_spec _ segment hsegment).2
  · rintro (rfl | ⟨rest, rfl, hback, hsegments⟩)
    · decide
    · have hslashed : slashed ('/' :: rest) = '/' :: rest := by
        refine slashed_of_not_mem fun hmem => ?_
        rcases List.mem_cons.1 hmem with hc | hmem
        · exact absurd hc (by decide)
        · exact hback hmem
      have hnamed : named rest = Str.splitOn '/' rest := by
        rw [named, List.filter_eq_self]
        exact fun segment hsegment => decide_eq_true (hsegments segment hsegment)
      rw [hslashed, named_slash, hnamed, Str.intercalate_splitOn]

/-! ## Reading a resource -/

variable {L : Urllib}

/-- `canonicalize_resource` takes the resource for a path. -/
def ReadsPath (L : Urllib) (operation raw : Str) : Prop :=
  normalOperation L operation ∈ pathOperations ∨ raw.head? = some '/' ∨ raw.head? = some '\\'

instance (L : Urllib) (operation raw : Str) : Decidable (ReadsPath L operation raw) := by
  unfold ReadsPath
  infer_instance

theorem canonicalizeResource_eq_ok_iff {operation resource result : Str} :
    canonicalizeResource L operation resource = .ok result ↔
      Str.strip resource ≠ [] ∧
        (if ReadsPath L operation (Str.strip resource) then
          canonicalizeFilesystemResource L (Str.strip resource) = .ok result
        else decodeResource (Str.strip resource) = .ok result) := by
  simp only [canonicalizeResource, bind_eq_ok, raiseIf_eq_ok]
  by_cases hpath : ReadsPath L operation (Str.strip resource)
  · rw [if_pos hpath]
    unfold ReadsPath at hpath
    simp only [if_pos hpath, exists_const]
  · rw [if_neg hpath]
    unfold ReadsPath at hpath
    simp only [if_neg hpath, exists_const]

theorem nul_of_decodeResource {value decoded : Str} (h : decodeResource value = .ok decoded) :
    '\x00' ∉ value := by
  simp only [decodeResource, bind_eq_ok, raiseIf_eq_ok] at h
  exact h.choose_spec.1

/-- A reading that is accepted is of a string without NUL. -/
theorem nul_of_canonicalizeResource {operation resource result : Str}
    (h : canonicalizeResource L operation resource = .ok result) : '\x00' ∉ resource := by
  intro hmem
  have hstrip : '\x00' ∈ Str.strip resource := mem_strip (by decide) hmem
  obtain ⟨-, hread⟩ := canonicalizeResource_eq_ok_iff.1 h
  split_ifs at hread
  · obtain ⟨decoded, hdecoded, -⟩ := canonicalizeFilesystemResource_eq_ok_iff.1 hread
    exact nul_of_decodeResource hdecoded hstrip
  · exact nul_of_decodeResource hread hstrip

/-- The second reading of a canonical path, if it is accepted, is the path itself exactly when its
last segment has no white space at its end. -/
theorem reread_path_iff {resource path result : Str} {operation : Str}
    (h : canonicalizeFilesystemResource L resource = .ok path)
    (hreread : canonicalizeFilesystemResource L (Str.strip path) = .ok result) :
    canonicalizeResource L operation path = .ok path ↔ ¬ EndsInSpace (named path) := by
  have hnormal := normal_of_ok h
  have hplain := plain_of_ok h
  have hhead := head_strip_of_rooted hnormal.rooted
  have hne : Str.strip path ≠ [] := by
    intro hnil
    rw [hnil] at hhead
    cases hhead
  have hdots : "..".toList ∉ Str.splitOn '/' path := by
    obtain ⟨decoded, hdecoded, -⟩ := canonicalizeFilesystemResource_eq_ok_iff.1 h
    exact (canonicalForm_of_decoded h hdecoded).no_dots
  rw [canonicalizeResource_eq_ok_iff, if_pos (.inr (.inl hhead)), hreread, Except.ok.injEq,
    reread_eq hnormal hplain hreread,
    normpath_strip_eq_iff hnormal.rooted (hnormal.normpath_eq_self hdots) (no_dots_of_ok hreread),
    hnormal.strip_eq_self_iff, and_iff_right hne]

/-- The second reading of another resource, if it is accepted, is the resource itself exactly when it
has no white space around it and is tidy where it turned out to be a path. -/
theorem reread_other_iff {d : Str} {operation operation' result : Str}
    (hescaped : escaped d = false) (hop : normalOperation L operation ∉ pathOperations)
    (hreread : canonicalizeResource L operation' d = .ok result) :
    canonicalizeResource L operation d = .ok d ↔
      Str.strip d = d ∧ (d.head? = some '/' ∨ d.head? = some '\\' → Tidy d) := by
  have hnul : '\x00' ∉ Str.strip d := by
    intro hmem
    obtain ⟨before, after, hd, -, -⟩ := exists_strip d
    refine nul_of_canonicalizeResource hreread ?_
    rw [hd]
    exact List.mem_append_left _ (List.mem_append_right _ hmem)
  have hdecode := decodeResource_of_plain hnul (escaped_strip hescaped)
  obtain ⟨hne, hread⟩ := canonicalizeResource_eq_ok_iff.1 hreread
  rw [canonicalizeResource_eq_ok_iff, and_iff_right hne]
  by_cases hslash : (Str.strip d).head? = some '/' ∨ (Str.strip d).head? = some '\\'
  · -- a path, once it is decoded
    rw [if_pos (.inr hslash)] at hread ⊢
    rw [hread, Except.ok.injEq]
    obtain ⟨decoded, hdecoded, -, hrooted, -, hdots, hresult, hrooted'⟩ :=
      canonicalizeFilesystemResource_eq_ok_iff.1 hread
    obtain rfl : Str.strip d = decoded := Except.ok.inj (hdecode.symm.trans hdecoded)
    rw [hresult]
    constructor
    · intro hfix
      -- normalising is no longer than what was stripped, so nothing was
      rw [hresult, hfix] at hrooted'
      have hle := length_normpath_le hrooted hdots
      rw [hfix, slashed, List.length_map] at hle
      obtain ⟨spaces, hspaces⟩ := exists_append_strip hrooted'
      have hstrip : Str.strip d = d := List.IsPrefix.eq_of_length_le ⟨spaces, hspaces.symm⟩ hle
      rw [hstrip] at hfix hrooted hdots
      exact ⟨hstrip, fun _ => (normpath_slashed_eq_iff hrooted hdots).1 hfix⟩
    · rintro ⟨hstrip, htidy⟩
      rw [hstrip] at hslash hrooted hdots ⊢
      exact (normpath_slashed_eq_iff hrooted hdots).2 (htidy hslash)
  · rw [if_neg fun hpath => hpath.elim hop hslash, hdecode, Except.ok.injEq]
    constructor
    · intro hstrip
      rw [hstrip] at hslash
      exact ⟨hstrip, fun hhead => absurd hhead hslash⟩
    · exact And.left

/-! ## The stored resource -/

/-- The stored resource is what its own canonicalisation returns, without NUL and escapes. -/
def ResourceCanonical (L : Urllib) (action : ActionRequest) : Prop :=
  canonicalizeResource L action.operation action.resource = .ok action.resource ∧
    '\x00' ∉ action.resource ∧ unquote action.resource = action.resource

/-- Decoding the resource of the proposal makes neither white space where it is stripped nor a path
that is not tidy. -/
def DecodesInPlace (L : Urllib) (proposal : Proposal) : Prop :=
  let raw := Str.strip proposal.resource
  let decoded := (decodeRounds 3 raw).1
  if ReadsPath L (Str.strip proposal.operation) raw then ¬ EndsInSpace (named (slashed decoded))
  else Str.strip decoded = decoded ∧
    (decoded.head? = some '/' ∨ decoded.head? = some '\\' → Tidy decoded)

/-- The resource of an accepted proposal has neither NUL nor escapes. It is its own canonicalisation
exactly when decoding the proposal's resource left it in place. -/
theorem resource_canonical_iff (L : Urllib) (proposal : Proposal) (trusted : TrustedExecutionContext)
    (granted : Finset Capability) (parent : Option (Finset Capability)) (action : ActionRequest)
    (h : canonicalizeAction L proposal trusted granted parent = .ok action) :
    (ResourceCanonical L action ↔ DecodesInPlace L proposal) ∧
      '\x00' ∉ action.resource ∧ unquote action.resource = action.resource := by
  simp only [canonicalizeAction, bind_eq_ok, raiseIf_eq_ok] at h
  obtain ⟨-, -, resource, hfirst, capability, hcapability, haction⟩ := h
  obtain rfl := Except.ok.inj haction
  obtain ⟨result, hsecond, -⟩ := bind_eq_ok.1 hcapability
  have hnul := nul_of_canonicalizeResource hsecond
  obtain ⟨hne, hfirst⟩ := canonicalizeResource_eq_ok_iff.1 hfirst
  unfold ResourceCanonical DecodesInPlace
  dsimp only
  rw [strip_strip] at hne hfirst
  split_ifs at hfirst ⊢ with hpath
  · -- a path at the first reading is one at the second
    have hplain := plain_of_ok hfirst
    obtain ⟨decoded, hdecoded, -⟩ := canonicalizeFilesystemResource_eq_ok_iff.1 hfirst
    have hnamed := (canonicalForm_of_decoded hfirst hdecoded).named_eq
    rw [(decodeResource_eq_ok hdecoded).1] at hnamed
    have hhead := head_strip_of_rooted (normal_of_ok hfirst).rooted
    obtain ⟨-, hsecond⟩ := canonicalizeResource_eq_ok_iff.1 hsecond
    rw [if_pos (.inr (.inl hhead))] at hsecond
    have hunquote : unquote resource = resource := (unquote_eq_self_iff _).2 hplain.1
    rw [reread_path_iff hfirst hsecond, hnamed]
    exact ⟨and_iff_left ⟨hnul, hunquote⟩, hnul, hunquote⟩
  · obtain ⟨hresource, hescaped⟩ := decodeResource_eq_ok hfirst
    have hop : normalOperation L (Str.strip proposal.operation) ∉ pathOperations :=
      fun hop => hpath (.inl hop)
    have hunquote : unquote resource = resource := (unquote_eq_self_iff _).2 hescaped
    rw [← hresource, reread_other_iff hescaped hop hsecond]
    exact ⟨and_iff_left ⟨hnul, hunquote⟩, hnul, hunquote⟩

/-- Reading a file whose name has an escape inside it. -/
theorem inner_escape_canonical :
    ResourceCanonical ⟨.ascii, fun _ => false⟩ (readAction "/workspace/a b" .fsReadProject) := by
  have h : canonicalizeAction ⟨.ascii, fun _ => false⟩ ⟨"task", "read", "/workspace/a%20b"⟩
      plainContext {.fsReadProject} none = .ok (readAction "/workspace/a b" .fsReadProject) := by
    decide +kernel
  have hplace : DecodesInPlace ⟨.ascii, fun _ => false⟩ ⟨"task", "read", "/workspace/a%20b"⟩ := by
    unfold DecodesInPlace
    rw [if_pos (by decide +kernel)]
    rintro ⟨segment, c, hsegment, hc, hspace⟩
    have hlast : (named (slashed (decodeRounds 3 (Str.strip "/workspace/a%20b")).1)).getLast? =
        some "a b".toList := by decide +kernel
    obtain rfl := Option.some.inj (hlast.symm.trans hsegment)
    obtain rfl := Option.some.inj hc
    exact absurd hspace (by decide)
  exact (resource_canonical_iff _ _ _ _ _ _ h).1.2 hplace

/-- What the canonicaliser makes of that agent's running a program. -/
def runAction (program : Str) : ActionRequest :=
  { readAction program .processExec with
    operation := "execute"
    grantedCapabilities := {.processExec} }

/-- An escape at the end of a path, and a slash that is escaped at its front. -/
theorem outer_escape_not_canonical :
    canonicalizeAction ⟨.ascii, fun _ => false⟩ ⟨"task", "read", "/workspace/a%20"⟩ plainContext
        {.fsReadProject} none = .ok (readAction "/workspace/a " .fsReadProject) ∧
      ¬ ResourceCanonical ⟨.ascii, fun _ => false⟩ (readAction "/workspace/a " .fsReadProject) ∧
    canonicalizeAction ⟨.ascii, fun _ => false⟩ ⟨"task", "execute", "%2Fusr//bin/true"⟩ plainContext
        {.processExec} none = .ok (runAction "/usr//bin/true") ∧
      ¬ ResourceCanonical ⟨.ascii, fun _ => false⟩ (runAction "/usr//bin/true") := by
  unfold ResourceCanonical
  refine ⟨?_, ?_, ?_, ?_⟩ <;> decide +kernel

end Bulldog.Canonicalizer
