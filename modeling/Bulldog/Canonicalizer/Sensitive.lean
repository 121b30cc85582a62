import Bulldog.Canonicalizer.Fixpoint

/-!
# Credential paths

`derive_capability` looks for the spellings of credential files in the canonical resource. A marker
that the decoded resource shows is still there in the canonical one, unless the canonical resource ends
with the directory that the marker names, or the marker was written with backslashes in a resource that
is not read as a path.
-/

namespace Bulldog

/-! ## Segments of a substring -/

namespace Str

theorem contains_iff_infix (s sub : Str) : contains s sub = true ↔ sub <:+: s := by
  rw [contains, List.any_eq_true]
  simp only [List.mem_tails, List.isPrefixOf_iff_prefix]
  rw [List.infix_iff_prefix_suffix]
  exact ⟨fun ⟨t, hsuffix, hprefix⟩ => ⟨t, hprefix, hsuffix⟩,
    fun ⟨t, hprefix, hsuffix⟩ => ⟨t, hsuffix, hprefix⟩⟩

/-- A slash before each of these segments, and one before the beginning of another. -/
def segmentsText (middle : List Str) (last : Str) : Str :=
  middle.foldr (fun segment text => '/' :: segment ++ text) ('/' :: last)

theorem splitOn_segmentsText {middle : List Str} (hmiddle : ∀ segment ∈ middle, '/' ∉ segment)
    (last before after : Str) :
    splitOn '/' (before ++ segmentsText middle last ++ after) =
      splitOn '/' before ++ (middle ++ splitOn '/' (last ++ after)) := by
  induction middle generalizing before with
  | nil =>
    rw [segmentsText, List.foldr_nil, List.append_assoc, List.cons_append, splitOn_append_sep,
      List.nil_append]
  | cons segment middle ih =>
    obtain ⟨hsegment, hmiddle⟩ := List.forall_mem_cons.1 hmiddle
    have htext : before ++ segmentsText (segment :: middle) last ++ after =
        (before ++ '/' :: segment) ++ segmentsText middle last ++ after := by
      simp [segmentsText]
    rw [htext, ih hmiddle, splitOn_append_sep, splitOn_of_not_mem hsegment]
    simp

/-- The first segment of a string that starts with text without a slash. -/
theorem exists_splitOn_append {last : Str} (hlast : '/' ∉ last) (after : Str) :
    ∃ next rest, splitOn '/' (last ++ after) = next :: rest ∧ last <+: next := by
  induction after using sep_induction '/' with
  | part after hafter =>
    refine ⟨last ++ after, [], splitOn_of_not_mem ?_, List.prefix_append _ _⟩
    rw [List.mem_append]
    exact not_or.2 ⟨hlast, hafter⟩
  | cons a b ha =>
    refine ⟨last ++ a, splitOn '/' b, ?_, List.prefix_append _ _⟩
    rw [← List.append_assoc, splitOn_append]
    rw [List.mem_append]
    exact not_or.2 ⟨hlast, ha⟩

/-- Text that spells out some segments and the beginning of another stands in a string exactly where
its segments do, with a segment before them. -/
theorem segmentsText_infix_iff {middle : List Str} (hmiddle : ∀ segment ∈ middle, '/' ∉ segment)
    {last : Str} (hlast : '/' ∉ last) (s : Str) :
    segmentsText middle last <:+: s ↔ ∃ before first next after,
      splitOn '/' s = before ++ [first] ++ (middle ++ next :: after) ∧ last <+: next := by
  constructor
  · rintro ⟨u, v, rfl⟩
    obtain ⟨next, after, hnext, hprefix⟩ := exists_splitOn_append hlast v
    rcases List.eq_nil_or_concat (splitOn '/' u) with hnil | ⟨before, first, hconcat⟩
    · exact absurd hnil (splitOn_ne_nil _ _)
    · refine ⟨before, first, next, after, ?_, hprefix⟩
      rw [splitOn_segmentsText hmiddle, hnext, hconcat, List.concat_eq_append]
  · rintro ⟨before, first, next, after, hsplit, hprefix⟩
    have hparts : ∀ part ∈ before ++ [first] ++ (middle ++ next :: after), '/' ∉ part := by
      rw [← hsplit]
      exact fun part hpart => not_mem_of_mem_splitOn hpart
    have hfront : splitOn '/' (['/'].intercalate (before ++ [first])) = before ++ [first] :=
      splitOn_intercalate (by simp) fun part hpart => hparts part (List.mem_append_left _ hpart)
    have hback : splitOn '/' (['/'].intercalate (next :: after)) = next :: after :=
      splitOn_intercalate (by simp) fun part hpart =>
        hparts part (List.mem_append_right _ (List.mem_append_right _ hpart))
    -- the last segment starts what comes after the others
    have hstart : last <+: ['/'].intercalate (next :: after) := by
      refine hprefix.trans ?_
      rcases after with _ | ⟨other, after⟩
      · simp [List.intercalate]
      · rw [List.intercalate_cons_cons, List.append_assoc]
        exact List.prefix_append _ _
    obtain ⟨v, hv⟩ := hstart
    refine ⟨['/'].intercalate (before ++ [first]), v, ?_⟩
    rw [← intercalate_splitOn '/' s, ← intercalate_splitOn '/' (_ ++ segmentsText middle last ++ v),
      splitOn_segmentsText hmiddle, hfront, hv, hback, hsplit]

end Str

namespace Canonicalizer

/-! ## Markers in a path -/

/-- A marker, in segments: the directories it names, and what the segment after them starts with. -/
def markerSegments : List (List Str × Str) :=
  [([".ssh"], ""), ([".gnupg"], ""), ([".aws"], ""), ([".config", "gcloud"], ""), (["etc"], "shadow"),
    (["etc"], "sudoers")]

theorem sensitiveMarkers_eq :
    sensitiveMarkers = markerSegments.map fun item => Str.segmentsText item.1 item.2 := by
  decide

theorem markerSegments_plain : ∀ item ∈ markerSegments,
    (∀ segment ∈ item.1, '/' ∉ segment) ∧ '/' ∉ item.2 ∧ item.1 ≠ [] := by
  decide

/-- The segments hold a marker: the directories that it names, and a segment after them that starts
as it does. -/
def Names (segments : List Str) : Prop :=
  ∃ item ∈ markerSegments, ∃ before next after,
    segments = before ++ (item.1 ++ next :: after) ∧ item.2 <+: next

/-- A marker stands in a string exactly where its segments stand behind another one. -/
theorem any_marker_iff {s first : Str} {segments : List Str}
    (hsplit : Str.splitOn '/' s = first :: segments) :
    sensitiveMarkers.any (Str.contains s) = true ↔ Names segments := by
  rw [sensitiveMarkers_eq, List.any_map, List.any_eq_true]
  refine exists_congr fun item => and_congr_right fun hitem => ?_
  obtain ⟨hmiddle, hlast, -⟩ := markerSegments_plain item hitem
  rw [Function.comp, Str.contains_iff_infix, Str.segmentsText_infix_iff hmiddle hlast, hsplit]
  constructor
  · rintro ⟨before, x, next, after, heq, hprefix⟩
    rcases before with _ | ⟨y, before⟩
    · rw [List.nil_append, List.singleton_append, List.cons.injEq] at heq
      exact ⟨[], next, after, heq.2, hprefix⟩
    · rw [List.cons_append, List.cons_append, List.cons.injEq] at heq
      exact ⟨before ++ [x], next, after, heq.2, hprefix⟩
  · rintro ⟨before, next, after, rfl, hprefix⟩
    rcases List.eq_nil_or_concat before with rfl | ⟨front, x, rfl⟩
    · exact ⟨[], first, next, after, rfl, hprefix⟩
    · refine ⟨first :: front, x, next, after, ?_, hprefix⟩
      rw [List.concat_eq_append, List.cons_append, List.cons_append]

variable {L : Urllib}

/-- Lower case, segment by segment. -/
theorem splitOn_lower (hrespects : Str.Respects '/' L.unicode.lower)
    (hslash : ∀ s, '/' ∉ s → '/' ∉ L.unicode.lower s) (s : Str) :
    Str.splitOn '/' (L.unicode.lower s) = (Str.splitOn '/' s).map L.unicode.lower := by
  rw [hrespects.splitOn, ← List.flatMap_singleton' (List.map _ _), List.flatMap_map]
  refine List.flatMap_congr fun part hpart => ?_
  exact Str.splitOn_of_not_mem (hslash part (Str.not_mem_of_mem_splitOn hpart))

theorem not_names_singleton (segment : Str) : ¬ Names [segment] := by
  rintro ⟨item, hitem, before, next, after, heq, -⟩
  obtain ⟨-, -, hne⟩ := markerSegments_plain item hitem
  have hlength := congrArg List.length heq
  simp only [List.length_nil, List.length_append, List.length_cons] at hlength
  have := List.length_pos_iff.2 hne
  omega

theorem not_names_nil : ¬ Names [] := by
  rintro ⟨item, -, before, next, after, heq, -⟩
  simp at heq

/-- A normal path shows a marker exactly where its segments do. -/
theorem Normal.any_marker_iff (hrespects : Str.Respects '/' L.unicode.lower)
    (hslash : ∀ s, '/' ∉ s → '/' ∉ L.unicode.lower s) {path : Str} (h : Normal path) :
    sensitiveMarkers.any (Str.contains (L.unicode.lower path)) = true ↔
      Names ((named path).map L.unicode.lower) := by
  have hsplit : Str.splitOn '/' (L.unicode.lower path) =
      L.unicode.lower [] :: (Str.splitOn '/' (['/'].intercalate (named path))).map L.unicode.lower := by
    conv_lhs => rw [h.text, joinPath_root, ← List.nil_append ('/' :: _)]
    rw [splitOn_lower hrespects hslash, Str.splitOn_append_sep, Str.splitOn_of_not_mem (by simp)]
    rfl
  rw [Canonicalizer.any_marker_iff hsplit]
  by_cases hnamed : named path = []
  · rw [hnamed]
    exact iff_of_false (not_names_singleton _) not_names_nil
  · rw [Str.splitOn_intercalate hnamed fun part hpart => (named_spec path part hpart).1]

/-! ## What the second reading keeps -/

/-- The segments after the white space at their end is taken off, with the last one if nothing or a
dot is left of it. -/
def trimmed (segments : List Str) : List Str :=
  segments.dropLast ++ (segments.getLast?.toList.map (Str.rstrip Str.isSpace)).filter
    fun segment => segment ≠ [] ∧ segment ≠ ['.']

theorem named_of_plain {segment : Str} (h : '/' ∉ segment) :
    named segment = [segment].filter fun segment => segment ≠ [] ∧ segment ≠ ['.'] := by
  rw [named, Str.splitOn_of_not_mem h]

/-- Stripping a normal path trims its segments. -/
theorem Normal.named_strip {path : Str} (h : Normal path) :
    named (Str.strip path) = trimmed (named path) := by
  have htext := h.text
  rw [joinPath_root] at htext
  rw [strip_of_rooted h.rooted]
  rcases List.eq_nil_or_concat (named path) with hnil | ⟨init, segment, hconcat⟩
  · rw [hnil] at htext ⊢
    rw [htext]
    decide
  · rw [List.concat_eq_append] at hconcat
    have hsegment : segment ∈ named path := by
      rw [hconcat]
      exact List.mem_append_right _ (List.mem_singleton_self _)
    obtain ⟨hslash, hne, hdot⟩ := named_spec path segment hsegment
    obtain ⟨front, hfront⟩ := exists_slash_last init segment
    rw [hconcat, hfront] at htext
    have hinit : named front = init := by
      have happend := hconcat
      rw [htext, named_append, named_of_not_mem hslash hne hdot] at happend
      exact List.append_cancel_right happend
    have hplain : '/' ∉ Str.rstrip Str.isSpace segment := fun hmem =>
      hslash ((List.rdropWhile_prefix Str.isSpace segment).subset hmem)
    rw [hconcat, htext, rstrip_slash, named_append, hinit, named_of_plain hplain, trimmed,
      List.dropLast_concat, List.getLast?_concat]
    rfl

/-- The capability of a credential goes to the resources with a marker and to the secret operations. -/
theorem capabilityOf_credentialRead_iff {op resource : Str} {capability : Capability}
    (h : capabilityOf L op resource = .ok capability) :
    capability = .credentialRead ↔
      sensitiveMarkers.any (Str.contains (L.unicode.lower resource)) = true ∨
        op ∈ secretOperations := by
  unfold capabilityOf at h
  split_ifs at h with hmarker hsecret
  · exact iff_of_true (Except.ok.inj h).symm (.inl hmarker)
  · exact iff_of_true (Except.ok.inj h).symm (.inr hsecret)
  all_goals
    refine iff_of_false ?_ (not_or.2 ⟨hmarker, hsecret⟩)
    rintro rfl
    try cases h
  -- the network operations are left, which look at the scheme
  obtain ⟨_, -, h⟩ := bind_eq_ok.1 h
  obtain ⟨_, -, h⟩ := bind_eq_ok.1 h
  cases h

/-- The resource shows a marker, in any case and with either slash. -/
def ShowsMarker (L : Urllib) (decoded : Str) : Prop :=
  sensitiveMarkers.any (Str.contains (L.unicode.lower (slashed decoded))) = true

/-- The decoded resource of a proposal. -/
def decodedResource (proposal : Proposal) : Str := (decodeRounds 3 (Str.strip proposal.resource)).1

/-- A marker that both readings keep. In a path, its directories stand before another segment: at the
first reading, after the white space at the end is taken off; for a resource that shows its slash only
once it is decoded, as it is. In another resource it is spelled with slashes. -/
def KeepsMarker (L : Urllib) (proposal : Proposal) : Prop :=
  let decoded := decodedResource proposal
  let stripped := Str.strip decoded
  if ReadsPath L (Str.strip proposal.operation) (Str.strip proposal.resource) then
    Names ((trimmed (named (slashed decoded))).map L.unicode.lower)
  else if stripped.head? = some '/' ∨ stripped.head? = some '\\' then
    Names ((named (slashed stripped)).map L.unicode.lower)
  else sensitiveMarkers.any (Str.contains (L.unicode.lower stripped)) = true

/-- The resource that the capability is derived from shows a marker exactly where the proposal keeps
one. -/
theorem reread_marker_iff (hrespects : Str.Respects '/' L.unicode.lower)
    (hslash : ∀ s, '/' ∉ s → '/' ∉ L.unicode.lower s) {proposal : Proposal} {resource result : Str}
    {operation : Str}
    (hfirst : canonicalizeResource L (Str.strip proposal.operation) (Str.strip proposal.resource) =
      .ok resource)
    (hsecond : canonicalizeResource L operation resource = .ok result) :
    sensitiveMarkers.any (Str.contains (L.unicode.lower result)) = true ↔ KeepsMarker L proposal := by
  have hnul := nul_of_canonicalizeResource hsecond
  obtain ⟨-, hfirst⟩ := canonicalizeResource_eq_ok_iff.1 hfirst
  obtain ⟨-, hsecond⟩ := canonicalizeResource_eq_ok_iff.1 hsecond
  unfold KeepsMarker decodedResource
  dsimp only
  rw [strip_strip] at hfirst
  by_cases hpath : ReadsPath L (Str.strip proposal.operation) (Str.strip proposal.resource)
  · -- a path at the first reading is one at the second
    rw [if_pos hpath] at hfirst ⊢
    have hnormal := normal_of_ok hfirst
    obtain ⟨decoded, hdecoded, -⟩ := canonicalizeFilesystemResource_eq_ok_iff.1 hfirst
    have hnamed := (canonicalForm_of_decoded hfirst hdecoded).named_eq
    rw [(decodeResource_eq_ok hdecoded).1] at hnamed
    rw [if_pos (.inr (.inl (head_strip_of_rooted hnormal.rooted)))] at hsecond
    rw [Normal.any_marker_iff hrespects hslash (normal_of_ok hsecond),
      reread_eq hnormal (plain_of_ok hfirst) hsecond, named_normpath (no_dots_of_ok hsecond),
      Normal.named_strip hnormal, hnamed]
  · rw [if_neg hpath] at hfirst ⊢
    obtain ⟨rfl, hescaped⟩ := decodeResource_eq_ok hfirst
    have hdecode := decodeResource_of_plain
      (fun hmem => hnul (by
        obtain ⟨before, after, hd, -, -⟩ :=
          exists_strip (decodeRounds 3 (Str.strip proposal.resource)).1
        rw [hd]
        exact List.mem_append_left _ (List.mem_append_right _ hmem)))
      (escaped_strip hescaped)
    by_cases hhead : (Str.strip (decodeRounds 3 (Str.strip proposal.resource)).1).head? = some '/' ∨
        (Str.strip (decodeRounds 3 (Str.strip proposal.resource)).1).head? = some '\\'
    · rw [if_pos (.inr hhead)] at hsecond
      rw [if_pos hhead, Normal.any_marker_iff hrespects hslash (normal_of_ok hsecond),
        (canonicalForm_of_decoded hsecond hdecode).named_eq]
    · rw [if_neg hhead]
      split_ifs at hsecond with hreads
      · -- an operation on paths refuses what is no absolute path
        obtain ⟨decoded, hdecoded, -, hrooted, -⟩ :=
          canonicalizeFilesystemResource_eq_ok_iff.1 hsecond
        obtain rfl := Except.ok.inj (hdecode.symm.trans hdecoded)
        obtain ⟨c, hc, hfold⟩ := Option.map_eq_some_iff.1 (List.head?_map.symm.trans hrooted.1)
        split_ifs at hfold with hback
        · exact absurd (.inr (hback ▸ hc)) hhead
        · exact absurd (.inl (hfold ▸ hc)) hhead
      · rw [hdecode] at hsecond
        rw [Except.ok.inj hsecond]

/-- An accepted proposal whose decoded resource shows a marker is classified as the reading of a
credential exactly where its operation is, or where the marker is kept. -/
theorem marker_classified_iff (L : Urllib) (hrespects : Str.Respects '/' L.unicode.lower)
    (hslash : ∀ s, '/' ∉ s → '/' ∉ L.unicode.lower s) (proposal : Proposal)
    (trusted : TrustedExecutionContext) (granted : Finset Capability)
    (parent : Option (Finset Capability)) (action : ActionRequest)
    (h : canonicalizeAction L proposal trusted granted parent = .ok action) :
    (ShowsMarker L (decodedResource proposal) → action.capability = .credentialRead) ↔
      (ShowsMarker L (decodedResource proposal) →
        normalOperation L (Str.strip proposal.operation) ∈ secretOperations ∨
          KeepsMarker L proposal) := by
  simp only [canonicalizeAction, bind_eq_ok, raiseIf_eq_ok] at h
  obtain ⟨-, -, resource, hfirst, capability, hcapability, haction⟩ := h
  obtain rfl := Except.ok.inj haction
  obtain ⟨result, hsecond, hcapability⟩ := bind_eq_ok.1 hcapability
  refine imp_congr_right fun _ => ?_
  rw [capabilityOf_credentialRead_iff hcapability, reread_marker_iff hrespects hslash hfirst hsecond,
    or_comm]

theorem lower_respects : Str.Respects '/' Unicode.ascii.lower := Str.respects_map (by decide)

theorem slash_not_mem_lower (s : Str) (h : '/' ∉ s) : '/' ∉ Unicode.ascii.lower s := by
  intro hmem
  obtain ⟨c, hc, hlower⟩ := List.mem_map.1 hmem
  unfold Char.toLower at hlower
  split_ifs at hlower with hupper
  · -- a letter becomes a letter
    have hnat : (c.val + ('a'.val - 'A'.val)).toNat = '/'.val.toNat :=
      congrArg (fun d : Char => d.val.toNat) hlower
    have hlow : 65 ≤ c.val.toNat := UInt32.le_iff_toNat_le.1 hupper.1
    have hhigh : c.val.toNat ≤ 90 := UInt32.le_iff_toNat_le.1 hupper.2
    have hdiff : ('a'.val - 'A'.val).toNat = 32 := by decide
    have hslash : '/'.val.toNat = 47 := by decide
    rw [UInt32.toNat_add, hdiff, hslash] at hnat
    omega
  · exact h (hlower ▸ hc)

/-- A file in a credential directory, in whatever case. -/
theorem key_file_classified :
    ShowsMarker ⟨.ascii, fun _ => false⟩ (decodedResource ⟨"task", "read", "/home/u/.SSH/id_rsa"⟩) ∧
      (readAction "/home/u/.SSH/id_rsa" .credentialRead).capability = .credentialRead := by
  have h : canonicalizeAction ⟨.ascii, fun _ => false⟩ ⟨"task", "read", "/home/u/.SSH/id_rsa"⟩
      plainContext {.fsReadProject} none =
        .ok (readAction "/home/u/.SSH/id_rsa" .credentialRead) := by
    decide +kernel
  have hshows : ShowsMarker ⟨.ascii, fun _ => false⟩
      (decodedResource ⟨"task", "read", "/home/u/.SSH/id_rsa"⟩) := by
    unfold ShowsMarker
    decide +kernel
  refine ⟨hshows, (marker_classified_iff ⟨.ascii, fun _ => false⟩ lower_respects slash_not_mem_lower _ _
    _ _ _ h).2 (fun _ => .inr ?_) hshows⟩
  unfold KeepsMarker
  rw [if_pos (by decide +kernel)]
  exact ⟨([".ssh"], ""), by decide, ["home", "u"], "id_rsa", [], by decide +kernel, List.nil_prefix⟩

/-- The directory itself: its marker ends in a slash that normalising takes away. -/
theorem key_directory_not_classified :
    canonicalizeAction ⟨.ascii, fun _ => false⟩ ⟨"task", "read", "/home/u/.ssh/"⟩ plainContext
        {.fsReadProject} none = .ok (readAction "/home/u/.ssh" .fsReadHome) ∧
      ShowsMarker ⟨.ascii, fun _ => false⟩ (decodedResource ⟨"task", "read", "/home/u/.ssh/"⟩) ∧
      (readAction "/home/u/.ssh" .fsReadHome).capability ≠ .credentialRead := by
  refine ⟨by decide +kernel, ?_, by decide⟩
  unfold ShowsMarker
  decide +kernel

end Canonicalizer

end Bulldog
