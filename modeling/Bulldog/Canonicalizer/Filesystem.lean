import Mathlib
import Bulldog.Containment

/-!
# The canonical form of a path

What `canonicalize_filesystem_resource` returns is a path in canonical form: its segments are those
of the decoded resource, less the empty ones and the dots, and it is its own canonical form. A
resource that shows a `..` at any depth of its encoding is refused: decoding never joins what a
slash or a backslash separates, so a segment that is `..` once is `..` from then on.
-/

namespace Bulldog.Canonicalizer

/-! ## Repeated decoding -/

/-- The rounds are so many decodings. -/
theorem decodeRounds_eq_iterate (n : ℕ) (value : Str) :
    ∃ k, (decodeRounds n value).1 = unquote^[k] value := by
  induction n generalizing value with
  | zero => exact ⟨0, rfl⟩
  | succ n ih =>
    rw [decodeRounds]
    split_ifs
    · exact ⟨0, rfl⟩
    · obtain ⟨k, hk⟩ := ih (unquote value)
      exact ⟨k + 1, hk⟩

/-- Once a string has no escape left, decoding is done. -/
theorem iterate_unquote_of_le {value : Str} {k n : ℕ}
    (h : unquote (unquote^[k] value) = unquote^[k] value) (hle : k ≤ n) :
    unquote^[n] value = unquote^[k] value := by
  obtain ⟨m, rfl⟩ := Nat.exists_eq_add_of_le hle
  rw [Nat.add_comm, Function.iterate_add_apply]
  exact Function.iterate_fixed h m

/-- A segment of the resource, with slashes for backslashes, is `..`. -/
def ShowsDots (s : Str) : Prop := "..".toList ∈ Str.splitOn '/' (slashed s)

theorem slashed_append_separator {sep : Char} (hsep : sep = '/' ∨ sep = '\\') (a b : Str) :
    slashed (a ++ sep :: b) = slashed a ++ '/' :: slashed b := by
  have hfold : (if sep = '\\' then '/' else sep) = '/' := by
    rcases hsep with rfl | rfl <;> decide
  rw [slashed, List.map_append, List.map_cons, hfold]
  rfl

theorem showsDots_append {sep : Char} (hsep : sep = '/' ∨ sep = '\\') (a b : Str) :
    ShowsDots (a ++ sep :: b) ↔ ShowsDots a ∨ ShowsDots b := by
  unfold ShowsDots
  rw [slashed_append_separator hsep, Str.splitOn_append_sep, List.mem_append]

/-- Decoding leaves a `..` where it is. -/
theorem ShowsDots.decoded {s : Str} (h : ShowsDots s) : ShowsDots (unquote s) := by
  induction hn : s.length using Nat.strong_induction_on generalizing s with
  | _ n ih =>
    by_cases hs : ∃ sep ∈ s, sep = '/' ∨ sep = '\\'
    · obtain ⟨sep, hmem, hsep⟩ := hs
      obtain ⟨a, b, rfl⟩ := List.append_of_mem hmem
      have hseparator : Separator sep := by
        rcases hsep with rfl | rfl
        · exact separator_slash
        · exact separator_backslash
      rw [List.length_append, List.length_cons] at hn
      rw [unquote_respects hseparator, showsDots_append hsep]
      rcases (showsDots_append hsep a b).1 h with ha | hb
      · exact .inl (ih a.length (by omega) ha rfl)
      · exact .inr (ih b.length (by omega) hb rfl)
    · -- Without separators the resource is one segment, and `..` has nothing to decode.
      have hback : '\\' ∉ s := fun hmem => hs ⟨_, hmem, .inr rfl⟩
      have hslash : '/' ∉ s := fun hmem => hs ⟨_, hmem, .inl rfl⟩
      rw [ShowsDots, slashed_of_not_mem hback, Str.splitOn_of_not_mem hslash,
        List.mem_singleton] at h
      subst h
      unfold ShowsDots
      decide

theorem ShowsDots.iterate {s : Str} (h : ShowsDots s) (n : ℕ) : ShowsDots (unquote^[n] s) := by
  induction n with
  | zero => exact h
  | succ n ih =>
    rw [Function.iterate_succ_apply']
    exact ih.decoded

variable {L : Urllib}

/-! ## What is accepted -/

/-- An ASCII control character. -/
def isControl (c : Char) : Bool := c.toNat < 0x20 || c.toNat == 0x7f

/-- Exactly what `canonicalize_filesystem_resource` accepts, and what it returns. -/
theorem canonicalizeFilesystemResource_eq_ok_iff {resource path : Str} :
    canonicalizeFilesystemResource L resource = .ok path ↔
      ∃ decoded, decodeResource resource = .ok decoded ∧ rejectFolding L decoded = .ok () ∧
        Rooted (slashed decoded) ∧ (slashed decoded).any isControl = false ∧ ¬ ShowsDots decoded ∧
        path = normpath (slashed decoded) ∧ Rooted path := by
  simp only [canonicalizeFilesystemResource, bind_eq_ok, raiseIf_eq_ok]
  constructor
  · rintro ⟨decoded, hdecoded, _, hfolding, -, hslashes, -, hcontrol, -, habsolute, -, hdots, -,
      hslashes', -, habsolute', hpath⟩
    obtain rfl : normpath (slashed decoded) = path := Except.ok.inj hpath
    exact ⟨decoded, hdecoded, hfolding, ⟨not_not.1 habsolute, hslashes⟩,
      Bool.eq_false_iff.2 hcontrol, hdots, rfl, not_not.1 habsolute', hslashes'⟩
  · rintro ⟨decoded, hdecoded, hfolding, ⟨habsolute, hslashes⟩, hcontrol, hdots, rfl, habsolute',
      hslashes'⟩
    exact ⟨decoded, hdecoded, (), hfolding, (), hslashes, (), Bool.eq_false_iff.1 hcontrol, (),
      not_not.2 habsolute, (), hdots, (), hslashes', (), not_not.2 habsolute', rfl⟩

/-- A string without NUL and escapes is its own decoding. -/
theorem decodeResource_of_plain {value : Str} (hnul : '\x00' ∉ value)
    (hplain : escaped value = false) : decodeResource value = .ok value := by
  have hfix := (unquote_eq_self_iff value).2 hplain
  have hrounds : decodeRounds 3 value = (value, true) := by rw [decodeRounds, if_pos hfix]
  simp only [decodeResource, bind_eq_ok, raiseIf_eq_ok, hrounds]
  exact ⟨(), hnul, (), by simp, rfl⟩

/-! ## The form -/

/-- The canonical form of a decoded resource: a slash, then its segments less the empty ones and the
dots, with one slash between them. -/
structure CanonicalForm (decoded path : Str) : Prop where
  text : path = '/' :: ['/'].intercalate (named (slashed decoded))
  segments : ∀ segment ∈ named (slashed decoded),
    '/' ∉ segment ∧ segment ≠ [] ∧ segment ≠ ".".toList ∧ segment ≠ "..".toList
  backslash : '\\' ∉ path
  control : path.any isControl = false
  plain : unquote path = path

/-- A character of a canonical path is a slash or a character of the decoded resource. -/
theorem CanonicalForm.mem {decoded path : Str} (h : CanonicalForm decoded path) {c : Char}
    (hc : c ∈ path) : c = '/' ∨ c ∈ decoded := by
  by_cases hslash : c = '/'
  · exact .inl hslash
  right
  have hparts : ∃ segment ∈ named (slashed decoded), c ∈ segment := by
    rw [h.text, List.mem_cons, or_iff_right hslash] at hc
    by_cases hnamed : named (slashed decoded) = []
    · rw [hnamed] at hc
      cases hc
    · rwa [Str.mem_splitOn hslash, Str.splitOn_intercalate hnamed
        fun segment hsegment => (h.segments segment hsegment).1] at hc
  obtain ⟨segment, hsegment, hmem⟩ := hparts
  have hslashed : c ∈ slashed decoded :=
    (Str.mem_splitOn hslash).2 ⟨segment, (mem_named.1 hsegment).1, hmem⟩
  obtain ⟨d, hd, hfold⟩ := List.mem_map.1 hslashed
  split_ifs at hfold
  · exact absurd hfold.symm hslash
  · rwa [← hfold]

/-- The named segments of a canonical path are those of the decoded resource. -/
theorem CanonicalForm.named_eq {decoded path : Str} (h : CanonicalForm decoded path) :
    named path = named (slashed decoded) := by
  rw [h.text, named_slash, named_intercalate]
  exact fun segment hsegment =>
    ⟨(h.segments segment hsegment).1, (h.segments segment hsegment).2.1,
      (h.segments segment hsegment).2.2.1⟩

theorem CanonicalForm.no_dots {decoded path : Str} (h : CanonicalForm decoded path) :
    "..".toList ∉ Str.splitOn '/' path := by
  intro hmem
  have hnamed : "..".toList ∈ named path := mem_named.2 ⟨hmem, by decide, by decide⟩
  rw [h.named_eq] at hnamed
  exact (h.segments _ hnamed).2.2.2 rfl

/-- What is accepted is returned in the canonical form of its decoding. -/
theorem canonicalForm_of_decoded {resource decoded path : Str}
    (h : canonicalizeFilesystemResource L resource = .ok path)
    (hdecoded : decodeResource resource = .ok decoded) : CanonicalForm decoded path := by
  have hplain := plain_of_ok h
  have hnormal := normal_of_ok h
  obtain ⟨decoded', hdecoded', -, hrooted, hcontrol, hdots, hpath, -⟩ :=
    canonicalizeFilesystemResource_eq_ok_iff.1 h
  obtain rfl : decoded = decoded' := Except.ok.inj (hdecoded.symm.trans hdecoded')
  have hnamed : named path = named (slashed decoded) := by rw [hpath, named_normpath hdots]
  refine ⟨?_, ?_, hplain.2, ?_, (unquote_eq_self_iff _).2 hplain.1⟩
  · rw [← hnamed]
    exact hnormal.text
  · intro segment hsegment
    obtain ⟨hslash, hne, hdot⟩ := named_spec _ segment hsegment
    refine ⟨hslash, hne, hdot, ?_⟩
    rintro rfl
    exact hdots (mem_named.1 hsegment).1
  · rw [List.any_eq_false]
    intro c hc hctrl
    have hc₀ : c ≠ '/' := by
      rintro rfl
      exact absurd hctrl (by decide)
    have hc₁ : c ≠ '.' := by
      rintro rfl
      exact absurd hctrl (by decide)
    rw [hpath, mem_normpath hc₀ hc₁ hdots] at hc
    exact List.any_eq_false.1 hcontrol c hc hctrl

/-- What `_decode_resource` returns is the resource, decoded until nothing is left to decode. -/
theorem decodeResource_eq_iterate {value decoded : Str} (h : decodeResource value = .ok decoded) :
    ∃ k, decoded = unquote^[k] value ∧ unquote (unquote^[k] value) = unquote^[k] value := by
  obtain ⟨hrounds, hescaped⟩ := decodeResource_eq_ok h
  obtain ⟨k, hk⟩ := decodeRounds_eq_iterate 3 value
  have hdecoded : decoded = unquote^[k] value := hrounds.trans hk
  refine ⟨k, hdecoded, ?_⟩
  rw [← hdecoded]
  exact (unquote_eq_self_iff _).2 hescaped

/-- A canonical path that passes the NFKC check is its own canonical form. -/
theorem canonicalizeFilesystemResource_fixed {resource path : Str}
    (h : canonicalizeFilesystemResource L resource = .ok path)
    (hfolding : rejectFolding L path = .ok ()) :
    canonicalizeFilesystemResource L path = .ok path := by
  have hplain := plain_of_ok h
  have hnormal := normal_of_ok h
  obtain ⟨decoded, hdecoded, -⟩ := canonicalizeFilesystemResource_eq_ok_iff.1 h
  have hform := canonicalForm_of_decoded h hdecoded
  have hslashed : slashed path = path := slashed_of_not_mem hplain.2
  have hnul : '\x00' ∉ path := fun hmem =>
    List.any_eq_false.1 hform.control _ hmem (by decide)
  have hdots : ¬ ShowsDots path := by
    rw [ShowsDots, hslashed]
    exact hform.no_dots
  have hnormpath : path = normpath path := by
    rw [normpath_eq hform.no_dots, hnormal.rooted.leadingSlashes]
    exact hnormal.text
  rw [canonicalizeFilesystemResource_eq_ok_iff]
  refine ⟨path, decodeResource_of_plain hnul hplain.1, hfolding, ?_⟩
  rw [hslashed]
  exact ⟨hnormal.rooted, hform.control, hdots, hnormpath, hnormal.rooted⟩

/-- `canonicalize_filesystem_resource` returns the canonical form of what it accepts, which it maps
to itself, and refuses every resource that shows a `..` after some number of decodings. -/
theorem filesystem_canonical_form (L : Urllib) (ambiguous : Char → Prop)
    (hslash : ¬ ambiguous '/')
    (hfolding : ∀ value, rejectFolding L value = .ok () ↔ ∀ c ∈ value, ¬ ambiguous c)
    (resource : Str) :
    (∀ path, canonicalizeFilesystemResource L resource = .ok path →
      (∃ n, unquote (unquote^[n] resource) = unquote^[n] resource ∧
        CanonicalForm (unquote^[n] resource) path) ∧
      canonicalizeFilesystemResource L path = .ok path) ∧
    ∀ n, ShowsDots (unquote^[n] resource) →
      ∀ path, canonicalizeFilesystemResource L resource ≠ .ok path := by
  constructor
  · intro path hok
    obtain ⟨decoded, hdecoded, hpasses, -⟩ := canonicalizeFilesystemResource_eq_ok_iff.1 hok
    have hform := canonicalForm_of_decoded hok hdecoded
    have hpath : rejectFolding L path = .ok () := by
      rw [hfolding] at hpasses ⊢
      intro c hc
      rcases hform.mem hc with rfl | hmem
      · exact hslash
      · exact hpasses c hmem
    obtain ⟨k, rfl, hfixed⟩ := decodeResource_eq_iterate hdecoded
    exact ⟨⟨k, hfixed, hform⟩, canonicalizeFilesystemResource_fixed hok hpath⟩
  · intro n hdots path hok
    obtain ⟨decoded, hdecoded, -, -, -, hclean, -⟩ := canonicalizeFilesystemResource_eq_ok_iff.1 hok
    obtain ⟨k, rfl, hfixed⟩ := decodeResource_eq_iterate hdecoded
    rcases Nat.le_total n k with hle | hle
    · -- decoding on leaves the `..` in place
      obtain ⟨m, rfl⟩ := Nat.exists_eq_add_of_le' hle
      rw [Function.iterate_add_apply] at hclean
      exact hclean (hdots.iterate m)
    · rw [iterate_unquote_of_le hfixed hle] at hdots
      exact hclean hdots

/-- A path with an encoded slash, a backslash, an empty segment and a dot. -/
theorem encoded_path_canonical :
    (∀ value, rejectFolding ⟨.ascii, fun _ => false⟩ value = .ok ()) ∧
    canonicalizeFilesystemResource ⟨.ascii, fun _ => false⟩ "/workspace//a%252Fb/./c\\d" =
      .ok "/workspace/a/b/c/d" ∧
    canonicalizeFilesystemResource ⟨.ascii, fun _ => false⟩ "/workspace/a/b/c/d" =
      .ok "/workspace/a/b/c/d" := by
  have hpasses : ∀ value, rejectFolding ⟨.ascii, fun _ => false⟩ value = .ok () := by
    intro value
    rw [rejectFolding, raiseIf_eq_ok]
    exact fun h => h.1 rfl
  have hok : canonicalizeFilesystemResource ⟨.ascii, fun _ => false⟩ "/workspace//a%252Fb/./c\\d" =
      .ok "/workspace/a/b/c/d" := by decide +kernel
  refine ⟨hpasses, hok, ?_⟩
  exact ((filesystem_canonical_form ⟨.ascii, fun _ => false⟩ (fun _ => False) id
    (fun value => ⟨fun _ _ _ => id, fun _ => hpasses value⟩) _).1 _ hok).2

end Bulldog.Canonicalizer
