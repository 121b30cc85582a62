import Bulldog.Lib.Paths

/-!
# Adding a line to a text file

A text file is a list of lines that are ended by a line break and, where its last character is none,
an open line. A line that is written at the end of the file continues the open line, and whether
that matters depends on what `strip` leaves of it.
-/

namespace Bulldog.Str

/-- The lines that are ended by a line break. -/
def closedLines (s : Str) : List Str := (splitOn '\n' (universalNewlines s)).dropLast

/-- What stands after the last line break. -/
def openLine (s : Str) : Str := (splitOn '\n' (universalNewlines s)).getLastD []

theorem splitOn_eq (sep : Char) (s : Str) :
    splitOn sep s = (splitOn sep s).dropLast ++ [(splitOn sep s).getLastD []] := by
  induction s using sep_induction sep with
  | part s hs => rw [splitOn_of_not_mem hs]; rfl
  | cons a b ha ih =>
    rw [splitOn_append ha]
    rcases hb : splitOn sep b with _ | ⟨c, cs⟩
    · rw [hb] at ih
      cases ih
    · rw [hb] at ih
      rw [List.dropLast_cons_of_ne_nil (List.cons_ne_nil _ _), List.getLastD_cons, List.getLastD_cons,
        List.cons_append]
      rw [List.getLastD_cons] at ih
      exact congrArg (a :: ·) ih

/-- Text without a separator continues the last part. -/
theorem splitOn_append_last {sep : Char} {t : Str} (ht : sep ∉ t) (s : Str) :
    splitOn sep (s ++ t) = (splitOn sep s).dropLast ++ [(splitOn sep s).getLastD [] ++ t] := by
  induction s using sep_induction sep with
  | part s hs =>
    rw [splitOn_of_not_mem hs, splitOn_of_not_mem]
    · rfl
    · exact fun h => (List.mem_append.1 h).elim hs ht
  | cons a b ha ih =>
    rw [List.append_assoc, List.cons_append, splitOn_append ha, splitOn_append ha, ih]
    rcases hb : splitOn sep b with _ | ⟨c, cs⟩
    · have hne := splitOn_eq sep b
      rw [hb] at hne
      cases hne
    · rw [List.dropLast_cons_of_ne_nil (List.cons_ne_nil _ _), List.getLastD_cons, List.getLastD_cons,
        List.getLastD_cons, List.cons_append]

theorem universalNewlines_append (s : Str) {t : Str} (h : t.head? ≠ some '\n') :
    universalNewlines (s ++ t) = universalNewlines s ++ universalNewlines t := by
  induction s with
  | nil => rfl
  | cons c s ih =>
    rw [List.cons_append, universalNewlines, universalNewlines, ih]
    have hhead : (s ++ t).head? = some '\n' ↔ s.head? = some '\n' := by
      rcases s with _ | ⟨d, s⟩
      · simp [h]
      · simp
    simp only [hhead]
    split_ifs <;> rfl

theorem lines_eq (s : Str) :
    lines s = if openLine s = [] then closedLines s else closedLines s ++ [openLine s] := by
  rw [lines, splitOn_eq, List.reverse_append, ← closedLines, ← openLine]
  rcases hopen : openLine s with _ | ⟨c, cs⟩
  · simp
  · simp

/-- A line that is written at the end of a file continues its open line. -/
theorem lines_append_line (s : Str) {t : Str} (hne : t ≠ []) (hn : '\n' ∉ t) (hr : '\r' ∉ t) :
    lines (s ++ (t ++ ['\n'])) = closedLines s ++ [openLine s ++ t] := by
  have hhead : (t ++ ['\n']).head? ≠ some '\n' := by
    rcases t with _ | ⟨c, t⟩
    · exact (hne rfl).elim
    · simp only [List.cons_append, List.head?_cons, ne_eq, Option.some.injEq]
      rintro rfl
      exact hn List.mem_cons_self
  have hcr : '\r' ∉ t ++ ['\n'] := fun h =>
    (List.mem_append.1 h).elim hr fun h => absurd (List.mem_singleton.1 h) (by decide)
  have hsplit : splitOn '\n' (universalNewlines (s ++ (t ++ ['\n']))) =
      closedLines s ++ [openLine s ++ t] ++ [[]] := by
    rw [universalNewlines_append s hhead, universalNewlines_eq hcr, ← List.append_assoc,
      splitOn_append_sep, splitOn_append_last hn]
    rfl
  rw [lines, hsplit, List.reverse_append]
  simp

/-- So does text without a line break. -/
theorem lines_append_open (s : Str) {t : Str} (hne : t ≠ []) (hn : '\n' ∉ t) (hr : '\r' ∉ t) :
    lines (s ++ t) = closedLines s ++ [openLine s ++ t] := by
  have hhead : t.head? ≠ some '\n' := fun h => hn (List.mem_of_mem_head? h)
  have hsplit : splitOn '\n' (universalNewlines (s ++ t)) = closedLines s ++ [openLine s ++ t] := by
    rw [universalNewlines_append s hhead, universalNewlines_eq hr, splitOn_append_last hn]
    rfl
  rw [lines, hsplit, List.reverse_append]
  rcases hopen : openLine s ++ t with _ | ⟨c, cs⟩
  · exact (hne (List.append_eq_nil_iff.1 hopen).2).elim
  · simp

/-- A whole line at the end leaves no line open. -/
theorem openLine_append_line (s : Str) : openLine (s ++ ['\n']) = [] := by
  have hlast : ∀ s : Str, (universalNewlines (s ++ ['\n'])).getLast? = some '\n' := by
    intro s
    induction s with
    | nil => rfl
    | cons c s ih =>
      have hne : universalNewlines (s ++ ['\n']) ≠ [] := by
        intro hnil
        rw [hnil] at ih
        cases ih
      rw [List.cons_append, universalNewlines]
      split_ifs
      · exact ih
      · rw [List.getLast?_cons_of_ne_nil hne, ih]
      · rw [List.getLast?_cons_of_ne_nil hne, ih]
  obtain ⟨u, hu⟩ := List.getLast?_eq_some_iff.1 (hlast s)
  rw [openLine, hu, splitOn_append_sep]
  simp [splitOn]

/-! ## Blanks -/

theorem strip_eq_nil {s : Str} : strip s = [] ↔ ∀ c ∈ s, isSpace c = true := by
  rw [strip, rstrip, List.rdropWhile_eq_nil_iff]
  constructor
  · intro h
    rcases hs : s.dropWhile isSpace with _ | ⟨c, t⟩
    · exact List.dropWhile_eq_nil_iff.1 hs
    · have hc := List.dropWhile_get_zero_not isSpace s (by rw [hs]; simp)
      have := h c (by rw [hs]; simp)
      simp [hs, this] at hc
  · intro h c hc
    exact h c ((List.dropWhile_sublist _).subset hc)

theorem strip_append_blank {s : Str} (h : strip s = []) (t : Str) : strip (s ++ t) = strip t := by
  rw [strip, strip, List.dropWhile_append, List.dropWhile_eq_nil_iff.2 (strip_eq_nil.1 h)]
  rfl

/-- What is left of a string keeps its place in front of text that ends in no white space. -/
theorem strip_append {s : Str} (h : strip s ≠ []) (t : Str) {d : Char} (hd : isSpace d = false) :
    ∃ ws, strip (s ++ (t ++ [d])) = strip s ++ (ws ++ (t ++ [d])) := by
  have hne : s.dropWhile isSpace ≠ [] := by
    intro hnil
    rw [strip, hnil] at h
    exact h rfl
  obtain ⟨ws, hws⟩ : ∃ ws, s.dropWhile isSpace = strip s ++ ws := by
    obtain ⟨ws, hws⟩ := List.rdropWhile_prefix isSpace (s.dropWhile isSpace)
    exact ⟨ws, hws.symm⟩
  refine ⟨ws, ?_⟩
  rw [strip, List.dropWhile_append, if_neg (by simpa using hne), hws, rstrip, ← List.append_assoc,
    List.rdropWhile_concat_neg _ _ _ (by simp [hd])]
  simp

end Bulldog.Str

namespace Bulldog

/-- Bytes that decode are the encoding of the text. -/
theorem encodeUtf8_of_decodeUtf8 {b : Bytes} {s : Str} (h : decodeUtf8 b = some s) :
    encodeUtf8 s = b := by
  obtain ⟨a, ha, rfl⟩ := Option.map_eq_some_iff.1 h
  have hutf := ByteArray.utf8Encode_get_utf8Decode? (b := b.toByteArray) (h := by rw [ha]; rfl)
  simp only [ha, Option.get_some] at hutf
  have hbytes : (encodeUtf8 a.toList).toByteArray = b.toByteArray := hutf
  have := congrArg (fun x => x.data.toList) hbytes
  simpa using this

end Bulldog
