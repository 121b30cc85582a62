import Bulldog.Lib.Text

/-!
# Lines by every line boundary

`str.splitlines()` ends a line at more characters than a line feed: at every line boundary of Unicode, and at a
carriage return with the line feed after it. Lines that have none of them are read back from the text that joins
them with line feeds.
-/

namespace Bulldog.Str

/-- The characters at which `str.splitlines` ends a line. -/
def isLineBoundary (c : Char) : Bool :=
  let n := c.toNat
  (10 ≤ n && n ≤ 13) || (0x1c ≤ n && n ≤ 0x1e) || n == 0x85 || n == 0x2028 || n == 0x2029

/-- `s.splitlines()`, with the line that is open. -/
def splitlines (line : Str) : Str → List Str
  | [] => if line = [] then [] else [line]
  | '\r' :: '\n' :: s => line :: splitlines [] s
  | c :: s => if isLineBoundary c then line :: splitlines [] s else splitlines (line ++ [c]) s

/-- No character of a text ends a line. -/
def OneLine (s : Str) : Prop := ∀ c ∈ s, isLineBoundary c = false

instance (s : Str) : Decidable (OneLine s) := List.decidableBAll (fun c => isLineBoundary c = false) s

theorem OneLine.append {s t : Str} (hs : OneLine s) (ht : OneLine t) : OneLine (s ++ t) := fun c hc =>
  (List.mem_append.1 hc).elim (hs c) (ht c)

theorem splitlines_line {t : Str} (ht : OneLine t) (line s : Str) :
    splitlines line (t ++ '\n' :: s) = (line ++ t) :: splitlines [] s := by
  induction t generalizing line with
  | nil =>
    rw [List.append_nil, List.nil_append, splitlines]
    · exact if_pos (by decide)
    · rintro _ ⟨⟩
  | cons c t ih =>
    have hc : isLineBoundary c = false := ht c List.mem_cons_self
    rw [List.cons_append, splitlines]
    · rw [hc, if_neg Bool.false_ne_true, ih (fun c hc => ht c (List.mem_cons_of_mem _ hc)), List.append_assoc]
      rfl
    · rintro s rfl
      exact absurd hc (by decide)

/-- Lines are read back from the text that joins them. -/
theorem splitlines_unlines {ls : List Str} (h : ∀ l ∈ ls, OneLine l) :
    splitlines [] (ls.flatMap (· ++ ['\n'])) = ls := by
  induction ls with
  | nil => rfl
  | cons l ls ih =>
    rw [List.flatMap_cons, List.append_assoc, List.singleton_append, splitlines_line (h l List.mem_cons_self),
      ih fun l hl => h l (List.mem_cons_of_mem _ hl)]
    rfl

/-- `sep.join(ls) + sep` for a line feed. -/
theorem intercalate_append {ls : List Str} (hne : ls ≠ []) :
    List.intercalate ['\n'] ls ++ ['\n'] = ls.flatMap (· ++ ['\n']) := by
  induction ls with
  | nil => exact absurd rfl hne
  | cons l ls ih =>
    rcases ls with _ | ⟨m, ls⟩
    · simp
    · rw [List.intercalate_cons_cons, List.append_assoc, List.append_assoc, ih (List.cons_ne_nil _ _),
        List.flatMap_cons (x := l), List.append_assoc]

end Bulldog.Str
