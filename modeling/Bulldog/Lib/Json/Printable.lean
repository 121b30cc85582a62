import Bulldog.Lib.Json.RoundTrip

/-!
# The characters of written JSON

With `ensure_ascii` a written value is printable ASCII, so it has no line break, and an object
starts and ends with its braces.
-/

namespace Bulldog

/-- Printable ASCII. -/
def Printable (s : Str) : Prop := ∀ c ∈ s, 0x20 ≤ c.toNat ∧ c.toNat < 0x7f

/-- A concrete text is tested character by character. -/
theorem printable_of_all {s : Str} (h : s.all (fun c => 0x20 ≤ c.toNat && c.toNat < 0x7f) = true) :
    Printable s := fun c hc => by
  simpa using List.all_eq_true.1 h c hc

theorem printable_nil : Printable [] := by simp [Printable]

theorem printable_append {s t : Str} : Printable (s ++ t) ↔ Printable s ∧ Printable t :=
  List.forall_mem_append

theorem printable_cons {c : Char} {s : Str} :
    Printable (c :: s) ↔ (0x20 ≤ c.toNat ∧ c.toNat < 0x7f) ∧ Printable s :=
  List.forall_mem_cons

theorem printable_of_isDigit {s : Str} (h : ∀ c ∈ s, c.isDigit = true) : Printable s := by
  intro c hc
  have hd := h c hc
  simp only [Char.isDigit, Bool.and_eq_true, decide_eq_true_eq] at hd
  have h₁ : 48 ≤ c.toNat := hd.1
  have h₂ : c.toNat ≤ 57 := hd.2
  omega

theorem printable_digits (n : ℕ) : Printable (Nat.toDigits 10 n) :=
  printable_of_isDigit fun c hc => Nat.isDigit_of_mem_toDigits (by omega) (by omega) hc

theorem printable_renderInt (i : ℤ) : Printable (renderInt i) := by
  unfold renderInt
  split_ifs
  · exact printable_cons.2 ⟨by decide, printable_digits _⟩
  · exact printable_digits _

theorem printable_digitChar {n : ℕ} (h : n < 16) :
    0x20 ≤ (Nat.digitChar n).toNat ∧ (Nat.digitChar n).toNat < 0x7f := by
  have hall : ∀ n < 16, 0x20 ≤ (Nat.digitChar n).toNat ∧ (Nat.digitChar n).toNat < 0x7f := by decide
  exact hall n h

theorem printable_unicodeEscape (n : ℕ) : Printable (unicodeEscape n) := by
  simp only [unicodeEscape, printable_cons]
  exact ⟨by decide, by decide, printable_digitChar (by omega), printable_digitChar (by omega),
    printable_digitChar (by omega), printable_digitChar (by omega), printable_nil⟩

theorem printable_escapeChar (c : Char) : Printable (escapeChar true c) := by
  have hpair : ∀ d : Char, 0x20 ≤ d.toNat ∧ d.toNat < 0x7f → Printable ['\\', d] := fun d hd =>
    printable_cons.2 ⟨by decide, printable_cons.2 ⟨hd, printable_nil⟩⟩
  unfold escapeChar
  split_ifs with h1 h2 h3 h4 h5 h6 h7 h8 h9
  · exact hpair _ (by decide)
  · exact hpair _ (by decide)
  · exact hpair _ (by decide)
  · exact hpair _ (by decide)
  · exact hpair _ (by decide)
  · exact hpair _ (by decide)
  · exact hpair _ (by decide)
  · exact printable_unicodeEscape _
  · have hlt : c.toNat < 0x7f := by simpa using h9
    exact printable_cons.2 ⟨⟨by omega, hlt⟩, printable_nil⟩
  · exact printable_unicodeEscape _
  · exact printable_append.2 ⟨printable_unicodeEscape _, printable_unicodeEscape _⟩

theorem printable_renderStr (s : Str) : Printable (renderStr true s) := by
  rw [renderStr, List.cons_append]
  refine printable_cons.2 ⟨by decide, printable_append.2 ⟨fun c hc => ?_, ?_⟩⟩
  · obtain ⟨d, -, hd⟩ := List.mem_flatMap.1 hc
    exact printable_escapeChar d c hd
  · exact printable_cons.2 ⟨by decide, printable_nil⟩

/-! ## Number tokens -/

theorem printable_takeWhile_isDigit (s : Str) : Printable (s.takeWhile Char.isDigit) :=
  printable_of_isDigit fun _ hc => List.mem_takeWhile_imp hc

theorem printable_scanMinus (s : Str) : Printable (scanMinus s).1 := by
  unfold scanMinus
  split
  · exact printable_nil
  · split_ifs with hc
    · exact printable_cons.2 ⟨by rw [hc]; decide, printable_nil⟩
    · exact printable_nil

theorem printable_scanInt {s ds r : Str} (h : scanInt s = some (ds, r)) : Printable ds := by
  unfold scanInt at h
  split at h
  · cases h
  · split_ifs at h with h0 hd
    · cases h
      exact printable_cons.2 ⟨by decide, printable_nil⟩
    · cases h
      refine printable_of_isDigit fun x hx => ?_
      rcases List.mem_cons.1 hx with rfl | hx
      · exact hd
      · exact List.mem_takeWhile_imp hx

theorem printable_scanFrac (s : Str) : Printable (scanFrac s).1 := by
  unfold scanFrac
  split
  · exact printable_nil
  · split_ifs with hc
    · exact printable_cons.2 ⟨by rw [hc.1]; decide, printable_takeWhile_isDigit _⟩
    · exact printable_nil

theorem printable_scanSign (s : Str) : Printable (scanSign s).1 := by
  unfold scanSign
  split
  · exact printable_nil
  · split_ifs with hc
    · refine printable_cons.2 ⟨?_, printable_nil⟩
      rcases hc with rfl | rfl <;> decide
    · exact printable_nil

theorem printable_scanExp (s : Str) : Printable (scanExp s).1 := by
  unfold scanExp
  split
  · exact printable_nil
  · split_ifs with hc
    · rw [List.cons_append]
      refine printable_cons.2 ⟨?_, printable_append.2
        ⟨printable_scanSign _, printable_takeWhile_isDigit _⟩⟩
      rcases hc.1 with rfl | rfl <;> decide
    · exact printable_nil

theorem printable_floatToken {s : Str} (h : IsFloatToken s) : Printable s := by
  obtain ⟨sign, ds, fe, hscan, -, rfl⟩ := h
  obtain ⟨⟨ds', r⟩, hint, heq⟩ := Option.map_eq_some_iff.1 hscan
  simp only [Prod.mk.injEq] at heq
  obtain ⟨hsign, rfl, hfe, -⟩ := heq
  rw [← hsign, ← hfe]
  exact printable_append.2 ⟨printable_append.2 ⟨printable_scanMinus _, printable_scanInt hint⟩,
    printable_append.2 ⟨printable_scanFrac _, printable_scanExp _⟩⟩

/-! ## Values -/

section Values

variable {F : Type} [PyFloat F]

theorem printable_text (f : F) : Printable (PyFloat.text f) := by
  by_cases hf : PyFloat.finite f = true
  · exact printable_floatToken (PyFloat.text_token f hf)
  · rcases PyFloat.special f (by simpa using hf) with rfl | rfl | rfl
    · rw [PyFloat.text_nan]; exact printable_of_all (by decide)
    · rw [PyFloat.text_inf]; exact printable_of_all (by decide)
    · rw [PyFloat.text_negInf]; exact printable_of_all (by decide)

theorem printable_pad (spaced : Bool) : Printable (Style.pad ⟨spaced, true⟩) := by
  cases spaced <;> (exact printable_of_all (by decide))

mutual
/-- With `ensure_ascii` a written value is printable ASCII. -/
theorem printable_render (spaced : Bool) : ∀ v : Json F, Printable (v.render ⟨spaced, true⟩)
  | .null => by rw [Json.render]; exact printable_of_all (by decide)
  | .bool true => by rw [Json.render]; exact printable_of_all (by decide)
  | .bool false => by rw [Json.render]; exact printable_of_all (by decide)
  | .int i => by rw [Json.render]; exact printable_renderInt i
  | .float f => by rw [Json.render]; exact printable_text f
  | .str s => by rw [Json.render]; exact printable_renderStr s
  | .arr [] => by rw [Json.render]; exact printable_of_all (by decide)
  | .arr (x :: xs) => by
    rw [Json.render, printable_cons, printable_append]
    exact ⟨by decide, printable_render spaced x, printable_renderItems spaced xs⟩
  | .obj [] => by rw [Json.render]; exact printable_of_all (by decide)
  | .obj ((k, v) :: fs) => by
    rw [Json.render, printable_cons, printable_append, printable_cons, printable_append,
      printable_append]
    exact ⟨by decide, printable_renderStr k, by decide, printable_pad spaced,
      printable_render spaced v, printable_renderFields spaced fs⟩

theorem printable_renderItems (spaced : Bool) : ∀ xs : List (Json F),
    Printable (renderItems ⟨spaced, true⟩ xs)
  | [] => by rw [renderItems]; exact printable_of_all (by decide)
  | x :: xs => by
    rw [renderItems, printable_cons, printable_append, printable_append]
    exact ⟨by decide, printable_pad spaced, printable_render spaced x,
      printable_renderItems spaced xs⟩

theorem printable_renderFields (spaced : Bool) : ∀ fs : Fields F,
    Printable (renderFields ⟨spaced, true⟩ fs)
  | [] => by rw [renderFields]; exact printable_of_all (by decide)
  | (k, v) :: fs => by
    rw [renderFields, printable_cons, printable_append, printable_append, printable_cons,
      printable_append, printable_append]
    exact ⟨by decide, printable_pad spaced, printable_renderStr k, by decide, printable_pad spaced,
      printable_render spaced v, printable_renderFields spaced fs⟩
end

theorem renderFields_eq_concat (st : Style) (fs : Fields F) :
    ∃ t, renderFields st fs = t ++ ['}'] := by
  induction fs with
  | nil => exact ⟨[], by rw [renderFields]; rfl⟩
  | cons kv fs ih =>
    obtain ⟨t, ht⟩ := ih
    rw [renderFields, ht]
    exact ⟨',' :: (st.pad ++ (renderStr st.ascii kv.1 ++ ':' :: (st.pad ++ (kv.2.render st ++ t)))),
      by simp⟩

/-- A written object starts and ends with its braces. -/
theorem render_obj_braces (st : Style) (fs : Fields F) :
    ∃ t, (Json.obj fs).render st = '{' :: t ++ ['}'] := by
  match fs with
  | [] => exact ⟨[], by rw [Json.render]; rfl⟩
  | (k, v) :: fs =>
    obtain ⟨t, ht⟩ := renderFields_eq_concat st fs
    rw [Json.render, ht]
    exact ⟨renderStr st.ascii k ++ ':' :: (st.pad ++ (v.render st ++ t)), by simp⟩

end Values

/-! ## Bytes -/

theorem utf8Size_printable {c : Char} (hc : c.toNat < 0x7f) : c.utf8Size = 1 := by
  refine Char.utf8Size_eq_one_iff.2 ?_
  change c.toNat ≤ 127
  omega

/-- Printable text has no line end in its bytes. -/
theorem not_mem_encodeUtf8 {s : Str} (h : Printable s) : (10 : UInt8) ∉ encodeUtf8 s := by
  intro hmem
  obtain ⟨c, hc, hbyte⟩ := List.mem_flatMap.1 hmem
  obtain ⟨hlow, hhigh⟩ := h c hc
  rw [String.utf8EncodeChar_eq_singleton (utf8Size_printable hhigh), List.mem_singleton] at hbyte
  have hnat := congrArg UInt8.toNat hbyte
  have hc' : c.toNat = c.val.toNat := rfl
  simp only [UInt32.toNat_toUInt8, ← hc'] at hnat
  change 10 = c.toNat % 256 at hnat
  omega

/-- Printable text is one byte a character. -/
theorem length_encodeUtf8_printable {s : Str} (h : Printable s) : (encodeUtf8 s).length = s.length := by
  induction s with
  | nil => rfl
  | cons c s ih =>
    obtain ⟨hc, hs⟩ := printable_cons.1 h
    have hone := utf8Size_printable hc.2
    rw [encodeUtf8, List.flatMap_cons, List.length_append, String.length_utf8EncodeChar, hone,
      ← encodeUtf8, ih hs, List.length_cons, Nat.add_comm]

/-- A part of the bytes of printable text is a part of the text. -/
theorem take_encodeUtf8_printable {s : Str} (h : Printable s) (n : ℕ) :
    (encodeUtf8 s).take n = encodeUtf8 (s.take n) := by
  induction s generalizing n with
  | nil => simp [encodeUtf8]
  | cons c s ih =>
    obtain ⟨hc, hs⟩ := printable_cons.1 h
    have hone := String.utf8EncodeChar_eq_singleton (utf8Size_printable hc.2)
    rcases n with _ | n
    · rfl
    · rw [List.take_succ_cons, encodeUtf8, encodeUtf8, List.flatMap_cons, List.flatMap_cons, hone,
        List.singleton_append, List.singleton_append, List.take_succ_cons]
      exact congrArg _ (ih hs n)

end Bulldog
