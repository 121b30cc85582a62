import Mathlib
import Bulldog.Lib.Json.Codec

/-!
# Reading back what was written

`parse_render` shows that the reader inverts the writer on every writable value, in either style,
and `render_injective` that the text determines the value. The proof follows the text from left to
right: each piece that the writer produces is read back whatever text comes after it, as long as a
number is not followed by a character that could extend it (`NoNumHead`), which the writer never
does.
-/

namespace Bulldog

/-! ## Numbers -/

/-- The characters that a number token may continue with. -/
def numChar (c : Char) : Bool :=
  c.isDigit || c == '.' || c == 'e' || c == 'E' || c == '+' || c == '-'

/-- The text does not start with a character that could extend a number token. -/
def NoNumHead (r : Str) : Prop := ∀ c ∈ r.head?, numChar c = false

theorem noNumHead_cons {c : Char} {r : Str} (h : numChar c = false) : NoNumHead (c :: r) := by
  simpa [NoNumHead] using h

/-- What `NoNumHead` says of the first character. -/
theorem NoNumHead.cons {c : Char} {r : Str} (h : NoNumHead (c :: r)) :
    c.isDigit = false ∧ c ≠ '.' ∧ c ≠ 'e' ∧ c ≠ 'E' ∧ c ≠ '+' ∧ c ≠ '-' := by
  have hc : numChar c = false := h c (by simp)
  simpa [numChar, and_assoc] using hc

/-- A run of digits ends where the delimiter begins. -/
theorem digits_append (s : Str) {r : Str} (hr : NoNumHead r) :
    (s ++ r).takeWhile Char.isDigit = s.takeWhile Char.isDigit ∧
      (s ++ r).dropWhile Char.isDigit = s.dropWhile Char.isDigit ++ r := by
  induction s with
  | nil =>
    cases r with
    | nil => simp
    | cons c t => simp [hr.cons.1]
  | cons c s ih =>
    by_cases hc : c.isDigit
    · simp [hc, ih.1, ih.2]
    · simp [hc]

theorem scanInt_append {s ds t : Str} (r : Str) (hr : NoNumHead r)
    (h : scanInt s = some (ds, t)) : scanInt (s ++ r) = some (ds, t ++ r) := by
  cases s with
  | nil => simp [scanInt] at h
  | cons c s =>
    obtain ⟨ht, hd⟩ := digits_append s hr
    simp only [scanInt, List.cons_append, ht, hd] at h ⊢
    split_ifs at h ⊢ with h0 hc
    · obtain ⟨rfl, rfl⟩ := Prod.mk.inj (Option.some.inj h)
      rfl
    · obtain ⟨rfl, rfl⟩ := Prod.mk.inj (Option.some.inj h)
      rfl

theorem scanFrac_append (s : Str) {r : Str} (hr : NoNumHead r) :
    scanFrac (s ++ r) = ((scanFrac s).1, (scanFrac s).2 ++ r) := by
  cases s with
  | nil =>
    cases r with
    | nil => rfl
    | cons c t => simp [scanFrac, hr.cons.2.1]
  | cons c s =>
    obtain ⟨ht, hd⟩ := digits_append s hr
    simp only [scanFrac, List.cons_append, ht, hd]
    split_ifs <;> rfl

theorem scanSign_append (s : Str) {r : Str} (hr : NoNumHead r) :
    scanSign (s ++ r) = ((scanSign s).1, (scanSign s).2 ++ r) := by
  cases s with
  | nil =>
    cases r with
    | nil => rfl
    | cons c t => simp [scanSign, hr.cons.2.2.2.2.1, hr.cons.2.2.2.2.2]
  | cons c s =>
    simp only [scanSign, List.cons_append]
    split_ifs <;> rfl

theorem scanExp_append (s : Str) {r : Str} (hr : NoNumHead r) :
    scanExp (s ++ r) = ((scanExp s).1, (scanExp s).2 ++ r) := by
  cases s with
  | nil =>
    cases r with
    | nil => rfl
    | cons c t => simp [scanExp, hr.cons.2.2.1, hr.cons.2.2.2.1]
  | cons c s =>
    obtain ⟨ht, hd⟩ := digits_append (scanSign s).2 hr
    simp only [scanExp, List.cons_append, scanSign_append s hr, ht, hd]
    split_ifs <;> rfl

/-- A number token is read in full, whatever delimiter follows it. -/
theorem scanNumber_append {s sign ds fe t : Str} (r : Str) (hr : NoNumHead r)
    (h : scanNumber s = some (sign, ds, fe, t)) :
    scanNumber (s ++ r) = some (sign, ds, fe, t ++ r) := by
  simp only [scanNumber, Option.map_eq_some_iff] at h
  obtain ⟨⟨ds', u⟩, hi, he⟩ := h
  simp only [Prod.mk.injEq] at he
  obtain ⟨rfl, rfl, rfl, rfl⟩ := he
  have hm : scanMinus (s ++ r) = ((scanMinus s).1, (scanMinus s).2 ++ r) := by
    cases s with
    | nil => simp [scanMinus, scanInt] at hi
    | cons c s =>
      simp only [scanMinus, List.cons_append]
      split_ifs <;> rfl
  simp only [scanNumber, hm, scanInt_append r hr hi, Option.map_some, scanFrac_append u hr,
    scanExp_append _ hr]

/-- The decimal digits of a positive number do not start with `0`. -/
theorem toDigits_head {n : ℕ} (hn : 0 < n) : ∀ c ∈ (Nat.toDigits 10 n).head?, c ≠ '0' := by
  induction n using Nat.strong_induction_on with
  | _ n ih =>
    rcases lt_or_ge n 10 with h | h
    · rw [Nat.toDigits_of_lt_base h]
      interval_cases n <;> simp [Nat.digitChar]
    · rw [Nat.toDigits_of_base_le (by decide) h]
      have := ih (n / 10) (by omega) (by omega)
      rwa [List.head?_append_of_ne_nil _ Nat.toDigits_ne_nil]

/-- The digits of a number are an integer token. -/
theorem scanInt_toDigits (n : ℕ) : scanInt (Nat.toDigits 10 n) = some (Nat.toDigits 10 n, []) := by
  have hall : ∀ c ∈ Nat.toDigits 10 n, c.isDigit = true :=
    fun c hc => Nat.isDigit_of_mem_toDigits (by decide) le_rfl hc
  rcases Nat.eq_zero_or_pos n with rfl | hn
  · rw [Nat.toDigits_zero]; rfl
  · have hhead := toDigits_head hn
    cases hds : Nat.toDigits 10 n with
    | nil => exact absurd hds Nat.toDigits_ne_nil
    | cons c s =>
      rw [hds] at hhead hall
      have hc0 : c ≠ '0' := hhead c (by simp)
      have hs : ∀ d ∈ s, d.isDigit = true := fun d hd => hall d (by simp [hd])
      simp [scanInt, hc0, hall c (by simp), List.takeWhile_eq_self_iff.2 hs,
        List.dropWhile_eq_nil_iff.2 hs]

/-- The text of an integer is an integer token. -/
theorem scanNumber_renderInt (i : ℤ) :
    scanNumber (renderInt i) =
      some (if i < 0 then ['-'] else [], Nat.toDigits 10 i.natAbs, [], []) := by
  unfold renderInt
  split_ifs with h
  · simp [scanNumber, scanMinus, scanInt_toDigits, scanFrac, scanExp]
  · have hm : scanMinus (Nat.toDigits 10 i.natAbs) = ([], Nat.toDigits 10 i.natAbs) := by
      cases hds : Nat.toDigits 10 i.natAbs with
      | nil => exact absurd hds Nat.toDigits_ne_nil
      | cons c s =>
        have hc : c.isDigit = true :=
          Nat.isDigit_of_mem_toDigits (by decide) le_rfl (by rw [hds]; simp)
        have : c ≠ '-' := by rintro rfl; revert hc; decide
        simp [scanMinus, this]
    simp [scanNumber, hm, scanInt_toDigits, scanFrac, scanExp]

/-! ## Strings -/

theorem hexVal_digitChar : ∀ d < 16, hexVal (Nat.digitChar d) = some d := by decide

/-- The four digits of an escape are read back. -/
theorem hex4_unicodeEscape {n : ℕ} (hn : n < 0x10000) (r : Str) :
    hex4 ((unicodeEscape n).drop 2 ++ r) = some (n, r) := by
  have h1 := hexVal_digitChar (n / 4096 % 16) (by omega)
  have h2 := hexVal_digitChar (n / 256 % 16) (by omega)
  have h3 := hexVal_digitChar (n / 16 % 16) (by omega)
  have h4 := hexVal_digitChar (n % 16) (by omega)
  have hv : n / 4096 % 16 * 4096 + n / 256 % 16 * 256 + n / 16 % 16 * 16 + n % 16 = n := by omega
  simp [unicodeEscape, hex4, h1, h2, h3, h4, hv]

/-- A character's code point is not a surrogate. -/
theorem toNat_not_surrogate (c : Char) : c.toNat < 0xd800 ∨ 0xe000 ≤ c.toNat ∧ c.toNat < 0x110000 := by
  have h := c.valid
  simp only [UInt32.isValidChar, Nat.isValidChar] at h
  simp only [Char.toNat]
  omega

/-- An escape in the basic plane is read back. -/
theorem unicodeChar_unicodeEscape {n : ℕ} (hn : n < 0xd800 ∨ 0xe000 ≤ n ∧ n < 0x10000) (r : Str) :
    unicodeChar ((unicodeEscape n).drop 2 ++ r) = some (Char.ofNat n, r) := by
  rw [unicodeChar, hex4_unicodeEscape (by omega)]
  have h1 : ¬ (0xd800 ≤ n ∧ n < 0xdc00) := by omega
  have h2 : ¬ (0xdc00 ≤ n ∧ n < 0xe000) := by omega
  simp [h1, h2]

/-- A surrogate pair is read back. -/
theorem unicodeChar_pair (hi lo : ℕ) (hhi : hi < 0x400) (hlo : lo < 0x400) (r : Str) :
    unicodeChar ((unicodeEscape (0xd800 + hi)).drop 2 ++ (unicodeEscape (0xdc00 + lo) ++ r)) =
      some (Char.ofNat (0x10000 + hi * 0x400 + lo), r) := by
  have hlow : lowSurrogate (unicodeEscape (0xdc00 + lo) ++ r) = some (0xdc00 + lo, r) := by
    have h4 := hex4_unicodeEscape (n := 0xdc00 + lo) (by omega) r
    generalize hm : 0xdc00 + lo = m at h4 ⊢
    have hrange : 0xdc00 ≤ m ∧ m < 0xe000 := by omega
    simp only [unicodeEscape, List.drop_succ_cons, List.drop_zero, List.cons_append,
      List.nil_append] at h4
    simp [unicodeEscape, lowSurrogate, h4, hrange]
  rw [unicodeChar, hex4_unicodeEscape (by omega)]
  generalize hn : 0xd800 + hi = n
  generalize hm : 0xdc00 + lo = m at hlow ⊢
  have hrange : 0xd800 ≤ n ∧ n < 0xdc00 := by omega
  have hval : 0x10000 + (n - 0xd800) * 0x400 + (m - 0xdc00) = 0x10000 + hi * 0x400 + lo := by omega
  simp only [Option.bind_some, hlow, if_pos hrange, Option.map_some, hval]

/-- A step of the reader over an escape that is spelled with `\\u`. -/
theorem stringStep_unicode {esc r r' : Str} {c : Char}
    (h : unicodeChar (esc ++ r) = some (c, r')) :
    stringStep ('\\' :: 'u' :: (esc ++ r)) = some (some c, r') := by
  simp [stringStep, h]

/-- The reader takes one step over what the writer writes for one character. -/
theorem stringStep_escapeChar (ascii : Bool) (c : Char) (r : Str) :
    stringStep (escapeChar ascii c ++ r) = some (some c, r) := by
  have hv := toNat_not_surrogate c
  unfold escapeChar
  by_cases h1 : c = '"'
  · subst h1; rfl
  by_cases h2 : c = '\\'
  · subst h2; rfl
  by_cases h3 : c = '\n'
  · subst h3; rfl
  by_cases h4 : c = '\r'
  · subst h4; rfl
  by_cases h5 : c = '\t'
  · subst h5; rfl
  by_cases h6 : c = '\x0c'
  · subst h6; rfl
  by_cases h7 : c = '\x08'
  · subst h7; rfl
  rw [if_neg h1, if_neg h2, if_neg h3, if_neg h4, if_neg h5, if_neg h6, if_neg h7]
  by_cases h8 : c.toNat < 0x20
  · have := stringStep_unicode (unicodeChar_unicodeEscape (n := c.toNat) (by omega) r)
    rw [Char.ofNat_toNat] at this
    rw [if_pos h8]
    exact this
  rw [if_neg h8]
  by_cases h9 : ascii = false ∨ c.toNat < 0x7f
  · simp [h9, stringStep, h1, h2, h8]
  rw [if_neg h9]
  by_cases h10 : c.toNat < 0x10000
  · have := stringStep_unicode (unicodeChar_unicodeEscape (n := c.toNat) (by omega) r)
    rw [Char.ofNat_toNat] at this
    rw [if_pos h10]
    exact this
  · have hval : 0x10000 + (c.toNat - 0x10000) / 0x400 * 0x400 + (c.toNat - 0x10000) % 0x400 =
        c.toNat := by omega
    have := stringStep_unicode (unicodeChar_pair ((c.toNat - 0x10000) / 0x400)
      ((c.toNat - 0x10000) % 0x400) (by omega) (by omega) r)
    rw [hval, Char.ofNat_toNat] at this
    rw [if_neg h10, List.append_assoc]
    exact this

theorem parseChars_escaped (ascii : Bool) (s r : Str) (n : ℕ) (hn : s.length < n) :
    parseChars n (s.flatMap (escapeChar ascii) ++ '"' :: r) = some (s, r) := by
  induction s generalizing n with
  | nil =>
    obtain ⟨m, rfl⟩ : ∃ m, n = m + 1 := ⟨n - 1, by simp at hn; omega⟩
    rfl
  | cons c s ih =>
    obtain ⟨m, rfl⟩ : ∃ m, n = m + 1 := ⟨n - 1, by omega⟩
    rw [List.flatMap_cons, List.append_assoc, parseChars, stringStep_escapeChar]
    simp only [ih m (by simp at hn; omega), Option.map_some]

/-- What the writer writes for a character is not empty. -/
theorem escapeChar_length_pos (ascii : Bool) (c : Char) : 0 < (escapeChar ascii c).length := by
  have h := stringStep_escapeChar ascii c []
  rw [List.length_pos_iff]
  intro he
  simp [he, stringStep] at h

theorem length_le_flatMap_escapeChar (ascii : Bool) (s : Str) :
    s.length ≤ (s.flatMap (escapeChar ascii)).length := by
  induction s with
  | nil => simp
  | cons c s ih =>
    have := escapeChar_length_pos ascii c
    simp only [List.length_cons, List.flatMap_cons, List.length_append]
    omega

/-- A string literal is read back. -/
theorem parseString_renderStr (ascii : Bool) (s r : Str) :
    parseString (renderStr ascii s ++ r) = some (s, r) := by
  have hlen := length_le_flatMap_escapeChar ascii s
  simp only [renderStr, List.cons_append, List.append_assoc, List.nil_append, parseString, if_true]
  exact parseChars_escaped ascii s r _ (by simp only [List.length_append, List.length_cons]; omega)

/-! ## Atoms -/

section Atoms

variable {F : Type} [PyFloat F]

/-- A keyword is not read where the text starts with another character. -/
theorem keyword_of_ne {a c : Char} (w s : Str) (h : a ≠ c) : keyword (a :: w) (c :: s) = none := by
  simp [keyword, h]

/-- A number token starts with a digit or a minus sign. -/
theorem scanNumber_head {s : Str} (h : scanNumber s ≠ none) :
    ∃ c t, s = c :: t ∧ (c.isDigit = true ∨ c = '-') := by
  cases s with
  | nil => exact absurd rfl h
  | cons c t =>
    refine ⟨c, t, rfl, ?_⟩
    by_contra hc
    push Not at hc
    obtain ⟨hd, hm⟩ := hc
    have h0 : c ≠ '0' := by rintro rfl; revert hd; decide
    simp [scanNumber, scanMinus, hm, scanInt, h0, hd] at h

/-- The characters that a digit or a minus sign is not. -/
theorem numHead_ne {c : Char} (h : c.isDigit = true ∨ c = '-') :
    c ≠ '"' ∧ c ≠ '[' ∧ c ≠ ']' ∧ c ≠ '{' ∧ c ≠ 'n' ∧ c ≠ 't' ∧ c ≠ 'f' ∧ isWs c = false := by
  rcases h with h | rfl
  · refine ⟨?_, ?_, ?_, ?_, ?_, ?_, ?_, ?_⟩
    · rintro rfl; revert h; decide
    · rintro rfl; revert h; decide
    · rintro rfl; revert h; decide
    · rintro rfl; revert h; decide
    · rintro rfl; revert h; decide
    · rintro rfl; revert h; decide
    · rintro rfl; revert h; decide
    · rw [Bool.eq_false_iff]
      intro hw
      simp only [isWs, Bool.or_eq_true, beq_iff_eq] at hw
      rcases hw with ((rfl | rfl) | rfl) | rfl <;> exact absurd h (by decide)
  · decide

/-- Where a number token stands, an atom is a number. -/
theorem parseAtom_number (consts : Bool) {s : Str} (h : scanNumber s ≠ none) :
    parseAtom (F := F) consts s = parseNumber consts s := by
  obtain ⟨c, t, rfl, hc⟩ := scanNumber_head h
  obtain ⟨-, -, -, -, hn, ht, hf, -⟩ := numHead_ne hc
  simp only [parseAtom, String.reduceToList, keyword_of_ne _ _ hn.symm, keyword_of_ne _ _ ht.symm,
    keyword_of_ne _ _ hf.symm, Option.map_none]
  rfl

/-- The value of a written integer. -/
theorem ofDigitChars_renderInt (i : ℤ) :
    (if (if i < 0 then ['-'] else ([] : Str)) = [] then
        (Nat.ofDigitChars 10 (Nat.toDigits 10 i.natAbs) 0 : ℤ)
      else -(Nat.ofDigitChars 10 (Nat.toDigits 10 i.natAbs) 0 : ℤ)) = i := by
  rw [Nat.ofDigitChars_toDigits (by decide) le_rfl]
  by_cases hi : i < 0
  · simp only [hi, if_true, List.cons_ne_nil, if_false]; omega
  · simp only [hi, if_false, if_true]; omega

theorem parseNumber_renderInt (consts : Bool) (i : ℤ)
    (hw : (Nat.toDigits 10 i.natAbs).length ≤ maxIntDigits) {r : Str} (hr : NoNumHead r) :
    parseNumber (F := F) consts (renderInt i ++ r) = some (.int i, r) := by
  rw [parseNumber, scanNumber_append r hr (scanNumber_renderInt i)]
  simp only [List.nil_append, intOfToken, if_pos hw, Option.map_some, ofDigitChars_renderInt]

theorem parseNumber_float (consts : Bool) (f : F) (hf : PyFloat.finite f = true) {r : Str}
    (hr : NoNumHead r) : parseNumber consts (PyFloat.text f ++ r) = some (.float f, r) := by
  obtain ⟨sign, ds, fe, hs, hne, htext⟩ := PyFloat.text_token f hf
  rw [parseNumber, scanNumber_append r hr hs]
  cases fe with
  | nil => exact absurd rfl hne
  | cons c t => simp only [List.nil_append, ← htext, PyFloat.ofToken_text f hf]

/-- A non-finite float is read back as the constant that it is. -/
theorem parseAtom_special (f : F) (hf : PyFloat.finite f = false) (r : Str) :
    parseAtom true (PyFloat.text f ++ r) = some (.float f, r) := by
  rcases PyFloat.special f hf with rfl | rfl | rfl
  · rw [PyFloat.text_nan]; rfl
  · rw [PyFloat.text_inf]; rfl
  · rw [PyFloat.text_negInf]; rfl

end Atoms

/-! ## Values -/

section Values

variable {F : Type} [PyFloat F]

mutual
/-- The fuel that reading a value back takes. -/
def Json.size : Json F → ℕ
  | .arr xs => 1 + sizeItems xs
  | .obj fs => 1 + sizeFields fs
  | _ => 1
/-- The fuel for items. -/
def sizeItems : List (Json F) → ℕ
  | [] => 0
  | x :: xs => 1 + x.size + sizeItems xs
/-- The fuel for members. -/
def sizeFields : Fields F → ℕ
  | [] => 0
  | (_, v) :: fs => 1 + v.size + sizeFields fs
end

theorem isFloatToken_scan {f : F} (hf : PyFloat.finite f = true) :
    scanNumber (PyFloat.text f) ≠ none := by
  obtain ⟨sign, ds, fe, hs, -, -⟩ := PyFloat.text_token f hf
  simp [hs]

/-- The first character of a value's text. -/
theorem render_head (st : Style) (v : Json F) :
    ∃ c t, v.render st = c :: t ∧ isWs c = false ∧ c ≠ ']' := by
  have hnum : ∀ s : Str, scanNumber s ≠ none → ∃ c t, s = c :: t ∧ isWs c = false ∧ c ≠ ']' := by
    intro s hs
    obtain ⟨c, t, rfl, hc⟩ := scanNumber_head hs
    obtain ⟨-, -, hb, -, -, -, -, hw⟩ := numHead_ne hc
    exact ⟨c, t, rfl, hw, hb⟩
  cases v with
  | null => exact ⟨'n', "ull".toList, by simp [Json.render], by decide, by decide⟩
  | bool b =>
    cases b with
    | true => exact ⟨'t', "rue".toList, by simp [Json.render], by decide, by decide⟩
    | false => exact ⟨'f', "alse".toList, by simp [Json.render], by decide, by decide⟩
  | int i => exact hnum _ (by rw [Json.render, scanNumber_renderInt]; simp)
  | float f =>
    cases hf : PyFloat.finite f with
    | true => exact hnum _ (isFloatToken_scan hf)
    | false =>
      rcases PyFloat.special f hf with rfl | rfl | rfl
      · exact ⟨'N', "aN".toList, by simp [Json.render, PyFloat.text_nan], by decide, by decide⟩
      · exact ⟨'I', "nfinity".toList, by simp [Json.render, PyFloat.text_inf], by decide, by decide⟩
      · exact ⟨'-', "Infinity".toList, by simp [Json.render, PyFloat.text_negInf], by decide,
          by decide⟩
  | str s => exact ⟨'"', _, rfl, by decide, by decide⟩
  | arr xs => cases xs with
    | nil => exact ⟨'[', _, rfl, by decide, by decide⟩
    | cons x xs => exact ⟨'[', _, by rw [Json.render], by decide, by decide⟩
  | obj fs => cases fs with
    | nil => exact ⟨'{', _, rfl, by decide, by decide⟩
    | cons kv fs => exact ⟨'{', _, by rw [Json.render], by decide, by decide⟩

/-- Padding is white space. -/
theorem skipWs_pad (st : Style) (s : Str) : skipWs (st.pad ++ s) = skipWs s := by
  unfold Style.pad
  split_ifs
  · simp [skipWs, isWs]
  · rfl

/-- There is no white space before a value. -/
theorem skipWs_render (st : Style) (v : Json F) (r : Str) :
    skipWs (v.render st ++ r) = v.render st ++ r := by
  obtain ⟨c, t, hv, hw, -⟩ := render_head st v
  simp [hv, skipWs, hw]

theorem skipWs_renderStr (ascii : Bool) (s r : Str) :
    skipWs (renderStr ascii s ++ r) = renderStr ascii s ++ r := by
  simp [renderStr, skipWs, isWs]

theorem skipWs_cons {c : Char} (h : isWs c = false) (r : Str) : skipWs (c :: r) = c :: r := by
  simp [skipWs, h]

theorem expect_self (c : Char) (r : Str) : expect c (c :: r) = some r := by simp [expect]

theorem expect_of_ne {c d : Char} (h : d ≠ c) (r : Str) : expect c (d :: r) = none := by
  simp [expect, h]

/-- What follows an item cannot extend a number. -/
theorem noNumHead_renderItems (st : Style) (xs : List (Json F)) (r : Str) :
    NoNumHead (renderItems st xs ++ r) := by
  cases xs <;> exact noNumHead_cons (by decide)

theorem noNumHead_renderFields (st : Style) (fs : Fields F) (r : Str) :
    NoNumHead (renderFields st fs ++ r) := by
  rcases fs with _ | ⟨⟨k, v⟩, fs⟩ <;> exact noNumHead_cons (by decide)

/-- Where a number stands, the reader reads a number. -/
theorem parseValue_number (consts : Bool) (n : ℕ) {s : Str} (h : scanNumber s ≠ none) (r : Str) :
    parseValue (F := F) consts (n + 1) (s ++ r) = parseAtom consts (s ++ r) := by
  obtain ⟨c, t, rfl, hc⟩ := scanNumber_head h
  obtain ⟨hq, hb, -, ho, -, -, -, -⟩ := numHead_ne hc
  simp only [List.cons_append, parseValue, hq, hb, ho, if_false]

/-- A written number or constant is read back. -/
theorem parseValue_float (consts : Bool) (n : ℕ) (f : F)
    (hw : (consts || PyFloat.finite f) = true) {r : Str} (hr : NoNumHead r) :
    parseValue consts (n + 1) (PyFloat.text f ++ r) = some (.float f, r) := by
  cases hf : PyFloat.finite f with
  | true =>
    rw [parseValue_number consts n (isFloatToken_scan hf), parseAtom_number,
      parseNumber_float consts f hf hr]
    obtain ⟨sign, ds, fe, hs, -, -⟩ := PyFloat.text_token f hf
    simp [scanNumber_append r hr hs]
  | false =>
    obtain rfl : consts = true := by simpa [hf] using hw
    have hatom := parseAtom_special f hf r
    rcases PyFloat.special f hf with rfl | rfl | rfl
    · rw [PyFloat.text_nan] at hatom ⊢; exact hatom
    · rw [PyFloat.text_inf] at hatom ⊢; exact hatom
    · rw [PyFloat.text_negInf] at hatom ⊢; exact hatom

mutual
/-- The reader reads a written value back, whatever delimiter follows it. -/
theorem parseValue_render (st : Style) (consts : Bool) : ∀ (v : Json F) (n : ℕ) (r : Str),
    v.size ≤ n → v.writable consts = true → NoNumHead r →
      parseValue consts n (v.render st ++ r) = some (v, r)
  | v, 0, _, h, _, _ => by cases v <;> simp [Json.size] at h
  | .null, n + 1, r, _, _, _ => rfl
  | .bool true, n + 1, r, _, _, _ => rfl
  | .bool false, n + 1, r, _, _, _ => rfl
  | .int i, n + 1, r, _, hw, hr => by
    have hscan : scanNumber (renderInt i) ≠ none := by simp [scanNumber_renderInt]
    have hscan' : scanNumber (renderInt i ++ r) ≠ none := by
      simp [scanNumber_append r hr (scanNumber_renderInt i)]
    rw [Json.render, parseValue_number consts n hscan, parseAtom_number consts hscan',
      parseNumber_renderInt consts i (by simpa [Json.writable] using hw) hr]
  | .float f, n + 1, r, _, hw, hr => parseValue_float consts n f hw hr
  | .str s, n + 1, r, _, _, _ => by
    have h := parseString_renderStr st.ascii s r
    simp only [renderStr, List.cons_append, List.append_assoc] at h
    simp only [Json.render, renderStr, List.cons_append, List.append_assoc, parseValue, if_true, h,
      Option.map_some]
  | .arr [], n + 1, r, _, _, _ => rfl
  | .arr (x :: xs), n + 1, r, hn, hw, hr => by
    simp only [Json.size] at hn
    have hitems := parseItems_render st consts x xs n r (by omega)
      (by simpa [Json.writable] using hw)
    obtain ⟨c, t, hx, hws, hb⟩ := render_head st x
    have hskip : skipWs (x.render st ++ (renderItems st xs ++ r)) =
        x.render st ++ (renderItems st xs ++ r) := skipWs_render st x _
    have hexp : expect ']' (x.render st ++ (renderItems st xs ++ r)) = none := by
      rw [hx]; exact expect_of_ne hb _
    simp only [Json.render, List.cons_append, List.append_assoc, parseValue, hskip, hexp, hitems,
      Option.map_some]
    rfl
  | .obj [], n + 1, r, _, _, _ => rfl
  | .obj ((k, v) :: fs), n + 1, r, hn, hw, hr => by
    simp only [Json.size] at hn
    have hmembers := parseMembers_render st consts k v fs n r (by omega)
      (by simpa [Json.writable] using hw)
    have hskip : ∀ u, skipWs (renderStr st.ascii k ++ u) = renderStr st.ascii k ++ u :=
      fun u => skipWs_renderStr st.ascii k u
    have hexp : ∀ u, expect '}' (renderStr st.ascii k ++ u) = none :=
      fun u => expect_of_ne (by decide) _
    simp only [Json.render, List.cons_append, List.append_assoc, parseValue, hskip, hexp, hmembers,
      Option.map_some]
    rfl

/-- The items of a nonempty array are read back. -/
theorem parseItems_render (st : Style) (consts : Bool) : ∀ (x : Json F) (xs : List (Json F))
    (n : ℕ) (r : Str), sizeItems (x :: xs) ≤ n → writableItems consts (x :: xs) = true →
      parseItems consts n (x.render st ++ (renderItems st xs ++ r)) = some (x :: xs, r)
  | _, _, 0, _, h, _ => by simp [sizeItems] at h
  | x, [], n + 1, r, hn, hw => by
    simp only [writableItems, Bool.and_true] at hw
    have hx := parseValue_render st consts x n (renderItems (F := F) st [] ++ r)
      (by simp only [sizeItems] at hn; omega) hw (noNumHead_renderItems st [] r)
    rw [parseItems, hx]
    simp [renderItems, skipWs_cons (show isWs ']' = false by decide), expect]
  | x, y :: ys, n + 1, r, hn, hw => by
    simp only [writableItems, Bool.and_eq_true] at hw
    simp only [sizeItems] at hn
    have hx := parseValue_render st consts x n (renderItems st (y :: ys) ++ r) (by omega) hw.1
      (noNumHead_renderItems st (y :: ys) r)
    have hys := parseItems_render st consts y ys n r (by simp only [sizeItems]; omega)
      (by simp [writableItems, hw.2])
    rw [parseItems, hx]
    simp only [Option.bind_some, renderItems, List.cons_append, List.append_assoc,
      skipWs_cons (show isWs ',' = false by decide), expect_self, skipWs_pad, skipWs_render, hys,
      Option.map_some]

/-- The members of a nonempty object are read back. -/
theorem parseMembers_render (st : Style) (consts : Bool) : ∀ (k : Str) (v : Json F) (fs : Fields F)
    (n : ℕ) (r : Str), sizeFields ((k, v) :: fs) ≤ n → writableFields consts ((k, v) :: fs) = true →
      parseMembers consts n (renderStr st.ascii k ++ ':' :: (st.pad ++ (v.render st ++
        (renderFields st fs ++ r)))) = some ((k, v) :: fs, r)
  | _, _, _, 0, _, h, _ => by simp [sizeFields] at h
  | k, v, [], n + 1, r, hn, hw => by
    simp only [writableFields, Bool.and_true] at hw
    have hv := parseValue_render st consts v n (renderFields (F := F) st [] ++ r)
      (by simp only [sizeFields] at hn; omega) hw (noNumHead_renderFields st [] r)
    rw [parseMembers, parseString_renderStr]
    simp only [Option.bind_some, skipWs_cons (show isWs ':' = false by decide), expect_self,
      skipWs_pad, skipWs_render, hv]
    simp [renderFields, skipWs_cons (show isWs '}' = false by decide), expect]
  | k, v, (k', v') :: fs, n + 1, r, hn, hw => by
    simp only [writableFields, Bool.and_eq_true] at hw
    simp only [sizeFields] at hn
    have hv := parseValue_render st consts v n (renderFields st ((k', v') :: fs) ++ r) (by omega)
      hw.1 (noNumHead_renderFields st ((k', v') :: fs) r)
    have hfs := parseMembers_render st consts k' v' fs n r (by simp only [sizeFields]; omega)
      (by simp [writableFields, hw.2])
    rw [parseMembers, parseString_renderStr]
    simp only [Option.bind_some, skipWs_cons (show isWs ':' = false by decide), expect_self,
      skipWs_pad, skipWs_render, hv]
    simp only [renderFields, List.cons_append, List.append_assoc,
      skipWs_cons (show isWs ',' = false by decide), expect_self, skipWs_pad, skipWs_renderStr, hfs,
      Option.map_some]
end

mutual
/-- The text of a value is at least as long as the fuel that reading it takes. -/
theorem size_le_length (st : Style) : ∀ v : Json F, v.size ≤ (v.render st).length
  | .null => by simp [Json.size, Json.render]
  | .bool true => by simp [Json.size, Json.render]
  | .bool false => by simp [Json.size, Json.render]
  | .int i => by
    obtain ⟨c, t, h, -⟩ := render_head st (.int i : Json F)
    simp [h, Json.size]
  | .float f => by
    obtain ⟨c, t, h, -⟩ := render_head st (.float f)
    simp [h, Json.size]
  | .str s => by simp [Json.size, Json.render, renderStr]
  | .arr [] => by simp [Json.size, sizeItems, Json.render]
  | .arr (x :: xs) => by
    have hx := size_le_length st x
    have hxs := sizeItems_le_length st xs
    simp only [Json.size, sizeItems, Json.render, List.length_cons, List.length_append]
    omega
  | .obj [] => by simp [Json.size, sizeFields, Json.render]
  | .obj ((k, v) :: fs) => by
    have hv := size_le_length st v
    have hfs := sizeFields_le_length st fs
    simp only [Json.size, sizeFields, Json.render, List.length_cons, List.length_append]
    omega

theorem sizeItems_le_length (st : Style) : ∀ xs : List (Json F),
    sizeItems xs + 1 ≤ (renderItems st xs).length
  | [] => by simp [sizeItems, renderItems]
  | x :: xs => by
    have hx := size_le_length st x
    have hxs := sizeItems_le_length st xs
    simp only [sizeItems, renderItems, List.length_cons, List.length_append]
    omega

theorem sizeFields_le_length (st : Style) : ∀ fs : Fields F,
    sizeFields fs + 1 ≤ (renderFields st fs).length
  | [] => by simp [sizeFields, renderFields]
  | (k, v) :: fs => by
    have hv := size_le_length st v
    have hfs := sizeFields_le_length st fs
    simp only [sizeFields, renderFields, List.length_cons, List.length_append]
    omega
end

/-- A written value, with white space around it, is read back. -/
theorem parse_render_ws (st : Style) (consts : Bool) (v : Json F) (hw : v.writable consts = true)
    {ws : Str} (hws : ∀ c ∈ ws, isWs c = true) :
    parse consts (v.render st ++ ws) = some v := by
  have hskip : skipWs ws = [] := by
    simpa [skipWs, List.dropWhile_eq_nil_iff] using hws
  have hnum : NoNumHead ws := by
    intro c hc
    have hc' := hws c (List.mem_of_mem_head? hc)
    simp only [isWs, Bool.or_eq_true, beq_iff_eq] at hc'
    rcases hc' with ((rfl | rfl) | rfl) | rfl <;> decide
  have hsize := size_le_length st v
  rw [parse, skipWs_render, parseValue_render st consts v _ ws
    (by simp only [List.length_append]; omega) hw hnum]
  simp [hskip]

/-- A written value is read back. -/
theorem parse_render (st : Style) (consts : Bool) (v : Json F) (hw : v.writable consts = true) :
    parse consts (v.render st) = some v := by
  have h := parse_render_ws st consts v hw (List.forall_mem_nil _)
  rwa [List.append_nil] at h

/-- The text determines the value. -/
theorem render_injective (st : Style) {v w : Json F} (hv : v.writable true = true)
    (hw : w.writable true = true) (h : v.render st = w.render st) : v = w := by
  have hpv := parse_render st true v hv
  rw [h, parse_render st true w hw] at hpv
  exact (Option.some.inj hpv).symm

end Values

end Bulldog
