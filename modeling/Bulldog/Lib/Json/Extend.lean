import Bulldog.Lib.Json.RoundTrip

/-!
# Text after a value

What the reader has read does not change when more text comes after it, as long as the value is one
that ends by itself, or a delimiter stands between. So a text that holds a whole object and more is
not JSON, and neither is an object that is cut off.
-/

namespace Bulldog

/-! ## Numbers -/

theorem digits_extend {s : Str} (x : Str) (h : s.dropWhile Char.isDigit ≠ []) :
    (s ++ x).takeWhile Char.isDigit = s.takeWhile Char.isDigit ∧
      (s ++ x).dropWhile Char.isDigit = s.dropWhile Char.isDigit ++ x := by
  induction s with
  | nil => exact (h rfl).elim
  | cons c s ih =>
    by_cases hc : c.isDigit
    · rw [List.dropWhile_cons_of_pos hc] at h
      simp [hc, (ih h).1, (ih h).2]
    · simp [hc]

theorem scanMinus_extend {s : Str} (x : Str) (h : s ≠ []) :
    scanMinus (s ++ x) = ((scanMinus s).1, (scanMinus s).2 ++ x) := by
  cases s with
  | nil => exact (h rfl).elim
  | cons c s =>
    simp only [scanMinus, List.cons_append]
    split_ifs <;> rfl

theorem scanSign_extend {s : Str} (x : Str) (h : s ≠ []) :
    scanSign (s ++ x) = ((scanSign s).1, (scanSign s).2 ++ x) := by
  cases s with
  | nil => exact (h rfl).elim
  | cons c s =>
    simp only [scanSign, List.cons_append]
    split_ifs <;> rfl

theorem scanInt_extend {s ds t : Str} (x : Str) (ht : t ≠ []) (h : scanInt s = some (ds, t)) :
    scanInt (s ++ x) = some (ds, t ++ x) := by
  cases s with
  | nil => cases h
  | cons c s =>
    simp only [scanInt, List.cons_append] at h ⊢
    split_ifs at h ⊢ with h0 hc
    · obtain ⟨rfl, rfl⟩ := Prod.mk.inj (Option.some.inj h)
      rfl
    · obtain ⟨rfl, rfl⟩ := Prod.mk.inj (Option.some.inj h)
      rw [(digits_extend x ht).1, (digits_extend x ht).2]

theorem scanFrac_extend {s : Str} (x : Str) (hne : (scanFrac s).2 ≠ [])
    (hdot : (scanFrac s).2.head? ≠ some '.') :
    scanFrac (s ++ x) = ((scanFrac s).1, (scanFrac s).2 ++ x) := by
  cases s with
  | nil => exact (hne rfl).elim
  | cons c s =>
    simp only [scanFrac, List.cons_append] at hne hdot ⊢
    by_cases hc : c = '.'
    · by_cases hdigits : s.takeWhile Char.isDigit ≠ []
      · rw [if_pos ⟨hc, hdigits⟩] at hne
        rw [(digits_extend x hne).1, (digits_extend x hne).2, if_pos ⟨hc, hdigits⟩,
          if_pos ⟨hc, hdigits⟩]
      · rw [if_neg fun h => hdigits h.2] at hdot
        exact (hdot (congrArg some hc)).elim
    · rw [if_neg fun h => hc h.1, if_neg fun h => hc h.1]
      rfl

theorem scanExp_extend {s : Str} (x : Str) (hne : (scanExp s).2 ≠ [])
    (hnum : NoNumHead (scanExp s).2) :
    scanExp (s ++ x) = ((scanExp s).1, (scanExp s).2 ++ x) := by
  cases s with
  | nil => exact (hne rfl).elim
  | cons c s =>
    simp only [scanExp, List.cons_append] at hne hnum ⊢
    by_cases hc : c = 'e' ∨ c = 'E'
    · by_cases hdigits : (scanSign s).2.takeWhile Char.isDigit ≠ []
      · rw [if_pos ⟨hc, hdigits⟩] at hne
        have hs : s ≠ [] := by
          rintro rfl
          exact hdigits rfl
        rw [scanSign_extend x hs, (digits_extend x hne).1, (digits_extend x hne).2,
          if_pos ⟨hc, hdigits⟩, if_pos ⟨hc, hdigits⟩]
      · rw [if_neg fun h => hdigits h.2] at hnum
        obtain ⟨-, -, he, hE, -, -⟩ := hnum.cons
        exact (hc.elim he hE).elim
    · rw [if_neg fun h => hc h.1, if_neg fun h => hc h.1]
      rfl

/-- A number token is read in full where what follows it cannot extend it. -/
theorem scanNumber_extend {s sign ds fe t : Str} (x : Str) (ht : t ≠ []) (hnum : NoNumHead t)
    (h : scanNumber s = some (sign, ds, fe, t)) :
    scanNumber (s ++ x) = some (sign, ds, fe, t ++ x) := by
  simp only [scanNumber, Option.map_eq_some_iff] at h
  obtain ⟨⟨ds', u⟩, hint, htokens⟩ := h
  simp only [Prod.mk.injEq] at htokens
  obtain ⟨rfl, rfl, rfl, rfl⟩ := htokens
  have hs : s ≠ [] := by
    rintro rfl
    cases hint
  have hfrac : (scanFrac u).2 ≠ [] := by
    intro hnil
    rw [hnil] at ht
    exact ht rfl
  have hdot : (scanFrac u).2.head? ≠ some '.' := by
    intro hhead
    rcases hrest : (scanFrac u).2 with _ | ⟨c, rest⟩
    · exact hfrac hrest
    · rw [hrest] at hhead hnum
      obtain rfl : c = '.' := Option.some.inj hhead
      have hexp : (scanExp ('.' :: rest)).2 = '.' :: rest := by
        rw [scanExp, if_neg]
        rintro ⟨hc, -⟩
        exact absurd hc (by decide)
      rw [hexp] at hnum
      exact hnum.cons.2.1 rfl
  have hu : u ≠ [] := by
    rintro rfl
    exact hfrac rfl
  simp only [scanNumber, scanMinus_extend x hs, scanInt_extend x hu hint, Option.map_some,
    scanFrac_extend x hfrac hdot, scanExp_extend x ht hnum]

/-! ## Strings -/

theorem hex4_extend {s r : Str} {n : ℕ} (x : Str) (h : hex4 s = some (n, r)) :
    hex4 (s ++ x) = some (n, r ++ x) := by
  rcases s with _ | ⟨a, _ | ⟨b, _ | ⟨c, _ | ⟨d, s⟩⟩⟩⟩
  · cases h
  · cases h
  · cases h
  · cases h
  · simp only [hex4, List.cons_append, Option.bind_eq_bind, Option.bind_eq_some_iff] at h ⊢
    obtain ⟨a', ha, b', hb, c', hc, d', hd, hpair⟩ := h
    obtain ⟨rfl, rfl⟩ := Prod.mk.inj (Option.some.inj hpair)
    exact ⟨a', ha, b', hb, c', hc, d', hd, rfl⟩

theorem lowSurrogate_extend {s r : Str} {n : ℕ} (x : Str) (h : lowSurrogate s = some (n, r)) :
    lowSurrogate (s ++ x) = some (n, r ++ x) := by
  rcases s with _ | ⟨a, _ | ⟨b, s⟩⟩
  · cases h
  · cases h
  · simp only [lowSurrogate, List.cons_append] at h ⊢
    split_ifs at h ⊢
    obtain ⟨⟨m, r'⟩, hhex, hrange⟩ := Option.bind_eq_some_iff.1 h
    rw [hex4_extend x hhex, Option.bind_some]
    dsimp only at hrange ⊢
    split_ifs at hrange ⊢
    obtain ⟨rfl, rfl⟩ := Prod.mk.inj (Option.some.inj hrange)
    rfl

theorem unicodeChar_extend {s r : Str} {c : Char} (x : Str) (h : unicodeChar s = some (c, r)) :
    unicodeChar (s ++ x) = some (c, r ++ x) := by
  obtain ⟨⟨n, r'⟩, hhex, hchar⟩ := Option.bind_eq_some_iff.1 h
  rw [unicodeChar, hex4_extend x hhex, Option.bind_some]
  dsimp only at hchar ⊢
  split_ifs at hchar ⊢
  · obtain ⟨⟨m, r''⟩, hlow, hpair⟩ := Option.map_eq_some_iff.1 hchar
    obtain ⟨rfl, rfl⟩ := Prod.mk.inj hpair
    rw [lowSurrogate_extend x hlow]
    rfl
  · obtain ⟨rfl, rfl⟩ := Prod.mk.inj (Option.some.inj hchar)
    rfl

theorem stringStep_extend {s r : Str} {o : Option Char} (x : Str)
    (h : stringStep s = some (o, r)) : stringStep (s ++ x) = some (o, r ++ x) := by
  rcases s with _ | ⟨c, s⟩
  · cases h
  · simp only [stringStep, List.cons_append] at h ⊢
    split_ifs at h ⊢ with hquote hback
    · obtain ⟨rfl, rfl⟩ := Prod.mk.inj (Option.some.inj h)
      rfl
    · rcases s with _ | ⟨e, s⟩
      · cases h
      · simp only [List.cons_append] at h ⊢
        split_ifs at h ⊢
        · obtain ⟨⟨d, r'⟩, hchar, hpair⟩ := Option.map_eq_some_iff.1 h
          obtain ⟨rfl, rfl⟩ := Prod.mk.inj hpair
          rw [unicodeChar_extend x hchar]
          rfl
        · obtain ⟨d, hchar, hpair⟩ := Option.map_eq_some_iff.1 h
          obtain ⟨rfl, rfl⟩ := Prod.mk.inj hpair
          rw [hchar]
          rfl
    · obtain ⟨rfl, rfl⟩ := Prod.mk.inj (Option.some.inj h)
      rfl

theorem parseChars_extend {n m : ℕ} {s cs r : Str} (x : Str) (hm : n ≤ m)
    (h : parseChars n s = some (cs, r)) : parseChars m (s ++ x) = some (cs, r ++ x) := by
  induction n generalizing m s cs with
  | zero => cases h
  | succ n ih =>
    obtain ⟨m, rfl⟩ : ∃ m', m = m' + 1 := ⟨m - 1, by omega⟩
    rw [parseChars] at h ⊢
    rcases hstep : stringStep s with _ | ⟨_ | c, r'⟩ <;> rw [hstep] at h
    · cases h
    · rw [stringStep_extend x hstep]
      obtain ⟨rfl, rfl⟩ := Prod.mk.inj (Option.some.inj h)
      rfl
    · rw [stringStep_extend x hstep]
      obtain ⟨⟨cs', r''⟩, hrest, hpair⟩ := Option.map_eq_some_iff.1 h
      obtain ⟨rfl, rfl⟩ := Prod.mk.inj hpair
      dsimp only
      rw [ih (by omega) hrest]
      rfl

theorem parseString_extend {s t r : Str} (x : Str) (h : parseString s = some (t, r)) :
    parseString (s ++ x) = some (t, r ++ x) := by
  rcases s with _ | ⟨c, s⟩
  · cases h
  · simp only [parseString, List.cons_append] at h ⊢
    split_ifs at h ⊢
    exact parseChars_extend x (by simp) h

/-! ## Values -/

theorem skipWs_extend {s : Str} (x : Str) (h : skipWs s ≠ []) : skipWs (s ++ x) = skipWs s ++ x := by
  rw [skipWs, List.dropWhile_append, if_neg]
  · rfl
  · rw [List.isEmpty_iff]
    exact h

theorem expect_eq_some {c : Char} {s r : Str} : expect c s = some r ↔ s = c :: r := by
  rcases s with _ | ⟨d, s⟩
  · simp [expect]
  · by_cases h : d = c <;> simp [expect, h]

theorem expect_extend {c : Char} {s r : Str} (x : Str) (h : expect c s = some r) :
    expect c (s ++ x) = some (r ++ x) := by
  rw [expect_eq_some] at h ⊢
  rw [h, List.cons_append]

theorem expect_extend_none {c : Char} {s : Str} (x : Str) (hs : s ≠ []) (h : expect c s = none) :
    expect c (s ++ x) = none := by
  rcases s with _ | ⟨d, s⟩
  · exact (hs rfl).elim
  · by_cases hd : d = c
    · simp [expect, hd] at h
    · simp [expect, hd]

/-- A comma or a closing bracket comes next. -/
def Delimited (r : Str) : Prop := ∃ c t, skipWs r = c :: t ∧ (c = ',' ∨ c = ']' ∨ c = '}')

theorem delimited_of_expect {c : Char} {r t : Str} (hc : c = ',' ∨ c = ']' ∨ c = '}')
    (h : expect c (skipWs r) = some t) : Delimited r := ⟨c, t, expect_eq_some.1 h, hc⟩

theorem Delimited.skipWs_ne_nil {r : Str} (h : Delimited r) : skipWs r ≠ [] := by
  obtain ⟨c, t, hskip, -⟩ := h
  rw [hskip]
  exact List.cons_ne_nil _ _

theorem Delimited.ne_nil {r : Str} (h : Delimited r) : r ≠ [] := by
  rintro rfl
  exact h.skipWs_ne_nil rfl

theorem Delimited.noNumHead {r : Str} (h : Delimited r) : NoNumHead r := by
  obtain ⟨c, t, hskip, hc⟩ := h
  rcases r with _ | ⟨d, r⟩
  · cases hskip
  · by_cases hd : isWs d = true
    · refine noNumHead_cons ?_
      simp only [isWs, Bool.or_eq_true, beq_iff_eq] at hd
      rcases hd with ((rfl | rfl) | rfl) | rfl <;> decide
    · rw [skipWs, List.dropWhile_cons_of_neg hd] at hskip
      obtain ⟨rfl, rfl⟩ := List.cons.inj hskip
      refine noNumHead_cons ?_
      rcases hc with rfl | rfl | rfl <;> decide

section Read

variable {F : Type} [PyFloat F]

/-- A value whose text shows where it ends. -/
def Json.closed : Json F → Bool
  | .str _ | .arr _ | .obj _ => true
  | _ => false

theorem keyword_eq_some {w s r : Str} : keyword w s = some r ↔ s = w ++ r := by
  rw [keyword]
  split_ifs with h
  · obtain ⟨t, rfl⟩ := List.isPrefixOf_iff_prefix.1 h
    simp
  · refine ⟨fun h => (by cases h), ?_⟩
    rintro rfl
    simp at h

theorem parseNumber_extend {consts : Bool} {s r : Str} {v : Json F} (x : Str)
    (hs : scanNumber s ≠ none) (hr : Delimited r) (h : parseNumber consts s = some (v, r)) :
    scanNumber (s ++ x) ≠ none ∧ parseNumber consts (s ++ x) = some (v, r ++ x) ∧
      v.closed = false := by
  obtain ⟨⟨sign, ds, fe, t⟩, hscan⟩ := Option.ne_none_iff_exists'.1 hs
  rw [parseNumber, hscan] at h
  rcases fe with _ | ⟨c, fe⟩
  · obtain ⟨i, hint, hpair⟩ := Option.map_eq_some_iff.1 h
    obtain ⟨rfl, rfl⟩ := Prod.mk.inj hpair
    have hextend := scanNumber_extend x hr.ne_nil hr.noNumHead hscan
    refine ⟨by rw [hextend]; exact Option.some_ne_none _, ?_, ?_⟩
    · rw [parseNumber, hextend]
      dsimp only
      rw [hint]
      rfl
    · unfold intOfToken at hint
      split at hint
      · obtain rfl := Option.some.inj hint
        rfl
      · cases hint
  · obtain ⟨rfl, rfl⟩ := Prod.mk.inj (Option.some.inj h)
    have hextend := scanNumber_extend x hr.ne_nil hr.noNumHead hscan
    refine ⟨by rw [hextend]; exact Option.some_ne_none _, ?_, rfl⟩
    rw [parseNumber, hextend]

/-- An atom that is not a number is a word, and is read so whatever follows. -/
theorem parseAtom_word {consts : Bool} {s r : Str} {v : Json F} (hs : scanNumber s = none)
    (h : parseAtom consts s = some (v, r)) :
    ∃ w, s = w ++ r ∧ v.closed = false ∧ ∀ r', parseAtom consts (w ++ r') = some (v, r') := by
  rw [parseAtom, parseNumber, hs] at h
  dsimp only at h
  rcases hnull : keyword "null".toList s with _ | t <;> rw [hnull] at h
  · rcases htrue : keyword "true".toList s with _ | t <;> rw [htrue] at h
    · rcases hfalse : keyword "false".toList s with _ | t <;> rw [hfalse] at h
      · rcases consts with _ | _
        · cases h
        · have hconst : parseConstant s = some (v, r) := h
          unfold parseConstant at hconst
          rcases hnan : keyword "NaN".toList s with _ | t <;> rw [hnan] at hconst
          · rcases hinf : keyword "Infinity".toList s with _ | t <;> rw [hinf] at hconst
            · rcases hneg : keyword "-Infinity".toList s with _ | t <;> rw [hneg] at hconst
              · cases hconst
              · obtain ⟨rfl, rfl⟩ := Prod.mk.inj (Option.some.inj hconst)
                exact ⟨_, keyword_eq_some.1 hneg, rfl, fun _ => rfl⟩
            · obtain ⟨rfl, rfl⟩ := Prod.mk.inj (Option.some.inj hconst)
              exact ⟨_, keyword_eq_some.1 hinf, rfl, fun _ => rfl⟩
          · obtain ⟨rfl, rfl⟩ := Prod.mk.inj (Option.some.inj hconst)
            exact ⟨_, keyword_eq_some.1 hnan, rfl, fun _ => rfl⟩
      · obtain ⟨rfl, rfl⟩ := Prod.mk.inj (Option.some.inj h)
        exact ⟨_, keyword_eq_some.1 hfalse, rfl, fun _ => rfl⟩
    · obtain ⟨rfl, rfl⟩ := Prod.mk.inj (Option.some.inj h)
      exact ⟨_, keyword_eq_some.1 htrue, rfl, fun _ => rfl⟩
  · obtain ⟨rfl, rfl⟩ := Prod.mk.inj (Option.some.inj h)
    exact ⟨_, keyword_eq_some.1 hnull, rfl, fun _ => rfl⟩

theorem parseAtom_extend {consts : Bool} {s r : Str} {v : Json F} (x : Str) (hr : Delimited r)
    (h : parseAtom consts s = some (v, r)) : parseAtom consts (s ++ x) = some (v, r ++ x) := by
  by_cases hs : scanNumber s = none
  · obtain ⟨w, rfl, -, hword⟩ := parseAtom_word hs h
    rw [List.append_assoc, hword]
  · rw [parseAtom_number consts hs] at h
    obtain ⟨hscan, hnumber, -⟩ := parseNumber_extend x hs hr h
    rw [parseAtom_number consts hscan, hnumber]

theorem not_closed_of_parseAtom {consts : Bool} {s r : Str} {v : Json F}
    (h : parseAtom consts s = some (v, r)) : v.closed = false := by
  by_cases hs : scanNumber s = none
  · obtain ⟨w, -, hclosed, -⟩ := parseAtom_word hs h
    exact hclosed
  · rw [parseAtom_number consts hs, parseNumber] at h
    split at h
    · obtain ⟨i, hint, hpair⟩ := Option.map_eq_some_iff.1 h
      obtain ⟨rfl, rfl⟩ := Prod.mk.inj hpair
      unfold intOfToken at hint
      split at hint
      · obtain rfl := Option.some.inj hint
        rfl
      · cases hint
    · obtain ⟨rfl, rfl⟩ := Prod.mk.inj (Option.some.inj h)
      rfl
    · next hnone => exact (hs hnone).elim

/-- What was read stays read when text is added: a value where it is closed or delimited, and the
rest of an array or an object always. -/
structure Extends (F : Type) [PyFloat F] (consts : Bool) (n : ℕ) : Prop where
  value : ∀ {m : ℕ} {s r : Str} {v : Json F} (x : Str), n ≤ m →
    parseValue consts n s = some (v, r) → v.closed = true ∨ Delimited r →
    parseValue consts m (s ++ x) = some (v, r ++ x)
  items : ∀ {m : ℕ} {s r : Str} {vs : List (Json F)} (x : Str), n ≤ m →
    parseItems consts n s = some (vs, r) → parseItems consts m (s ++ x) = some (vs, r ++ x)
  members : ∀ {m : ℕ} {s r : Str} {fs : Fields F} (x : Str), n ≤ m →
    parseMembers consts n s = some (fs, r) → parseMembers consts m (s ++ x) = some (fs, r ++ x)

theorem parseItems_ne_nil {consts : Bool} {n : ℕ} {s r : Str} {vs : List (Json F)}
    (h : parseItems consts n s = some (vs, r)) : s ≠ [] := by
  rintro rfl
  rcases n with _ | _ | n <;> cases h

theorem parseMembers_ne_nil {consts : Bool} {n : ℕ} {s r : Str} {fs : Fields F}
    (h : parseMembers consts n s = some (fs, r)) : s ≠ [] := by
  rintro rfl
  rcases n with _ | n <;> cases h

theorem parseValue_extend_step {consts : Bool} {n : ℕ} (ih : Extends F consts n) {m : ℕ}
    {s r : Str} {v : Json F} (x : Str) (hm : n + 1 ≤ m)
    (h : parseValue consts (n + 1) s = some (v, r)) (hend : v.closed = true ∨ Delimited r) :
    parseValue consts m (s ++ x) = some (v, r ++ x) := by
  obtain ⟨m, rfl⟩ : ∃ m', m = m' + 1 := ⟨m - 1, by omega⟩
  rcases s with _ | ⟨c, s⟩
  · cases h
  · rw [List.cons_append]
    rw [parseValue] at h ⊢
    split_ifs at h ⊢ with hquote hbracket hbrace
    · obtain ⟨⟨t, r'⟩, hstring, hpair⟩ := Option.map_eq_some_iff.1 h
      obtain ⟨rfl, rfl⟩ := Prod.mk.inj hpair
      rw [← List.cons_append, parseString_extend x hstring]
      rfl
    · rcases hempty : expect ']' (skipWs s) with _ | r' <;> rw [hempty] at h
      · obtain ⟨⟨vs, r'⟩, hitems, hpair⟩ := Option.map_eq_some_iff.1 h
        obtain ⟨rfl, rfl⟩ := Prod.mk.inj hpair
        have hne := parseItems_ne_nil hitems
        rw [skipWs_extend x hne, expect_extend_none x hne hempty]
        dsimp only
        rw [ih.items x (by omega) hitems]
        rfl
      · obtain ⟨rfl, rfl⟩ := Prod.mk.inj (Option.some.inj h)
        have hne : skipWs s ≠ [] := by
          rw [expect_eq_some.1 hempty]
          exact List.cons_ne_nil _ _
        rw [skipWs_extend x hne, expect_extend x hempty]
    · rcases hempty : expect '}' (skipWs s) with _ | r' <;> rw [hempty] at h
      · obtain ⟨⟨fs, r'⟩, hmembers, hpair⟩ := Option.map_eq_some_iff.1 h
        obtain ⟨rfl, rfl⟩ := Prod.mk.inj hpair
        have hne := parseMembers_ne_nil hmembers
        rw [skipWs_extend x hne, expect_extend_none x hne hempty]
        dsimp only
        rw [ih.members x (by omega) hmembers]
        rfl
      · obtain ⟨rfl, rfl⟩ := Prod.mk.inj (Option.some.inj h)
        have hne : skipWs s ≠ [] := by
          rw [expect_eq_some.1 hempty]
          exact List.cons_ne_nil _ _
        rw [skipWs_extend x hne, expect_extend x hempty]
    · rcases hend with hclosed | hdelimited
      · rw [not_closed_of_parseAtom h] at hclosed
        cases hclosed
      · exact parseAtom_extend x hdelimited h

theorem parseItems_extend_step {consts : Bool} {n : ℕ} (ih : Extends F consts n) {m : ℕ}
    {s r : Str} {vs : List (Json F)} (x : Str) (hm : n + 1 ≤ m)
    (h : parseItems consts (n + 1) s = some (vs, r)) :
    parseItems consts m (s ++ x) = some (vs, r ++ x) := by
  obtain ⟨m, rfl⟩ : ∃ m', m = m' + 1 := ⟨m - 1, by omega⟩
  rw [parseItems] at h ⊢
  obtain ⟨⟨v, r₀⟩, hvalue, hrest⟩ := Option.bind_eq_some_iff.1 h
  dsimp only at hrest
  rcases hcomma : expect ',' (skipWs r₀) with _ | r₁ <;> rw [hcomma] at hrest
  · obtain ⟨r₁, hclose, hpair⟩ := Option.map_eq_some_iff.1 hrest
    obtain ⟨rfl, rfl⟩ := Prod.mk.inj hpair
    have hdelimited := delimited_of_expect (.inr (.inl rfl)) hclose
    have hne := hdelimited.skipWs_ne_nil
    rw [ih.value x (by omega) hvalue (.inr hdelimited), Option.bind_some]
    dsimp only
    rw [skipWs_extend x hne, expect_extend_none x hne hcomma]
    dsimp only
    rw [expect_extend x hclose]
    rfl
  · obtain ⟨⟨vs', r₂⟩, hitems, hpair⟩ := Option.map_eq_some_iff.1 hrest
    obtain ⟨rfl, rfl⟩ := Prod.mk.inj hpair
    have hdelimited := delimited_of_expect (.inl rfl) hcomma
    rw [ih.value x (by omega) hvalue (.inr hdelimited), Option.bind_some]
    dsimp only
    rw [skipWs_extend x hdelimited.skipWs_ne_nil, expect_extend x hcomma]
    dsimp only
    rw [skipWs_extend x (parseItems_ne_nil hitems), ih.items x (by omega) hitems]
    rfl

theorem parseMembers_extend_step {consts : Bool} {n : ℕ} (ih : Extends F consts n) {m : ℕ}
    {s r : Str} {fs : Fields F} (x : Str) (hm : n + 1 ≤ m)
    (h : parseMembers consts (n + 1) s = some (fs, r)) :
    parseMembers consts m (s ++ x) = some (fs, r ++ x) := by
  obtain ⟨m, rfl⟩ : ∃ m', m = m' + 1 := ⟨m - 1, by omega⟩
  rw [parseMembers] at h ⊢
  obtain ⟨⟨k, r₀⟩, hkey, hrest⟩ := Option.bind_eq_some_iff.1 h
  obtain ⟨r₁, hcolon, hrest⟩ := Option.bind_eq_some_iff.1 hrest
  obtain ⟨⟨v, r₂⟩, hvalue, hrest⟩ := Option.bind_eq_some_iff.1 hrest
  dsimp only at hcolon hvalue hrest
  have hne₀ : skipWs r₀ ≠ [] := by
    rw [expect_eq_some.1 hcolon]
    exact List.cons_ne_nil _ _
  have hne₁ : skipWs r₁ ≠ [] := by
    intro hnil
    rw [hnil] at hvalue
    rcases n with _ | n <;> cases hvalue
  rw [parseString_extend x hkey, Option.bind_some]
  dsimp only
  rw [skipWs_extend x hne₀, expect_extend x hcolon, Option.bind_some, skipWs_extend x hne₁]
  rcases hcomma : expect ',' (skipWs r₂) with _ | r₃ <;> rw [hcomma] at hrest
  · obtain ⟨r₃, hclose, hpair⟩ := Option.map_eq_some_iff.1 hrest
    obtain ⟨rfl, rfl⟩ := Prod.mk.inj hpair
    have hdelimited := delimited_of_expect (.inr (.inr rfl)) hclose
    have hne := hdelimited.skipWs_ne_nil
    rw [ih.value x (by omega) hvalue (.inr hdelimited), Option.bind_some]
    dsimp only
    rw [skipWs_extend x hne, expect_extend_none x hne hcomma]
    dsimp only
    rw [expect_extend x hclose]
    rfl
  · obtain ⟨⟨fs', r₄⟩, hmembers, hpair⟩ := Option.map_eq_some_iff.1 hrest
    obtain ⟨rfl, rfl⟩ := Prod.mk.inj hpair
    have hdelimited := delimited_of_expect (.inl rfl) hcomma
    rw [ih.value x (by omega) hvalue (.inr hdelimited), Option.bind_some]
    dsimp only
    rw [skipWs_extend x hdelimited.skipWs_ne_nil, expect_extend x hcomma]
    dsimp only
    rw [skipWs_extend x (parseMembers_ne_nil hmembers), ih.members x (by omega) hmembers]
    rfl

theorem parse_extends (consts : Bool) (n : ℕ) : Extends F consts n := by
  induction n with
  | zero =>
    constructor
    · intro m s r v x _ h
      cases h
    · intro m s r vs x _ h
      cases h
    · intro m s r fs x _ h
      cases h
  | succ n ih =>
    exact ⟨fun x hm h hend => parseValue_extend_step ih x hm h hend,
      fun x hm h => parseItems_extend_step ih x hm h,
      fun x hm h => parseMembers_extend_step ih x hm h⟩

/-! ## Objects -/

/-- A text that starts with a brace is an object or nothing. -/
theorem parse_brace {consts : Bool} {s : Str} {v : Json F} (h : parse consts ('{' :: s) = some v) :
    ∃ r, parseValue consts (s.length + 2) ('{' :: s) = some (v, r) ∧ skipWs r = [] ∧
      v.closed = true := by
  rw [parse, skipWs_cons (by decide)] at h
  obtain ⟨⟨w, r⟩, hvalue, hend⟩ := Option.bind_eq_some_iff.1 h
  dsimp only at hend
  split_ifs at hend with hskip
  obtain rfl := Option.some.inj hend
  refine ⟨r, hvalue, hskip, ?_⟩
  rw [List.length_cons, parseValue, if_neg (by decide), if_neg (by decide), if_pos rfl] at hvalue
  split at hvalue
  · obtain ⟨rfl, -⟩ := Prod.mk.inj (Option.some.inj hvalue)
    rfl
  · obtain ⟨⟨fs, r'⟩, -, hpair⟩ := Option.map_eq_some_iff.1 hvalue
    obtain ⟨rfl, -⟩ := Prod.mk.inj hpair
    rfl

/-- A whole object and something after it that is not white space are no JSON text. -/
theorem parse_extend_none {consts : Bool} {s x : Str} {v : Json F}
    (h : parse consts ('{' :: s) = some v) {c : Char} (hc : c ∈ x) (hws : isWs c = false) :
    parse (F := F) consts ('{' :: s ++ x) = none := by
  obtain ⟨r, hvalue, -, hclosed⟩ := parse_brace h
  have hextend : parseValue consts ((s ++ x).length + 2) ('{' :: s ++ x) = some (v, r ++ x) :=
    (parse_extends consts _).value x (by simp) hvalue (.inl hclosed)
  rw [List.cons_append] at hextend ⊢
  rw [parse, skipWs_cons (by decide), List.length_cons, hextend, Option.bind_some]
  dsimp only
  rw [if_neg]
  intro hskip
  rw [skipWs, List.dropWhile_eq_nil_iff] at hskip
  have hmem := hskip c (List.mem_append_right _ hc)
  rw [hws] at hmem
  cases hmem

/-- The text of an object starts with a brace. -/
theorem parse_obj_head {consts : Bool} {s : Str} {fs : Fields F}
    (h : parse consts s = some (.obj fs)) : ∃ t, skipWs s = '{' :: t := by
  rw [parse] at h
  obtain ⟨⟨v, r⟩, hvalue, hend⟩ := Option.bind_eq_some_iff.1 h
  dsimp only at hend
  split_ifs at hend
  obtain rfl := Option.some.inj hend
  rcases hs : skipWs s with _ | ⟨c, t⟩
  · rw [hs, parseValue] at hvalue
    cases hvalue
  · rw [hs, parseValue] at hvalue
    split_ifs at hvalue with hquote hbracket hbrace
    · obtain ⟨x, -, hx⟩ := Option.map_eq_some_iff.1 hvalue
      cases hx
    · split at hvalue
      · cases hvalue
      · obtain ⟨x, -, hx⟩ := Option.map_eq_some_iff.1 hvalue
        cases hx
    · exact ⟨t, by rw [hbrace]⟩
    · cases not_closed_of_parseAtom hvalue

end Read

end Bulldog
