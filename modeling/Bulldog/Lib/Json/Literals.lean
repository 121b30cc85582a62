import Bulldog.Lib.Json.Extend

/-!
# The float literals of a text

The number tokens of a text with a fraction or an exponent, found by a lexer that knows of strings and numbers
but of no grammar. What the reader takes from a text has exactly these for its floats, and no integer that is
too long to be written.
-/

namespace Bulldog

/-! ## Rests -/

theorem parseChars_length {n : ℕ} {s cs r : Str} (h : parseChars n s = some (cs, r)) : r.length < s.length := by
  induction n generalizing s cs with
  | zero => cases h
  | succ n ih =>
    rw [parseChars] at h
    rcases hstep : stringStep s with _ | ⟨o, t⟩ <;> rw [hstep] at h
    · cases h
    have hlt := stringStep_length hstep
    rcases o with _ | c
    · obtain ⟨-, rfl⟩ := Prod.mk.inj (Option.some.inj h)
      exact hlt
    · obtain ⟨⟨cs', r'⟩, hrest, hpair⟩ := Option.map_eq_some_iff.1 h
      obtain ⟨-, rfl⟩ := Prod.mk.inj hpair
      exact (ih hrest).trans hlt
where
  hex4_length {s r : Str} {m : ℕ} (h : hex4 s = some (m, r)) : r.length < s.length := by
    rcases s with _ | ⟨a, _ | ⟨b, _ | ⟨c, _ | ⟨d, s⟩⟩⟩⟩
    · cases h
    · cases h
    · cases h
    · cases h
    · simp only [hex4, Option.bind_eq_bind, Option.bind_eq_some_iff] at h
      obtain ⟨_, -, _, -, _, -, _, -, hpair⟩ := h
      obtain ⟨-, rfl⟩ := Prod.mk.inj (Option.some.inj hpair)
      simp only [List.length_cons]
      omega
  lowSurrogate_length {s r : Str} {m : ℕ} (h : lowSurrogate s = some (m, r)) : r.length < s.length := by
    rcases s with _ | ⟨a, _ | ⟨b, s⟩⟩
    · cases h
    · cases h
    · rw [lowSurrogate] at h
      split_ifs at h
      obtain ⟨⟨m', r'⟩, hhex, hrange⟩ := Option.bind_eq_some_iff.1 h
      dsimp only at hrange
      split_ifs at hrange
      obtain ⟨-, rfl⟩ := Prod.mk.inj (Option.some.inj hrange)
      have := hex4_length hhex
      simp only [List.length_cons]
      omega
  unicodeChar_length {s r : Str} {c : Char} (h : unicodeChar s = some (c, r)) : r.length < s.length := by
    obtain ⟨⟨m, t⟩, hhex, hchar⟩ := Option.bind_eq_some_iff.1 h
    dsimp only at hchar
    split_ifs at hchar
    · obtain ⟨⟨m', t'⟩, hlow, hpair⟩ := Option.map_eq_some_iff.1 hchar
      obtain ⟨-, rfl⟩ := Prod.mk.inj hpair
      exact (lowSurrogate_length hlow).trans (hex4_length hhex)
    · obtain ⟨-, rfl⟩ := Prod.mk.inj (Option.some.inj hchar)
      exact hex4_length hhex
  stringStep_length {s r : Str} {o : Option Char} (h : stringStep s = some (o, r)) : r.length < s.length := by
    rcases s with _ | ⟨c, s⟩
    · cases h
    simp only [stringStep] at h
    split_ifs at h
    · obtain ⟨-, rfl⟩ := Prod.mk.inj (Option.some.inj h)
      exact Nat.lt_succ_self _
    · rcases s with _ | ⟨e, s⟩
      · cases h
      dsimp only at h
      split_ifs at h
      · obtain ⟨⟨d, t⟩, hchar, hpair⟩ := Option.map_eq_some_iff.1 h
        obtain ⟨-, rfl⟩ := Prod.mk.inj hpair
        have := unicodeChar_length hchar
        simp only [List.length_cons]
        omega
      · obtain ⟨d, -, hpair⟩ := Option.map_eq_some_iff.1 h
        obtain ⟨-, rfl⟩ := Prod.mk.inj hpair
        simp only [List.length_cons]
        omega
    · obtain ⟨-, rfl⟩ := Prod.mk.inj (Option.some.inj h)
      exact Nat.lt_succ_self _

/-- A string literal starts with its quote and takes characters. -/
theorem parseString_length {s k r : Str} (h : parseString s = some (k, r)) :
    (∃ t, s = '"' :: t) ∧ r.length < s.length := by
  rcases s with _ | ⟨c, s⟩
  · cases h
  rw [parseString] at h
  split_ifs at h with hc
  subst hc
  exact ⟨⟨s, rfl⟩, (parseChars_length h).trans (Nat.lt_succ_self _)⟩

/-- The text after a number token is shorter, and the token has digits for its integer part. -/
theorem scanNumber_length {s sign ds fe r : Str} (h : scanNumber s = some (sign, ds, fe, r)) :
    r.length < s.length ∧ (∀ c ∈ ds, c.isDigit = true) ∧ ds ≠ [] := by
  have hdrop (s : Str) : (s.dropWhile Char.isDigit).length ≤ s.length := List.length_dropWhile_le _ _
  have hminus : (scanMinus s).2.length ≤ s.length := by
    rcases s with _ | ⟨c, s⟩
    · exact le_rfl
    · rw [scanMinus]
      split_ifs
      · exact Nat.le_succ _
      · exact le_rfl
  have hfrac (t : Str) : (scanFrac t).2.length ≤ t.length := by
    rcases t with _ | ⟨c, t⟩
    · exact le_rfl
    · rw [scanFrac]
      split_ifs
      · exact (hdrop t).trans (Nat.le_succ _)
      · exact le_rfl
  have hsign (t : Str) : (scanSign t).2.length ≤ t.length := by
    rcases t with _ | ⟨c, t⟩
    · exact le_rfl
    · rw [scanSign]
      split_ifs
      · exact Nat.le_succ _
      · exact le_rfl
  have hexp (t : Str) : (scanExp t).2.length ≤ t.length := by
    rcases t with _ | ⟨c, t⟩
    · exact le_rfl
    · rw [scanExp]
      split_ifs
      · exact ((hdrop _).trans (hsign t)).trans (Nat.le_succ _)
      · exact le_rfl
  obtain ⟨⟨ds', t⟩, hint, hpair⟩ := Option.map_eq_some_iff.1 h
  simp only [Prod.mk.injEq] at hpair
  obtain ⟨-, rfl, -, rfl⟩ := hpair
  have hrest : t.length < (scanMinus s).2.length ∧ (∀ c ∈ ds', c.isDigit = true) ∧ ds' ≠ [] := by
    rcases hrest : (scanMinus s).2 with _ | ⟨c, u⟩ <;> rw [hrest] at hint
    · cases hint
    rw [scanInt] at hint
    split_ifs at hint with hzero hdigit
    · obtain ⟨rfl, rfl⟩ := Prod.mk.inj (Option.some.inj hint)
      exact ⟨Nat.lt_succ_self _, by simp, List.cons_ne_nil _ _⟩
    · obtain ⟨rfl, rfl⟩ := Prod.mk.inj (Option.some.inj hint)
      refine ⟨Nat.lt_succ_of_le (hdrop u), ?_, List.cons_ne_nil _ _⟩
      rintro d (_ | ⟨_, hd⟩)
      · exact hdigit
      · exact List.mem_takeWhile_imp hd
  exact ⟨(((hexp _).trans (hfrac t)).trans_lt hrest.1).trans_le hminus, hrest.2⟩

/-- The digits of a token are the most that its value has. -/
theorem length_toDigits_ofDigitChars {ds : Str} (hds : ∀ c ∈ ds, c.isDigit = true) (hne : ds ≠ []) :
    (Nat.toDigits 10 (Nat.ofDigitChars 10 ds 0)).length ≤ ds.length := by
  have hlt : ∀ ds : Str, (∀ c ∈ ds, c.isDigit = true) → Nat.ofDigitChars 10 ds 0 < 10 ^ ds.length := by
    intro ds
    induction ds with
    | nil => exact fun _ => by rw [Nat.ofDigitChars_nil]; exact Nat.one_pos
    | cons c ds ih =>
      intro hall
      have htail := ih fun d hd => hall d (.tail _ hd)
      have hc : c.toNat - '0'.toNat < 10 := by
        have hdigit := hall c List.mem_cons_self
        rw [Char.isDigit, Bool.and_eq_true, decide_eq_true_eq, decide_eq_true_eq] at hdigit
        have hle : c.toNat ≤ 57 := hdigit.2
        change c.toNat - 48 < 10
        omega
      rw [Nat.ofDigitChars_cons, Nat.ofDigitChars_eq_ofDigitChars_zero, List.length_cons, Nat.pow_succ]
      have hle : 10 ^ ds.length * (10 * 0 + (c.toNat - '0'.toNat)) ≤ 10 ^ ds.length * 9 :=
        Nat.mul_le_mul_left _ (by omega)
      omega
  exact (Nat.length_toDigits_le_iff (by omega) (List.length_pos_iff.2 hne)).2 (hlt ds hds)

/-! ## The lexer -/

/-- The float literals of a text, where a step takes a string, a number, or another character. -/
def lexFloats : ℕ → Str → List Str
  | 0, _ => []
  | _ + 1, [] => []
  | n + 1, c :: s =>
    if c = '"' then
      match parseString (c :: s) with
      | some (_, r) => lexFloats n r
      | none => []
    else
      match scanNumber (c :: s) with
      | some (_, _, [], r) => lexFloats n r
      | some (sign, ds, fe, r) => (sign ++ ds ++ fe) :: lexFloats n r
      | none => lexFloats n s

/-- The float literals of a text. -/
def floatLiterals (s : Str) : List Str := lexFloats s.length s

/-- The lexer comes from `s` to `r` with the literals `ts`. -/
def Lexes (s : Str) (ts : List Str) (r : Str) : Prop :=
  ∀ n, s.length ≤ n → ∃ m, r.length ≤ m ∧ lexFloats n s = ts ++ lexFloats m r

theorem Lexes.refl (s : Str) : Lexes s [] s := fun n hn => ⟨n, hn, rfl⟩

theorem Lexes.trans {s r t : Str} {ts us : List Str} (h : Lexes s ts r) (h' : Lexes r us t) :
    Lexes s (ts ++ us) t := by
  intro n hn
  obtain ⟨m, hm, heq⟩ := h n hn
  obtain ⟨k, hk, heq'⟩ := h' m hm
  exact ⟨k, hk, by rw [heq, heq', List.append_assoc]⟩

/-- The same where the first part has no literal. -/
theorem Lexes.skip {s r t : Str} {us : List Str} (h : Lexes s [] r) (h' : Lexes r us t) : Lexes s us t :=
  h.trans h'

/-- The same where the second part has none. -/
theorem Lexes.end {s r t : Str} {ts : List Str} (h : Lexes s ts r) (h' : Lexes r [] t) : Lexes s ts t := by
  have := h.trans h'
  rwa [List.append_nil] at this

/-- The literals of a text that ends there. -/
theorem Lexes.floatLiterals {s : Str} {ts : List Str} (h : Lexes s ts []) : floatLiterals s = ts := by
  obtain ⟨m, -, heq⟩ := h s.length le_rfl
  rw [Bulldog.floatLiterals, heq]
  rcases m with _ | m <;> exact List.append_nil ts

/-- A character that starts neither a string nor a number. -/
def plainChar (c : Char) : Bool := !(c == '"' || c == '-' || c.isDigit)

theorem lexes_plain {c : Char} (s : Str) (hc : plainChar c = true) : Lexes (c :: s) [] s := by
  intro n hn
  rw [plainChar, Bool.not_eq_true', Bool.or_eq_false_iff, Bool.or_eq_false_iff] at hc
  obtain ⟨⟨hquote, hminus⟩, hdigit⟩ := hc
  obtain ⟨n, rfl⟩ : ∃ k, n = k + 1 := ⟨n - 1, by rw [List.length_cons] at hn; omega⟩
  have hscan : scanNumber (c :: s) = none := by
    -- a number starts with a digit or a sign
    by_contra hne
    obtain ⟨d, t, heq, hd⟩ := scanNumber_head hne
    obtain ⟨rfl, -⟩ := List.cons.inj heq
    rcases hd with hd | rfl
    · rw [hd] at hdigit
      cases hdigit
    · cases hminus
  refine ⟨n, by rw [List.length_cons] at hn; omega, ?_⟩
  rw [lexFloats, if_neg (by simpa using hquote), hscan]
  rfl

theorem lexes_plains {w : Str} (s : Str) (hw : w.all plainChar = true) : Lexes (w ++ s) [] s := by
  induction w with
  | nil => exact .refl s
  | cons c w ih =>
    rw [List.all_cons, Bool.and_eq_true] at hw
    exact (lexes_plain (w ++ s) hw.1).skip (ih hw.2)

theorem lexes_skipWs (s : Str) : Lexes s [] (skipWs s) := by
  have hws : (s.takeWhile isWs).all plainChar = true := by
    refine List.all_eq_true.2 fun c hc => ?_
    have h := List.mem_takeWhile_imp hc
    simp only [isWs, Bool.or_eq_true, beq_iff_eq] at h
    rcases h with ((rfl | rfl) | rfl) | rfl <;> decide
  have h := lexes_plains (skipWs s) hws
  rwa [skipWs, List.takeWhile_append_dropWhile] at h

theorem lexes_expect {c : Char} {s r : Str} (hc : plainChar c = true) (h : expect c s = some r) :
    Lexes s [] r := by
  rw [expect_eq_some.1 h]
  exact lexes_plain r hc

theorem lexes_keyword {w s r : Str} (hw : w.all plainChar = true) (h : keyword w s = some r) :
    Lexes s [] r := by
  rw [keyword_eq_some.1 h]
  exact lexes_plains r hw

theorem lexes_string {s k r : Str} (h : parseString s = some (k, r)) : Lexes s [] r := by
  obtain ⟨⟨t, rfl⟩, hlen⟩ := parseString_length h
  intro n hn
  obtain ⟨n, rfl⟩ : ∃ k, n = k + 1 := ⟨n - 1, by rw [List.length_cons] at hn; omega⟩
  refine ⟨n, by omega, ?_⟩
  rw [lexFloats, if_pos rfl, h]
  rfl

theorem lexes_number {s sign ds fe r : Str} (h : scanNumber s = some (sign, ds, fe, r)) :
    Lexes s (if fe = [] then [] else [sign ++ ds ++ fe]) r := by
  have hne : scanNumber s ≠ none := by rw [h]; exact Option.some_ne_none _
  obtain ⟨c, t, rfl, hc⟩ := scanNumber_head hne
  have hlen := (scanNumber_length h).1
  intro n hn
  obtain ⟨n, rfl⟩ : ∃ k, n = k + 1 := ⟨n - 1, by rw [List.length_cons] at hn; omega⟩
  refine ⟨n, by omega, ?_⟩
  rw [lexFloats, if_neg (numHead_ne hc).1, h]
  rcases fe with _ | ⟨d, fe⟩ <;> rfl

/-! ## The floats of a value -/

section Floats

variable {F : Type}

mutual
/-- The floats of a value. -/
def Json.floats : Json F → List F
  | .float f => [f]
  | .arr xs => floatsItems xs
  | .obj fs => floatsFields fs
  | _ => []
/-- `floats` of every item. -/
def floatsItems : List (Json F) → List F
  | [] => []
  | x :: xs => x.floats ++ floatsItems xs
/-- `floats` of every member. -/
def floatsFields : Fields F → List F
  | [] => []
  | (_, v) :: fs => v.floats ++ floatsFields fs
end

variable [PyFloat F]

/-- `allow_nan=False` asks for finite floats besides. -/
theorem writable_false_iff : ∀ v : Json F,
    v.writable false = true ↔ v.writable true = true ∧ ∀ f ∈ v.floats, PyFloat.finite f = true
  | .null => by simp [Json.writable, Json.floats]
  | .bool _ => by simp [Json.writable, Json.floats]
  | .int _ => by simp [Json.writable, Json.floats]
  | .float _ => by simp [Json.writable, Json.floats]
  | .str _ => by simp [Json.writable, Json.floats]
  | .arr xs => items xs
  | .obj fs => fields fs
where
  items : ∀ xs : List (Json F), writableItems false xs = true ↔
      writableItems true xs = true ∧ ∀ f ∈ floatsItems xs, PyFloat.finite f = true
    | [] => by simp [writableItems, floatsItems]
    | x :: xs => by
      rw [writableItems, writableItems, floatsItems, Bool.and_eq_true, Bool.and_eq_true,
        writable_false_iff x, items xs, List.forall_mem_append, and_and_and_comm]
  fields : ∀ fs : Fields F, writableFields false fs = true ↔
      writableFields true fs = true ∧ ∀ f ∈ floatsFields fs, PyFloat.finite f = true
    | [] => by simp [writableFields, floatsFields]
    | (_, v) :: fs => by
      rw [writableFields, writableFields, floatsFields, Bool.and_eq_true, Bool.and_eq_true,
        writable_false_iff v, fields fs, List.forall_mem_append, and_and_and_comm]

/-! ## What the reader takes -/

/-- From `s` to `r` the lexer has literals for the floats `xs`, which stand in a value that can be written. -/
def Takes (s : Str) (xs : List F) (written : Bool) (r : Str) : Prop :=
  written = true ∧ ∃ ts, Lexes s ts r ∧ xs = ts.map PyFloat.ofToken

theorem Lexes.takes {s r t : Str} {xs : List F} {written : Bool} (h : Lexes s [] r)
    (h' : Takes r xs written t) : Takes s xs written t := by
  obtain ⟨hw, ts, hts, hxs⟩ := h'
  exact ⟨hw, ts, h.skip hts, hxs⟩

theorem Takes.end {s r t : Str} {xs : List F} {written : Bool} (h : Takes s xs written r)
    (h' : Lexes r [] t) : Takes s xs written t := by
  obtain ⟨hw, ts, hts, hxs⟩ := h
  exact ⟨hw, ts, hts.end h', hxs⟩

theorem Takes.append {s r t : Str} {xs ys : List F} {b b' : Bool} (h : Takes s xs b r) (h' : Takes r ys b' t) :
    Takes s (xs ++ ys) (b && b') t := by
  obtain ⟨rfl, ts, hts, rfl⟩ := h
  obtain ⟨rfl, us, hus, rfl⟩ := h'
  exact ⟨rfl, ts ++ us, hts.trans hus, List.map_append.symm⟩

/-- A text without floats. -/
theorem Lexes.none {s r : Str} (h : Lexes s [] r) : Takes s ([] : List F) true r := ⟨rfl, [], h, rfl⟩

theorem parseNumber_takes {s r : Str} {v : Json F} (h : parseNumber false s = some (v, r)) :
    Takes s v.floats (v.writable true) r := by
  unfold parseNumber at h
  rcases hscan : scanNumber s with _ | ⟨sign, ds, fe, t⟩ <;> rw [hscan] at h
  · cases h
  have hlexes := lexes_number hscan
  rcases fe with _ | ⟨c, fe⟩
  · obtain ⟨i, hint, hpair⟩ := Option.map_eq_some_iff.1 h
    obtain ⟨rfl, rfl⟩ := Prod.mk.inj hpair
    obtain ⟨-, hdigits, hne⟩ := scanNumber_length hscan
    unfold intOfToken at hint
    split_ifs at hint with hlen hsign
    · obtain rfl := Option.some.inj hint
      exact ⟨decide_eq_true ((length_toDigits_ofDigitChars hdigits hne).trans hlen), [], hlexes, rfl⟩
    · obtain rfl := Option.some.inj hint
      refine ⟨decide_eq_true ?_, [], hlexes, rfl⟩
      rw [Int.natAbs_neg]
      exact (length_toDigits_ofDigitChars hdigits hne).trans hlen
  · obtain ⟨rfl, rfl⟩ := Prod.mk.inj (Option.some.inj h)
    exact ⟨rfl, [sign ++ ds ++ c :: fe], hlexes, rfl⟩

theorem parseAtom_takes {s r : Str} {v : Json F} (h : parseAtom false s = some (v, r)) :
    Takes s v.floats (v.writable true) r := by
  unfold parseAtom at h
  rcases hnull : keyword "null".toList s with _ | t <;> rw [hnull] at h
  · rcases htrue : keyword "true".toList s with _ | t <;> rw [htrue] at h
    · rcases hfalse : keyword "false".toList s with _ | t <;> rw [hfalse] at h
      · exact parseNumber_takes h
      · obtain ⟨rfl, rfl⟩ := Prod.mk.inj (Option.some.inj h)
        exact (lexes_keyword (by decide) hfalse).none
    · obtain ⟨rfl, rfl⟩ := Prod.mk.inj (Option.some.inj h)
      exact (lexes_keyword (by decide) htrue).none
  · obtain ⟨rfl, rfl⟩ := Prod.mk.inj (Option.some.inj h)
    exact (lexes_keyword (by decide) hnull).none

/-- The readers with `n` steps take the literals of what they read. -/
structure TakesFloats (F : Type) [PyFloat F] (n : ℕ) : Prop where
  value : ∀ {s r : Str} {v : Json F}, parseValue false n s = some (v, r) →
    Takes s v.floats (v.writable true) r
  items : ∀ {s r : Str} {xs : List (Json F)}, parseItems false n s = some (xs, r) →
    Takes s (floatsItems xs) (writableItems true xs) r
  members : ∀ {s r : Str} {fs : Fields F}, parseMembers false n s = some (fs, r) →
    Takes s (floatsFields fs) (writableFields true fs) r

theorem parseValue_takes_step {n : ℕ} (ih : TakesFloats F n) {s r : Str} {v : Json F}
    (h : parseValue false (n + 1) s = some (v, r)) : Takes s v.floats (v.writable true) r := by
  rcases s with _ | ⟨c, s⟩
  · cases h
  rw [parseValue] at h
  split_ifs at h with hquote hbracket hbrace
  · obtain ⟨⟨t, r'⟩, hstring, hpair⟩ := Option.map_eq_some_iff.1 h
    obtain ⟨rfl, rfl⟩ := Prod.mk.inj hpair
    exact (lexes_string hstring).none
  · have hopen := (lexes_plain s (show plainChar c = true by rw [hbracket]; decide)).skip (lexes_skipWs s)
    rcases hempty : expect ']' (skipWs s) with _ | r' <;> rw [hempty] at h
    · obtain ⟨⟨xs, r'⟩, hitems, hpair⟩ := Option.map_eq_some_iff.1 h
      obtain ⟨rfl, rfl⟩ := Prod.mk.inj hpair
      exact hopen.takes (ih.items hitems)
    · obtain ⟨rfl, rfl⟩ := Prod.mk.inj (Option.some.inj h)
      exact (hopen.skip (lexes_expect (by decide) hempty)).none
  · have hopen := (lexes_plain s (show plainChar c = true by rw [hbrace]; decide)).skip (lexes_skipWs s)
    rcases hempty : expect '}' (skipWs s) with _ | r' <;> rw [hempty] at h
    · obtain ⟨⟨fs, r'⟩, hmembers, hpair⟩ := Option.map_eq_some_iff.1 h
      obtain ⟨rfl, rfl⟩ := Prod.mk.inj hpair
      exact hopen.takes (ih.members hmembers)
    · obtain ⟨rfl, rfl⟩ := Prod.mk.inj (Option.some.inj h)
      exact (hopen.skip (lexes_expect (by decide) hempty)).none
  · exact parseAtom_takes h

theorem parseItems_takes_step {n : ℕ} (ih : TakesFloats F n) {s r : Str} {xs : List (Json F)}
    (h : parseItems false (n + 1) s = some (xs, r)) :
    Takes s (floatsItems xs) (writableItems true xs) r := by
  rw [parseItems] at h
  obtain ⟨⟨v, r₀⟩, hvalue, hrest⟩ := Option.bind_eq_some_iff.1 h
  dsimp only at hrest
  have hfirst := (ih.value hvalue).end (lexes_skipWs r₀)
  rcases hcomma : expect ',' (skipWs r₀) with _ | r₁ <;> rw [hcomma] at hrest
  · obtain ⟨r₁, hclose, hpair⟩ := Option.map_eq_some_iff.1 hrest
    obtain ⟨rfl, rfl⟩ := Prod.mk.inj hpair
    exact hfirst.append (lexes_expect (by decide) hclose).none
  · obtain ⟨⟨vs, r₂⟩, hitems, hpair⟩ := Option.map_eq_some_iff.1 hrest
    obtain ⟨rfl, rfl⟩ := Prod.mk.inj hpair
    have hsep := (lexes_expect (by decide) hcomma).skip (lexes_skipWs r₁)
    exact hfirst.append (hsep.takes (ih.items hitems))

theorem parseMembers_takes_step {n : ℕ} (ih : TakesFloats F n) {s r : Str} {fs : Fields F}
    (h : parseMembers false (n + 1) s = some (fs, r)) :
    Takes s (floatsFields fs) (writableFields true fs) r := by
  rw [parseMembers] at h
  obtain ⟨⟨k, r₀⟩, hkey, hrest⟩ := Option.bind_eq_some_iff.1 h
  obtain ⟨r₁, hcolon, hrest⟩ := Option.bind_eq_some_iff.1 hrest
  obtain ⟨⟨v, r₂⟩, hvalue, hrest⟩ := Option.bind_eq_some_iff.1 hrest
  dsimp only at hcolon hvalue hrest
  -- a key may hold digits, which the lexer skips with its string
  have hname := (((lexes_string hkey).skip (lexes_skipWs r₀)).skip
    (lexes_expect (by decide) hcolon)).skip (lexes_skipWs r₁)
  have hfirst := (hname.takes (ih.value hvalue)).end (lexes_skipWs r₂)
  rcases hcomma : expect ',' (skipWs r₂) with _ | r₃ <;> rw [hcomma] at hrest
  · obtain ⟨r₃, hclose, hpair⟩ := Option.map_eq_some_iff.1 hrest
    obtain ⟨rfl, rfl⟩ := Prod.mk.inj hpair
    exact hfirst.append (lexes_expect (by decide) hclose).none
  · obtain ⟨⟨fs', r₄⟩, hmembers, hpair⟩ := Option.map_eq_some_iff.1 hrest
    obtain ⟨rfl, rfl⟩ := Prod.mk.inj hpair
    have hsep := (lexes_expect (by decide) hcomma).skip (lexes_skipWs r₃)
    exact hfirst.append (hsep.takes (ih.members hmembers))

theorem parse_takes (n : ℕ) : TakesFloats F n := by
  induction n with
  | zero =>
    constructor
    · intro s r v h
      cases h
    · intro s r xs h
      cases h
    · intro s r fs h
      cases h
  | succ n ih =>
    exact ⟨fun h => parseValue_takes_step ih h, fun h => parseItems_takes_step ih h,
      fun h => parseMembers_takes_step ih h⟩

/-- The floats of a value are what the float literals of its text denote, and no integer is too long. -/
theorem floats_parse {s : Str} {v : Json F} (h : parse false s = some v) :
    v.floats = (floatLiterals s).map PyFloat.ofToken ∧ v.writable true = true := by
  obtain ⟨⟨w, r⟩, hvalue, hend⟩ := Option.bind_eq_some_iff.1 h
  dsimp only at hend
  split_ifs at hend with hskip
  obtain rfl := Option.some.inj hend
  have hrest := lexes_skipWs r
  rw [hskip] at hrest
  obtain ⟨hw, ts, hts, hfloats⟩ := ((lexes_skipWs s).takes ((parse_takes _).value hvalue)).end hrest
  exact ⟨by rw [hfloats, hts.floatLiterals], hw⟩

end Floats

end Bulldog
