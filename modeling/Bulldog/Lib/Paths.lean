import Bulldog.Lib.Urllib

/-!
# Escapes and components

`unquote` leaves a string alone exactly when the string has no percent escape, and it never joins
what a slash separates: it decodes the components of a path one by one. `normpath` drops empty
components and dots, and without `..` it keeps all others.
-/

namespace Bulldog

/-! ## Components -/

namespace Str

theorem splitOn_of_not_mem {sep : Char} {s : Str} (h : sep ∉ s) : splitOn sep s = [s] := by
  induction s with
  | nil => rfl
  | cons c s ih =>
    obtain ⟨hc, hs⟩ := not_or.1 (mt List.mem_cons.2 h)
    rw [splitOn, if_neg (Ne.symm hc), ih hs]

/-- A string has no separator, or it is a part without one, a separator, and a rest. -/
theorem sep_induction (sep : Char) {P : Str → Prop} (part : ∀ s, sep ∉ s → P s)
    (cons : ∀ a b, sep ∉ a → P b → P (a ++ sep :: b)) (s : Str) : P s := by
  induction hn : s.length using Nat.strong_induction_on generalizing s with
  | _ n ih =>
    by_cases hs : sep ∈ s
    · obtain ⟨a, b, rfl, ha⟩ := List.eq_append_cons_of_mem hs
      refine cons a b ha (ih b.length ?_ b rfl)
      simp only [List.length_append, List.length_cons] at hn
      omega
    · exact part s hs

theorem splitOn_append_sep {sep : Char} (a b : Str) :
    splitOn sep (a ++ sep :: b) = splitOn sep a ++ splitOn sep b := by
  induction a using sep_induction sep with
  | part a ha => rw [splitOn_append ha, splitOn_of_not_mem ha, List.singleton_append]
  | cons a a' ha ih =>
    rw [List.append_assoc, List.cons_append, splitOn_append ha, ih, splitOn_append ha,
      List.cons_append]

theorem not_mem_of_mem_splitOn {sep : Char} {s part : Str} (h : part ∈ splitOn sep s) :
    sep ∉ part := by
  induction s using sep_induction sep with
  | part s hs =>
    rw [splitOn_of_not_mem hs, List.mem_singleton] at h
    rwa [h]
  | cons a b ha ih =>
    rw [splitOn_append ha, List.mem_cons] at h
    rcases h with rfl | h
    · exact ha
    · exact ih h

/-- The characters of a string are separators and those of its parts. -/
theorem mem_splitOn {sep c : Char} (hc : c ≠ sep) {s : Str} :
    c ∈ s ↔ ∃ part ∈ splitOn sep s, c ∈ part := by
  induction s using sep_induction sep with
  | part s hs => simp [splitOn_of_not_mem hs]
  | cons a b ha ih => simp [splitOn_append ha, ih, hc]

/-- A map on strings that treats the parts one by one. -/
def Respects (sep : Char) (g : Str → Str) : Prop := ∀ a b, g (a ++ sep :: b) = g a ++ sep :: g b

theorem Respects.splitOn {sep : Char} {g : Str → Str} (hg : Respects sep g) (s : Str) :
    splitOn sep (g s) = (splitOn sep s).flatMap fun part => Str.splitOn sep (g part) := by
  induction s using sep_induction sep with
  | part s hs => simp [splitOn_of_not_mem hs]
  | cons a b ha ih => rw [hg, splitOn_append_sep, ih, splitOn_append ha, List.flatMap_cons]

theorem Respects.comp {sep : Char} {f g : Str → Str} (hf : Respects sep f) (hg : Respects sep g) :
    Respects sep (f ∘ g) := fun a b => by
  rw [Function.comp_apply, hg, hf]
  rfl

/-- A part that the map leaves alone is still a part. -/
theorem Respects.mem {sep : Char} {g : Str → Str} (hg : Respects sep g) {s part : Str}
    (h : part ∈ Str.splitOn sep s) (hpart : g part = part) : part ∈ Str.splitOn sep (g s) := by
  rw [hg.splitOn, List.mem_flatMap]
  refine ⟨part, h, ?_⟩
  rw [hpart, splitOn_of_not_mem (not_mem_of_mem_splitOn h)]
  exact List.mem_singleton_self part

theorem respects_map {sep : Char} {f : Char → Char} (hf : f sep = sep) :
    Respects sep (List.map f) := fun a b => by rw [List.map_append, List.map_cons, hf]

end Str

/-! ## Escapes -/

/-- Two hexadecimal digits stand at the front. -/
def startsHex : Str → Bool
  | h :: l :: _ => (hexDigit h).isSome && (hexDigit l).isSome
  | _ => false

/-- There is a percent escape. -/
def escaped : Str → Bool
  | [] => false
  | c :: s => (c == '%' && startsHex s) || escaped s

/-- A character that is no part of an escape. -/
def Neutral (c : Char) : Prop := c ≠ '%' ∧ hexDigit c = none

theorem neutral_slash : Neutral '/' := ⟨by decide, by decide⟩

/-- An ASCII character that is no part of an escape. -/
structure Separator (sep : Char) : Prop where
  neutral : Neutral sep
  ascii : sep.toNat < 128

theorem separator_slash : Separator '/' := ⟨neutral_slash, by decide⟩

theorem separator_backslash : Separator '\\' := ⟨⟨by decide, by decide⟩, by decide⟩

theorem Separator.byte {sep : Char} (h : Separator sep) :
    (UInt8.ofNat sep.toNat).toNat = sep.toNat :=
  UInt8.toNat_ofNat_of_lt' (lt_trans h.ascii (by decide))

theorem neutral_of_not_ascii {c : Char} (h : ¬ c.toNat < 128) : Neutral c := by
  refine ⟨fun hc => h (by rw [hc]; decide), ?_⟩
  unfold hexDigit
  rw [if_neg, if_neg, if_neg] <;>
    simp only [Bool.and_eq_true, decide_eq_true_eq, not_and, Char.le_def, UInt32.le_iff_toNat_le]
  · intro _ hle
    exact h (lt_of_le_of_lt hle (by decide))
  · intro _ hle
    exact h (lt_of_le_of_lt hle (by decide))
  · intro _ hle
    exact h (lt_of_le_of_lt hle (by decide))

theorem startsHex_append {c : Char} (hc : Neutral c) (a b : Str) :
    startsHex (a ++ c :: b) = startsHex a := by
  rcases a with _ | ⟨x, _ | ⟨y, a⟩⟩
  · rcases b with _ | ⟨y, b⟩
    · rfl
    · simp [startsHex, hc.2]
  · simp [startsHex, hc.2]
  · rfl

/-- No escape goes across a neutral character. -/
theorem escaped_append {c : Char} (hc : Neutral c) (a b : Str) :
    escaped (a ++ c :: b) = (escaped a || escaped b) := by
  induction a with
  | nil => simp [escaped, hc.1]
  | cons x a ih => rw [List.cons_append, escaped, escaped, startsHex_append hc, ih, Bool.or_assoc]

/-- A path has an escape exactly where a component has one. -/
theorem escaped_iff_splitOn (s : Str) :
    escaped s = true ↔ ∃ part ∈ Str.splitOn '/' s, escaped part = true := by
  induction s using Str.sep_induction '/' with
  | part s hs => simp [Str.splitOn_of_not_mem hs]
  | cons a b ha ih => simp [Str.splitOn_append ha, escaped_append neutral_slash, ih]

/-! ## Decoding -/

theorem startsHex_of_none {h l : Char} {rest : Str}
    (hno : ∀ x y, hexDigit h = some x → hexDigit l = some y → False) :
    startsHex (h :: l :: rest) = false := by
  rw [startsHex, Bool.and_eq_false_iff]
  rcases hh : hexDigit h with _ | x
  · exact .inl rfl
  · rcases hl : hexDigit l with _ | y
    · exact .inr rfl
    · exact (hno x y hh hl).elim

theorem startsHex_of_short {rest : Str} (hno : ∀ h l rest', rest = h :: l :: rest' → False) :
    startsHex rest = false := by
  rcases rest with _ | ⟨h, _ | ⟨l, rest⟩⟩
  · rfl
  · rfl
  · exact (hno h l rest rfl).elim

theorem escaped_percent {s : Str} (h : startsHex s = false) : escaped ('%' :: s) = escaped s := by
  simp [escaped, h]

theorem escaped_cons {c : Char} (hc : c ≠ '%') (s : Str) : escaped (c :: s) = escaped s := by
  simp [escaped, hc]

/-- Every escape makes the bytes fewer. -/
theorem length_unquoteToBytes (s : Str) :
    (unquoteToBytes s).length ≤ s.length ∧
      (escaped s = true → (unquoteToBytes s).length < s.length) := by
  fun_induction unquoteToBytes s with
  | case1 => simp [escaped]
  | case2 h l rest x y hx hy ih =>
    simp only [List.length_cons]
    omega
  | case3 h l rest hno ih =>
    rw [escaped_percent (startsHex_of_none hno)]
    simpa only [List.length_cons, Nat.add_le_add_iff_right, Nat.add_lt_add_iff_right] using ih
  | case4 rest hno ih =>
    rw [escaped_percent (startsHex_of_short hno)]
    simpa only [List.length_cons, Nat.add_le_add_iff_right, Nat.add_lt_add_iff_right] using ih
  | case5 c s hc ih =>
    rw [escaped_cons hc]
    simpa only [List.length_cons, Nat.add_le_add_iff_right, Nat.add_lt_add_iff_right] using ih

/-- Without escapes, the bytes are those of the characters. -/
theorem unquoteToBytes_of_not_escaped {s : Str} (h : escaped s = false) :
    unquoteToBytes s = s.map fun c => UInt8.ofNat c.toNat := by
  fun_induction unquoteToBytes s with
  | case1 => rfl
  | case2 h' l rest x y hx hy ih => simp [escaped, startsHex, hx, hy] at h
  | case3 h' l rest hno ih =>
    rw [escaped_percent (startsHex_of_none hno)] at h
    rw [ih h]
    rfl
  | case4 rest hno ih =>
    rw [escaped_percent (startsHex_of_short hno)] at h
    rw [ih h]
    rfl
  | case5 c s hc ih =>
    rw [escaped_cons hc] at h
    rw [ih h, List.map_cons]

theorem unquoteToBytes_cons {c : Char} (hc : c ≠ '%') (s : Str) :
    unquoteToBytes (c :: s) = UInt8.ofNat c.toNat :: unquoteToBytes s := by
  rw [unquoteToBytes.eq_def]
  dsimp only
  rw [if_neg hc]

theorem unquoteToBytes_percent {s : Str} (h : startsHex s = false) :
    unquoteToBytes ('%' :: s) = 0x25 :: unquoteToBytes s := by
  rw [unquoteToBytes.eq_def]
  dsimp only
  rw [if_pos rfl]
  split
  · next x y rest =>
    split
    · next hx hy => simp [startsHex, hx, hy] at h
    · rfl
  · rfl

/-- A separator is a byte of its own. -/
theorem unquoteToBytes_append {sep : Char} (hsep : Separator sep) (a b : Str) :
    unquoteToBytes (a ++ sep :: b) =
      unquoteToBytes a ++ UInt8.ofNat sep.toNat :: unquoteToBytes b := by
  fun_induction unquoteToBytes a with
  | case1 => exact unquoteToBytes_cons hsep.neutral.1 b
  | case2 h l rest x y hx hy ih => simp [unquoteToBytes, hx, hy, ih]
  | case3 h l rest hno ih =>
    rw [List.cons_append, unquoteToBytes_percent, ih, List.cons_append]
    rw [startsHex_append hsep.neutral]
    exact startsHex_of_none hno
  | case4 rest hno ih =>
    rw [List.cons_append, unquoteToBytes_percent, ih, List.cons_append]
    rw [startsHex_append hsep.neutral]
    exact startsHex_of_short hno
  | case5 c s hc ih => rw [List.cons_append, unquoteToBytes_cons hc, ih, List.cons_append]

/-! ## UTF-8 -/

theorem continuation_append {lo hi : ℕ} (hlo : 0x80 ≤ lo) {z : UInt8} (hz : z.toNat < 0x80)
    (bs rest : Bytes) : continuation lo hi (bs ++ z :: rest) = continuation lo hi bs := by
  rcases bs with _ | ⟨b, bs⟩
  · have hlt : ¬ lo ≤ z.toNat := not_le.2 (lt_of_lt_of_le hz hlo)
    simp only [continuation, List.nil_append, List.head?_cons, Option.bind_some, List.head?_nil,
      Option.bind_none]
    rw [if_neg]
    simp only [Bool.and_eq_true, decide_eq_true_eq]
    exact fun h => hlt h.1
  · rfl

theorem continuation_ascii {lo hi : ℕ} (hlo : 0x80 ≤ lo) {z : UInt8} (hz : z.toNat < 0x80)
    (rest : Bytes) : continuation lo hi (z :: rest) = none := continuation_append hlo hz [] rest

/-- Whether a byte goes on with a character does not depend on what follows an ASCII byte. -/
theorem decodeFirst_append {z : UInt8} (hz : z.toNat < 0x80) (b : UInt8) (bs rest : Bytes) :
    decodeFirst b (bs ++ z :: rest) = decodeFirst b bs := by
  have hlo (n : ℕ) (k : ℕ) (hk : 0x80 ≤ k) : 0x80 ≤ if b.toNat = n then k else 0x80 := by
    split_ifs
    · exact hk
    · exact le_rfl
  have hle : 0x80 ≤ 0x80 := le_rfl
  have hnil (lo hi : ℕ) : continuation lo hi [] = none := rfl
  unfold decodeFirst
  rcases bs with _ | ⟨x, _ | ⟨y, bs⟩⟩
  · simp only [List.nil_append, continuation_ascii hle hz,
      continuation_ascii (hlo 0xe0 0xa0 (by decide)) hz,
      continuation_ascii (hlo 0xf0 0x90 (by decide)) hz, hnil]
  · have hx (lo hi : ℕ) : continuation lo hi (x :: z :: rest) = continuation lo hi [x] := rfl
    simp only [List.cons_append, List.nil_append, List.drop_succ_cons, List.drop_zero,
      continuation_ascii hle hz, hnil, List.drop_nil, hx]
    generalize continuation (if b.toNat = 0xf0 then 0x90 else 0x80)
      (if b.toNat = 0xf4 then 0x8f else 0xbf) [x] = first
    rcases first with _ | _ <;> rfl
  · have hx (lo hi : ℕ) (x : UInt8) (t : Bytes) :
        continuation lo hi (x :: (t ++ z :: rest)) = continuation lo hi (x :: t) := rfl
    simp only [List.cons_append, List.drop_succ_cons, List.drop_zero, continuation_append hle hz, hx]
    rfl

/-- A character takes a byte at least, and no more than there are. -/
theorem decodeFirst_snd (b : UInt8) (bs : Bytes) :
    1 ≤ (decodeFirst b bs).2 ∧ (decodeFirst b bs).2 ≤ bs.length + 1 := by
  have hlen (k : ℕ) {lo hi x : ℕ} (h : continuation lo hi (bs.drop k) = some x) :
      k + 1 ≤ bs.length := by
    by_contra hk
    rw [List.drop_eq_nil_of_le (by omega)] at h
    cases h
  have hone : 1 ≤ 1 ∧ 1 ≤ bs.length + 1 := ⟨le_rfl, Nat.succ_le_succ (Nat.zero_le _)⟩
  unfold decodeFirst
  dsimp only
  -- the bounds of the second byte do not matter to how many bytes are read
  generalize (if b.toNat = 0xe0 then 0xa0 else 0x80) = lo₃
  generalize (if b.toNat = 0xed then 0x9f else 0xbf) = hi₃
  generalize (if b.toNat = 0xf0 then 0x90 else 0x80) = lo₄
  generalize (if b.toNat = 0xf4 then 0x8f else 0xbf) = hi₄
  split_ifs
  · exact hone
  · split
    · next hx =>
      have := hlen 0 hx
      constructor <;> dsimp only <;> omega
    · exact hone
  · split
    · next hy =>
      have := hlen 1 hy
      constructor <;> dsimp only <;> omega
    · next hx _ =>
      have := hlen 0 hx
      constructor <;> dsimp only <;> omega
    · exact hone
  · split
    · next hz =>
      have := hlen 2 hz
      constructor <;> dsimp only <;> omega
    · next hy _ =>
      have := hlen 1 hy
      constructor <;> dsimp only <;> omega
    · next hx _ =>
      have := hlen 0 hx
      constructor <;> dsimp only <;> omega
    · exact hone
  · exact hone

/-- Once there is fuel for every byte, more does not matter. -/
theorem decodeReplace_fuel {n m : ℕ} {bs : Bytes} (hn : bs.length ≤ n) (hm : bs.length ≤ m) :
    decodeReplace n bs = decodeReplace m bs := by
  induction n generalizing m bs with
  | zero =>
    obtain rfl := List.eq_nil_of_length_eq_zero (Nat.le_zero.1 hn)
    cases m <;> rfl
  | succ n ih =>
    rcases bs with _ | ⟨b, bs⟩
    · cases m <;> rfl
    · rcases m with _ | m
      · simp at hm
      · have hsnd := decodeFirst_snd b bs
        rw [decodeReplace, decodeReplace, ih]
        · rw [List.length_drop, List.length_cons]
          simp only [List.length_cons] at hn
          omega
        · rw [List.length_drop, List.length_cons]
          simp only [List.length_cons] at hm
          omega

theorem length_decodeReplace (n : ℕ) (bs : Bytes) : (decodeReplace n bs).length ≤ bs.length := by
  induction n generalizing bs with
  | zero => simp [decodeReplace]
  | succ n ih =>
    rcases bs with _ | ⟨b, bs⟩
    · simp [decodeReplace]
    · have hsnd := decodeFirst_snd b bs
      have hrest := ih ((b :: bs).drop (decodeFirst b bs).2)
      rw [List.length_drop, List.length_cons] at hrest
      rw [decodeReplace, List.length_cons, List.length_cons]
      omega

/-- ASCII bytes are ASCII characters. -/
theorem decodeReplace_ascii {s : Str} (h : ∀ c ∈ s, c.toNat < 128) :
    decodeReplace s.length (s.map fun c => UInt8.ofNat c.toNat) = s := by
  induction s with
  | nil => rfl
  | cons c s ih =>
    have hc : c.toNat < 128 := h c List.mem_cons_self
    have hbyte : (UInt8.ofNat c.toNat).toNat = c.toNat :=
      UInt8.toNat_ofNat_of_lt' (lt_trans hc (by decide))
    have hfirst (bs : Bytes) : decodeFirst (UInt8.ofNat c.toNat) bs = (c, 1) := by
      unfold decodeFirst
      simp only [hbyte, hc, if_true, Char.ofNat_toNat]
    rw [List.map_cons, List.length_cons, decodeReplace, hfirst]
    exact congrArg (c :: ·) (ih fun c' hc' => h c' (List.mem_cons_of_mem _ hc'))

/-- Decoding does not join what an ASCII byte separates. -/
theorem decodeReplace_append {z : UInt8} (hz : z.toNat < 0x80) (a b : Bytes) {n : ℕ}
    (hn : (a ++ z :: b).length ≤ n) : decodeReplace n (a ++ z :: b) =
      decodeReplace n a ++ Char.ofNat z.toNat :: decodeReplace n b := by
  induction n generalizing a with
  | zero => simp at hn
  | succ n ih =>
    rcases a with _ | ⟨x, a⟩
    · have hstep : decodeReplace (n + 1) (z :: b) = Char.ofNat z.toNat :: decodeReplace n b := by
        rw [decodeReplace, decodeFirst]
        simp only [hz, if_true]
        rfl
      have hfuel : decodeReplace (n + 1) b = decodeReplace n b := by
        rw [List.nil_append, List.length_cons] at hn
        exact decodeReplace_fuel (by omega) (by omega)
      rw [List.nil_append, hstep, hfuel]
      rfl
    · have hsnd := decodeFirst_snd x a
      have hlen : (decodeFirst x a).2 ≤ (x :: a).length := hsnd.2
      have hb : decodeReplace (n + 1) b = decodeReplace n b := by
        rw [List.length_append, List.length_cons, List.length_cons] at hn
        exact decodeReplace_fuel (by omega) (by omega)
      rw [List.cons_append, decodeReplace, decodeFirst_append hz, ← List.cons_append,
        List.drop_append_of_le_length hlen, ih, decodeReplace, List.cons_append, hb]
      rw [List.length_append, List.length_drop]
      rw [List.length_append] at hn
      omega

/-! ## `unquote` -/

/-- What `unquote` makes of a run of ASCII characters, given in reverse. -/
def decodeRun (run : Str) : Str := decodeReplace run.length (unquoteToBytes run.reverse)

theorem length_decodeRun (run : Str) :
    (decodeRun run).length ≤ run.length ∧
      (escaped run.reverse = true → (decodeRun run).length < run.length) := by
  have hbytes := length_unquoteToBytes run.reverse
  rw [List.length_reverse] at hbytes
  have hchars := length_decodeReplace run.length (unquoteToBytes run.reverse)
  exact ⟨hchars.trans hbytes.1, fun h => lt_of_le_of_lt hchars (hbytes.2 h)⟩

theorem decodeRun_of_not_escaped {run : Str} (hascii : ∀ c ∈ run, c.toNat < 128)
    (h : escaped run.reverse = false) : decodeRun run = run.reverse := by
  rw [decodeRun, unquoteToBytes_of_not_escaped h, ← List.length_reverse]
  exact decodeReplace_ascii fun c hc => hascii c (List.mem_reverse.1 hc)

/-- A run is decoded component by component. -/
theorem decodeRun_append {sep : Char} (hsep : Separator sep) (r run : Str) :
    decodeRun (r ++ sep :: run) = decodeRun run ++ sep :: decodeRun r := by
  have hrun := (length_unquoteToBytes run.reverse).1
  have hr := (length_unquoteToBytes r.reverse).1
  rw [List.length_reverse] at hrun hr
  have hrev : (r ++ sep :: run).reverse = run.reverse ++ sep :: r.reverse := by simp
  have hlen : (r ++ sep :: run).length = r.length + (run.length + 1) := by simp
  have hbyte : (UInt8.ofNat sep.toNat).toNat < 0x80 := by
    rw [hsep.byte]
    exact hsep.ascii
  rw [decodeRun, hrev, unquoteToBytes_append hsep, decodeReplace_append hbyte, decodeRun, decodeRun,
    hsep.byte, Char.ofNat_toNat]
  · rw [decodeReplace_fuel (m := run.length) (by omega) hrun,
      decodeReplace_fuel (m := r.length) (by omega) hr]
  · rw [List.length_append, List.length_cons]
    omega

theorem unquoteRuns_ascii {c : Char} (hc : c.toNat < 128) (run s : Str) :
    unquoteRuns run (c :: s) = unquoteRuns (c :: run) s := by rw [unquoteRuns, if_pos hc]

theorem unquoteRuns_other {c : Char} (hc : ¬ c.toNat < 128) (run s : Str) :
    unquoteRuns run (c :: s) = decodeRun run ++ c :: unquoteRuns [] s := by
  rw [unquoteRuns, if_neg hc, decodeRun]

theorem unquoteRuns_separator {sep : Char} (hsep : Separator sep) (r run s : Str) :
    unquoteRuns (r ++ sep :: run) s = decodeRun run ++ sep :: unquoteRuns r s := by
  induction s generalizing r with
  | nil => exact decodeRun_append hsep r run
  | cons c s ih =>
    by_cases hc : c.toNat < 128
    · rw [unquoteRuns_ascii hc, unquoteRuns_ascii hc, ← List.cons_append, ih]
    · rw [unquoteRuns_other hc, unquoteRuns_other hc, decodeRun_append hsep, List.append_assoc,
        List.cons_append]

theorem unquoteRuns_append {sep : Char} (hsep : Separator sep) (run a b : Str) :
    unquoteRuns run (a ++ sep :: b) = unquoteRuns run a ++ sep :: unquoteRuns [] b := by
  induction a generalizing run with
  | nil =>
    rw [List.nil_append, unquoteRuns_ascii hsep.ascii]
    exact unquoteRuns_separator hsep [] run b
  | cons c a ih =>
    by_cases hc : c.toNat < 128
    · rw [List.cons_append, unquoteRuns_ascii hc, unquoteRuns_ascii hc, ih]
    · rw [List.cons_append, unquoteRuns_other hc, unquoteRuns_other hc, ih, List.append_assoc,
        List.cons_append]

theorem unquoteRuns_of_not_escaped {run s : Str} (hascii : ∀ c ∈ run, c.toNat < 128)
    (h : escaped (run.reverse ++ s) = false) : unquoteRuns run s = run.reverse ++ s := by
  induction s generalizing run with
  | nil =>
    rw [List.append_nil] at h ⊢
    exact decodeRun_of_not_escaped hascii h
  | cons c s ih =>
    by_cases hc : c.toNat < 128
    · rw [unquoteRuns_ascii hc, ih, List.reverse_cons, List.append_assoc, List.singleton_append]
      · rintro c' (_ | ⟨_, hc'⟩)
        · exact hc
        · exact hascii c' hc'
      · rwa [List.reverse_cons, List.append_assoc, List.singleton_append]
    · rw [escaped_append (neutral_of_not_ascii hc), Bool.or_eq_false_iff] at h
      have hnil : unquoteRuns [] s = s := @ih [] (by simp) h.2
      rw [unquoteRuns_other hc, decodeRun_of_not_escaped hascii h.1, hnil]

theorem length_unquoteRuns (run s : Str) :
    (unquoteRuns run s).length ≤ run.length + s.length ∧
      (escaped (run.reverse ++ s) = true →
        (unquoteRuns run s).length < run.length + s.length) := by
  induction s generalizing run with
  | nil =>
    rw [List.append_nil]
    exact length_decodeRun run
  | cons c s ih =>
    by_cases hc : c.toNat < 128
    · have hcons := ih (c :: run)
      rw [List.reverse_cons, List.append_assoc, List.singleton_append, List.length_cons] at hcons
      rw [unquoteRuns_ascii hc, List.length_cons]
      exact ⟨by omega, fun h => by have := hcons.2 h; omega⟩
    · have hrun := length_decodeRun run
      have hrest := ih []
      simp only [List.length_nil, Nat.zero_add, List.reverse_nil, List.nil_append] at hrest
      rw [unquoteRuns_other hc, List.length_append, List.length_cons, List.length_cons,
        escaped_append (neutral_of_not_ascii hc), Bool.or_eq_true]
      refine ⟨by omega, ?_⟩
      rintro (h | h)
      · have := hrun.2 h
        omega
      · have := hrest.2 h
        omega

theorem escaped_of_not_mem {s : Str} (h : '%' ∉ s) : escaped s = false := by
  induction s with
  | nil => rfl
  | cons c s ih =>
    obtain ⟨hc, hs⟩ := not_or.1 (mt List.mem_cons.2 h)
    rw [escaped_cons (Ne.symm hc), ih hs]

theorem unquote_eq_unquoteRuns (s : Str) : unquote s = unquoteRuns [] s := by
  rw [unquote]
  split_ifs with h
  · rfl
  · exact (@unquoteRuns_of_not_escaped [] s (by simp) (escaped_of_not_mem h)).symm

/-- `unquote` leaves exactly the strings without escapes alone. -/
theorem unquote_eq_self_iff (s : Str) : unquote s = s ↔ escaped s = false := by
  rw [unquote_eq_unquoteRuns]
  constructor
  · intro h
    by_contra hesc
    have hlt := (length_unquoteRuns [] s).2 (by simpa using hesc)
    rw [h, List.length_nil, Nat.zero_add] at hlt
    exact hlt.false
  · exact fun h => @unquoteRuns_of_not_escaped [] s (by simp) h

/-- `unquote` decodes the components of a path one by one. -/
theorem unquote_respects {sep : Char} (hsep : Separator sep) : Str.Respects sep unquote :=
  fun a b => by
    rw [unquote_eq_unquoteRuns, unquote_eq_unquoteRuns, unquote_eq_unquoteRuns,
      unquoteRuns_append hsep]

/-! ## Normal paths -/

namespace Str

theorem splitOn_ne_nil (sep : Char) (s : Str) : splitOn sep s ≠ [] := by
  induction s using sep_induction sep with
  | part s hs => simp [splitOn_of_not_mem hs]
  | cons a b ha ih => simp [splitOn_append ha]

/-- Parts joined by a separator are split into these parts. -/
theorem splitOn_intercalate {sep : Char} {parts : List Str} (hne : parts ≠ [])
    (h : ∀ part ∈ parts, sep ∉ part) : splitOn sep ([sep].intercalate parts) = parts := by
  induction parts with
  | nil => exact (hne rfl).elim
  | cons part parts ih =>
    have hpart := h part List.mem_cons_self
    rcases parts with _ | ⟨next, parts⟩
    · simp [List.intercalate, splitOn_of_not_mem hpart]
    · rw [List.intercalate_cons_cons, List.append_assoc, List.singleton_append,
        splitOn_append hpart, ih (List.cons_ne_nil _ _) fun p hp => h p (List.mem_cons_of_mem _ hp)]

/-- A string is its parts, joined. -/
theorem intercalate_splitOn (sep : Char) (s : Str) :
    [sep].intercalate (splitOn sep s) = s := by
  induction s using sep_induction sep with
  | part s hs =>
    rw [splitOn_of_not_mem hs]
    simp [List.intercalate]
  | cons a b ha ih =>
    obtain ⟨next, rest, hb⟩ := List.exists_cons_of_ne_nil (splitOn_ne_nil sep b)
    rw [hb] at ih
    rw [splitOn_append ha, hb, List.intercalate_cons_cons, ih, List.append_assoc,
      List.singleton_append]

end Str

/-- The components of a path that name something. -/
def named (path : Str) : List Str :=
  (Str.splitOn '/' path).filter fun part => part ≠ [] ∧ part ≠ ['.']

theorem mem_named {path comp : Str} :
    comp ∈ named path ↔ comp ∈ Str.splitOn '/' path ∧ comp ≠ [] ∧ comp ≠ ['.'] := by
  rw [named, List.mem_filter, decide_eq_true_eq]

theorem named_of_not_mem {path : Str} (h : '/' ∉ path) (h₀ : path ≠ []) (h₁ : path ≠ ['.']) :
    named path = [path] := by
  rw [named, Str.splitOn_of_not_mem h]
  simp [h₀, h₁]

theorem named_append (a b : Str) : named (a ++ '/' :: b) = named a ++ named b := by
  rw [named, Str.splitOn_append_sep, List.filter_append]
  rfl

theorem named_slash (b : Str) : named ('/' :: b) = named b := named_append [] b

/-- Named components joined by slashes are the named components of the whole. -/
theorem named_intercalate {comps : List Str} (h : ∀ comp ∈ comps, '/' ∉ comp ∧ comp ≠ [] ∧
    comp ≠ ['.']) : named (['/'].intercalate comps) = comps := by
  rcases comps with _ | ⟨comp, comps⟩
  · rfl
  · rw [named, Str.splitOn_intercalate (List.cons_ne_nil _ _) fun p hp => (h p hp).1]
    rw [List.filter_eq_self]
    exact fun p hp => decide_eq_true (h p hp).2

theorem leadingSlashes_eq (path : Str) :
    leadingSlashes path = [] ∨ leadingSlashes path = ['/'] ∨ leadingSlashes path = ['/', '/'] := by
  unfold leadingSlashes
  split
  · exact .inl rfl
  · exact .inr (.inr rfl)
  · exact .inr (.inl rfl)

theorem named_leadingSlashes (path s : Str) : named (leadingSlashes path ++ s) = named s := by
  rcases leadingSlashes_eq path with h | h | h
  · rw [h, List.nil_append]
  · rw [h]
    exact named_slash s
  · rw [h]
    exact (named_slash _).trans (named_slash s)

/-- Where a path has no `..`, `normpath` keeps its components. -/
theorem normComponents_eq (absolute : Bool) {seen comps : List Str} (h : "..".toList ∉ comps) :
    normComponents absolute seen comps =
      seen.reverse ++ comps.filter fun part => part ≠ [] ∧ part ≠ ['.'] := by
  induction comps generalizing seen with
  | nil => simp [normComponents]
  | cons comp comps ih =>
    obtain ⟨hcomp, hcomps⟩ := not_or.1 (mt List.mem_cons.2 h)
    rw [normComponents]
    split_ifs with hdrop hkeep
    · rw [ih hcomps, List.filter_cons_of_neg]
      simpa only [decide_eq_true_eq, not_and_or, not_not] using hdrop
    · rw [ih hcomps, List.filter_cons_of_pos, List.reverse_cons, List.append_assoc,
        List.singleton_append]
      simpa only [decide_eq_true_eq, not_or] using hdrop
    · exact (hkeep (.inl (Ne.symm hcomp))).elim

/-- The text of a path from its leading slashes and its components. -/
def joinPath (slashes : Str) (comps : List Str) : Str :=
  match slashes ++ ['/'].intercalate comps with
  | [] => ['.']
  | text => text

theorem named_joinPath (path : Str) {comps : List Str} (h : ∀ comp ∈ comps, '/' ∉ comp ∧
    comp ≠ [] ∧ comp ≠ ['.']) : named (joinPath (leadingSlashes path) comps) = comps := by
  have hnamed := (named_leadingSlashes path (['/'].intercalate comps)).trans (named_intercalate h)
  unfold joinPath
  split
  · next hnil =>
    rw [hnil] at hnamed
    exact hnamed
  · exact hnamed

theorem named_spec (path : Str) :
    ∀ comp ∈ named path, '/' ∉ comp ∧ comp ≠ [] ∧ comp ≠ ['.'] := fun _ h =>
  ⟨Str.not_mem_of_mem_splitOn (mem_named.1 h).1, (mem_named.1 h).2⟩

theorem normpath_eq {path : Str} (h : "..".toList ∉ Str.splitOn '/' path) :
    normpath path = joinPath (leadingSlashes path) (named path) := by
  unfold normpath
  dsimp only
  rw [normComponents_eq _ h]
  rfl

/-- Without `..`, normalising a path keeps its named components. -/
theorem named_normpath {path : Str} (h : "..".toList ∉ Str.splitOn '/' path) :
    named (normpath path) = named path := by
  rw [normpath_eq h, named_joinPath _ (named_spec path)]

theorem escaped_iff_named (path : Str) :
    escaped path = true ↔ ∃ comp ∈ named path, escaped comp = true := by
  rw [escaped_iff_splitOn]
  constructor
  · rintro ⟨comp, hcomp, hesc⟩
    refine ⟨comp, mem_named.2 ⟨hcomp, ?_, ?_⟩, hesc⟩
    · rintro rfl
      cases hesc
    · rintro rfl
      cases hesc
  · rintro ⟨comp, hcomp, hesc⟩
    exact ⟨comp, (mem_named.1 hcomp).1, hesc⟩

/-- Neither escapes nor characters come and go when a path without `..` is normalised. -/
theorem escaped_normpath {path : Str} (h : "..".toList ∉ Str.splitOn '/' path) :
    escaped (normpath path) = escaped path := by
  rw [Bool.eq_iff_iff, escaped_iff_named, escaped_iff_named, named_normpath h]

theorem mem_iff_named {c : Char} (h₀ : c ≠ '/') (h₁ : c ≠ '.') (path : Str) :
    c ∈ path ↔ ∃ comp ∈ named path, c ∈ comp := by
  rw [Str.mem_splitOn h₀]
  constructor
  · rintro ⟨comp, hcomp, hc⟩
    refine ⟨comp, mem_named.2 ⟨hcomp, ?_, ?_⟩, hc⟩
    · rintro rfl
      cases hc
    · rintro rfl
      exact h₁ (List.mem_singleton.1 hc)
  · rintro ⟨comp, hcomp, hc⟩
    exact ⟨comp, (mem_named.1 hcomp).1, hc⟩

theorem mem_normpath {c : Char} (h₀ : c ≠ '/') (h₁ : c ≠ '.') {path : Str}
    (h : "..".toList ∉ Str.splitOn '/' path) : c ∈ normpath path ↔ c ∈ path := by
  rw [mem_iff_named h₀ h₁, mem_iff_named h₀ h₁, named_normpath h]

end Bulldog
