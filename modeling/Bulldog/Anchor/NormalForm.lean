import Bulldog.Anchor.Message
import Bulldog.Lib.Json.Literals

/-!
# The normal form of a frame

What `decode` accepts has no key twice, and what `canonical` writes is read back as the same `dict`. `decode`
refuses the constants that are not finite, and not the literals that overflow: such a frame is accepted and
has no canonical form. And `json.loads` of bytes lets encoded surrogates through: the two of a character stay two in
the value, and are one character in what is read back from its canonical form.
-/

namespace Bulldog.Anchor

variable {F : Type} [PyFloat F]

/-! ## Surrogates -/

/-- The value of two encoded surrogates, the first of them high and the second low. -/
def pairValue (b₁ b₂ c₁ c₂ : UInt8) : ℕ :=
  0x10000 + ((b₁.toNat - 0xa0) * 64 + (b₂.toNat - 0x80)) * 0x400 + ((c₁.toNat - 0xb0) * 64 + (c₂.toNat - 0x80))

/-- The bytes with the encoding of one character for each two encoded surrogates. -/
def joinPairs : Bytes → Bytes
  | 0xed :: b₁ :: b₂ :: 0xed :: c₁ :: c₂ :: b =>
    if (0xa0 ≤ b₁ ∧ b₁ < 0xb0) ∧ (0x80 ≤ b₂ ∧ b₂ < 0xc0) ∧ (0xb0 ≤ c₁ ∧ c₁ < 0xc0) ∧ (0x80 ≤ c₂ ∧ c₂ < 0xc0) then
      String.utf8EncodeChar (Char.ofNat (pairValue b₁ b₂ c₁ c₂)) ++ joinPairs b
    else 0xed :: joinPairs (b₁ :: b₂ :: 0xed :: c₁ :: c₂ :: b)
  | b :: bs => b :: joinPairs bs
  | [] => []

/-- A frame that `decode` reads: the `dict`, with a character for each two surrogates in its strings, and whether
it has any. -/
structure Decoded (F : Type) where
  value : Fields F
  surrogates : Bool

/-- `decode(raw)`, with the surrogates that `surrogatepass` lets through. -/
def decodeFrame (wide : Encoding → Bytes → Option Str) (raw : Bytes) : Except Exc (Decoded F) :=
  match decodeText wide raw with
  | some _ => (decode wide raw).map (⟨·, false⟩)
  | none =>
    if raw.length > maxFrame then .error (anchorError "frame exceeds size limit")
    else (decode wide (joinPairs raw)).map (⟨·, true⟩)

/-- Two frames, of which one has no surrogates, are the same `dict`. -/
def Decoded.Same (x y : Decoded F) : Prop := x.value.norm = y.value.norm ∧ x.surrogates = y.surrogates

/-- What an accepted frame is to be: its numbers are finite, no object in it has a key twice, and its canonical form
is there and, within the limit of a frame, read as the same `dict`. -/
structure Normal (wide : Encoding → Bytes → Option Str) (x : Decoded F) : Prop where
  finite : ∀ f ∈ (Json.obj x.value).floats, PyFloat.finite f = true
  keys : (Json.obj x.value).WF
  form : ∃ b, canonical x.value = .ok b ∧ (b.length ≤ maxFrame → ∃ y, decodeFrame wide b = .ok y ∧ y.Same x)

/-- The text of a frame, with a character for each two surrogates. -/
def frameText (wide : Encoding → Bytes → Option Str) (raw : Bytes) : Option Str :=
  (decodeText wide raw).or (decodeText wide (joinPairs raw))

/-- No float literal of a frame overflows. -/
def NoOverflow (F : Type) [PyFloat F] (wide : Encoding → Bytes → Option Str) (raw : Bytes) : Prop :=
  ∀ s, frameText wide raw = some s → ∀ t ∈ floatLiterals s, PyFloat.finite (PyFloat.ofToken t : F) = true

/-- No string of a frame has two surrogates, if its canonical form is within the limit. -/
def NoPairs (x : Decoded F) : Prop :=
  x.surrogates = true → ∀ b, canonical x.value = .ok b → maxFrame < b.length

/-- An accepted frame is the text of a `dict`. -/
theorem decode_eq_ok {wide : Encoding → Bytes → Option Str} {raw : Bytes} {v : Fields F}
    (h : decode wide raw = .ok v) :
    ∃ s, decodeText wide raw = some s ∧ parse false s = some (Json.obj v) ∧ (Json.obj v).WF := by
  unfold decode at h
  split_ifs at h
  rcases htext : decodeText wide raw with _ | s <;> rw [htext] at h
  · cases h
  rw [Option.bind_some] at h
  rcases hparse : parse (F := F) false s with _ | x <;> rw [hparse] at h
  · cases h
  dsimp only at h
  rcases hunique : uniqueKeys x <;> rw [hunique] at h
  · cases h
  cases x with
  | obj fs =>
    obtain rfl := Except.ok.inj h
    exact ⟨s, rfl, hparse, (uniqueKeys_eq_true _).1 hunique⟩
  | _ => cases h

/-- A message has a canonical form exactly when it can be written without the constants. -/
theorem canonical_defined {v : Fields F} :
    (∃ b, canonical v = .ok b) ↔ (Json.obj v).writable false = true := by
  constructor
  · rintro ⟨b, h⟩
    obtain ⟨t, ht, -⟩ := canonical_eq_ok.1 h
    exact (dumps_eq_some.1 ht).1
  · intro h
    exact ⟨_, canonical_eq_ok.2 ⟨_, dumps_eq_some.2 ⟨h, rfl⟩, rfl⟩⟩

/-- An accepted frame is the text of a `dict`, with or without surrogates. -/
theorem decodeFrame_eq_ok {wide : Encoding → Bytes → Option Str} {raw : Bytes} {x : Decoded F}
    (h : decodeFrame wide raw = .ok x) :
    ∃ s, frameText wide raw = some s ∧ parse false s = some (Json.obj x.value) ∧ (Json.obj x.value).WF := by
  unfold decodeFrame at h
  unfold frameText
  rcases htext : decodeText wide raw with _ | s <;> rw [htext] at h
  · dsimp only at h
    split_ifs at h
    rcases hdecode : decode (F := F) wide (joinPairs raw) with e | v <;> rw [hdecode] at h
    · cases h
    · obtain rfl := Except.ok.inj h
      exact decode_eq_ok hdecode
  · dsimp only at h
    rcases hdecode : decode (F := F) wide raw with e | v <;> rw [hdecode] at h
    · cases h
    · obtain rfl := Except.ok.inj h
      obtain ⟨s', htext', hrest⟩ := decode_eq_ok hdecode
      rw [htext] at htext'
      exact ⟨s', htext', hrest⟩

/-- A canonical form has no surrogates. -/
theorem decodeFrame_canonical (wide : Encoding → Bytes → Option Str) {v : Fields F} {b : Bytes}
    (hwf : (Json.obj v).WF) (h : canonical v = .ok b) (hlen : b.length ≤ maxFrame) :
    decodeFrame wide b = .ok ⟨v.norm, false⟩ := by
  have hdecode := decode_canonical wide hwf h hlen
  obtain ⟨s, htext, -⟩ := decode_eq_ok hdecode
  unfold decodeFrame
  rw [htext, hdecode]
  rfl

/-- A `dict` is read back from its canonical form exactly where it has no surrogates. -/
theorem decode_form (wide : Encoding → Bytes → Option Str) {x : Decoded F} {b : Bytes}
    (hwf : (Json.obj x.value).WF) (h : canonical x.value = .ok b) (hlen : b.length ≤ maxFrame) :
    (∃ y, decodeFrame wide b = .ok y ∧ y.Same x) ↔ x.surrogates = false := by
  have hdecode := decodeFrame_canonical wide hwf h hlen
  constructor
  · rintro ⟨y, hy, hsame⟩
    obtain rfl := Except.ok.inj (hdecode.symm.trans hy)
    exact hsame.2.symm
  · intro hplain
    exact ⟨_, hdecode, (canonical_eq_iff h).1 ((canonical_norm x.value).trans h), hplain.symm⟩

/-- The value of a float literal without its sign: a number and a power of ten. -/
def magnitude (token : Str) : ℕ × ℤ :=
  match scanNumber token with
  | none => (0, 0)
  | some (_, ds, fe, _) =>
    let fraction := (scanFrac fe).1.drop 1
    let exponent : ℤ := match (scanFrac fe).2 with
      | [] => 0
      | _ :: t =>
        if (scanSign t).1 = ['-'] then -(Nat.ofDigitChars 10 (scanSign t).2 0 : ℤ)
        else (Nat.ofDigitChars 10 (scanSign t).2 0 : ℤ)
    (Nat.ofDigitChars 10 (ds ++ fraction) 0, exponent - fraction.length)

/-- Whether `float` rounds a literal to infinity: half a step above the largest double and beyond. -/
def overflows (token : Str) : Bool :=
  if 0 ≤ (magnitude token).2 then
    2 ^ 1024 - 2 ^ 970 ≤ (magnitude token).1 * 10 ^ (magnitude token).2.toNat
  else (2 ^ 1024 - 2 ^ 970) * 10 ^ (-(magnitude token).2).toNat ≤ (magnitude token).1

/-- Floats as the literals that denote them, with the range of doubles. -/
inductive Ranged where
  | finite (token : Str) (h : IsFloatToken token) (hrange : overflows token = false)
  | nan
  | inf
  | negInf

instance : PyFloat Ranged where
  text
    | .finite token _ _ => token
    | .nan => "NaN".toList
    | .inf => "Infinity".toList
    | .negInf => "-Infinity".toList
  finite
    | .finite _ _ _ => true
    | _ => false
  ofToken token :=
    if h : IsFloatToken token then
      if hrange : overflows token = false then .finite token h hrange
      else if (scanMinus token).1 = [] then .inf else .negInf
    else .nan
  nan := .nan
  inf := .inf
  negInf := .negInf
  text_token
    | .finite _ h _, _ => h
  ofToken_text
    | .finite _ h hrange, _ => (dif_pos h).trans (dif_pos hrange)
  special
    | .nan, _ => .inl rfl
    | .inf, _ => .inr (.inl rfl)
    | .negInf, _ => .inr (.inr rfl)
  text_nan := rfl
  text_inf := rfl
  text_negInf := rfl

/-- A frame with one member, whose literal overflows. -/
def overflowFrame : Str := ['\x7b', '"', 'a', '"', ':', '1', 'e', '9', '9', '9', '\x7d']

/-- The member of a value with one member that is infinite. -/
def infiniteMember : Option (Json Ranged) → Option Str
  | some (.obj [(k, .float .inf)]) => some k
  | _ => none

theorem infiniteMember_eq_some {x : Option (Json Ranged)} {k : Str} (h : infiniteMember x = some k) :
    x = some (.obj [(k, .float .inf)]) := by
  unfold infiniteMember at h
  split at h
  · obtain rfl := Option.some.inj h
    rfl
  · cases h

theorem parse_overflowFrame : parse false overflowFrame = some (.obj [(['a'], .float Ranged.inf)]) :=
  infiniteMember_eq_some (by decide +kernel)

/-- A frame with one member, a string of two encoded surrogates. -/
def surrogateFrame : Bytes :=
  [0x7b, 0x22, 0x61, 0x22, 0x3a, 0x22, 0xed, 0xa0, 0xbd, 0xed, 0xb8, 0x80, 0x22, 0x7d]

/-- The one member of a value, a string. -/
def stringMember : Option (Json Ranged) → Option (Str × Str)
  | some (.obj [(k, .str s)]) => some (k, s)
  | _ => none

theorem stringMember_eq_some {x : Option (Json Ranged)} {k s : Str} (h : stringMember x = some (k, s)) :
    x = some (.obj [(k, .str s)]) := by
  unfold stringMember at h
  split at h
  · obtain ⟨rfl, rfl⟩ := Prod.mk.inj (Option.some.inj h)
    rfl
  · cases h

/-- The text of the frame, with the character of the surrogates. -/
def joinedText : Str := ['\x7b', '"', 'a', '"', ':', '"', Char.ofNat 0x1f600, '"', '\x7d']

theorem decodeFrame_overflowFrame : decodeFrame (F := Ranged) (fun _ _ => none) (encodeUtf8 overflowFrame) =
    .ok ⟨[(['a'], .float .inf)], false⟩ := by
  have htext : decodeText (fun _ _ => none) (encodeUtf8 overflowFrame) = some overflowFrame := by
    rw [← decodeUtf8_encodeUtf8]
    rfl
  rw [decodeFrame, decode, if_neg (by decide), htext, Option.bind_some, parse_overflowFrame]
  rfl

theorem decodeFrame_surrogateFrame : decodeFrame (F := Ranged) (fun _ _ => none) surrogateFrame =
    .ok ⟨[(['a'], .str [Char.ofNat 0x1f600])], true⟩ := by
  have hstrict : decodeText (fun _ _ => none) surrogateFrame = none := by decide +kernel
  have hjoin : joinPairs surrogateFrame = encodeUtf8 joinedText := by decide +kernel
  have htext : decodeText (fun _ _ => none) (encodeUtf8 joinedText) = some joinedText := by
    rw [← decodeUtf8_encodeUtf8]
    rfl
  have hparse : parse (F := Ranged) false joinedText = some (.obj [(['a'], .str [Char.ofNat 0x1f600])]) :=
    stringMember_eq_some (by decide +kernel)
  rw [decodeFrame, hstrict]
  dsimp only
  rw [if_neg (by decide), hjoin, decode, if_neg (by decide), htext, Option.bind_some, hparse]
  rfl

end Bulldog.Anchor
