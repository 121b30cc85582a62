import Bulldog.Lib.Text

/-!
# Base 64 and percent escapes

`base64.b64encode`, its variant for URLs, and `urllib.parse.quote` with nothing kept safe.
-/

namespace Bulldog

/-- The character of six bits, with the last two characters of the alphabet given. -/
def b64Char (c62 c63 : Char) (n : ℕ) : Char :=
  if n < 26 then Char.ofNat (65 + n)
  else if n < 52 then Char.ofNat (71 + n)
  else if n < 62 then Char.ofNat (n - 4)
  else if n = 62 then c62
  else c63

/-- Three bytes at a time are four characters, and `=` fills up the last four. -/
def b64encodeWith (c62 c63 : Char) : Bytes → Str
  | [] => []
  | [a] =>
    [b64Char c62 c63 (a.toNat / 4), b64Char c62 c63 (a.toNat % 4 * 16), '=', '=']
  | [a, b] =>
    [b64Char c62 c63 (a.toNat / 4), b64Char c62 c63 (a.toNat % 4 * 16 + b.toNat / 16),
      b64Char c62 c63 (b.toNat % 16 * 4), '=']
  | a :: b :: c :: bs =>
    b64Char c62 c63 (a.toNat / 4) :: b64Char c62 c63 (a.toNat % 4 * 16 + b.toNat / 16) ::
      b64Char c62 c63 (b.toNat % 16 * 4 + c.toNat / 64) :: b64Char c62 c63 (c.toNat % 64) ::
        b64encodeWith c62 c63 bs

/-- `base64.b64encode(data).decode("ascii")`. -/
def b64encode (data : Bytes) : Str := b64encodeWith '+' '/' data

/-- `base64.urlsafe_b64encode(data).decode("ascii")`. -/
def urlsafeB64encode (data : Bytes) : Str := b64encodeWith '-' '_' data

/-- `urllib.parse.quote(s, safe="")`. -/
def quote (s : Str) : Str :=
  (encodeUtf8 s).flatMap fun b =>
    let c := Char.ofNat b.toNat
    if b.toNat < 128 ∧ (c.isAlphanum ∨ c ∈ ['_', '.', '-', '~']) then [c]
    else ['%', (Nat.digitChar (b.toNat / 16)).toUpper, (Nat.digitChar (b.toNat % 16)).toUpper]

/-! ## Nothing is encoded as nothing -/

theorem encodeUtf8_ne_nil {s : Str} (h : s ≠ []) : encodeUtf8 s ≠ [] := by
  intro hnil
  refine h (encodeUtf8_injective ?_)
  rw [hnil]
  rfl

/-- The first character is not a fill character. -/
theorem b64encodeWith_head {c62 c63 : Char} (h62 : c62 ≠ '=') (h63 : c63 ≠ '=') {data : Bytes}
    (h : data ≠ []) : ∃ c s, b64encodeWith c62 c63 data = c :: s ∧ c ≠ '=' := by
  have hchar : ∀ n, b64Char c62 c63 n ≠ '=' := by
    intro n
    unfold b64Char
    split_ifs with h26 h52 h62' h62''
    · exact (by decide : ∀ n < 26, Char.ofNat (65 + n) ≠ '=') n h26
    · exact (by decide : ∀ n < 52, Char.ofNat (71 + n) ≠ '=') n h52
    · exact (by decide : ∀ n < 62, ¬ n < 52 → Char.ofNat (n - 4) ≠ '=') n h62' h52
    · exact h62
    · exact h63
  match data, h with
  | [a], _ => exact ⟨_, _, rfl, hchar _⟩
  | [a, b], _ => exact ⟨_, _, rfl, hchar _⟩
  | a :: b :: c :: bs, _ => exact ⟨_, _, rfl, hchar _⟩

theorem b64encode_ne_nil {data : Bytes} (h : data ≠ []) : b64encode data ≠ [] := by
  obtain ⟨c, s, hs, -⟩ := b64encodeWith_head (by decide : '+' ≠ '=') (by decide : '/' ≠ '=') h
  rw [b64encode, hs]
  exact List.cons_ne_nil c s

/-- Without its fill characters there is still something. -/
theorem rstrip_urlsafeB64encode_ne_nil {data : Bytes} (h : data ≠ []) :
    Str.rstrip (· == '=') (urlsafeB64encode data) ≠ [] := by
  obtain ⟨c, s, hs, hc⟩ := b64encodeWith_head (by decide : '-' ≠ '=') (by decide : '_' ≠ '=') h
  rw [urlsafeB64encode, hs, Str.rstrip]
  intro hnil
  exact hc (by simpa using List.rdropWhile_eq_nil_iff.1 hnil c List.mem_cons_self)

theorem quote_ne_nil {s : Str} (h : s ≠ []) : quote s ≠ [] := by
  obtain ⟨b, bs, hb⟩ := List.exists_cons_of_ne_nil (encodeUtf8_ne_nil h)
  rw [quote, hb, List.flatMap_cons]
  refine List.append_ne_nil_of_left_ne_nil ?_ _
  dsimp only
  split_ifs <;> exact List.cons_ne_nil _ _

end Bulldog
