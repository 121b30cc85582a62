import Mathlib

/-!
# True division

`p / q` of two natural numbers with `p ≤ q`, as the double nearest to the quotient. A double is its rational
value; the quotients are far from the smallest doubles, so 53 bits of it are kept.
-/

namespace Bulldog

/-- `n / d` rounded to the nearest number, and to the even one in the middle. -/
def roundHalfEven (n d : ℕ) : ℕ :=
  if 2 * (n % d) < d ∨ 2 * (n % d) = d ∧ n / d % 2 = 0 then n / d else n / d + 1

/-- The least `k` with `q ≤ p * 2 ^ k`. -/
def doublings (p q : ℕ) : ℕ := if (q - 1) / p = 0 then 0 else ((q - 1) / p).log2 + 1

/-- `p / q`, where `p ≤ q`. -/
def trueDiv (p q : ℕ) : ℚ :=
  if p = 0 then 0 else roundHalfEven (p * 2 ^ (52 + doublings p q)) q / 2 ^ (52 + doublings p q)

/-- A number divided by itself is one. -/
theorem trueDiv_self {n : ℕ} (hn : 0 < n) : trueDiv n n = 1 := by
  have hdoublings : doublings n n = 0 := if_pos (Nat.div_eq_of_lt (by omega))
  have hround : roundHalfEven (n * 2 ^ 52) n = 2 ^ 52 := by
    rw [roundHalfEven, Nat.mul_mod_right, Nat.mul_div_cancel_left _ hn, if_pos (.inl hn)]
  rw [trueDiv, if_neg hn.ne', hdoublings, Nat.add_zero, hround]
  norm_num

end Bulldog
