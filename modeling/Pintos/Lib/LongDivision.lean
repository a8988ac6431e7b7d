import Mathlib.Tactic.Ring
import Mathlib.Tactic.Linarith
import Mathlib.Tactic.Positivity

/-!
# Long division with a short divisor, and quotient estimates

Two facts about dividing natural numbers that division routines built on a narrower divide
instruction rely on.

* Schoolbook division in base `b` by a one-digit divisor `d`: the quotient of `b * n1 + n0`
  is `b * (n1 / d)` plus the quotient of `b * (n1 % d) + n0`, and the latter is below `b`
  when `n0 < b` (`div_step`, `div_step_lt`).
* An estimate by a truncated divisor: write `d = v * t + e` with `e < t`; then `n / (v * t)`
  is `n / d` or one more, as long as `v` is large against the range of `n`
  (`le_estimate`, `estimate_le_succ`). This is the step that lets a divisor wider than
  the instruction be replaced by its normalised high word.

`tdiv_eq_sign` reads C's truncating division as a quotient of magnitudes with a sign.
-/

set_option autoImplicit false

namespace LongDivision

theorem div_step (b n1 n0 d : Nat) :
    (b * n1 + n0) / d = (b * (n1 % d) + n0) / d + b * (n1 / d) := by
  rcases Nat.eq_zero_or_pos d with rfl | hd
  · simp
  conv_lhs => rw [← Nat.mod_add_div n1 d]
  rw [show b * (n1 % d + d * (n1 / d)) + n0 = b * (n1 % d) + n0 + d * (b * (n1 / d)) by ring]
  rw [Nat.add_mul_div_left _ _ hd]

theorem div_step_lt {b n0 r d : Nat} (hn0 : n0 < b) (hr : r < d) : (b * r + n0) / d < b := by
  rw [Nat.div_lt_iff_lt_mul (by omega)]
  calc b * r + n0 < b * r + b := by omega
    _ = b * (r + 1) := by ring
    _ ≤ b * d := Nat.mul_le_mul_left b hr

theorem le_estimate {n v t d : Nat} (hvt : 0 < v * t) (h : v * t ≤ d) : n / d ≤ n / (v * t) :=
  Nat.div_le_div_left h hvt

/-- The estimate is at most one too large. Were it two above `Q = n / d`, then
`(Q + 2) * v * t ≤ n < (Q + 1) * d` would force `v * t < (Q + 1) * (t - 1)`, and with it
`n * (t - 1) > (v * t) ^ 2 ≥ 4 * v * v * (t - 1) ≥ N * (t - 1)`. -/
theorem estimate_le_succ {n N v t e d : Nat} (hn : n < N) (hd : d = v * t + e) (he : e < t)
    (ht : 2 ≤ t) (hN : N ≤ 4 * v * v) : n / (v * t) ≤ n / d + 1 := by
  by_contra hq
  rw [not_le] at hq
  set Q := n / d
  have hv : 0 < v := by
    rcases Nat.eq_zero_or_pos v with rfl | hv
    · simp at hN; omega
    · exact hv
  have hdpos : 0 < d := by subst hd; positivity
  have h1 : (Q + 2) * (v * t) ≤ n :=
    le_trans (Nat.mul_le_mul_right _ hq) (Nat.div_mul_le_self n (v * t))
  have h2 : n < (Q + 1) * d := by
    rw [mul_comm]; exact Nat.lt_mul_div_succ n hdpos
  have h3 : v * t < (Q + 1) * (t - 1) := by
    have : (Q + 2) * (v * t) < (Q + 1) * (v * t + (t - 1)) :=
      lt_of_le_of_lt h1 (lt_of_lt_of_le h2 (Nat.mul_le_mul_left _ (by omega)))
    have ht1 : (Q + 1) * (v * t + (t - 1)) = (Q + 1) * (v * t) + (Q + 1) * (t - 1) := by ring
    nlinarith
  have h4 : v * t * (v * t + 1) ≤ n * (t - 1) := by
    calc v * t * (v * t + 1) ≤ v * t * ((Q + 2) * (t - 1)) := by
          apply Nat.mul_le_mul_left; nlinarith
      _ = (Q + 2) * (v * t) * (t - 1) := by ring
      _ ≤ n * (t - 1) := Nat.mul_le_mul_right _ h1
  have h5 : n * (t - 1) < v * t * (v * t + 1) := by
    have htt : 4 * (t - 1) ≤ t * t := by
      obtain ⟨k, rfl⟩ : ∃ k, t = k + 2 := ⟨t - 2, by omega⟩
      have : k * k + 4 * (k + 2 - 1) = (k + 2) * (k + 2) := by
        rw [show k + 2 - 1 = k + 1 by omega]; ring
      omega
    calc n * (t - 1) < N * (t - 1) := Nat.mul_lt_mul_of_pos_right hn (by omega)
      _ ≤ 4 * v * v * (t - 1) := Nat.mul_le_mul_right _ hN
      _ = v * v * (4 * (t - 1)) := by ring
      _ ≤ v * v * (t * t) := Nat.mul_le_mul_left _ htt
      _ = v * t * (v * t) := by ring
      _ < v * t * (v * t + 1) := Nat.mul_lt_mul_of_pos_left (by omega) (by positivity)
  omega

/-- Truncating division by a number is floor division of the magnitude, with the sign put
back. -/
theorem tdiv_eq_ite (a b : Int) :
    a.tdiv b = if 0 ≤ a then a / b else -((-a) / b) := by
  split_ifs with h
  · exact Int.tdiv_eq_ediv_of_nonneg h
  · rw [← Int.neg_neg a, Int.neg_tdiv, Int.tdiv_eq_ediv_of_nonneg (by omega), Int.neg_neg]

/-- Truncating division is the quotient of the magnitudes, negated when the signs differ. -/
theorem tdiv_eq_sign (a b : Int) :
    a.tdiv b = if (a < 0) = (b < 0) then ((a.natAbs / b.natAbs : Nat) : Int)
      else -((a.natAbs / b.natAbs : Nat) : Int) := by
  obtain ⟨m, rfl | rfl⟩ := Int.eq_nat_or_neg a <;> obtain ⟨k, rfl | rfl⟩ := Int.eq_nat_or_neg b
  · -- both nonnegative
    have hs : ((m : Int) < 0) = ((k : Int) < 0) := by simp only [eq_iff_iff]; omega
    simp [hs]
  · -- a nonnegative dividend, a nonpositive divisor
    rcases Nat.eq_zero_or_pos k with rfl | hk
    · simp
    · simp [Int.tdiv_neg, hk]
  · -- a nonpositive dividend, a nonnegative divisor
    rcases Nat.eq_zero_or_pos m with rfl | hm
    · simp
    · simp [Int.neg_tdiv, hm]
  · -- both nonpositive
    rcases Nat.eq_zero_or_pos m with rfl | hm <;> rcases Nat.eq_zero_or_pos k with rfl | hk
    all_goals simp [Int.neg_tdiv, Int.tdiv_neg, *]

end LongDivision
