import Pintos.Model.Arithmetic
import Pintos.Lib.LongDivision
import Mathlib.Data.Int.Init

/-!
# The division routines divide exactly, and the remainder routines truncate

`udiv64` never traps and returns `n / d` for every nonzero `d` (`udiv64_eq`): a divisor that
fits in 32 bits takes two steps of long division (`udiv64_of_lt`), and a wider one is
normalised so that its high word `v` has its top bit set, which bounds the one `divl` below
`2 ^ 32` and makes `n / (v * t)` the quotient or one above it (`udiv64_of_ge`,
`LongDivision.estimate_le_succ`); the last line of `udiv64` corrects that estimate
(`correct_estimate`). `sdiv64` then divides the magnitudes and sets the sign, which is
truncating division except at `INT64_MIN / -1` (`sdiv64_eq`).

`umod64` and `smod64` compute the remainder exactly but return it through their `uint32_t`
and `int32_t` result types: `__umoddi3` is the remainder modulo `2 ^ 32` (`umoddi3_eq`), and
`__moddi3` is truncated the same way. A divisor wider than 32 bits has remainders that do not
fit: `2 ^ 32 % (2 ^ 32 + 1)` comes back as 0 (`remainder_routines_truncate`).
-/

set_option autoImplicit false

namespace Pintos.Arithmetic

/-! ## The word operations `udiv64` uses -/

theorem toNat_shiftRight_32 (x : UInt64) : (x >>> 32).toNat = x.toNat / 2 ^ 32 := by
  simp [UInt64.toNat_shiftRight, Nat.shiftRight_eq_div_pow]

theorem toNat_shiftRight_one (x : UInt64) : (x >>> 1).toNat = x.toNat / 2 := by
  simp [UInt64.toNat_shiftRight, Nat.shiftRight_eq_div_pow]

theorem toNat_shiftLeft_toUInt64 (x : UInt64) {s : Nat} (hs : s < 64) :
    (x <<< s.toUInt64).toNat = x.toNat * 2 ^ s % 2 ^ 64 := by
  simp [UInt64.toNat_shiftLeft, Nat.shiftLeft_eq, Nat.toUInt64, UInt64.toNat_ofNat',
    Nat.mod_eq_of_lt hs]

theorem toNat_shiftRight_toUInt32 (x : UInt32) {s : Nat} (hs : s < 32) :
    (x >>> s.toUInt32).toNat = x.toNat / 2 ^ s := by
  simp [UInt32.toNat_shiftRight, Nat.shiftRight_eq_div_pow, Nat.toUInt32, UInt32.toNat_ofNat',
    Nat.mod_eq_of_lt hs]

theorem toNat_one_shiftLeft_32 : ((1 : UInt64) <<< 32).toNat = 2 ^ 32 := by decide

/-- `divl` does not trap on a nonzero divisor and a quotient that fits. -/
theorem divl_of_lt {n : UInt64} {d : UInt32} (hd : d ≠ 0) (hq : n.toNat / d.toNat < 2 ^ 32) :
    divl n d = some (UInt32.ofNat (n.toNat / d.toNat)) := by
  rw [divl, if_neg (not_or.mpr ⟨hd, by omega⟩), Option.some.injEq]
  apply UInt32.toNat_inj.mp
  simp [UInt64.toNat_toUInt32, UInt64.toNat_div, UInt32.toNat_toUInt64]

/-- `nlz x` shifts a nonzero `x` until its top bit is set. -/
theorem nlz_spec (x : UInt32) (hx : x ≠ 0) :
    nlz x ≤ 31 ∧ 2 ^ 31 ≤ x.toNat * 2 ^ nlz x ∧ x.toNat * 2 ^ nlz x < 2 ^ 32 := by
  have hx' : x.toNat ≠ 0 := fun h => hx (UInt32.toNat_inj.mp (by simpa using h))
  have hlt := x.toNat_lt
  unfold nlz
  simp only [UInt32.le_iff_toNat_le]
  -- each of the five tests either shifts or leaves `x`; no shift wraps
  split_ifs
  all_goals simp only [UInt32.toNat_shiftLeft, UInt32.toNat_ofNat, Nat.shiftLeft_eq,
    Nat.reducePow, Nat.reduceMod] at *
  all_goals omega

/-- The high word of `d << s`, when the shift does not wrap, is `d >> (32 - s)`. -/
theorem normalised_high_word {d s : Nat} (hs : s ≤ 32) (hd : d * 2 ^ s < 2 ^ 64) :
    d * 2 ^ s % 2 ^ 64 / 2 ^ 32 % 2 ^ 32 = d / 2 ^ (32 - s) := by
  have h32 : 2 ^ 32 = 2 ^ (32 - s) * 2 ^ s := by rw [← pow_add, Nat.sub_add_cancel hs]
  rw [Nat.mod_eq_of_lt hd, Nat.mod_eq_of_lt, h32, Nat.mul_div_mul_right _ _ (by positivity)]
  rw [Nat.div_lt_iff_lt_mul (by positivity)]
  calc d * 2 ^ s < 2 ^ 64 := hd
    _ = 2 ^ 32 * 2 ^ 32 := by norm_num

/-! ## `udiv64` -/

/-- A divisor below `2 ^ 32`: the two `divl`-sized steps of long division. -/
theorem udiv64_of_lt {n d : UInt64} (hd : d ≠ 0) (hsmall : d.toNat < 2 ^ 32) :
    udiv64 n d = some (n / d) := by
  have hd0 : d.toNat ≠ 0 := fun h => hd (UInt64.toNat_inj.mp (by simpa using h))
  have hn := n.toNat_lt
  have hhigh : d >>> 32 = 0 := UInt64.toNat_inj.mp (by rw [toNat_shiftRight_32]; simp; omega)
  -- `d0` is `d`, and `n1`, `n0` are the high and low words of `n`
  have hdd : d.toUInt32.toNat = d.toNat := by simp [UInt64.toNat_toUInt32]; omega
  have hd0' : d.toUInt32 ≠ 0 := fun h => hd0 (by rw [← hdd, h]; rfl)
  have hn1 : ((n >>> 32).toUInt32).toNat = n.toNat / 2 ^ 32 := by
    rw [UInt64.toNat_toUInt32, toNat_shiftRight_32]; omega
  have hn0 : n.toUInt32.toNat = n.toNat % 2 ^ 32 := UInt64.toNat_toUInt32 n
  have hr : n.toNat / 2 ^ 32 % d.toNat < d.toNat := Nat.mod_lt _ (by omega)
  have hnum : ((1 : UInt64) <<< 32 * ((n >>> 32).toUInt32 % d.toUInt32).toUInt64
      + n.toUInt32.toUInt64).toNat = 2 ^ 32 * (n.toNat / 2 ^ 32 % d.toNat) + n.toNat % 2 ^ 32 := by
    simp only [UInt64.toNat_add, UInt64.toNat_mul, UInt32.toNat_toUInt64, UInt32.toNat_mod,
      hn1, hn0, hdd, toNat_one_shiftLeft_32]
    omega
  -- the low quotient fits in `divl`, and with the high one it is `n / d`
  have hlow := LongDivision.div_step_lt (b := 2 ^ 32) (Nat.mod_lt n.toNat (by norm_num)) hr
  have hsplit := LongDivision.div_step (2 ^ 32) (n.toNat / 2 ^ 32) (n.toNat % 2 ^ 32) d.toNat
  rw [Nat.div_add_mod] at hsplit
  have hf : n.toNat / d.toNat < 2 ^ 64 := lt_of_le_of_lt (Nat.div_le_self _ _) hn
  have hg : 2 ^ 32 * (n.toNat / 2 ^ 32 / d.toNat) ≤ n.toNat / d.toNat := by
    rw [hsplit]; exact Nat.le_add_left _ _
  rw [udiv64, if_pos hhigh]
  dsimp only
  rw [divl_of_lt hd0' (by rw [hnum, hdd]; exact hlow), Option.map_some, Option.some.injEq]
  apply UInt64.toNat_inj.mp
  simp only [UInt64.toNat_add, UInt64.toNat_mul, UInt32.toNat_toUInt64, UInt32.toNat_ofNat',
    UInt32.toNat_div, hnum, hn1, UInt64.toNat_div, toNat_one_shiftLeft_32]
  rw [hdd, Nat.mod_eq_of_lt hlow, Nat.mod_eq_of_lt (lt_of_le_of_lt hg hf), ← hsplit,
    Nat.mod_eq_of_lt hf]

/-- The last line of `udiv64`: an estimate that is the quotient or one above it is
corrected to the quotient. -/
theorem correct_estimate {n d q : UInt64} (hd : d ≤ n) (hd0 : 0 < d.toNat)
    (hq : q.toNat = n.toNat / d.toNat ∨ q.toNat = n.toNat / d.toNat + 1) :
    (if n - (q - 1) * d < d then q - 1 else q) = n / d := by
  have hn := n.toNat_lt
  have hdn : d.toNat ≤ n.toNat := UInt64.le_iff_toNat_le.mp hd
  have hQ : 1 ≤ n.toNat / d.toNat := (Nat.one_le_div_iff hd0).mpr hdn
  have hmod := Nat.div_add_mod' n.toNat d.toNat
  have hmodlt := Nat.mod_lt n.toNat hd0
  have hq1 : (q - 1).toNat = q.toNat - 1 := by
    rw [UInt64.toNat_sub_of_le _ _ (UInt64.le_iff_toNat_le.mpr (by simp; omega))]; simp
  -- `(q - 1) * d` does not wrap: it is at most `n`
  have hle : (q.toNat - 1) * d.toNat ≤ n.toNat :=
    le_trans (Nat.mul_le_mul_right _ (by omega)) (Nat.div_mul_le_self n.toNat d.toNat)
  have hprod : ((q - 1) * d).toNat = (q.toNat - 1) * d.toNat := by
    rw [UInt64.toNat_mul, hq1, Nat.mod_eq_of_lt (lt_of_le_of_lt hle hn)]
  have hsub : (n - (q - 1) * d).toNat = n.toNat - (q.toNat - 1) * d.toNat := by
    rw [UInt64.toNat_sub_of_le _ _ (UInt64.le_iff_toNat_le.mpr (by rw [hprod]; exact hle)), hprod]
  rcases hq with hq | hq
  · -- the estimate is exact: `q - 1` leaves a remainder of at least `d`
    have hge : ¬ n - (q - 1) * d < d := by
      rw [UInt64.lt_iff_toNat_lt, hsub, hq]
      have : (n.toNat / d.toNat - 1) * d.toNat + d.toNat = n.toNat / d.toNat * d.toNat := by
        rw [Nat.sub_one_mul, Nat.sub_add_cancel (Nat.le_mul_of_pos_left _ hQ)]
      omega
    rw [if_neg hge]
    exact UInt64.toNat_inj.mp (by rw [hq, UInt64.toNat_div])
  · -- the estimate is one above: `q - 1` leaves the remainder `n % d`
    have hlt : n - (q - 1) * d < d := by
      rw [UInt64.lt_iff_toNat_lt, hsub, hq, Nat.add_sub_cancel]
      omega
    rw [if_pos hlt]
    exact UInt64.toNat_inj.mp (by rw [hq1, hq, UInt64.toNat_div]; omega)

/-- A divisor of `2 ^ 32` or more: normalise, estimate with one `divl`, correct. -/
theorem udiv64_of_ge {n d : UInt64} (hbig : 2 ^ 32 ≤ d.toNat) : udiv64 n d = some (n / d) := by
  have hn := n.toNat_lt
  have hdlt := d.toNat_lt
  have hhigh : d >>> 32 ≠ 0 := fun h => by
    have := congrArg UInt64.toNat h
    rw [toNat_shiftRight_32] at this
    simp at this; omega
  rw [udiv64, if_neg hhigh]
  by_cases hnd : n < d
  · rw [if_pos hnd, Option.some.injEq]
    refine UInt64.toNat_inj.mp ?_
    rw [UInt64.toNat_div, Nat.div_eq_of_lt (UInt64.lt_iff_toNat_lt.mp hnd)]; rfl
  rw [if_neg hnd]
  dsimp only
  -- `d1` is the high word of `d`, and `s` the shift that sets its top bit
  have hd1 : ((d >>> 32).toUInt32).toNat = d.toNat / 2 ^ 32 := by
    rw [UInt64.toNat_toUInt32, toNat_shiftRight_32]; omega
  have hd1ne : (d >>> 32).toUInt32 ≠ 0 := fun h => by
    have := congrArg UInt32.toNat h
    rw [hd1] at this; simp at this; omega
  obtain ⟨hs31, hlo, hhi⟩ := nlz_spec _ hd1ne
  rw [hd1] at hlo hhi
  generalize nlz (d >>> 32).toUInt32 = s at hs31 hlo hhi ⊢
  obtain ⟨t, ht_def⟩ : ∃ t, t = 2 ^ (32 - s) := ⟨_, rfl⟩
  have h32 : 2 ^ 32 = t * 2 ^ s := by rw [ht_def, ← pow_add, Nat.sub_add_cancel (by omega)]
  have ht2 : 2 ≤ t := by
    calc 2 = 2 ^ 1 := rfl
      _ ≤ t := ht_def ▸ Nat.pow_le_pow_right (by norm_num) (by omega)
  -- `d << s` does not wrap, and its high word is `v = d / t`, at least `2 ^ 31`
  have hdiv1 : d.toNat / 2 ^ 32 < t := Nat.lt_of_mul_lt_mul_right (hhi.trans_eq h32)
  have hds : d.toNat * 2 ^ s < 2 ^ 64 := by
    have h1 : d.toNat < (d.toNat / 2 ^ 32 + 1) * 2 ^ 32 := by omega
    calc d.toNat * 2 ^ s < (d.toNat / 2 ^ 32 + 1) * 2 ^ 32 * 2 ^ s :=
          Nat.mul_lt_mul_of_pos_right h1 (by positivity)
      _ = (d.toNat / 2 ^ 32 + 1) * 2 ^ s * 2 ^ 32 := by ring
      _ ≤ t * 2 ^ s * 2 ^ 32 := Nat.mul_le_mul_right _ (Nat.mul_le_mul_right _ hdiv1)
      _ = 2 ^ 64 := by rw [← h32]; norm_num
  have hv : ((d <<< s.toUInt64) >>> 32).toUInt32.toNat = d.toNat / t := by
    rw [UInt64.toNat_toUInt32, toNat_shiftRight_32, toNat_shiftLeft_toUInt64 _ (by omega),
      normalised_high_word (by omega) hds, ht_def]
  have hvlo : 2 ^ 31 ≤ d.toNat / t := by
    refine le_trans hlo ((Nat.le_div_iff_mul_le (by omega)).mpr ?_)
    calc d.toNat / 2 ^ 32 * 2 ^ s * t = d.toNat / 2 ^ 32 * 2 ^ 32 := by rw [h32]; ring
      _ ≤ d.toNat := Nat.div_mul_le_self _ _
  have hv0 : ((d <<< s.toUInt64) >>> 32).toUInt32 ≠ 0 := fun h => by
    have := congrArg UInt32.toNat h
    rw [hv, UInt32.toNat_zero] at this; omega
  -- `n >> 1` divided by a word with its top bit set fits in 32 bits: `divl` does not trap
  have hq1 : (n >>> 1).toNat / ((d <<< s.toUInt64) >>> 32).toUInt32.toNat < 2 ^ 32 := by
    rw [hv, toNat_shiftRight_one, Nat.div_lt_iff_lt_mul (by omega)]
    calc n.toNat / 2 < 2 ^ 63 := by omega
      _ = 2 ^ 32 * 2 ^ 31 := by norm_num
      _ ≤ 2 ^ 32 * (d.toNat / t) := Nat.mul_le_mul_left _ hvlo
  rw [divl_of_lt hv0 hq1, Option.map_some, Option.some.injEq]
  -- shifted back, the estimate is `n / (v * t)`
  have hest : ((UInt32.ofNat ((n >>> 1).toNat / ((d <<< s.toUInt64) >>> 32).toUInt32.toNat)
      >>> (31 - s).toUInt32).toUInt64).toNat = n.toNat / (d.toNat / t * t) := by
    have ht' : t = 2 * 2 ^ (31 - s) := by
      rw [ht_def, ← pow_succ']; congr 1; omega
    rw [UInt32.toNat_toUInt64, toNat_shiftRight_toUInt32 _ (by omega), UInt32.toNat_ofNat',
      Nat.mod_eq_of_lt hq1, hv, toNat_shiftRight_one, Nat.div_div_eq_div_mul,
      Nat.div_div_eq_div_mul, ht']
    ring_nf
  refine correct_estimate (UInt64.le_iff_toNat_le.mpr (by
    have := UInt64.lt_iff_toNat_lt.not.mp hnd; omega)) (by omega) ?_
  rw [hest]
  have hvt : 0 < d.toNat / t * t := Nat.mul_pos (by omega) (by omega)
  have hlow := LongDivision.le_estimate (n := n.toNat) hvt (Nat.div_mul_le_self d.toNat t)
  have hhigh := LongDivision.estimate_le_succ (n := n.toNat) (N := 2 ^ 64) hn
    (Nat.div_add_mod' d.toNat t).symm (Nat.mod_lt _ (by omega)) ht2 (by nlinarith)
  omega

/-- `udiv64` divides exactly, and no `divl` in it traps, for every nonzero divisor. -/
theorem udiv64_eq {n d : UInt64} (hd : d ≠ 0) : udiv64 n d = some (n / d) := by
  rcases Nat.lt_or_ge d.toNat (2 ^ 32) with hsmall | hbig
  · exact udiv64_of_lt hd hsmall
  · exact udiv64_of_ge hbig

/-! ## Signed division -/

theorem toInt_eq_toNat_cond (x : Int64) :
    x.toInt = if 2 * x.toUInt64.toNat < 2 ^ 64 then (x.toUInt64.toNat : Int)
      else (x.toUInt64.toNat : Int) - 2 ^ 64 := by
  rw [← Int64.toInt_toBitVec, BitVec.toInt_eq_toNat_cond, Int64.toNat_toBitVec]
  push_cast; rfl

theorem toInt_toInt64 (u : UInt64) :
    u.toInt64.toInt = if 2 * u.toNat < 2 ^ 64 then (u.toNat : Int) else (u.toNat : Int) - 2 ^ 64 := by
  rw [toInt_eq_toNat_cond]; rfl

/-- `n >= 0 ? (uint64_t) n : -(uint64_t) n` is the magnitude of `n`, also of `INT64_MIN`. -/
theorem toNat_magnitude (n : Int64) :
    (if 0 ≤ n then n.toUInt64 else -n.toUInt64).toNat = n.toInt.natAbs := by
  have h := toInt_eq_toNat_cond n
  have hlt := n.toUInt64.toNat_lt
  have h0 : 0 ≤ n ↔ 0 ≤ n.toInt := by rw [Int64.le_iff_toInt_le, Int64.toInt_zero]
  split_ifs with hn
  · rw [h0] at hn
    split_ifs at h <;> omega
  · rw [h0] at hn
    rw [UInt64.toNat_neg]
    simp only [UInt64.size]
    split_ifs at h <;> omega

theorem lt_zero_eq (n : Int64) : (n < 0) = (n.toInt < 0) := by
  rw [Int64.lt_iff_toInt_lt, Int64.toInt_zero]

/-- `sdiv64` is truncating division for every nonzero divisor but `INT64_MIN / -1`. -/
theorem sdiv64_eq {n d : Int64} (hd : d ≠ 0) (hov : ¬(n = Int64.minValue ∧ d = -1)) :
    (sdiv64 n d).map Int64.toInt = some (n.toInt.tdiv d.toInt) := by
  have hdi : d.toInt ≠ 0 := fun h => hd (Int64.toInt_inj.mp (by rw [h, Int64.toInt_zero]))
  have hnm := toNat_magnitude n
  have hdm := toNat_magnitude d
  have hdne : (if 0 ≤ d then d.toUInt64 else -d.toUInt64) ≠ 0 := fun h => by
    rw [h, UInt64.toNat_zero] at hdm; omega
  have hnlo := Int64.le_toInt n
  have hnhi := Int64.toInt_lt n
  have hdlo := Int64.le_toInt d
  have hdhi := Int64.toInt_lt d
  have hov' : ¬(n.toInt = -2 ^ 63 ∧ d.toInt = -1) := fun ⟨h1, h2⟩ =>
    hov ⟨Int64.toInt_inj.mp (by rw [h1, Int64.toInt_minValue]),
      Int64.toInt_inj.mp (by rw [h2]; rfl)⟩
  rw [sdiv64, udiv64_eq hdne, Option.map_some, Option.map_some, Option.some.injEq,
    LongDivision.tdiv_eq_sign]
  have hcond : ((n < 0) = (d < 0)) ↔ ((n.toInt < 0) = (d.toInt < 0)) := by
    rw [lt_zero_eq, lt_zero_eq]
  -- the quotient of the magnitudes, at most `2 ^ 63`, and `2 ^ 63` only for `INT64_MIN / ±1`
  have hq : (((if 0 ≤ n then n.toUInt64 else -n.toUInt64) /
      (if 0 ≤ d then d.toUInt64 else -d.toUInt64))).toNat = n.toInt.natAbs / d.toInt.natAbs := by
    rw [UInt64.toNat_div, hnm, hdm]
  have hqle : n.toInt.natAbs / d.toInt.natAbs ≤ n.toInt.natAbs := Nat.div_le_self _ _
  have hq1 : d.toInt.natAbs = 1 ∨ n.toInt.natAbs / d.toInt.natAbs ≤ n.toInt.natAbs / 2 := by
    rcases Nat.lt_or_ge d.toInt.natAbs 2 with h | h
    · left; omega
    · right; exact Nat.div_le_div_left h (by norm_num)
  by_cases hs : (n.toInt < 0) = (d.toInt < 0)
  · -- equal signs: the quotient is below `2 ^ 63` and keeps its value as an `int64_t`
    rw [if_pos (hcond.mpr hs), if_pos hs, toInt_toInt64, hq]
    have hs' : n.toInt < 0 ↔ d.toInt < 0 := eq_iff_iff.mp hs
    rcases hq1 with h1 | h1
    · rw [h1, Nat.div_one]; split_ifs <;> omega
    · split_ifs <;> omega
  · -- different signs: the negated quotient, `INT64_MIN / 1` wrapping back to itself
    rw [if_neg (mt hcond.mp hs), if_neg hs, Int64.toInt_neg, toInt_toInt64, hq]
    have hs' : ¬(n.toInt < 0 ↔ d.toInt < 0) := fun h => hs (propext h)
    rcases hq1 with h1 | h1
    · rw [h1, Nat.div_one]; split_ifs <;> simp only [Int.bmod] <;> omega
    · split_ifs <;> simp only [Int.bmod] <;> omega

/-! ## The remainders -/

/-- `__umoddi3` returns the remainder modulo `2 ^ 32`: `umod64` returns a `uint32_t`. -/
theorem umoddi3_eq {n d : UInt64} (hd : d ≠ 0) :
    (umoddi3 n d).map UInt64.toNat = some (n.toNat % d.toNat % 2 ^ 32) := by
  have hmod := Nat.div_add_mod n.toNat d.toNat
  have hle : d.toNat * (n.toNat / d.toNat) ≤ n.toNat := Nat.mul_div_le n.toNat d.toNat
  have hn := n.toNat_lt
  rw [umoddi3, umod64, udiv64_eq hd]
  simp only [Option.map_some, Option.some.injEq, UInt32.toNat_toUInt64, UInt64.toNat_toUInt32]
  rw [UInt64.toNat_sub_of_le _ _ (UInt64.le_iff_toNat_le.mpr (by
    rw [UInt64.toNat_mul, UInt64.toNat_div, Nat.mod_eq_of_lt (lt_of_le_of_lt hle hn)]; exact hle))]
  rw [UInt64.toNat_mul, UInt64.toNat_div, Nat.mod_eq_of_lt (lt_of_le_of_lt hle hn)]
  omega

/-! ## What `__udivdi3`, `__divdi3`, `__umoddi3` and `__moddi3` return -/

theorem division_routines_exact :
    (∀ n d : UInt64, d ≠ 0 → udivdi3 n d = some (n / d)) ∧
      ∀ n d : Int64, d ≠ 0 → ¬(n = Int64.minValue ∧ d = -1) →
        (divdi3 n d).map Int64.toInt = some (n.toInt.tdiv d.toInt) :=
  ⟨fun _ _ hd => udiv64_eq hd, fun _ _ hd hov => sdiv64_eq hd hov⟩

theorem division_routines_exact_at_wide_divisors :
    udivdi3 (2 ^ 64 - 1) (2 ^ 32 + 1) = some ((2 ^ 64 - 1) / (2 ^ 32 + 1)) ∧
      (divdi3 Int64.minValue 3).map Int64.toInt = some (Int64.minValue.toInt.tdiv 3) :=
  ⟨division_routines_exact.1 _ _ (by decide),
    division_routines_exact.2 _ _ (by decide) (by decide)⟩

theorem remainder_routines_truncate :
    umoddi3 (2 ^ 32) (2 ^ 32 + 1) = some 0 ∧ (2 ^ 32 : UInt64) % (2 ^ 32 + 1) = 2 ^ 32 ∧
      moddi3 (2 ^ 32) (2 ^ 32 + 1) = some 0 ∧
      (2 ^ 32 : Int).tmod (2 ^ 32 + 1) = 2 ^ 32 := by
  decide

end Pintos.Arithmetic
