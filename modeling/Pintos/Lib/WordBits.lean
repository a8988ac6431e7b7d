import Mathlib

/-!
# One bit of a 32-bit word

For `k < 32` the word `1 <<< k` has bit `k` alone set: or-ing it into a word sets bit `k`,
and-ing the word with its complement clears bit `k`, and and-ing the word with it tests
bit `k`. The other bits are left as they were. Each lemma reads words bit by bit through
`UInt32.toBitVec` and `BitVec.getLsbD`.

A word that packs an address in its high bits and flags in its low ones is taken apart by
`and_high_mask` (the mask of the high bits keeps an address whose low bits are zero) and
`or_and` (a mask distributes over the or that packed the word).
-/

set_option autoImplicit false

namespace WordBits

theorem toBitVec_one_shiftLeft {k : Nat} (hk : k < 32) :
    ((1 : UInt32) <<< k.toUInt32).toBitVec = BitVec.twoPow 32 k := by
  rw [UInt32.toBitVec_shiftLeft, BitVec.shiftLeft_eq', BitVec.twoPow]
  congr 1
  simp
  omega

theorem twoPow_ne_zero {k : Nat} (hk : k < 32) : BitVec.twoPow 32 k ≠ 0#32 := fun h => by
  simpa [hk] using congrArg (·.getLsbD k) h

/-- And-ing with `1 <<< k` tests bit `k`. -/
theorem and_one_shiftLeft_ne_zero (w : UInt32) {k : Nat} (hk : k < 32) :
    ((w &&& (1 : UInt32) <<< k.toUInt32) != 0) = w.toBitVec.getLsbD k := by
  have h := UInt32.toBitVec_and w ((1 : UInt32) <<< k.toUInt32)
  rw [toBitVec_one_shiftLeft hk, BitVec.and_twoPow] at h
  cases hb : w.toBitVec.getLsbD k
  · rw [hb, if_neg (by simp)] at h
    simp only [bne_eq_false_iff_eq]
    exact UInt32.toBitVec_inj.mp h
  · rw [hb, if_pos rfl] at h
    simp only [bne_iff_ne, ne_eq]
    intro h0
    rw [h0] at h
    exact twoPow_ne_zero hk h.symm

/-- Or-ing in `1 <<< k` sets bit `k` and keeps the others. -/
theorem getLsbD_or_one_shiftLeft (w : UInt32) {k : Nat} (hk : k < 32) (j : Nat) :
    (w ||| (1 : UInt32) <<< k.toUInt32).toBitVec.getLsbD j =
      (w.toBitVec.getLsbD j || decide (k = j)) := by
  rw [UInt32.toBitVec_or, BitVec.getLsbD_or, toBitVec_one_shiftLeft hk, BitVec.getLsbD_twoPow]
  simp [hk]

/-- And-ing with the complement of `1 <<< k` clears bit `k` and keeps the others. -/
theorem getLsbD_and_not_one_shiftLeft (w : UInt32) {k : Nat} (hk : k < 32) {j : Nat}
    (hj : j < 32) :
    (w &&& ~~~((1 : UInt32) <<< k.toUInt32)).toBitVec.getLsbD j =
      (w.toBitVec.getLsbD j && !decide (k = j)) := by
  rw [UInt32.toBitVec_and, BitVec.getLsbD_and, UInt32.toBitVec_not, BitVec.getLsbD_not,
    toBitVec_one_shiftLeft hk, BitVec.getLsbD_twoPow]
  simp [hk, hj]

theorem toNat_toUInt32 {a : Nat} (h : a < 2 ^ 32) : a.toUInt32.toNat = a := by
  rw [Nat.toUInt32_eq, UInt32.toNat_ofNat', Nat.mod_eq_of_lt h]

/-- And-ing with a mask distributes over or. -/
theorem or_and (a b c : UInt32) : (a ||| b) &&& c = (a &&& c) ||| (b &&& c) := by
  apply UInt32.toBitVec_inj.mp
  simp only [UInt32.toBitVec_and, UInt32.toBitVec_or, BitVec.and_or_distrib_right]

/-- The mask of bits `k` to `k + n` keeps a number below `2 ^ (k + n)` whose low `k` bits are
zero. -/
theorem and_high_mask {a k n : Nat} (ha : a % 2 ^ k = 0) (hlt : a < 2 ^ (k + n)) :
    a &&& 2 ^ k * (2 ^ n - 1) = a := by
  apply Nat.eq_of_testBit_eq
  intro i
  rw [Nat.testBit_and, Nat.testBit_two_pow_mul, Nat.testBit_two_pow_sub_one]
  by_cases hik : i < k
  · -- a low bit: zero in `a`
    have h0 : a.testBit i = false := by
      have := Nat.testBit_mod_two_pow a k i
      rw [ha, Nat.zero_testBit] at this
      simpa [hik] using this.symm
    simp [h0]
  · by_cases hin : i < k + n
    · simp [show i - k < n by omega]
      omega
    · -- above the mask: zero in `a` too
      have h0 : a.testBit i = false :=
        Nat.testBit_lt_two_pow (lt_of_lt_of_le hlt (Nat.pow_le_pow_right (by decide) (by omega)))
      simp [h0]

end WordBits
