import Mathlib.Data.Nat.Digits.Lemmas

/-!
# Numerals in a base, padded on the left

A loop that divides by the base produces the digits of a number least significant first
(`Nat.digits`). A numeral in `w` places is those digits reversed, after one `0` digit for
the value zero, behind enough `0`s to fill the width (`numeral`). A reader that goes left
to right keeps `digit + value * b` (`readDigits`).

Reading a numeral gives back its value (`readDigits_numeral`); every digit is below the
base (`lt_of_mem_numeral`); and the numeral has exactly `w` places when the value has at
most `w` digits (`length_numeral`). What a reader has accumulated after a prefix is at most
the final value divided by the base to the number of digits left (`mul_pow_le_readDigits`).
-/

set_option autoImplicit false

namespace Digits

variable (b : Nat)

/-- `n` in `w` places: the digits least significant first, a `0` if there are none, then
reversed behind `0`s up to the width. -/
def numeral (w n : Nat) : List Nat :=
  let ds := Nat.digits b n
  let ds := if ds.length < 1 then ds ++ [0] else ds
  List.replicate (w - ds.length) 0 ++ ds.reverse

/-- The value a left-to-right reader accumulates from `acc` over the digits `ds`. -/
def readDigits (acc : Nat) (ds : List Nat) : Nat := ds.foldl (fun v d => d + v * b) acc

theorem readDigits_nil (acc : Nat) : readDigits b acc [] = acc := rfl

theorem readDigits_cons (acc d : Nat) (ds : List Nat) :
    readDigits b acc (d :: ds) = readDigits b (d + acc * b) ds := rfl

theorem readDigits_append (acc : Nat) (ds es : List Nat) :
    readDigits b acc (ds ++ es) = readDigits b (readDigits b acc ds) es :=
  List.foldl_append

/-- The start value is shifted left by one place per digit. -/
theorem readDigits_eq (acc : Nat) (ds : List Nat) :
    readDigits b acc ds = acc * b ^ ds.length + readDigits b 0 ds := by
  induction ds generalizing acc with
  | nil => simp [readDigits]
  | cons d ds ih =>
      rw [readDigits_cons, ih, readDigits_cons, ih (d + 0 * b), List.length_cons, Nat.pow_succ]
      ring

theorem mul_pow_le_readDigits (acc : Nat) (ds : List Nat) :
    acc * b ^ ds.length ≤ readDigits b acc ds := by
  rw [readDigits_eq]
  exact Nat.le_add_right _ _

theorem readDigits_replicate_zero (k : Nat) : readDigits b 0 (List.replicate k 0) = 0 := by
  induction k with
  | zero => rfl
  | succ k ih => rw [List.replicate_succ, readDigits_cons, Nat.zero_mul, Nat.add_zero, ih]

/-- Read most significant first, the digits of `n` are `n`. -/
theorem readDigits_reverse_digits (n : Nat) : readDigits b 0 (Nat.digits b n).reverse = n := by
  rw [readDigits, List.foldl_reverse]
  conv_rhs => rw [← Nat.ofDigits_digits b n]
  generalize Nat.digits b n = ds
  induction ds with
  | nil => rfl
  | cons d ds ih => rw [List.foldr_cons, ih, Nat.ofDigits_cons, Nat.mul_comm]

theorem readDigits_numeral (w n : Nat) : readDigits b 0 (numeral b w n) = n := by
  unfold numeral
  dsimp only
  rw [readDigits_append, readDigits_replicate_zero]
  split
  · -- `n = 0`: the one digit `0`
    rename_i h
    have hn : Nat.digits b n = [] := List.eq_nil_of_length_eq_zero (by omega)
    rw [hn]
    have : n = 0 := by rw [← Nat.ofDigits_digits b n, hn]; rfl
    subst this
    simp [readDigits]
  · exact readDigits_reverse_digits b n

theorem lt_of_mem_numeral {w n d : Nat} (hb : 1 < b) (hd : d ∈ numeral b w n) : d < b := by
  unfold numeral at hd
  dsimp only at hd
  rcases List.mem_append.mp hd with hd | hd
  · rw [(List.mem_replicate.mp hd).2]
    omega
  · rw [List.mem_reverse] at hd
    split at hd
    · rcases List.mem_append.mp hd with hd | hd
      · exact Nat.digits_lt_base hb hd
      · rw [List.mem_singleton.mp hd]
        omega
    · exact Nat.digits_lt_base hb hd

/-- A value with at most `w` digits fills exactly `w` places. -/
theorem length_numeral {w n : Nat} (hb : 1 < b) (hw : 1 ≤ w) (hn : n < b ^ w) :
    (numeral b w n).length = w := by
  have hlen := (Nat.digits_length_le_iff hb n).mpr hn
  unfold numeral
  dsimp only
  split
  · rw [List.length_append, List.length_replicate, List.length_reverse, List.length_append,
      List.length_singleton]
    omega
  · rw [List.length_append, List.length_replicate, List.length_reverse]
    omega

end Digits
