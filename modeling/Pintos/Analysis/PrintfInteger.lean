import Pintos.Interface.IntegerConversion

/-!
# `format_integer` prints what the standard says, within four limits

`format_integer` writes the digits least significant first into a buffer, a comma before the
digit whose index is a positive multiple of the group (`digitLoop_eq`), then zeros until the
buffer holds the precision's characters or 63 of them (`zeroLoop_eq`), then the `0` of `#` in
octal, and prints the buffer backwards. Read backwards, the buffer is the standard's digits
(`integerBuffer_reverse`), and the output is the standard's rendering
(`formatInteger_eq_standardInteger`) where four things hold:

* the precision is below 63, so that the buffer's end does not cut the zeros short;
* `'` comes without a precision: the loop counts the commas among the precision's characters;
* `'` does not come with `#` in octal: the `0` of `#` is written after the grouping and never
  takes a comma, so `%#'o` of `64` is `0100`;
* `0` comes without `-` and without a precision. `parse_conversion` cancels it in both cases,
  except where a negative `*` width sets `-` after the cancelling; `format_integer` then pads
  twice, with zeros before the digits and spaces after them (`vprintf_zero_star_d`).
-/

set_option autoImplicit false

namespace Pintos.Printf

variable (b : IntegerBase)

@[simp] theorem digit_mod (v : Nat) : b.digit (v % b.base) = b.digit v := by
  simp [IntegerBase.digit]

/-- The digit loop writes the digits of `value`, least significant first, with the commas of
`groupFrom` from the `cnt`-th digit on. By induction on the fuel, which stays above the value. -/
theorem digitLoop_eq (group : Bool) :
    ∀ (fuel value cnt : Nat) (buf : List UInt8), value ≤ fuel →
      digitLoop b group fuel value cnt buf =
        buf ++ (if group then groupFrom b.group cnt ((Nat.digits b.base value).map b.digit)
          else (Nat.digits b.base value).map b.digit)
  | 0, value, cnt, buf, h => by
    obtain rfl : value = 0 := by omega
    cases group <;> simp [digitLoop, groupFrom]
  | fuel + 1, value, cnt, buf, h => by
    by_cases hv : 0 < value
    · have hdiv : value / b.base < value := Nat.div_lt_self hv b.one_lt_base
      rw [digitLoop, if_pos hv, digitLoop_eq group fuel _ (cnt + 1) _ (by omega),
        Nat.digits_def' b.one_lt_base hv]
      cases group with
      | false => simp
      | true =>
        simp only [if_true, List.map_cons, digit_mod, groupFrom, Bool.true_and, Bool.and_eq_true,
          decide_eq_true_eq]
        split <;> simp
    · obtain rfl : value = 0 := by omega
      cases group <;> simp [digitLoop, groupFrom]

/-- Up to 63 characters of precision, the zero loop fills the buffer up to the precision. -/
theorem zeroLoop_eq {p : Int} (hp : p ≤ 63) :
    ∀ (fuel : Nat) (buf : List UInt8), (p - buf.length).toNat ≤ fuel →
      zeroLoop p fuel buf = buf ++ List.replicate (p - buf.length).toNat 48
  | 0, buf, h => by
    rw [zeroLoop, Nat.le_zero.mp h, List.replicate_zero, List.append_nil]
  | fuel + 1, buf, h => by
    by_cases hlt : (buf.length : Int) < p
    · have hk : (p - buf.length).toNat = (p - (buf.length + 1 : Nat)).toNat + 1 := by omega
      rw [zeroLoop, if_pos ⟨hlt, by omega⟩,
        zeroLoop_eq hp fuel _ (by rw [List.length_append, List.length_singleton]; omega),
        List.length_append, List.length_singleton, hk, List.replicate_succ, List.append_assoc,
        List.singleton_append]
    · have hk : (p - buf.length).toNat = 0 := by omega
      rw [zeroLoop, if_neg (fun h => hlt h.1), hk, List.replicate_zero, List.append_nil]

/-- The grouped digits of a value above zero are never empty. -/
theorem groupFrom_ne_nil {ds : List UInt8} (hds : ds ≠ []) (g i : Nat) : groupFrom g i ds ≠ [] := by
  obtain ⟨d, ds, rfl⟩ := List.exists_cons_of_ne_nil hds
  rw [groupFrom]
  split <;> simp

/-- Without grouping, the digits and the zeros of the precision, read backwards, are the
standard's digits at the precision. -/
theorem zeroLoop_digits_reverse {value prec : Nat} (hprec : prec ≤ 63) :
    (zeroLoop (prec : Int) 64 ((Nat.digits b.base value).map b.digit)).reverse =
      precisionDigits b prec value := by
  rw [zeroLoop_eq (by omega) 64 _ (by omega), precisionDigits, List.reverse_append,
    List.reverse_replicate, List.map_reverse, List.length_reverse, List.length_map]
  congr 2
  omega

variable {b} {c : PrintfConversion}

/-- Read backwards, the buffer of `format_integer` is the standard's digits. -/
theorem integerBuffer_reverse (value : Nat) (hprec : c.precision < 63)
    (hgroup : c.flags.group → c.precision < 0) (hoct : c.flags.group → c.flags.pound → b.base ≠ 8) :
    (integerBuffer value b c).reverse = standardDigits value b c := by
  have hloop := digitLoop_eq b c.flags.group value value 0 [] le_rfl
  rw [List.nil_append] at hloop
  dsimp only [integerBuffer, standardDigits]
  rw [hloop]
  cases hg : c.flags.group with
  | true =>
    -- grouping comes without a precision and without the `0` of `#` in octal
    have hp := hgroup hg
    have hnot : ∀ X : Bool, (c.flags.pound && decide (b.base = 8) && X) = false := by
      intro X
      cases hpd : c.flags.pound
      · rfl
      · simp [hoct hg hpd]
    simp only [if_pos hp, if_true, hnot, Bool.false_eq_true, if_false]
    rcases Nat.eq_zero_or_pos value with rfl | hv
    · simp [zeroLoop, groupFrom, precisionDigits, groupDigits]
    · have hdigits : Nat.digits b.base value ≠ [] := Nat.digits_ne_nil_iff_ne_zero.mpr (by omega)
      have hlen : 1 ≤ (groupFrom b.group 0 ((Nat.digits b.base value).map b.digit)).length :=
        List.length_pos_iff.mpr (groupFrom_ne_nil (by simpa using hdigits) b.group 0)
      have hdlen : 1 ≤ (Nat.digits b.base value).length := List.length_pos_iff.mpr hdigits
      rw [zeroLoop_eq (by omega) 64 _ (by omega), show ((1 : Int) - _).toNat = 0 by omega,
        List.replicate_zero, List.append_nil, groupDigits, precisionDigits]
      simp only [List.length_map, List.length_reverse, Nat.sub_eq_zero_of_le hdlen,
        List.replicate_zero, List.nil_append, List.map_reverse, List.reverse_reverse]
  | false =>
    simp only [Bool.false_eq_true, if_false]
    -- the precision as `format_integer` and as the standard read it
    obtain ⟨prec, hprec', hp, hp'⟩ : ∃ prec : Nat, prec ≤ 63 ∧
        (if c.precision < 0 then (1 : Int) else c.precision) = prec ∧
        (if c.precision < 0 then 1 else c.precision.toNat) = prec := by
      by_cases h : c.precision < 0
      · exact ⟨1, by omega, by simp [h]⟩
      · exact ⟨c.precision.toNat, by omega, by simp [h]; omega, by simp [h]⟩
    rw [hp, hp', ← zeroLoop_digits_reverse b hprec', List.head?_reverse]
    split
    · rw [List.reverse_append]
      rfl
    · rfl

/-- The sign character, as the list of what is printed. -/
theorem signChar_eq (isSigned negative : Bool) (flags : Flags) :
    (if signChar isSigned negative flags ≠ 0 then [signChar isSigned negative flags] else []) =
      standardSign isSigned negative flags := by
  obtain ⟨minus, plus, space, pound, zero, group⟩ := flags
  unfold signChar standardSign
  cases isSigned <;> cases negative <;> cases plus <;> cases space <;> rfl

/-- The `0x` of `#`, printed for a nonzero value in a base that has an `x`. -/
theorem prefixX_eq (value : Nat) (pound : Bool) (x : UInt8) :
    (if (if pound && value ≠ 0 then x else 0) ≠ 0 then [48, if pound && value ≠ 0 then x else 0]
      else []) = if pound && value ≠ 0 && x ≠ 0 then [48, x] else [] := by
  by_cases hp : pound = true <;> by_cases hv : value = 0 <;> simp [hp, hv]

/-- `format_integer` prints the standard's rendering of the conversion, where the precision is
below 63, `'` comes without a precision and without `#` in octal, and `0` without `-` and
without a precision. -/
theorem formatInteger_eq_standardInteger (value : Nat) (isSigned negative : Bool)
    (hprec : c.precision < 63) (hgroup : c.flags.group → c.precision < 0)
    (hoct : c.flags.group → c.flags.pound → b.base ≠ 8)
    (hzero : c.flags.zero → c.flags.minus = false ∧ c.precision < 0) :
    formatInteger value isSigned negative b c = standardInteger value isSigned negative b c := by
  have hbuf := integerBuffer_reverse value hprec hgroup hoct
  have hlen : (integerBuffer value b c).length = (standardDigits value b c).length := by
    rw [← hbuf, List.length_reverse]
  dsimp only [formatInteger, standardInteger]
  rw [hbuf, hlen, ← signChar_eq, ← prefixX_eq]
  generalize standardDigits value b c = D
  generalize signChar isSigned negative c.flags = S
  generalize (if c.flags.pound && value ≠ 0 then b.x else 0) = X
  -- the padding: what is left of the width after the sign, the `0x` and the digits
  have hpad : (if ((c.width - D.length - if X ≠ 0 then 2 else 0) - if S ≠ 0 then 1 else 0) < 0
      then 0 else ((c.width - D.length - if X ≠ 0 then 2 else 0) - if S ≠ 0 then 1 else 0).toNat) =
      c.width.toNat - (((if S ≠ 0 then [S] else []) ++ if X ≠ 0 then [48, X] else []).length +
        D.length) := by
    split_ifs <;> simp <;> omega
  rw [hpad]
  generalize c.width.toNat - _ = pad
  unfold outputDup
  -- the three placements of the padding
  cases hm : c.flags.minus with
  | true =>
    have hz : c.flags.zero = false := by
      cases h : c.flags.zero
      · rfl
      · rw [(hzero h).1] at hm; cases hm
    simp [hz]
  | false =>
    cases hz : c.flags.zero with
    | true => simp [(hzero hz).2]
    | false => simp

/-- `%#010x` of `255`. -/
theorem formatInteger_eq_standardInteger_hex :
    formatInteger 255 false false baseX ⟨{ pound := true, zero := true }, 10, -1, .int⟩ =
      standardInteger 255 false false baseX ⟨{ pound := true, zero := true }, 10, -1, .int⟩ :=
  formatInteger_eq_standardInteger 255 false false (by decide) (by decide) (by decide) (by decide)

end Pintos.Printf
