import Pintos.Model.Stdlib
import Pintos.Lib.Digits

/-!
# `atoi` reads every signed decimal that `int` holds, `INT_MIN` included

A string of the form `w* [+|-]? d+ r`, with `w` white space, `d` decimal digits and `r`
empty or starting with a byte that is not a digit, stands for the signed value of its
digits (`signedValue`). When that value is an `int`, `atoi` returns it
(`atoi_signed_decimal`), and no operation on the way leaves the range of `int`.

The digit loop keeps minus the value of the digits read so far. That is at most the
final value in magnitude (`Digits.mul_pow_le_readDigits`), so every partial value, and
ten times it, lies between minus the final magnitude and 0 (`parseDigits_digits`). A
negative result of magnitude `2^31` is `INT_MIN` itself; a non-negative one is at most
`INT_MAX`, and the final negation keeps it an `int`.
-/

set_option autoImplicit false

namespace Pintos.Stdlib

/-- The value of a string of decimal digit characters. -/
def decimalValue (ds : List UInt8) : Nat := Digits.readDigits 10 0 (ds.map (·.toNat - 48))

/-- The value of an optional sign followed by decimal digits. -/
def signedValue (sign ds : List UInt8) : Int :=
  if sign = [45] then -(decimalValue ds : Int) else decimalValue ds

theorem isdigit_iff (c : UInt8) : isdigit c = true ↔ 48 ≤ c.toNat ∧ c.toNat ≤ 57 := by
  simp [isdigit, UInt8.le_iff_toNat_le]

/-- A digit is neither white space nor a sign. -/
theorem isdigit_not_space_sign (c : UInt8) (h : isdigit c = true) :
    isspace c = false ∧ c ≠ 43 ∧ c ≠ 45 := by
  have hc := (isdigit_iff c).mp h
  -- every byte `isspace` tests, and both signs, lie below `'0'`
  have hne : ∀ k : UInt8, k.toNat < 48 → c ≠ k := by
    rintro k hk rfl
    omega
  refine ⟨?_, hne 43 (by decide), hne 45 (by decide)⟩
  simp [isspace, hne 32 (by decide), hne 12 (by decide), hne 10 (by decide),
    hne 13 (by decide), hne 9 (by decide), hne 11 (by decide)]

theorem intOp_of_le {x : Int} (hlo : INT_MIN ≤ x) (hhi : x ≤ INT_MAX) : intOp x = some x :=
  if_pos ⟨hlo, hhi⟩

/-- White space, then a string that does not start with white space: the scan stops where
the white space ends. -/
theorem skipSpace_append (ws rest : List UInt8) (hws : ∀ c ∈ ws, isspace c = true)
    (hrest : ∀ c ∈ rest.head?, isspace c = false) : skipSpace (ws ++ rest) = rest := by
  induction ws with
  | nil =>
      cases rest with
      | nil => rfl
      | cons c s =>
          have hc : isspace c = false := hrest c rfl
          simp [skipSpace, hc]
  | cons w ws ih =>
      have hw : isspace w = true := hws w (List.mem_cons_self)
      rw [List.cons_append, skipSpace, if_pos hw]
      exact ih fun c hc => hws c (List.mem_cons_of_mem w hc)

/-- The digit loop from minus `acc`, over digits whose value from `acc` is at most `2^31`:
every partial value is an `int`, and the loop ends, where the digits end, at minus their
value. By induction on the digits; the bound on each step comes from the final value. -/
theorem parseDigits_digits (r : List UInt8) (hr : ∀ c ∈ r.head?, isdigit c = false)
    (ds : List UInt8) (hdig : ∀ c ∈ ds, isdigit c = true) :
    ∀ acc : Nat, Digits.readDigits 10 acc (ds.map (·.toNat - 48)) ≤ 2 ^ 31 →
      parseDigits (-(acc : Int)) (ds ++ r) =
        some (-(Digits.readDigits 10 acc (ds.map (·.toNat - 48)) : Int)) := by
  induction ds with
  | nil =>
      intro acc _
      cases r with
      | nil => rfl
      | cons c s =>
          have hc : isdigit c = false := hr c rfl
          simp [parseDigits, hc, Digits.readDigits_nil]
  | cons c ds ih =>
      intro acc hbound
      have hc := (isdigit_iff c).mp (hdig c List.mem_cons_self)
      rw [List.map_cons, Digits.readDigits_cons] at hbound ⊢
      -- the value after this digit is at most the final one
      have hstep : c.toNat - 48 + acc * 10 ≤ 2 ^ 31 := by
        have hle := Digits.mul_pow_le_readDigits 10 (c.toNat - 48 + acc * 10)
          (ds.map (·.toNat - 48))
        have hpow : 1 ≤ 10 ^ (ds.map (·.toNat - 48)).length := Nat.one_le_pow _ _ (by decide)
        have hmul := Nat.le_mul_of_pos_right (c.toNat - 48 + acc * 10) hpow
        omega
      have hmul : intOp (-(acc : Int) * 10) = some (-(acc : Int) * 10) :=
        intOp_of_le (by simp only [INT_MIN]; omega) (by simp only [INT_MAX]; omega)
      have hsub : intOp (-(acc : Int) * 10 - ((c.toNat : Int) - 48)) =
          some (-((c.toNat - 48 + acc * 10 : Nat) : Int)) := by
        rw [intOp_of_le (by simp only [INT_MIN]; omega) (by simp only [INT_MAX]; omega)]
        congr 1
        omega
      rw [List.cons_append, parseDigits, if_pos (hdig c List.mem_cons_self)]
      simp only [Option.bind_eq_bind, hmul, Option.bind_some, hsub]
      exact ih (fun d hd => hdig d (List.mem_cons_of_mem c hd)) _ hbound

theorem atoi_signed_decimal (ws sign ds r : List UInt8) (hws : ∀ c ∈ ws, isspace c = true)
    (hsign : sign = [] ∨ sign = [43] ∨ sign = [45]) (hne : ds ≠ [])
    (hdig : ∀ c ∈ ds, isdigit c = true) (hr : ∀ c ∈ r.head?, isdigit c = false)
    (hlo : INT_MIN ≤ signedValue sign ds) (hhi : signedValue sign ds ≤ INT_MAX) :
    atoi (ws ++ sign ++ ds ++ r) = some (signedValue sign ds) := by
  obtain ⟨d, ds', rfl⟩ := List.exists_cons_of_ne_nil hne
  obtain ⟨hdspace, hd43, hd45⟩ := isdigit_not_space_sign d (hdig d List.mem_cons_self)
  have hdigits := parseDigits_digits r hr (d :: ds') hdig 0
  simp only [Nat.cast_zero, neg_zero] at hdigits
  -- the first byte after the white space is the sign or a digit
  have hstart : ∀ c ∈ (sign ++ (d :: ds' ++ r)).head?, isspace c = false := by
    rcases hsign with rfl | rfl | rfl
    · simpa using hdspace
    · simp only [List.singleton_append, List.head?_cons, Option.mem_def, Option.some.injEq]
      rintro c rfl
      decide
    · simp only [List.singleton_append, List.head?_cons, Option.mem_def, Option.some.injEq]
      rintro c rfl
      decide
  unfold atoi
  rw [List.append_assoc, List.append_assoc, skipSpace_append ws _ hws hstart]
  unfold signedValue decimalValue at hlo hhi ⊢
  rcases hsign with rfl | rfl | rfl
  · -- no sign: the loop's value is negated back
    have hsgn : parseSign ([] ++ (d :: ds' ++ r)) = (false, d :: ds' ++ r) := by
      rw [List.nil_append, List.cons_append, parseSign, if_neg hd43, if_neg hd45]
    rw [if_neg (by simp)] at hlo hhi ⊢
    simp only [INT_MAX] at hhi
    rw [hsgn]
    dsimp only
    rw [hdigits (by omega)]
    dsimp only
    rw [if_neg Bool.false_ne_true, neg_neg]
    exact intOp_of_le (by simp only [INT_MIN]; omega) (by simp only [INT_MAX]; omega)
  · -- `'+'`: as with no sign
    have hsgn : parseSign ([43] ++ (d :: ds' ++ r)) = (false, d :: ds' ++ r) := by
      rw [List.singleton_append, parseSign, if_pos rfl]
    rw [if_neg (by decide)] at hlo hhi ⊢
    simp only [INT_MAX] at hhi
    rw [hsgn]
    dsimp only
    rw [hdigits (by omega)]
    dsimp only
    rw [if_neg Bool.false_ne_true, neg_neg]
    exact intOp_of_le (by simp only [INT_MIN]; omega) (by simp only [INT_MAX]; omega)
  · -- `'-'`: the loop's value is the result, down to `INT_MIN`
    have hsgn : parseSign ([45] ++ (d :: ds' ++ r)) = (true, d :: ds' ++ r) := by
      rw [List.singleton_append, parseSign, if_neg (by decide), if_pos rfl]
    rw [if_pos rfl] at hlo ⊢
    simp only [INT_MIN] at hlo
    rw [hsgn]
    dsimp only
    rw [hdigits (by omega)]
    rfl

/-- `"-2147483648"`: `INT_MIN` itself. -/
theorem atoi_int_min :
    (∀ c ∈ ([] : List UInt8), isspace c = true) ∧ ([45] : List UInt8) = [45] ∧
      (∀ c ∈ [50, 49, 52, 55, 52, 56, 51, 54, 52, 56], isdigit c = true) ∧
      atoi ([] ++ [45] ++ [50, 49, 52, 55, 52, 56, 51, 54, 52, 56] ++ []) =
        some (signedValue [45] [50, 49, 52, 55, 52, 56, 51, 54, 52, 56]) ∧
      signedValue [45] [50, 49, 52, 55, 52, 56, 51, 54, 52, 56] = INT_MIN :=
  by
  have hdig : ∀ c ∈ ([50, 49, 52, 55, 52, 56, 51, 54, 52, 56] : List UInt8), isdigit c = true := by
    simp only [List.forall_mem_cons, List.not_mem_nil, IsEmpty.forall_iff, implies_true, and_true]
    decide
  exact ⟨by simp, rfl, hdig,
    atoi_signed_decimal [] [45] [50, 49, 52, 55, 52, 56, 51, 54, 52, 56] [] (by simp)
      (Or.inr (Or.inr rfl)) (by simp) hdig (by simp) (by decide) (by decide),
    by decide⟩

end Pintos.Stdlib
