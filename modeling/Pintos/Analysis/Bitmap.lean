import Pintos.Model.Bitmap
import Pintos.Model.BitmapWords
import Pintos.Lib.WordBits
import Mathlib.Data.List.Find

/-!
# Bitmaps: first fit, over words that behave as an array of bits

Two results about `lib/kernel/bitmap.c`.

* Over the list of bits, `bitmap_scan` is a first-fit search: it returns the least `i` at
  or after `start` whose `cnt` bits lie inside the bitmap and all equal `value`, and
  `BITMAP_ERROR` when there is none (`bitmapScan_eq_some_iff`, `bitmapScan_eq_none_iff`).
* Over the words, `bitmap_set` changes the one bit it addresses through `elem_idx` and
  `bit_mask` (`bitmapTest_bitmapSet`), so reading the bits with `bitmap_test` maps every
  operation of the word model to the list model (`bools_bitmapSet`,
  `bools_bitmapSetMultiple`, `bitmapScan_eq`): the word model refines the list model, and
  first fit carries over to it.
-/

set_option autoImplicit false

namespace Pintos.Bitmap

/-- A run of `cnt` bits from `i`, inside the bitmap and all `value`. -/
def Fits (b : List Bool) (cnt : Nat) (value : Bool) (i : Nat) : Prop :=
  i + cnt ≤ b.length ∧ ∀ k < cnt, bitmapTest b (i + k) = value

/-- The first `i` in `start, start + 1, ..., start + n - 1` that passes `p`. -/
theorem find?_range_eq_some_iff (p : Nat → Bool) (start n i : Nat) :
    ((List.range n).map (start + ·)).find? p = some i ↔
      start ≤ i ∧ i < start + n ∧ p i ∧ ∀ j, start ≤ j → j < i → p j = false := by
  rw [List.find?_eq_some_iff_getElem]
  constructor
  · rintro ⟨hp, idx, hidx, rfl, hbefore⟩
    simp only [List.length_map, List.length_range] at hidx
    simp only [List.getElem_map, List.getElem_range] at hp hbefore ⊢
    refine ⟨by omega, by omega, hp, fun j hj hji => ?_⟩
    have h := hbefore (j - start) (by omega)
    rwa [show start + (j - start) = j by omega, Bool.not_eq_true'] at h
  · rintro ⟨h1, h2, hp, hbefore⟩
    refine ⟨hp, i - start, by simp; omega, by simp; omega, fun j hj => ?_⟩
    simp only [List.getElem_map, List.getElem_range, Bool.not_eq_true']
    exact hbefore _ (by omega) (by omega)

theorem find?_range_eq_none_iff (p : Nat → Bool) (start n : Nat) :
    ((List.range n).map (start + ·)).find? p = none ↔
      ∀ j, start ≤ j → j < start + n → p j = false := by
  rw [List.find?_eq_none]
  simp only [List.mem_map, List.mem_range, Bool.not_eq_true]
  constructor
  · intro h j hj hjn
    exact h j ⟨j - start, by omega, by omega⟩
  · rintro h _ ⟨k, hk, rfl⟩
    exact h _ (by omega) (by omega)

/-- The window test of `bitmap_scan`: no bit of the window is `!value`. -/
theorem window_iff (b : List Bool) (i cnt : Nat) (value : Bool) :
    (!bitmapContains b i cnt (!value)) = true ↔ ∀ k < cnt, bitmapTest b (i + k) = value := by
  rw [Bool.not_eq_true', bitmapContains_eq_false, Bool.not_not]

/-- `bitmap_scan` returns the least fitting start at or after `start`. -/
theorem bitmapScan_eq_some_iff (b : List Bool) (start cnt : Nat) (value : Bool) (i : Nat) :
    bitmapScan b start cnt value = some i ↔
      start ≤ i ∧ Fits b cnt value i ∧ ∀ j, start ≤ j → j < i → ¬ Fits b cnt value j := by
  unfold bitmapScan
  by_cases hc : cnt ≤ b.length
  · rw [if_pos hc, find?_range_eq_some_iff, window_iff]
    -- the loop bound `i <= bit_cnt - cnt` is the window fitting in the bitmap
    constructor
    · rintro ⟨h1, h2, hw, hbefore⟩
      refine ⟨h1, ⟨by omega, hw⟩, fun j hj hji hfit => ?_⟩
      have := hbefore j hj hji
      rw [Bool.eq_false_iff, ne_eq, window_iff] at this
      exact this hfit.2
    · rintro ⟨h1, ⟨hlen, hw⟩, hbefore⟩
      refine ⟨h1, by omega, hw, fun j hj hji => ?_⟩
      rw [Bool.eq_false_iff, ne_eq, window_iff]
      exact fun hw' => hbefore j hj hji ⟨by omega, hw'⟩
  · -- a window longer than the bitmap fits nowhere
    simp only [if_neg hc, reduceCtorEq, false_iff, not_and]
    intro _ hfit
    exact absurd hfit.1 (by omega)

/-- `bitmap_scan` returns `BITMAP_ERROR` exactly when nothing fits at or after `start`. -/
theorem bitmapScan_eq_none_iff (b : List Bool) (start cnt : Nat) (value : Bool) :
    bitmapScan b start cnt value = none ↔ ∀ j, start ≤ j → ¬ Fits b cnt value j := by
  unfold bitmapScan
  by_cases hc : cnt ≤ b.length
  · rw [if_pos hc, find?_range_eq_none_iff]
    constructor
    · intro h j hj hfit
      have := h j hj (by have := hfit.1; omega)
      rw [Bool.eq_false_iff, ne_eq, window_iff] at this
      exact this hfit.2
    · intro h j hj hjn
      rw [Bool.eq_false_iff, ne_eq, window_iff]
      exact fun hw => h j hj ⟨by omega, hw⟩
  · simp only [if_neg hc, true_iff]
    intro j _ hfit
    exact absurd hfit.1 (by omega)

end Pintos.Bitmap

namespace Pintos.BitmapWords

/-! ## One bit of the words -/

section Words

variable (b : Bitmap)

theorem elemIdx_lt_length {i : Nat} (hi : i < b.bitCnt) : elemIdx i < b.bits.length := by
  rw [b.length_bits]
  simp only [elemIdx, elemCnt, ELEM_BITS]
  omega

theorem bitmapTest_eq_getLsbD (i : Nat) :
    bitmapTest b i = (b.bits.getD (elemIdx i) 0).toBitVec.getLsbD (i % 32) :=
  WordBits.and_one_shiftLeft_ne_zero _ (Nat.mod_lt _ (by decide))

theorem getD_modifyElem {idx : Nat} (f : UInt32 → UInt32) (hidx : idx < b.bits.length)
    (j : Nat) :
    (b.modifyElem idx f).bits.getD j 0 =
      if idx = j then f (b.bits.getD j 0) else b.bits.getD j 0 := by
  simp only [Bitmap.modifyElem, List.getD_eq_getElem?_getD, List.getElem?_modify]
  by_cases hj : j < b.bits.length
  · rw [List.getElem?_eq_getElem hj]
    split <;> rfl
  · rw [List.getElem?_eq_none (by omega), if_neg (by omega)]
    rfl

@[simp] theorem bitCnt_bitmapSet (idx : Nat) (value : Bool) :
    (bitmapSet b idx value).bitCnt = b.bitCnt := by
  unfold bitmapSet
  split <;> rfl

/-- `bitmap_set` changes the bit it addresses and no other: the words behave as an array of
`bit_cnt` booleans. -/
theorem bitmapTest_bitmapSet {idx : Nat} (hidx : idx < b.bitCnt) (value : Bool) (j : Nat) :
    bitmapTest (bitmapSet b idx value) j = if idx = j then value else bitmapTest b j := by
  have hlen := elemIdx_lt_length b hidx
  have hk : idx % 32 < 32 := Nat.mod_lt _ (by decide)
  have hj : j % 32 < 32 := Nat.mod_lt _ (by decide)
  rw [bitmapTest_eq_getLsbD, bitmapTest_eq_getLsbD]
  by_cases hw : elemIdx idx = elemIdx j
  · -- the same word: bit `idx % 32` is set or cleared, bit `j % 32` read
    have hij : idx = j ↔ idx % 32 = j % 32 := by
      simp only [elemIdx, ELEM_BITS] at hw
      omega
    cases value
    · simp only [bitmapSet, bitmapReset, Bool.false_eq_true, if_false,
        getD_modifyElem _ _ hlen, if_pos hw, bitMask, ELEM_BITS]
      rw [WordBits.getLsbD_and_not_one_shiftLeft _ hk hj]
      by_cases h : idx = j <;> simp [h, hij.not.mp]
    · simp only [bitmapSet, bitmapMark, if_true, getD_modifyElem _ _ hlen, if_pos hw,
        bitMask, ELEM_BITS]
      rw [WordBits.getLsbD_or_one_shiftLeft _ hk]
      by_cases h : idx = j <;> simp [h, hij.not.mp]
  · -- another word, untouched
    have hne : idx ≠ j := fun h => hw (h ▸ rfl)
    rw [if_neg hne]
    cases value <;> simp only [bitmapSet, bitmapMark, bitmapReset, Bool.false_eq_true,
      if_true, if_false, getD_modifyElem _ _ hlen, if_neg hw]

end Words

/-! ## The words refine the list of bits -/

/-- The bits of a bitmap as `bitmap_test` reads them. -/
def Bitmap.bools (b : Bitmap) : List Bool :=
  (List.range b.bitCnt).map (bitmapTest b)

/-- A run of `cnt` bits from `i`, inside the bitmap and all `value`. -/
def Fits (b : Bitmap) (cnt : Nat) (value : Bool) (i : Nat) : Prop :=
  i + cnt ≤ b.bitCnt ∧ ∀ k < cnt, bitmapTest b (i + k) = value

section Refinement

variable (b : Bitmap)

@[simp] theorem length_bools : b.bools.length = b.bitCnt := by
  simp [Bitmap.bools]

theorem bitmapTest_bools {i : Nat} (hi : i < b.bitCnt) :
    Pintos.Bitmap.bitmapTest b.bools i = bitmapTest b i := by
  simp [Pintos.Bitmap.bitmapTest, Bitmap.bools, List.getD_eq_getElem?_getD, hi]

theorem bools_bitmapSet {idx : Nat} (hidx : idx < b.bitCnt) (value : Bool) :
    (bitmapSet b idx value).bools = b.bools.set idx value := by
  apply List.ext_getElem (by simp)
  intro n h1 _
  simp only [Bitmap.bools, List.getElem_map, List.getElem_range, List.getElem_set]
  rw [bitmapTest_bitmapSet b hidx]

theorem bools_bitmapSetMultiple {start cnt : Nat} (h : start + cnt ≤ b.bitCnt) (value : Bool) :
    (bitmapSetMultiple b start cnt value).bools =
      Pintos.Bitmap.bitmapSetMultiple b.bools start cnt value := by
  unfold bitmapSetMultiple Pintos.Bitmap.bitmapSetMultiple
  -- the loop over the offsets, generalised to any offsets that stay inside the bitmap
  suffices hloop : ∀ (is : List Nat) (b : Bitmap), (∀ i ∈ is, start + i < b.bitCnt) →
      (is.foldl (fun b i => bitmapSet b (start + i) value) b).bools =
        is.foldl (fun l i => l.set (start + i) value) b.bools from
    hloop _ b (fun i hi => by rw [List.mem_range] at hi; omega)
  intro is
  induction is with
  | nil => intro b _; rfl
  | cons i is ih =>
      intro b hin
      rw [List.foldl_cons, List.foldl_cons, ← bools_bitmapSet b (hin i (by simp))]
      exact ih _ fun i' hi' => by
        rw [bitCnt_bitmapSet]
        exact hin i' (List.mem_cons_of_mem i hi')

theorem bitCnt_bitmapSetMultiple (start cnt : Nat) (value : Bool) :
    (bitmapSetMultiple b start cnt value).bitCnt = b.bitCnt := by
  unfold bitmapSetMultiple
  induction (List.range cnt) generalizing b with
  | nil => rfl
  | cons i is ih => rw [List.foldl_cons, ih, bitCnt_bitmapSet]

theorem bitmapContains_eq {start cnt : Nat} (h : start + cnt ≤ b.bitCnt) (value : Bool) :
    bitmapContains b start cnt value = Pintos.Bitmap.bitmapContains b.bools start cnt value := by
  unfold bitmapContains Pintos.Bitmap.bitmapContains
  rw [Bool.eq_iff_iff, List.any_eq_true, List.any_eq_true]
  apply exists_congr
  intro i
  constructor <;> rintro ⟨hi, hv⟩ <;> refine ⟨hi, ?_⟩ <;> rw [List.mem_range] at hi
  · rwa [bitmapTest_bools b (by omega)]
  · rwa [← bitmapTest_bools b (by omega)]

/-- The scan over the words is the scan over the bits they hold. -/
theorem bitmapScan_eq (start cnt : Nat) (value : Bool) :
    bitmapScan b start cnt value = Pintos.Bitmap.bitmapScan b.bools start cnt value := by
  unfold bitmapScan Pintos.Bitmap.bitmapScan
  rw [length_bools]
  by_cases hc : cnt ≤ b.bitCnt
  · -- every window the loop tests lies inside the bitmap
    rw [if_pos hc, if_pos hc]
    apply List.find?_congr
    intro i hi
    simp only [List.mem_map, List.mem_range] at hi
    obtain ⟨k, hk, rfl⟩ := hi
    rw [bitmapContains_eq b (by omega)]
  · rw [if_neg hc, if_neg hc]

theorem fits_bools_iff (cnt : Nat) (value : Bool) (i : Nat) :
    Pintos.Bitmap.Fits b.bools cnt value i ↔ Fits b cnt value i := by
  unfold Pintos.Bitmap.Fits Fits
  rw [length_bools]
  constructor <;> rintro ⟨hlen, hw⟩ <;> refine ⟨hlen, fun k hk => ?_⟩
  · rw [← bitmapTest_bools b (by omega)]
    exact hw k hk
  · rw [bitmapTest_bools b (by omega)]
    exact hw k hk

end Refinement

/-- Over the words: `bitmap_scan` is first fit; `bitmap_scan_and_flip` returns what the scan
returns and flips exactly the bits of the run it found; and `bitmap_set` and `bitmap_test`,
through `elem_idx` and `bit_mask`, behave as an array of `bit_cnt` booleans. -/
theorem bitmap_scan_first_fit (b : Bitmap) (start cnt : Nat) (value : Bool) :
    (∀ i, bitmapScan b start cnt value = some i ↔
        start ≤ i ∧ Fits b cnt value i ∧ ∀ j, start ≤ j → j < i → ¬ Fits b cnt value j) ∧
      (bitmapScan b start cnt value = none ↔ ∀ j, start ≤ j → ¬ Fits b cnt value j) ∧
      (bitmapScanAndFlip b start cnt value).2 = bitmapScan b start cnt value ∧
      (∀ i, bitmapScan b start cnt value = some i →
        (bitmapScanAndFlip b start cnt value).1.bitCnt = b.bitCnt ∧
        ∀ j < b.bitCnt, bitmapTest (bitmapScanAndFlip b start cnt value).1 j =
          if i ≤ j ∧ j < i + cnt then !value else bitmapTest b j) ∧
      (bitmapScan b start cnt value = none → (bitmapScanAndFlip b start cnt value).1 = b) ∧
      ∀ idx < b.bitCnt, ∀ (v : Bool) (j : Nat),
        bitmapTest (bitmapSet b idx v) j = if idx = j then v else bitmapTest b j := by
  have hsome : ∀ i, bitmapScan b start cnt value = some i ↔
      start ≤ i ∧ Fits b cnt value i ∧ ∀ j, start ≤ j → j < i → ¬ Fits b cnt value j := by
    intro i
    simp only [bitmapScan_eq, Pintos.Bitmap.bitmapScan_eq_some_iff, fits_bools_iff]
  refine ⟨hsome, ?_, ?_, ?_, ?_, fun idx hidx v j => bitmapTest_bitmapSet b hidx v j⟩
  · simp only [bitmapScan_eq, Pintos.Bitmap.bitmapScan_eq_none_iff, fits_bools_iff]
  · unfold bitmapScanAndFlip
    split <;> simp_all
  · intro i hi
    obtain ⟨-, ⟨hfit, -⟩, -⟩ := (hsome i).mp hi
    have hflip : bitmapScanAndFlip b start cnt value = (bitmapSetMultiple b i cnt (!value), some i) := by
      simp [bitmapScanAndFlip, hi]
    refine ⟨by rw [hflip, bitCnt_bitmapSetMultiple], fun j hj => ?_⟩
    -- read the flipped words through the list of bits
    have hj' : j < (bitmapSetMultiple b i cnt (!value)).bitCnt := by
      rwa [bitCnt_bitmapSetMultiple]
    rw [hflip, ← bitmapTest_bools _ hj', bools_bitmapSetMultiple b hfit,
      Pintos.Bitmap.bitmapTest_bitmapSetMultiple, bitmapTest_bools b hj, length_bools]
    by_cases hr : i ≤ j ∧ j < i + cnt
    · rw [if_pos ⟨hr.1, hr.2, hj⟩, if_pos hr]
    · rw [if_neg (fun h => hr ⟨h.1, h.2.1⟩), if_neg hr]
  · intro hn
    simp [bitmapScanAndFlip, hn]

/-- The first run of two clear bits from bit 0 of a 40-bit bitmap whose first word is
`0b1011`. -/
theorem bitmap_scan_first_fit_two_words :
    bitmapScan ⟨40, [0b1011, 0], rfl⟩ 0 2 false = some 4 ↔
      0 ≤ 4 ∧ Fits ⟨40, [0b1011, 0], rfl⟩ 2 false 4 ∧
        ∀ j, 0 ≤ j → j < 4 → ¬ Fits ⟨40, [0b1011, 0], rfl⟩ 2 false j :=
  (bitmap_scan_first_fit _ 0 2 false).1 4

end Pintos.BitmapWords
