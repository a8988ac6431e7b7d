import Mathlib.Data.List.GetD

/-!
# Bitmaps

`lib/kernel/bitmap.c`. A bitmap is the list of its `bit_cnt` bits; `bitmap_test` past the
end reads `false`, and `bitmap_set` past the end changes nothing (the source asserts the
index is in range, and every caller here keeps it so).

* `bitmap_contains (b, start, cnt, value)` (bitmap.c:251-263) asks whether any of the `cnt`
  bits from `start` is `value`.
* `bitmap_scan (b, start, cnt, value)` (bitmap.c:296-310) tries `i = start, start + 1, ...`
  up to `bit_cnt - cnt` and returns the first `i` whose `cnt` bits contain no `!value`;
  `BITMAP_ERROR` is `none`. For `cnt = 0` that is `start`.
* `bitmap_scan_and_flip` (bitmap.c:320-326) then sets those bits to `!value`.
* `bitmap_file_size` (bitmap.c:333-336) is the bytes of the `unsigned long` words that hold
  the bits.

Every bit outside the run that `bitmap_set_multiple` sets keeps its value, and the run
itself gets the value (`bitmapTest_bitmapSetMultiple`); a run that `bitmap_scan` returns fits in
the bitmap and holds only `value` (`bitmapScan_spec`).
-/

set_option autoImplicit false

namespace Pintos.Bitmap

/-- `bitmap_create (bit_cnt)`: every bit `false`. -/
def bitmapCreate (bitCnt : Nat) : List Bool := List.replicate bitCnt false

def bitmapTest (b : List Bool) (idx : Nat) : Bool := b.getD idx false

/-- `bitmap_mark`. -/
def bitmapMark (b : List Bool) (idx : Nat) : List Bool := b.set idx true

def bitmapSetMultiple (b : List Bool) (start cnt : Nat) (value : Bool) : List Bool :=
  (List.range cnt).foldl (fun b i => b.set (start + i) value) b

def bitmapContains (b : List Bool) (start cnt : Nat) (value : Bool) : Bool :=
  (List.range cnt).any fun i => bitmapTest b (start + i) == value

/-- `bitmap_all (b, start, cnt)`: every bit of the run is set. -/
def bitmapAll (b : List Bool) (start cnt : Nat) : Bool := !bitmapContains b start cnt false

def bitmapScan (b : List Bool) (start cnt : Nat) (value : Bool) : Option Nat :=
  if cnt ≤ b.length then
    -- `for (i = start; i <= last; i++)` with `last = bit_cnt - cnt`
    ((List.range (b.length - cnt + 1 - start)).map (start + ·)).find? fun i =>
      !bitmapContains b i cnt (!value)
  else none

def bitmapScanAndFlip (b : List Bool) (start cnt : Nat) (value : Bool) :
    List Bool × Option Nat :=
  match bitmapScan b start cnt value with
  | some idx => (bitmapSetMultiple b idx cnt (!value), some idx)
  | none => (b, none)

/-- `bitmap_file_size`: `sizeof (unsigned long)` bytes for every 32 bits. -/
def bitmapFileSize (b : List Bool) : Nat := 4 * ((b.length + 31) / 32)

@[simp] theorem length_bitmapMark (b : List Bool) (idx : Nat) :
    (bitmapMark b idx).length = b.length := List.length_set

@[simp] theorem length_bitmapSetMultiple (b : List Bool) (start cnt : Nat) (value : Bool) :
    (bitmapSetMultiple b start cnt value).length = b.length := by
  unfold bitmapSetMultiple
  induction (List.range cnt) generalizing b with
  | nil => rfl
  | cons i is ih => rw [List.foldl_cons, ih, List.length_set]

theorem bitmapTest_set (b : List Bool) (i j : Nat) (value : Bool) :
    bitmapTest (b.set i value) j = if i = j ∧ j < b.length then value else bitmapTest b j := by
  unfold bitmapTest
  by_cases hij : i = j
  · subst hij
    by_cases hi : i < b.length
    · simp [hi]
    · simp [hi, List.getD_eq_getElem?_getD]
  · simp [hij, List.getD_eq_getElem?_getD, List.getElem?_set_ne hij]

/-- The bits of the run get the value; the others keep theirs. -/
theorem bitmapTest_bitmapSetMultiple (b : List Bool) (start cnt : Nat) (value : Bool) (j : Nat) :
    bitmapTest (bitmapSetMultiple b start cnt value) j =
      if start ≤ j ∧ j < start + cnt ∧ j < b.length then value else bitmapTest b j := by
  unfold bitmapSetMultiple
  -- the loop over `i < cnt`, generalized to any list of offsets
  suffices h : ∀ (is : List Nat) (b : List Bool),
      bitmapTest (is.foldl (fun b i => b.set (start + i) value) b) j =
        if (∃ i ∈ is, start + i = j) ∧ j < b.length then value else bitmapTest b j by
    rw [h]
    congr 1
    simp only [List.mem_range, eq_iff_iff]
    constructor
    · rintro ⟨⟨i, hi, rfl⟩, hj⟩
      exact ⟨by omega, by omega, hj⟩
    · rintro ⟨h1, h2, hj⟩
      exact ⟨⟨j - start, by omega, by omega⟩, hj⟩
  intro is
  induction is with
  | nil => intro b; simp
  | cons i is ih =>
      intro b
      rw [List.foldl_cons, ih, List.length_set, bitmapTest_set]
      by_cases hij : start + i = j <;> by_cases hj : j < b.length <;> simp [hij, hj]

theorem bitmapContains_eq_false {b : List Bool} {start cnt : Nat} {value : Bool} :
    bitmapContains b start cnt value = false ↔ ∀ i < cnt, bitmapTest b (start + i) = !value := by
  cases value <;> simp [bitmapContains]

/-- A run `bitmap_scan` returns lies inside the bitmap, starts at or after `start`, and holds
only `value`. -/
theorem bitmapScan_spec {b : List Bool} {start cnt : Nat} {value : Bool} {idx : Nat}
    (h : bitmapScan b start cnt value = some idx) :
    start ≤ idx ∧ idx + cnt ≤ b.length ∧ ∀ i < cnt, bitmapTest b (idx + i) = value := by
  unfold bitmapScan at h
  split at h
  · have hfound := List.find?_some h
    obtain ⟨k, hk, rfl⟩ := List.mem_map.mp (List.mem_of_find?_eq_some h)
    rw [List.mem_range] at hk
    refine ⟨Nat.le_add_right _ _, by omega, ?_⟩
    have hc : bitmapContains b (start + k) cnt (!value) = false := by simpa using hfound
    intro i hi
    simpa using bitmapContains_eq_false.mp hc i hi
  · cases h

end Pintos.Bitmap
