import Mathlib.Data.List.GetD

/-!
# Bitmaps as arrays of words

`lib/kernel/bitmap.c` as it stores a bitmap: `bit_cnt` bits in the `elem_cnt (bit_cnt)`
elements of `bits`, each an `unsigned long` of `ELEM_BITS = 32` bits, bit `i` being bit
`i % ELEM_BITS` of element `i / ELEM_BITS`. Setting a bit ors in or masks out `bit_mask`
(the `orl` and `andl` of `bitmap_mark` and `bitmap_reset`), and testing a bit ands with it.

The functions above them (`bitmap_set_multiple`, `bitmap_contains`, `bitmap_scan` and
`bitmap_scan_and_flip`) are the loops of `Pintos.Bitmap` over these tests and sets. The
`ASSERT`s on indices are left out: every loop here keeps its indices below `bit_cnt`.
-/

set_option autoImplicit false

namespace Pintos.BitmapWords

/-- `ELEM_BITS`: `elem_type` is `unsigned long`, 32 bits on the target. -/
def ELEM_BITS : Nat := 32

/-- `elem_idx (bit_idx)` (bitmap.c:35-40). -/
def elemIdx (bitIdx : Nat) : Nat := bitIdx / ELEM_BITS

/-- `bit_mask (bit_idx)` (bitmap.c:42-48). -/
def bitMask (bitIdx : Nat) : UInt32 := 1 <<< (bitIdx % ELEM_BITS).toUInt32

/-- `elem_cnt (bit_cnt)`: `DIV_ROUND_UP (bit_cnt, ELEM_BITS)` (bitmap.c:50-55). -/
def elemCnt (bitCnt : Nat) : Nat := (bitCnt + ELEM_BITS - 1) / ELEM_BITS

/-- `struct bitmap`: `bit_cnt` bits in `elem_cnt (bit_cnt)` words. -/
structure Bitmap where
  bitCnt : Nat
  bits : List UInt32
  length_bits : bits.length = elemCnt bitCnt

/-- `last_mask (b)` (bitmap.c:64-70): the bits of the last element that hold bits of the
bitmap; `(elem_type) -1` when it is full. -/
def lastMask (b : Bitmap) : UInt32 :=
  let lastBits := b.bitCnt % ELEM_BITS
  if lastBits ≠ 0 then (1 <<< lastBits.toUInt32) - 1 else 0xFFFFFFFF

/-- The words with `f` applied to element `idx`. -/
def Bitmap.modifyElem (b : Bitmap) (idx : Nat) (f : UInt32 → UInt32) : Bitmap :=
  ⟨b.bitCnt, b.bits.modify idx f, by rw [List.length_modify, b.length_bits]⟩

/-- `bitmap_mark (b, bit_idx)`: `b->bits[idx] |= mask` (bitmap.c:157-168). -/
def bitmapMark (b : Bitmap) (bitIdx : Nat) : Bitmap :=
  b.modifyElem (elemIdx bitIdx) (· ||| bitMask bitIdx)

/-- `bitmap_reset (b, bit_idx)`: `b->bits[idx] &= ~mask` (bitmap.c:170-181). -/
def bitmapReset (b : Bitmap) (bitIdx : Nat) : Bitmap :=
  b.modifyElem (elemIdx bitIdx) (· &&& ~~~bitMask bitIdx)

/-- `bitmap_set (b, idx, value)` (bitmap.c:145-155). -/
def bitmapSet (b : Bitmap) (idx : Nat) (value : Bool) : Bitmap :=
  if value then bitmapMark b idx else bitmapReset b idx

/-- `bitmap_test (b, idx)` (bitmap.c:197-204). -/
def bitmapTest (b : Bitmap) (idx : Nat) : Bool :=
  (b.bits.getD (elemIdx idx) 0 &&& bitMask idx) != 0

/-- `bitmap_set_multiple (b, start, cnt, value)` (bitmap.c:217-229). -/
def bitmapSetMultiple (b : Bitmap) (start cnt : Nat) (value : Bool) : Bitmap :=
  (List.range cnt).foldl (fun b i => bitmapSet b (start + i) value) b

/-- `bitmap_contains (b, start, cnt, value)` (bitmap.c:251-263). -/
def bitmapContains (b : Bitmap) (start cnt : Nat) (value : Bool) : Bool :=
  (List.range cnt).any fun i => bitmapTest b (start + i) == value

/-- `bitmap_scan (b, start, cnt, value)` (bitmap.c:296-310); `BITMAP_ERROR` is `none`. -/
def bitmapScan (b : Bitmap) (start cnt : Nat) (value : Bool) : Option Nat :=
  if cnt ≤ b.bitCnt then
    -- `for (i = start; i <= last; i++)` with `last = bit_cnt - cnt`
    ((List.range (b.bitCnt - cnt + 1 - start)).map (start + ·)).find? fun i =>
      !bitmapContains b i cnt (!value)
  else none

/-- `bitmap_scan_and_flip (b, start, cnt, value)` (bitmap.c:320-326). -/
def bitmapScanAndFlip (b : Bitmap) (start cnt : Nat) (value : Bool) : Bitmap × Option Nat :=
  match bitmapScan b start cnt value with
  | some idx => (bitmapSetMultiple b idx cnt (!value), some idx)
  | none => (b, none)

end Pintos.BitmapWords
