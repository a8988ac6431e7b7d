import Pintos.Model.Stdlib
import Pintos.Lib.HeapOrder
import Mathlib.Data.List.GetD

/-!
# `sort` sorts and `binary_search` finds

The array is read as its elements, the `size`-byte blocks at positions `1 ..= cnt`
(`elements`). `do_swap`'s byte loop exchanges two whole blocks and nothing else
(`getD_swapLoop`), so on the elements it is the swap of two positions (`elementAt_doSwap`).
With a comparator of a total preorder on `size`-byte values (`HeapOrder.IsComparator`),
`heapifyMax` picks a largest of a node and its children (`heapifyMax_spec`), and `heapify`
turns a sift at `i` into a heap (`heapify_spec`, by `heapify.induct` and
`HeapOrder.Sifting.swap`). The first loop of `sort` builds a heap from the last parent
back to the root (`buildHeap_spec`); the second moves the root, a largest element, to the
end of the heap and floats the new root down, growing a sorted end (`sortHeap_spec`). So
`sort` leaves a sorted permutation of the elements (`sort_spec`).

`binary_search` keeps its window `[first, last)` at whole elements `[lo * size, hi * size)`,
and on a sorted array every element equal to the key that lies in the window before a step
lies in it after (`binarySearchLoop_spec`); so it returns an element equal to the key
exactly when there is one (`binarySearch_spec`).
-/

set_option autoImplicit false

namespace Pintos.Stdlib

open HeapOrder

/-- The elements of the array: the blocks at positions `1 ..= cnt`. -/
def elements (array : List UInt8) (cnt size : Nat) : List (List UInt8) :=
  (List.range' 1 cnt).map fun k => elementAt array k size

/-! ## Blocks of bytes -/

/-- The block of a position up to `cnt` ends by byte `cnt * size`. -/
theorem block_end_le {cnt size k : Nat} (hk : 1 ≤ k) (hkcnt : k ≤ cnt) :
    (k - 1) * size + size ≤ cnt * size := by
  rw [← Nat.succ_mul, Nat.succ_eq_add_one, Nat.sub_add_cancel hk]
  exact Nat.mul_le_mul_right size hkcnt

theorem length_elementAt {array : List UInt8} {cnt size k : Nat} (hlen : cnt * size ≤ array.length)
    (hk : 1 ≤ k) (hkcnt : k ≤ cnt) : (elementAt array k size).length = size := by
  have hblock : (k - 1) * size + size ≤ cnt * size := block_end_le hk hkcnt
  rw [elementAt, List.length_take, List.length_drop]
  omega

/-- A byte lies in one block only. -/
theorem block_unique {size x y p : Nat} (hx : x * size ≤ p ∧ p < x * size + size)
    (hy : y * size ≤ p ∧ p < y * size + size) : x = y := by
  have hx' := Nat.div_eq_of_lt_le hx.1 (by rw [Nat.succ_mul]; exact hx.2)
  have hy' := Nat.div_eq_of_lt_le hy.1 (by rw [Nat.succ_mul]; exact hy.2)
  rw [← hx', ← hy']

/-- The blocks of two positions do not overlap. -/
theorem blocks_apart {size a b : Nat} (hab : a ≠ b) :
    a * size + size ≤ b * size ∨ b * size + size ≤ a * size := by
  rcases Nat.lt_or_gt_of_ne hab with h | h
  · left
    rw [← Nat.succ_mul]
    exact Nat.mul_le_mul_right size h
  · right
    rw [← Nat.succ_mul]
    exact Nat.mul_le_mul_right size h

/-- Two windows of `size` bytes that agree byte for byte are the same, when both lie inside
their lists or both lists have the same length and the windows start at the same byte. -/
theorem take_drop_eq {l₁ l₂ : List UInt8} {x y size : Nat}
    (hwin : (x + size ≤ l₁.length ∧ y + size ≤ l₂.length) ∨ (x = y ∧ l₁.length = l₂.length))
    (h : ∀ t, t < size → l₁.getD (x + t) 0 = l₂.getD (y + t) 0) :
    (l₁.drop x).take size = (l₂.drop y).take size := by
  apply List.ext_getElem
  · simp only [List.length_take, List.length_drop]
    omega
  · intro t h₁ h₂
    simp only [List.length_take, List.length_drop] at h₁ h₂
    have ht := h t (by omega)
    rw [List.getD_eq_getElem _ _ (by omega), List.getD_eq_getElem _ _ (by omega)] at ht
    simp only [List.getElem_take, List.getElem_drop]
    exact ht

/-- A write to one byte, read back. -/
theorem getD_set (l : List UInt8) (i p : Nat) (x : UInt8) :
    (l.set i x).getD p 0 = if i = p ∧ i < l.length then x else l.getD p 0 := by
  simp only [List.getD_eq_getElem?_getD, List.getElem?_set]
  by_cases hip : i = p
  · subst hip
    by_cases hi : i < l.length
    · rw [if_pos rfl, if_pos hi, if_pos ⟨rfl, hi⟩]
      rfl
    · rw [if_pos rfl, if_neg hi, if_neg (fun h => hi h.2), List.getElem?_eq_none (by omega)]
  · rw [if_neg hip, if_neg (fun h => hip h.1)]

/-- The first `j` rounds of `do_swap`'s loop over two blocks `[a, a + size)` and
`[b, b + size)` inside the list that do not overlap: the first `j` bytes of each block hold
the other's, every other byte is as it was. By induction on `j`: each round reads two bytes
no earlier round wrote. -/
theorem getD_swapLoop (l : List UInt8) (a b size : Nat)
    (hab : a + size ≤ b ∨ b + size ≤ a) (ha : a + size ≤ l.length) (hb : b + size ≤ l.length) :
    ∀ j, j ≤ size →
      ((List.range j).foldl (fun array i =>
          (array.set (a + i) (array.getD (b + i) 0)).set (b + i) (array.getD (a + i) 0)) l).length =
          l.length ∧
      ∀ p, ((List.range j).foldl (fun array i =>
          (array.set (a + i) (array.getD (b + i) 0)).set (b + i) (array.getD (a + i) 0)) l).getD p 0 =
        if a ≤ p ∧ p < a + j then l.getD (p - a + b) 0
        else if b ≤ p ∧ p < b + j then l.getD (p - b + a) 0 else l.getD p 0 := by
  intro j
  induction j with
  | zero =>
      intro _
      refine ⟨rfl, fun p => ?_⟩
      simp only [List.range_zero, List.foldl_nil]
      rw [if_neg (by omega), if_neg (by omega)]
  | succ j ih =>
      intro hj
      obtain ⟨hlen, hget⟩ := ih (by omega)
      rw [List.range_succ, List.foldl_append, List.foldl_cons, List.foldl_nil]
      generalize (List.range j).foldl (fun array i =>
          (array.set (a + i) (array.getD (b + i) 0)).set (b + i) (array.getD (a + i) 0)) l = w
        at hlen hget ⊢
      -- the two bytes this round reads are in no part of a block written before
      have hra : w.getD (a + j) 0 = l.getD (a + j) 0 := by
        rw [hget, if_neg (show ¬(a ≤ a + j ∧ a + j < a + j) by omega),
          if_neg (show ¬(b ≤ a + j ∧ a + j < b + j) by omega)]
      have hrb : w.getD (b + j) 0 = l.getD (b + j) 0 := by
        rw [hget, if_neg (show ¬(a ≤ b + j ∧ b + j < a + j) by omega),
          if_neg (show ¬(b ≤ b + j ∧ b + j < b + j) by omega)]
      refine ⟨by simp [hlen], fun p => ?_⟩
      rw [getD_set, getD_set, List.length_set, hra, hrb, hget p, hlen]
      by_cases hpb : p = b + j
      · subst hpb
        rw [if_pos ⟨rfl, by omega⟩, if_neg (show ¬(a ≤ b + j ∧ b + j < a + (j + 1)) by omega),
          if_pos (show b ≤ b + j ∧ b + j < b + (j + 1) by omega)]
        congr 1
        omega
      by_cases hpa : p = a + j
      · subst hpa
        rw [if_neg (show ¬(b + j = a + j ∧ b + j < l.length) by omega), if_pos ⟨rfl, by omega⟩,
          if_pos (show a ≤ a + j ∧ a + j < a + (j + 1) by omega)]
        congr 1
        omega
      rw [if_neg (show ¬(b + j = p ∧ b + j < l.length) by omega),
        if_neg (show ¬(a + j = p ∧ a + j < l.length) by omega)]
      by_cases hina : a ≤ p ∧ p < a + j
      · rw [if_pos hina, if_pos (show a ≤ p ∧ p < a + (j + 1) by omega)]
      rw [if_neg hina, if_neg (show ¬(a ≤ p ∧ p < a + (j + 1)) by omega)]
      by_cases hinb : b ≤ p ∧ p < b + j
      · rw [if_pos hinb, if_pos (show b ≤ p ∧ p < b + (j + 1) by omega)]
      rw [if_neg hinb, if_neg (show ¬(b ≤ p ∧ p < b + (j + 1)) by omega)]

theorem length_doSwap {array : List UInt8} {cnt aIdx bIdx size : Nat}
    (hlen : cnt * size ≤ array.length) (ha : 1 ≤ aIdx ∧ aIdx ≤ cnt) (hb : 1 ≤ bIdx ∧ bIdx ≤ cnt)
    (hab : aIdx ≠ bIdx) : (doSwap array aIdx bIdx size).length = array.length := by
  have hla : (aIdx - 1) * size + size ≤ cnt * size := block_end_le ha.1 ha.2
  have hlb : (bIdx - 1) * size + size ≤ cnt * size := block_end_le hb.1 hb.2
  have happ : (aIdx - 1) * size + size ≤ (bIdx - 1) * size ∨
      (bIdx - 1) * size + size ≤ (aIdx - 1) * size := blocks_apart (by omega)
  exact (getD_swapLoop array _ _ size happ (by omega) (by omega) size (Nat.le_refl size)).1

/-- `do_swap` on the elements: the elements at `a_idx` and `b_idx` change places. -/
theorem elementAt_doSwap {array : List UInt8} {cnt aIdx bIdx size : Nat}
    (hlen : cnt * size ≤ array.length) (ha : 1 ≤ aIdx ∧ aIdx ≤ cnt) (hb : 1 ≤ bIdx ∧ bIdx ≤ cnt)
    (hab : aIdx ≠ bIdx) (k : Nat) (hk : 1 ≤ k) :
    elementAt (doSwap array aIdx bIdx size) k size = elementAt array (Equiv.swap aIdx bIdx k) size := by
  have hla : (aIdx - 1) * size + size ≤ cnt * size := block_end_le ha.1 ha.2
  have hlb : (bIdx - 1) * size + size ≤ cnt * size := block_end_le hb.1 hb.2
  have happ : (aIdx - 1) * size + size ≤ (bIdx - 1) * size ∨
      (bIdx - 1) * size + size ≤ (aIdx - 1) * size := blocks_apart (by omega)
  obtain ⟨hlen', hget⟩ :=
    getD_swapLoop array _ _ size happ (by omega) (by omega) size (Nat.le_refl size)
  unfold elementAt doSwap
  dsimp only
  by_cases hka : k = aIdx
  · -- the block of `a_idx` now holds the bytes of `b_idx`
    subst hka
    rw [Equiv.swap_apply_left]
    refine take_drop_eq (Or.inl ⟨by omega, by omega⟩) fun t ht => ?_
    rw [hget, if_pos (by omega)]
    congr 1
    omega
  by_cases hkb : k = bIdx
  · subst hkb
    rw [Equiv.swap_apply_right]
    refine take_drop_eq (Or.inl ⟨by omega, by omega⟩) fun t ht => ?_
    rw [hget, if_neg (by omega), if_pos (by omega)]
    congr 1
    omega
  · -- any other block lies apart from both
    rw [Equiv.swap_apply_of_ne_of_ne hka hkb]
    refine take_drop_eq (Or.inr ⟨rfl, hlen'⟩) fun t ht => ?_
    have hna : ¬((aIdx - 1) * size ≤ (k - 1) * size + t ∧
        (k - 1) * size + t < (aIdx - 1) * size + size) := fun hin =>
      hka (by have := block_unique ⟨Nat.le_add_right _ _, by omega⟩ hin; omega)
    have hnb : ¬((bIdx - 1) * size ≤ (k - 1) * size + t ∧
        (k - 1) * size + t < (bIdx - 1) * size + size) := fun hin =>
      hkb (by have := block_unique ⟨Nat.le_add_right _ _, by omega⟩ hin; omega)
    rw [hget, if_neg hna, if_neg hnb]

/-! ## `heapify` -/

section Heapify

variable {compare : List UInt8 → List UInt8 → Int} {cnt size : Nat}

/-- `max` is a largest of element `i` and its children up to `cnt`: it is `i` or a child of
`i`, at least element `i`, and at least each child. -/
theorem heapifyMax_spec (hc : IsComparator compare (·.length = size)) {array : List UInt8}
    (hlen : cnt * size ≤ array.length) {i : Nat} (hi : 1 ≤ i) (hicnt : i ≤ cnt) :
    (heapifyMax compare array i cnt size = i ∨ heapifyMax compare array i cnt size / 2 = i) ∧
      compare (elementAt array i size)
        (elementAt array (heapifyMax compare array i cnt size) size) ≤ 0 ∧
      ∀ c, c / 2 = i → c ≤ cnt →
        compare (elementAt array c size)
          (elementAt array (heapifyMax compare array i cnt size) size) ≤ 0 := by
  have hS : ∀ k, 1 ≤ k → k ≤ cnt → (elementAt array k size).length = size :=
    fun k hk hkcnt => length_elementAt hlen hk hkcnt
  have hchildren : ∀ c, c / 2 = i → c = 2 * i ∨ c = 2 * i + 1 := fun c hci => by omega
  unfold heapifyMax doCompare
  dsimp only
  split_ifs with hl hr hr'
  · -- the right child beats the left, which beats `i`
    refine ⟨Or.inr (by omega), hc.trans _ _ _ (hS i hi hicnt) (hS _ (by omega) hl.1)
      (hS _ (by omega) hr.1) (hc.le_of_pos (hS _ (by omega) hl.1) (hS i hi hicnt) hl.2)
      (hc.le_of_pos (hS _ (by omega) hr.1) (hS _ (by omega) hl.1) hr.2), fun c hci hcc => ?_⟩
    rcases hchildren c hci with rfl | rfl
    · exact hc.le_of_pos (hS _ (by omega) hr.1) (hS _ (by omega) hl.1) hr.2
    · exact hc.refl (hS _ (by omega) hcc)
  · -- the left child beats `i` and is not beaten by the right
    refine ⟨Or.inr (by omega), hc.le_of_pos (hS _ (by omega) hl.1) (hS i hi hicnt) hl.2,
      fun c hci hcc => ?_⟩
    rcases hchildren c hci with rfl | rfl
    · exact hc.refl (hS _ (by omega) hcc)
    · exact Int.le_of_not_gt fun h => hr ⟨hcc, h⟩
  · -- the right child beats `i`, which the left does not
    refine ⟨Or.inr (by omega), hc.le_of_pos (hS _ (by omega) hr'.1) (hS i hi hicnt) hr'.2,
      fun c hci hcc => ?_⟩
    rcases hchildren c hci with rfl | rfl
    · exact hc.trans _ _ _ (hS _ (by omega) hcc) (hS i hi hicnt) (hS _ (by omega) hr'.1)
        (Int.le_of_not_gt fun h => hl ⟨hcc, h⟩)
        (hc.le_of_pos (hS _ (by omega) hr'.1) (hS i hi hicnt) hr'.2)
    · exact hc.refl (hS _ (by omega) hcc)
  · -- neither child beats `i`
    refine ⟨Or.inl rfl, hc.refl (hS i hi hicnt), fun c hci hcc => ?_⟩
    rcases hchildren c hci with rfl | rfl
    · exact Int.le_of_not_gt fun h => hl ⟨hcc, h⟩
    · exact Int.le_of_not_gt fun h => hr' ⟨hcc, h⟩

/-- What `heapify` leaves of `array`: an array of the same length whose elements up to `cnt`
are a heap from `lo` and a permutation of the old ones, every later element as it was. -/
structure Heapified (compare : List UInt8 → List UInt8 → Int) (size lo cnt : Nat)
    (array r : List UInt8) : Prop where
  length : r.length = array.length
  heap : Heap compare (elementAt r · size) lo cnt
  perm : (elements r cnt size).Perm (elements array cnt size)
  above : ∀ k, cnt < k → elementAt r k size = elementAt array k size

/-- A second `heapify` after a first: the heap of the second, and what both keep. -/
theorem Heapified.trans {lo lo' : Nat} {a b c : List UInt8} (h₁ : Heapified compare size lo cnt a b)
    (h₂ : Heapified compare size lo' cnt b c) : Heapified compare size lo' cnt a c :=
  ⟨h₂.length.trans h₁.length, h₂.heap, h₂.perm.trans h₁.perm,
    fun k hk => (h₂.above k hk).trans (h₁.above k hk)⟩

/-- `heapify` from a sift at `i` leaves a heap. By the function's own induction: where
`max` is `i` the sift is finished; otherwise the swap with `max` moves it down to `max`. -/
theorem heapify_spec (hc : IsComparator compare (·.length = size)) {lo : Nat} (hlo : 1 ≤ lo) :
    ∀ (array : List UInt8) (i : Nat), cnt * size ≤ array.length → lo ≤ i → i ≤ cnt →
      Sifting compare (elementAt array · size) lo cnt i →
      Heapified compare size lo cnt array (heapify compare array i cnt size) := by
  intro array i
  induction array, i using heapify.induct compare cnt size with
  | case1 array i m hmax =>
      intro hlen hloi hicnt hs
      have hmax' : heapifyMax compare array i cnt size = i := hmax
      have hchild := (heapifyMax_spec hc hlen (by omega) hicnt).2.2
      rw [hmax'] at hchild
      rw [heapify, if_pos hmax']
      exact ⟨rfl, hs.finish hchild, List.Perm.refl _, fun _ _ => rfl⟩
  | case2 array i m hmax ih =>
      intro hlen hloi hicnt hs
      have hmax' : heapifyMax compare array i cnt size ≠ i := hmax
      obtain ⟨hpar, hle, hchild⟩ := heapifyMax_spec hc hlen (by omega) hicnt
      have hmlt := (heapifyMax_eq_or compare array i cnt size).resolve_left hmax'
      have hmi := hpar.resolve_left hmax'
      -- the array after the swap, on the elements
      have hswap := elementAt_doSwap hlen ⟨by omega, hicnt⟩ ⟨by omega, hmlt.2⟩ (Ne.symm hmax')
      have hlen' := length_doSwap hlen ⟨by omega, hicnt⟩ ⟨by omega, hmlt.2⟩ (Ne.symm hmax')
      obtain ⟨rlen, rheap, rperm, rabove⟩ := ih (by rw [hlen']; exact hlen) (by omega) hmlt.2
        (hs.swap hlo hloi hmi hmlt.2 hle hchild hswap)
      rw [heapify, if_neg hmax']
      refine ⟨rlen.trans hlen', rheap,
        rperm.trans (perm_swap ⟨by omega, hicnt⟩ ⟨by omega, hmlt.2⟩ hswap), fun k hk => ?_⟩
      rw [rabove k hk, hswap k (by omega), Equiv.swap_apply_of_ne_of_ne (by omega) (by omega)]

end Heapify

/-! ## The two loops of `sort` -/

section Sorting

variable {compare : List UInt8 → List UInt8 → Int} {cnt size : Nat}

/-- The first loop of `sort` from `i`, on a heap from `i + 1`: heapifying each node back to
the root leaves a heap from the root. By induction on `i`. -/
theorem buildHeap_spec (hc : IsComparator compare (·.length = size)) :
    ∀ (i : Nat) (array : List UInt8), cnt * size ≤ array.length → i ≤ cnt →
      Heap compare (elementAt array · size) (i + 1) cnt →
      Heapified compare size 1 cnt array (buildHeap compare cnt size array i) := by
  intro i
  induction i with
  | zero =>
      intro array _ _ hheap
      exact ⟨rfl, hheap, List.Perm.refl _, fun _ _ => rfl⟩
  | succ i ih =>
      intro array hlen hi hheap
      have h₁ := heapify_spec hc (by omega : 1 ≤ i + 1) array (i + 1) hlen (Nat.le_refl _) hi
        (Sifting.of_heap hheap (by omega))
      have h₂ := ih (heapify compare array (i + 1) cnt size) (by rw [h₁.length]; exact hlen)
        (by omega) h₁.heap
      exact h₁.trans h₂

/-- The second loop of `sort` from `i`, on a heap at `1 ..= i` below a sorted end: the root,
a largest element of the heap, goes to the end of the heap, and the new root floats down,
so the sorted end grows until it is the whole array. By induction on `i`. -/
theorem sortHeap_spec (hc : IsComparator compare (·.length = size)) :
    ∀ (i : Nat) (array : List UInt8), cnt * size ≤ array.length → 1 ≤ i → i ≤ cnt →
      Heap compare (elementAt array · size) 1 i →
      SortedAbove compare (elementAt array · size) i cnt →
      (sortHeap compare size array i).length = array.length ∧
        (elements (sortHeap compare size array i) cnt size).Perm (elements array cnt size) ∧
        SortedAbove compare (elementAt (sortHeap compare size array i) · size) 1 cnt := by
  intro i
  induction i with
  | zero => intro _ _ h; omega
  | succ i ih =>
      intro array hlen hi hicnt hheap hsorted
      rcases i with _ | i
      · -- one element left in the heap: the loop ends
        exact ⟨rfl, List.Perm.refl _, hsorted⟩
      have hS : ∀ k, 1 ≤ k → k ≤ cnt → (elementAt array k size).length = size :=
        fun k hk hkcnt => length_elementAt hlen hk hkcnt
      -- swap the root with the last element of the heap
      have hswap := elementAt_doSwap hlen ⟨Nat.le_refl 1, by omega⟩ ⟨by omega, hicnt⟩
        (show 1 ≠ i + 1 + 1 by omega)
      have hlen' := length_doSwap hlen ⟨Nat.le_refl 1, by omega⟩ ⟨by omega, hicnt⟩
        (show 1 ≠ i + 1 + 1 by omega)
      have hsorted' := hsorted.swap_root hc hS hheap (by omega) hicnt hswap
      have hsift := Sifting.of_swap_root hheap hswap
      -- and float the new root down in the heap one shorter
      have hshort : (i + 1) * size ≤ (doSwap array 1 (i + 1 + 1) size).length := by
        rw [hlen']
        exact Nat.le_trans (Nat.mul_le_mul_right size (by omega)) hlen
      have h₁ := heapify_spec hc (Nat.le_refl 1) _ 1 hshort (Nat.le_refl 1) (by omega) hsift
      have hsorted₁ : SortedAbove compare
          (elementAt (heapify compare (doSwap array 1 (i + 1 + 1) size) 1 (i + 1) size) · size)
          (i + 1) cnt :=
        hsorted'.of_perm (fun l hl => h₁.above l hl) (fun j hj hjk => exists_of_perm h₁.perm hj hjk)
      obtain ⟨rlen, rperm, rsorted⟩ := ih _ (by rw [h₁.length, hlen']; exact hlen) (by omega)
        (by omega) h₁.heap hsorted₁
      refine ⟨rlen.trans (h₁.length.trans hlen'), ?_, rsorted⟩
      exact rperm.trans ((perm_extend (by omega) h₁.perm h₁.above).trans
        (perm_swap ⟨Nat.le_refl 1, by omega⟩ ⟨by omega, hicnt⟩ hswap))

/-- `sort` of `cnt` elements of `size > 0` bytes, with a comparator of a total preorder on
`size`-byte values, returns the array with its elements permuted into order. -/
theorem sort_spec (hc : IsComparator compare (·.length = size)) (hsize : 0 < size)
    {array : List UInt8} (hlen : cnt * size ≤ array.length) :
    ∃ r, sort compare array cnt size = some r ∧ r.length = array.length ∧
      (elements r cnt size).Perm (elements array cnt size) ∧
      (elements r cnt size).Pairwise fun a b => compare a b ≤ 0 := by
  -- the nodes after `cnt / 2` have no children: a heap from `cnt / 2 + 1`
  have hleaves : Heap compare (elementAt array · size) (cnt / 2 + 1) cnt :=
    fun c hc hcnt => absurd hcnt (by omega)
  have hb := buildHeap_spec hc (cnt / 2) array hlen (by omega) hleaves
  refine ⟨_, if_pos hsize, ?_⟩
  rcases Nat.eq_zero_or_pos cnt with rfl | hcnt
  · simp [elements, sortHeap, hb.length]
  obtain ⟨rlen, rperm, rsorted⟩ := sortHeap_spec hc cnt _ (by rw [hb.length]; exact hlen) hcnt
    (Nat.le_refl cnt) hb.heap (sortedAbove_self cnt)
  exact ⟨rlen.trans hb.length, rperm.trans hb.perm, rsorted.pairwise⟩

end Sorting

/-! ## `binary_search` -/

section Search

variable {compare : List UInt8 → List UInt8 → Int} {cnt size : Nat}

/-- On a window of whole elements `[lo * size, hi * size)`, `middle` is the element
`lo + (hi - lo) / 2`. -/
theorem middle_eq (hsize : 0 < size) (lo hi : Nat) :
    lo * size + (hi * size - lo * size) / size / 2 * size = (lo + (hi - lo) / 2) * size := by
  rw [← Nat.sub_mul, Nat.mul_div_cancel _ hsize, Nat.add_mul]

/-- The loop of `binary_search` on the window of elements `lo ..< hi` of a sorted array:
what it returns is an element of the window equal to the key, and it returns `NULL` only if
the window has none. By the loop's own induction: each step keeps, on the side it goes on
with, every element equal to the key. -/
theorem binarySearchLoop_spec (hc : IsComparator compare (·.length = size)) (hsize : 0 < size)
    {key array : List UInt8} (hkey : key.length = size) (hlen : cnt * size ≤ array.length)
    (hsorted : ∀ j l, j < l → l < cnt →
      compare (elementAt array (j + 1) size) (elementAt array (l + 1) size) ≤ 0) :
    ∀ first last lo hi, first = lo * size → last = hi * size → hi ≤ cnt →
      (∀ p, binarySearchLoop compare key array size hsize first last = some p →
        ∃ k, lo ≤ k ∧ k < hi ∧ p = k * size ∧ compare key (elementAt array (k + 1) size) = 0) ∧
      (binarySearchLoop compare key array size hsize first last = none →
        ∀ k, lo ≤ k → k < hi → compare key (elementAt array (k + 1) size) ≠ 0) := by
  have hS : ∀ k, k < cnt → (elementAt array (k + 1) size).length = size :=
    fun k hk => length_elementAt hlen (by omega) hk
  -- sorted, with the same element allowed on both sides
  have hle : ∀ j l, j ≤ l → l < cnt →
      compare (elementAt array (j + 1) size) (elementAt array (l + 1) size) ≤ 0 := by
    intro j l hjl hl
    rcases Nat.lt_or_eq_of_le hjl with h | rfl
    · exact hsorted j l h hl
    · exact hc.refl (hS j hl)
  intro first last
  induction first, last using binarySearchLoop.induct compare key array size hsize with
  | case1 first last hlt range middle cmp hneg ih =>
      intro lo hi hfirst hlast hhi
      subst hfirst hlast
      have hlohi : lo < hi := Nat.lt_of_mul_lt_mul_right hlt
      have hmiddle : middle = (lo + (hi - lo) / 2) * size := middle_eq hsize lo hi
      have hcmp : compare key (elementAt array (lo + (hi - lo) / 2 + 1) size) < 0 := by
        have h : cmp < 0 := hneg
        simp only [cmp, hmiddle] at h
        exact h
      have hstep : binarySearchLoop compare key array size hsize (lo * size) (hi * size) =
          binarySearchLoop compare key array size hsize (lo * size) middle := by
        rw [binarySearchLoop, if_pos hlt]
        exact if_pos hneg
      obtain ⟨hsound, hcomplete⟩ := ih lo (lo + (hi - lo) / 2) rfl hmiddle (by omega)
      rw [hstep]
      refine ⟨fun p hp => ?_, fun hnone k hlok hkhi => ?_⟩
      · obtain ⟨k, hlok, hk, hp, hk0⟩ := hsound p hp
        exact ⟨k, hlok, by omega, hp, hk0⟩
      · -- the key is below the middle, so below every element from the middle on
        rcases Nat.lt_or_ge k (lo + (hi - lo) / 2) with hkm | hkm
        · exact hcomplete hnone k hlok hkm
        · have hlt' := hc.lt_of_lt_of_le hkey (hS _ (by omega)) (hS k (by omega)) hcmp
            (hle _ k hkm (by omega))
          omega
  | case2 first last hlt range middle cmp hneg hpos ih =>
      intro lo hi hfirst hlast hhi
      subst hfirst hlast
      have hlohi : lo < hi := Nat.lt_of_mul_lt_mul_right hlt
      have hmiddle : middle = (lo + (hi - lo) / 2) * size := middle_eq hsize lo hi
      have hcmp : 0 < compare key (elementAt array (lo + (hi - lo) / 2 + 1) size) := by
        have h : cmp > 0 := hpos
        simp only [cmp, hmiddle] at h
        exact h
      have hstep : binarySearchLoop compare key array size hsize (lo * size) (hi * size) =
          binarySearchLoop compare key array size hsize (middle + size) (hi * size) := by
        rw [binarySearchLoop, if_pos hlt]
        exact (if_neg hneg).trans (if_pos hpos)
      obtain ⟨hsound, hcomplete⟩ := ih (lo + (hi - lo) / 2 + 1) hi
        (by rw [hmiddle, Nat.add_one_mul]) rfl hhi
      rw [hstep]
      refine ⟨fun p hp => ?_, fun hnone k hlok hkhi => ?_⟩
      · obtain ⟨k, hlok, hk, hp, hk0⟩ := hsound p hp
        exact ⟨k, by omega, hk, hp, hk0⟩
      · -- the key is above the middle, so above every element up to the middle
        rcases Nat.lt_or_ge (lo + (hi - lo) / 2) k with hkm | hkm
        · exact hcomplete hnone k hkm hkhi
        · have hpos' := hc.pos_of_pos_of_le hkey (hS _ (by omega)) (hS k (by omega)) hcmp
            (hle k _ hkm (by omega))
          omega
  | case3 first last hlt range middle cmp hneg hpos =>
      intro lo hi hfirst hlast hhi
      subst hfirst hlast
      have hlohi : lo < hi := Nat.lt_of_mul_lt_mul_right hlt
      have hmiddle : middle = (lo + (hi - lo) / 2) * size := middle_eq hsize lo hi
      have hcmp : compare key (elementAt array (lo + (hi - lo) / 2 + 1) size) = 0 := by
        have h : ¬cmp < 0 ∧ ¬cmp > 0 := ⟨hneg, hpos⟩
        simp only [cmp, hmiddle] at h
        exact Int.le_antisymm (Int.le_of_not_gt h.2) (Int.le_of_not_gt h.1)
      have hstep : binarySearchLoop compare key array size hsize (lo * size) (hi * size) =
          some middle := by
        rw [binarySearchLoop, if_pos hlt]
        exact (if_neg hneg).trans (if_neg hpos)
      rw [hstep]
      refine ⟨fun p hp => ?_, fun hnone => absurd hnone (by simp)⟩
      obtain rfl := Option.some.inj hp
      exact ⟨lo + (hi - lo) / 2, by omega, by omega, hmiddle, hcmp⟩
  | case4 first last hge =>
      intro lo hi hfirst hlast hhi
      subst hfirst hlast
      have hstep : binarySearchLoop compare key array size hsize (lo * size) (hi * size) = none := by
        rw [binarySearchLoop, if_neg hge]
      rw [hstep]
      -- an empty window
      refine ⟨fun p hp => absurd hp (by simp), fun _ k hlok hkhi => ?_⟩
      exact absurd (Nat.mul_lt_mul_of_pos_right (show lo < hi by omega) hsize) hge

/-- `binary_search` on an array of `cnt` elements of `size > 0` bytes, sorted by a comparator
of a total preorder on `size`-byte values, with a key of `size` bytes: it returns the offset
of an element equal to the key, and `NULL` exactly when no element is. -/
theorem binarySearch_spec (hc : IsComparator compare (·.length = size)) (hsize : 0 < size)
    {key array : List UInt8} (hkey : key.length = size) (hlen : cnt * size ≤ array.length)
    (hsorted : (elements array cnt size).Pairwise fun a b => compare a b ≤ 0) :
    (∀ p, binarySearch compare key array cnt size = some p →
      ∃ k, k < cnt ∧ p = k * size ∧ compare key (elementAt array (k + 1) size) = 0) ∧
    (binarySearch compare key array cnt size = none ↔
      ∀ e ∈ elements array cnt size, compare key e ≠ 0) := by
  -- the sorted list of elements, position by position
  have hsorted' : ∀ j l, j < l → l < cnt →
      compare (elementAt array (j + 1) size) (elementAt array (l + 1) size) ≤ 0 := by
    intro j l hjl hl
    have h := List.pairwise_iff_getElem.mp hsorted j l (by simp [elements]; omega)
      (by simp [elements]; omega) hjl
    simp only [elements, List.getElem_map, List.getElem_range'] at h
    rwa [Nat.one_mul, Nat.one_mul, Nat.add_comm 1 j, Nat.add_comm 1 l] at h
  obtain ⟨hsound, hcomplete⟩ := binarySearchLoop_spec hc hsize hkey hlen hsorted' 0 (size * cnt) 0 cnt
    (Nat.zero_mul size).symm (Nat.mul_comm size cnt) (Nat.le_refl cnt)
  unfold binarySearch
  rw [dif_pos hsize]
  refine ⟨fun p hp => ?_, ⟨fun hnone e he => ?_, fun hall => ?_⟩⟩
  · obtain ⟨k, -, hk, hp, hk0⟩ := hsound p hp
    exact ⟨k, hk, hp, hk0⟩
  · obtain ⟨k, hk, rfl⟩ := List.mem_map.mp he
    rw [List.mem_range'_1] at hk
    have h := hcomplete hnone (k - 1) (by omega) (by omega)
    rwa [Nat.sub_add_cancel hk.1] at h
  · -- an element found would be equal to the key
    cases hr : binarySearchLoop compare key array size hsize 0 (size * cnt) with
    | none => rfl
    | some p =>
        obtain ⟨k, -, hk, -, hk0⟩ := hsound p hr
        refine absurd hk0 (hall _ (List.mem_map.mpr ⟨k + 1, ?_, rfl⟩))
        rw [List.mem_range'_1]
        omega

end Search

/-! ## Sorting and searching together -/

/-- `sort` and `qsort` return the array with its elements permuted into order, and on the
array, if it is sorted, `binary_search` returns an element equal to the key exactly when
there is one, and `NULL` otherwise. -/
structure SortsAndSearches (compare : List UInt8 → List UInt8 → Int) (array : List UInt8)
    (cnt size : Nat) : Prop where
  sorts : ∃ r, sort compare array cnt size = some r ∧ qsort array cnt size compare = some r ∧
    r.length = array.length ∧ (elements r cnt size).Perm (elements array cnt size) ∧
    (elements r cnt size).Pairwise fun a b => compare a b ≤ 0
  searches : (elements array cnt size).Pairwise (fun a b => compare a b ≤ 0) →
    ∀ key : List UInt8, key.length = size →
      (∀ p, binarySearch compare key array cnt size = some p →
        ∃ k, k < cnt ∧ p = k * size ∧ compare key (elementAt array (k + 1) size) = 0) ∧
      (binarySearch compare key array cnt size = none ↔
        ∀ e ∈ elements array cnt size, compare key e ≠ 0)

theorem sort_and_binary_search (compare : List UInt8 → List UInt8 → Int) (array : List UInt8)
    (cnt size : Nat) (hsize : 0 < size) (hlen : cnt * size ≤ array.length)
    (hc : IsComparator compare (·.length = size)) : SortsAndSearches compare array cnt size where
  sorts := by
    obtain ⟨r, hr, hrest⟩ := sort_spec hc hsize hlen
    exact ⟨r, hr, hr, hrest⟩
  searches := fun hsorted _ hkey => binarySearch_spec hc hsize hkey hlen hsorted

/-- One-byte elements compared by value. -/
def byteOrder (a b : List UInt8) : Int := ((a.headD 0).toNat : Int) - (b.headD 0).toNat

theorem byteOrder_isComparator : IsComparator byteOrder (·.length = 1) where
  lt_iff := fun a b _ _ => by
    unfold byteOrder
    omega
  trans := fun a b c _ _ _ hab hbc => by
    unfold byteOrder at hab hbc ⊢
    omega

theorem sort_and_binary_search_bytes : SortsAndSearches byteOrder [3, 1, 2] 3 1 :=
  sort_and_binary_search byteOrder [3, 1, 2] 3 1 (by decide) (by decide) byteOrder_isComparator

end Pintos.Stdlib
