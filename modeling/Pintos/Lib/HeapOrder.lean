import Mathlib.Logic.Equiv.Basic
import Mathlib.Data.List.Perm.Basic
import Mathlib.Data.List.Nodup

/-!
# Three-way comparisons, heaps and sorted ranges

A three-way comparison `cmp` (negative, zero or positive, as `strcmp`) is the comparison of
a total preorder on a set of values `S` when `cmp a b ≤ 0` is transitive on `S` and the
sign turns round with the arguments (`IsComparator`); totality and reflexivity follow.

An array is a function `f : ℕ → α` on the 1-based positions `1 ..= cnt`, the parent of `c`
being `c / 2`. `Heap cmp f lo cnt` says every child of a node at or after `lo` is at most its
parent. A sift-down keeps `Sifting`: the heap order everywhere but at the node `i` being
floated down, and the children of `i` at most `i`'s parent. Swapping `i` with its larger
child moves the hole down (`Sifting.swap`), and a node at least its children closes it
(`Sifting.finish`). In a heap from 1 the root is a largest element (`Heap.le_root`), so
swapping it with the last element of the heap grows the sorted range at the end
(`SortedAbove.swap_root`). Swaps and moves inside `1 ..= n` permute the list of the array's
elements (`perm_swap`, `perm_extend`).
-/

set_option autoImplicit false

namespace HeapOrder

variable {α : Type}

/-- `cmp` is the three-way comparison of the total preorder `cmp a b ≤ 0` on `S`: the order
is transitive, and `cmp a b` is negative exactly when `cmp b a` is positive. -/
structure IsComparator (cmp : α → α → Int) (S : α → Prop) : Prop where
  lt_iff : ∀ a b, S a → S b → (cmp a b < 0 ↔ 0 < cmp b a)
  trans : ∀ a b c, S a → S b → S c → cmp a b ≤ 0 → cmp b c ≤ 0 → cmp a c ≤ 0

namespace IsComparator

variable {cmp : α → α → Int} {S : α → Prop} (hc : IsComparator cmp S)
include hc

theorem le_of_pos {a b : α} (ha : S a) (hb : S b) (h : 0 < cmp a b) : cmp b a ≤ 0 :=
  Int.le_of_lt ((hc.lt_iff b a hb ha).mpr h)

theorem refl {a : α} (ha : S a) : cmp a a ≤ 0 := by
  by_contra h
  have := hc.le_of_pos ha ha (Int.lt_of_not_ge h)
  omega

/-- Below `b` and `b` at most `c`: below `c`. -/
theorem lt_of_lt_of_le {a b c : α} (ha : S a) (hb : S b) (hc' : S c) (hab : cmp a b < 0)
    (hbc : cmp b c ≤ 0) : cmp a c < 0 := by
  by_contra h
  -- otherwise `c ≤ a`, and then `b ≤ a`, against `a < b`
  have hca : cmp c a ≤ 0 := by
    by_contra h'
    exact h ((hc.lt_iff a c ha hc').mpr (Int.lt_of_not_ge h'))
  have hba := hc.trans b c a hb hc' ha hbc hca
  have := (hc.lt_iff a b ha hb).mp hab
  omega

/-- Above `b` and `c` at most `b`: above `c`. -/
theorem pos_of_pos_of_le {a b c : α} (ha : S a) (hb : S b) (hc' : S c) (hab : 0 < cmp a b)
    (hcb : cmp c b ≤ 0) : 0 < cmp a c := by
  by_contra h
  have := hc.trans a c b ha hc' hb (Int.le_of_not_gt h) hcb
  omega

end IsComparator

/-! ## Heaps -/

section Heap

variable (cmp : α → α → Int) (f : ℕ → α)

/-- The heap order from node `lo` to position `cnt`: every child `c` of a node at or after
`lo` is at most its parent `c / 2`. -/
def Heap (lo cnt : ℕ) : Prop :=
  ∀ c, 2 * lo ≤ c → c ≤ cnt → cmp (f c) (f (c / 2)) ≤ 0

/-- The heap order while node `i` floats down: every child not of `i` is at most its
parent, and the children of `i` are at most the parent of `i`, if that is in the heap. -/
structure Sifting (lo cnt i : ℕ) : Prop where
  except : ∀ c, 2 * lo ≤ c → c ≤ cnt → c / 2 ≠ i → cmp (f c) (f (c / 2)) ≤ 0
  grand : lo ≤ i / 2 → ∀ c, c / 2 = i → c ≤ cnt → cmp (f c) (f (i / 2)) ≤ 0

variable {cmp f}

/-- A node at least its children ends the sift: the heap order holds. -/
theorem Sifting.finish {lo cnt i : ℕ} (h : Sifting cmp f lo cnt i)
    (hi : ∀ c, c / 2 = i → c ≤ cnt → cmp (f c) (f i) ≤ 0) : Heap cmp f lo cnt := by
  intro c hc hcnt
  by_cases hci : c / 2 = i
  · rw [hci]
    exact hi c hci hcnt
  · exact h.except c hc hcnt hci

/-- Node `i` swapped with its child `m`, which is at least `i` and at least every child of
`i`: the hole moves down to `m`. `g` is the array after the swap, on the positions from 1. -/
theorem Sifting.swap {lo cnt i m : ℕ} {g : ℕ → α} (h : Sifting cmp f lo cnt i) (hlo : 1 ≤ lo)
    (hloi : lo ≤ i) (hm : m / 2 = i) (hmcnt : m ≤ cnt) (him : cmp (f i) (f m) ≤ 0)
    (hchild : ∀ c, c / 2 = i → c ≤ cnt → cmp (f c) (f m) ≤ 0)
    (hg : ∀ k, 1 ≤ k → g k = f (Equiv.swap i m k)) : Sifting cmp g lo cnt m := by
  have hgi : g i = f m := by rw [hg i (by omega), Equiv.swap_apply_left]
  have hgm : g m = f i := by rw [hg m (by omega), Equiv.swap_apply_right]
  have hgo : ∀ k, 1 ≤ k → k ≠ i → k ≠ m → g k = f k := fun k hk hki hkm => by
    rw [hg k hk, Equiv.swap_apply_of_ne_of_ne hki hkm]
  constructor
  · intro c hc hcnt hcm
    by_cases hci : c = m
    · -- the old node `i`, now below its old child
      rw [hci, hm, hgm, hgi]
      exact him
    by_cases hcj : c = i
    · -- the old child, now at `i`, against the parent of `i`
      subst hcj
      rw [hgi, hgo (c / 2) (by omega) (by omega) (by omega)]
      exact h.grand (by omega) m hm hmcnt
    rw [hgo c (by omega) hcj hci]
    by_cases hpi : c / 2 = i
    · -- a sibling of `m`, now below the old child
      rw [hpi, hgi]
      exact hchild c hpi hcnt
    · rw [hgo (c / 2) (by omega) hpi hcm]
      exact h.except c hc hcnt hpi
  · intro _ c hc hcnt
    -- the children of `m` were below `m` and are below it still, now at `i`
    rw [hm, hgi, hgo c (by omega) (by omega) (by omega)]
    have := h.except c (by omega) hcnt (by omega)
    rwa [hc] at this

/-- The heap from `i + 1` on is a sift at `i` from `i`. -/
theorem Sifting.of_heap {cnt i : ℕ} (h : Heap cmp f (i + 1) cnt) (hi : 1 ≤ i) :
    Sifting cmp f i cnt i where
  except := fun c _ hcnt hci => h c (by omega) hcnt
  grand := fun hle => absurd hle (by omega)

/-- The last element swapped into the root of a heap from 1 to `i`: a sift at the root of
the heap from 1 to `i - 1`. -/
theorem Sifting.of_swap_root {i : ℕ} {g : ℕ → α} (h : Heap cmp f 1 i)
    (hg : ∀ k, 1 ≤ k → g k = f (Equiv.swap 1 i k)) : Sifting cmp g 1 (i - 1) 1 where
  except := fun c hc hcnt hc1 => by
    rw [hg c (by omega), hg (c / 2) (by omega), Equiv.swap_apply_of_ne_of_ne (by omega) (by omega),
      Equiv.swap_apply_of_ne_of_ne (by omega) (by omega)]
    exact h c hc (by omega)
  grand := fun hle => absurd hle (by omega)

/-- In a heap from 1 every element is at most the root. By strong induction on the
position, through its parent. -/
theorem Heap.le_root {S : α → Prop} (hc : IsComparator cmp S) {cnt : ℕ}
    (hS : ∀ k, 1 ≤ k → k ≤ cnt → S (f k)) (h : Heap cmp f 1 cnt) :
    ∀ k, 1 ≤ k → k ≤ cnt → cmp (f k) (f 1) ≤ 0 := by
  intro k
  induction k using Nat.strongRecOn with
  | _ k ih =>
      intro hk hkcnt
      rcases Nat.lt_or_ge k 2 with hlt | hge
      · obtain rfl : k = 1 := by omega
        exact hc.refl (hS 1 (Nat.le_refl 1) hkcnt)
      · have hup := ih (k / 2) (by omega) (by omega) (by omega)
        exact hc.trans _ _ _ (hS k hk hkcnt) (hS (k / 2) (by omega) (by omega))
          (hS 1 (Nat.le_refl 1) (by omega)) (h k hge hkcnt) hup

end Heap

/-! ## The sorted end of the array -/

section Sorted

variable (cmp : α → α → Int) (f : ℕ → α)

/-- The positions after `k` up to `cnt` are in order, and each is at least every position
from 1 to `k`. -/
structure SortedAbove (k cnt : ℕ) : Prop where
  sorted : ∀ j l, k < j → j ≤ l → l ≤ cnt → cmp (f j) (f l) ≤ 0
  below : ∀ j l, 1 ≤ j → j ≤ k → k < l → l ≤ cnt → cmp (f j) (f l) ≤ 0

variable {cmp f}

theorem sortedAbove_self (cnt : ℕ) : SortedAbove cmp f cnt cnt where
  sorted := fun _ _ hj hjl hl => absurd (Nat.lt_of_lt_of_le hj (Nat.le_trans hjl hl)) (Nat.lt_irrefl _)
  below := fun _ _ _ _ hl hlc => absurd (Nat.lt_of_lt_of_le hl hlc) (Nat.lt_irrefl _)

/-- The root of the heap `1 ..= i` swapped with position `i`: the sorted end grows by one. -/
theorem SortedAbove.swap_root {S : α → Prop} (hc : IsComparator cmp S) {i cnt : ℕ} {g : ℕ → α}
    (hS : ∀ k, 1 ≤ k → k ≤ cnt → S (f k)) (hheap : Heap cmp f 1 i) (hs : SortedAbove cmp f i cnt)
    (hi : 2 ≤ i) (hicnt : i ≤ cnt) (hg : ∀ k, 1 ≤ k → g k = f (Equiv.swap 1 i k)) :
    SortedAbove cmp g (i - 1) cnt := by
  have hroot := hheap.le_root hc (fun k hk hki => hS k hk (by omega))
  have hgi : g i = f 1 := by rw [hg i (by omega), Equiv.swap_apply_right]
  have hgo : ∀ k, i < k → g k = f k := fun k hk => by
    rw [hg k (by omega), Equiv.swap_apply_of_ne_of_ne (by omega) (by omega)]
  constructor
  · intro j l hj hjl hl
    rcases Nat.lt_or_ge i j with hij | hij
    · rw [hgo j hij, hgo l (by omega)]
      exact hs.sorted j l hij hjl hl
    · obtain rfl : j = i := by omega
      rw [hgi]
      rcases Nat.lt_or_ge j l with hjl' | hjl'
      · rw [hgo l hjl']
        exact hs.below 1 l (Nat.le_refl 1) (by omega) hjl' hl
      · obtain rfl : l = j := by omega
        rw [hgi]
        exact hc.refl (hS 1 (Nat.le_refl 1) (by omega))
  · intro j l hj hji hl hlc
    -- the element now at `j` was at `Equiv.swap 1 i j`, inside the heap
    have hj' : 1 ≤ Equiv.swap 1 i j ∧ Equiv.swap 1 i j ≤ i := by
      rcases Nat.lt_or_ge 1 j with h1 | h1
      · rw [Equiv.swap_apply_of_ne_of_ne (by omega) (by omega)]
        omega
      · obtain rfl : j = 1 := by omega
        rw [Equiv.swap_apply_left]
        omega
    rw [hg j hj]
    rcases Nat.lt_or_ge i l with hil | hil
    · rw [hgo l hil]
      exact hs.below _ l hj'.1 hj'.2 hil hlc
    · obtain rfl : l = i := by omega
      rw [hgi]
      exact hroot _ hj'.1 hj'.2

/-- `SortedAbove` depends on the positions up to `k` only through the elements there. -/
theorem SortedAbove.of_perm {k cnt : ℕ} {g : ℕ → α} (hs : SortedAbove cmp f k cnt)
    (hsame : ∀ l, k < l → g l = f l)
    (hfrom : ∀ j, 1 ≤ j → j ≤ k → ∃ j', 1 ≤ j' ∧ j' ≤ k ∧ g j = f j') : SortedAbove cmp g k cnt where
  sorted := fun j l hj hjl hl => by
    rw [hsame j hj, hsame l (by omega)]
    exact hs.sorted j l hj hjl hl
  below := fun j l hj hjk hl hlc => by
    obtain ⟨j', hj'1, hj'k, hgj⟩ := hfrom j hj hjk
    rw [hgj, hsame l hl]
    exact hs.below j' l hj'1 hj'k hl hlc

/-- Sorted above 1: the whole of `1 ..= cnt` is in order. -/
theorem SortedAbove.pairwise {cnt : ℕ} (hs : SortedAbove cmp f 1 cnt) :
    ((List.range' 1 cnt).map f).Pairwise fun a b => cmp a b ≤ 0 := by
  rw [List.pairwise_map]
  refine List.Pairwise.imp_of_mem ?_ List.pairwise_lt_range'
  intro j l hj hl hjl
  rw [List.mem_range'_1] at hj hl
  rcases Nat.lt_or_ge 1 j with h1 | h1
  · exact hs.sorted j l h1 (by omega) (by omega)
  · exact hs.below j l (by omega) (by omega) (by omega) (by omega)

end Sorted

/-! ## Permutations of the positions -/

section Perm

variable {f g : ℕ → α}

/-- Swapping two positions of `1 ..= n` permutes the elements there. -/
theorem perm_swap {n a b : ℕ} (ha : 1 ≤ a ∧ a ≤ n) (hb : 1 ≤ b ∧ b ≤ n)
    (hg : ∀ k, 1 ≤ k → g k = f (Equiv.swap a b k)) :
    ((List.range' 1 n).map g).Perm ((List.range' 1 n).map f) := by
  have hmap : (List.range' 1 n).map g = ((List.range' 1 n).map (Equiv.swap a b)).map f := by
    rw [List.map_map]
    apply List.map_congr_left
    intro k hk
    rw [List.mem_range'_1] at hk
    exact hg k (by omega)
  rw [hmap]
  apply List.Perm.map
  -- the swap maps the positions onto themselves
  rw [List.perm_ext_iff_of_nodup (List.Nodup.map (Equiv.injective _) List.nodup_range')
    List.nodup_range']
  intro x
  rw [List.mem_map, List.mem_range'_1]
  constructor
  · rintro ⟨y, hy, rfl⟩
    rw [List.mem_range'_1] at hy
    by_cases hya : y = a
    · subst hya
      rw [Equiv.swap_apply_left]
      omega
    by_cases hyb : y = b
    · subst hyb
      rw [Equiv.swap_apply_right]
      omega
    rw [Equiv.swap_apply_of_ne_of_ne hya hyb]
    omega
  · intro hx
    refine ⟨Equiv.swap a b x, ?_, Equiv.swap_apply_self _ _ _⟩
    rw [List.mem_range'_1]
    by_cases hxa : x = a
    · subst hxa
      rw [Equiv.swap_apply_left]
      omega
    by_cases hxb : x = b
    · subst hxb
      rw [Equiv.swap_apply_right]
      omega
    rw [Equiv.swap_apply_of_ne_of_ne hxa hxb]
    omega

/-- A permutation of `1 ..= k` that leaves every later position alone permutes
`1 ..= n` for every `n` from `k`. -/
theorem perm_extend {k n : ℕ} (hkn : k ≤ n)
    (hperm : ((List.range' 1 k).map g).Perm ((List.range' 1 k).map f))
    (hsame : ∀ l, k < l → g l = f l) :
    ((List.range' 1 n).map g).Perm ((List.range' 1 n).map f) := by
  obtain ⟨d, rfl⟩ := Nat.exists_eq_add_of_le hkn
  rw [← List.range'_append, List.map_append, List.map_append]
  have htail : (List.range' (1 + 1 * k) d).map g = (List.range' (1 + 1 * k) d).map f := by
    apply List.map_congr_left
    intro l hl
    rw [List.mem_range'] at hl
    obtain ⟨t, _, rfl⟩ := hl
    exact hsame _ (by omega)
  rw [htail]
  exact hperm.append_right _

/-- Every element of a permutation of `1 ..= k` is at some position of `1 ..= k`. -/
theorem exists_of_perm {k : ℕ} (hperm : ((List.range' 1 k).map g).Perm ((List.range' 1 k).map f))
    {j : ℕ} (hj : 1 ≤ j) (hjk : j ≤ k) : ∃ j', 1 ≤ j' ∧ j' ≤ k ∧ g j = f j' := by
  have hmem : g j ∈ (List.range' 1 k).map f := by
    apply hperm.subset
    rw [List.mem_map]
    exact ⟨j, by rw [List.mem_range'_1]; omega, rfl⟩
  obtain ⟨j', hj', hfj⟩ := List.mem_map.mp hmem
  rw [List.mem_range'_1] at hj'
  exact ⟨j', by omega, by omega, hfj.symm⟩

end Perm

end HeapOrder
