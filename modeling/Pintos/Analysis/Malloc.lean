import Pintos.Model.Malloc

/-!
# Big blocks and the size arithmetic of `malloc` and `calloc`

A request larger than every descriptor's blocks takes whole pages:
`DIV_ROUND_UP (size + sizeof *a, PGSIZE)` of them, computed in `size_t`, with the block
just past the arena header at the start of the first page. `block_size` then reports
`PGSIZE * page_cnt - pg_ofs (block)`.

As long as `size + sizeof *a + PGSIZE - 1` does not wrap, that is at least `size`
(`size_le_blockSize_malloc_of_big`). When it wraps the page count is zero or one: zero makes
`palloc_get_multiple` fail, and one gives every request from `SIZE_MAX - 10` up a block of
4084 bytes (`blockSize_malloc_of_wrap`). `calloc`'s guard is exact when the product fits
(`calloc_of_lt`) but lets some wrapped products through.
-/

set_option autoImplicit false

namespace Pintos.Malloc

open Pintos.Bitmap

@[simp] theorem arenaSize_toNat : arenaSize.toNat = 12 := rfl

/-- A page that `palloc_get_multiple` hands out starts a run of the pool's pages, which the
pool's bitmap now marks used. -/
theorem pallocGetMultiple_some {pool pool' : Pool} {pageCnt : UInt32} {a : Nat}
    (h : pallocGetMultiple pool pageCnt = (pool', some a)) :
    pageCnt ≠ 0 ∧ ∃ idx, a = pool.base + PGSIZE * idx ∧
      idx + pageCnt.toNat ≤ pool.usedMap.length ∧
      pool' = { pool with usedMap := bitmapSetMultiple pool.usedMap idx pageCnt.toNat true } := by
  unfold pallocGetMultiple at h
  split_ifs at h with h0
  · simp at h
  refine ⟨h0, ?_⟩
  unfold bitmapScanAndFlip at h
  cases hs : bitmapScan pool.usedMap 0 pageCnt.toNat false with
  | none => simp [hs] at h
  | some idx =>
    simp only [hs, Bool.not_false, Prod.mk.injEq, Option.some.injEq] at h
    obtain ⟨rfl, rfl⟩ := h
    obtain ⟨-, hfit, -⟩ := bitmapScan_spec hs
    exact ⟨idx, rfl, hfit, rfl⟩

/-- The big-block path of `malloc` (malloc.c:105-122): a request larger than every
descriptor's blocks is served by `palloc_get_multiple` alone, and its arena records the page
count. -/
theorem malloc_some_of_big {h h' : Heap} {size : UInt32} {b : Nat}
    (hbig : ∀ d ∈ h.descs, d.blockSize < size) (hm : malloc h size = (h', some b)) :
    ∃ a, pallocGetMultiple h.pool ((size + arenaSize + 4096 - 1) / 4096) = (h'.pool, some a) ∧
      b = a + arenaSize.toNat ∧ h'.descs = h.descs ∧
      h'.arenas = Function.update h.arenas a
        (some ⟨none, (size + arenaSize + 4096 - 1) / 4096⟩) := by
  have hnone : h.descs.findIdx? (fun d => decide (size ≤ d.blockSize)) = none := by
    rw [List.findIdx?_eq_none_iff]
    intro d hd
    simpa using hbig d hd
  unfold malloc at hm
  split_ifs at hm with h0
  · simp at hm
  simp only [hnone] at hm
  cases hp : pallocGetMultiple h.pool ((size + arenaSize + 4096 - 1) / 4096) with
  | mk pool r =>
    cases r with
    | none => simp [hp] at hm
    | some a =>
      simp only [hp, Prod.mk.injEq, Option.some.injEq] at hm
      obtain ⟨rfl, rfl⟩ := hm
      exact ⟨a, rfl, rfl, rfl, rfl⟩

/-- In a pool of whole pages a big block sits 12 bytes into its first page, and
`block_size` counts the pages of its arena less that offset. -/
theorem blockSize_malloc_of_big {h h' : Heap} {size : UInt32} {b : Nat}
    (hbig : ∀ d ∈ h.descs, d.blockSize < size) (hbase : pgOfs h.pool.base = 0)
    (hm : malloc h size = (h', some b)) :
    blockSize h' b = some (4096 * ((size + arenaSize + 4096 - 1) / 4096) - 12) := by
  obtain ⟨a, hp, rfl, -, harenas⟩ := malloc_some_of_big hbig hm
  obtain ⟨-, idx, rfl, -, -⟩ := pallocGetMultiple_some hp
  simp only [pgOfs, PGSIZE_eq] at hbase
  -- the block is 12 bytes into a page-aligned arena
  have hofs : pgOfs (h.pool.base + 4096 * idx + 12) = 12 := by
    simp only [pgOfs, PGSIZE_eq]
    omega
  have hrd : pgRoundDown (h.pool.base + 4096 * idx + 12) = h.pool.base + 4096 * idx := by
    simp only [pgRoundDown, PGSIZE_eq]
    omega
  simp [blockSize, blockToArena, hrd, hofs, harenas]

/-- `DIV_ROUND_UP (size + sizeof *a, PGSIZE)` in `size_t`: the sum is taken modulo
`2 ^ 32` before the division. -/
theorem toNat_pageCnt (size : UInt32) :
    ((size + arenaSize + 4096 - 1) / 4096).toNat = (size.toNat + 4107) % 2 ^ 32 / 4096 := by
  rw [UInt32.toNat_div]
  simp only [UInt32.toNat_sub, UInt32.toNat_add, arenaSize_toNat, UInt32.reduceToNat]
  omega

/-- A big request whose page count does not wrap gets a block of at least its size. -/
theorem size_le_blockSize_malloc_of_big {h h' : Heap} {size : UInt32} {b : Nat}
    (hbig : ∀ d ∈ h.descs, d.blockSize < size) (hbase : pgOfs h.pool.base = 0)
    (hfit : size.toNat + 4107 < 2 ^ 32) (hm : malloc h size = (h', some b)) :
    ∃ n, blockSize h' b = some n ∧ size ≤ n := by
  refine ⟨_, blockSize_malloc_of_big hbig hbase hm, ?_⟩
  have hp := toNat_pageCnt size
  rw [Nat.mod_eq_of_lt hfit] at hp
  generalize (size + arenaSize + 4096 - 1) / 4096 = p at hp
  -- `PGSIZE * page_cnt` stays below `2 ^ 32` and exceeds the header
  have hmul : (4096 * p).toNat = 4096 * ((size.toNat + 4107) / 4096) := by
    rw [UInt32.toNat_mul, hp]
    simp only [UInt32.reduceToNat]
    omega
  have hsub : (4096 * p - 12).toNat = 4096 * ((size.toNat + 4107) / 4096) - 12 := by
    rw [UInt32.toNat_sub_of_le _ _ (by rw [UInt32.le_iff_toNat_le, hmul]; simp; omega), hmul]
    rfl
  rw [UInt32.le_iff_toNat_le, hsub]
  omega

/-- A big request whose page count wraps and that still gets a block gets one page: 4084
bytes, less than it asked for. -/
theorem blockSize_malloc_of_wrap {h h' : Heap} {size : UInt32} {b : Nat}
    (hbig : ∀ d ∈ h.descs, d.blockSize < size) (hbase : pgOfs h.pool.base = 0)
    (hwrap : 2 ^ 32 ≤ size.toNat + 4107) (hm : malloc h size = (h', some b)) :
    blockSize h' b = some 4084 ∧ 4084 < size := by
  have hs := size.toNat_lt
  obtain ⟨a, hp, -⟩ := malloc_some_of_big hbig hm
  have hcnt := (pallocGetMultiple_some hp).1
  -- past `2 ^ 32` less than a page is left: the count is zero or one
  have hone : (size + arenaSize + 4096 - 1) / 4096 = 1 := by
    rw [← UInt32.toNat_inj, toNat_pageCnt]
    rw [Ne, ← UInt32.toNat_inj, toNat_pageCnt] at hcnt
    simp only [UInt32.reduceToNat] at hcnt ⊢
    omega
  refine ⟨?_, ?_⟩
  · rw [blockSize_malloc_of_big hbig hbase hm, hone]
    rfl
  · rw [UInt32.lt_iff_toNat_lt]
    simp only [UInt32.reduceToNat]
    omega

/-- On a freshly booted heap `malloc (SIZE_MAX)` succeeds, with a block of 4084 bytes. -/
theorem malloc_size_max_undersized :
    (malloc (Heap.boot 0xC0100000 1) 0xFFFFFFFF).2 = some 0xC010000C ∧
      blockSize (malloc (Heap.boot 0xC0100000 1) 0xFFFFFFFF).1 0xC010000C = some 4084 ∧
      (4084 : UInt32) < 0xFFFFFFFF := by
  have hm : (malloc (Heap.boot 0xC0100000 1) 0xFFFFFFFF).2 = some 0xC010000C := by decide
  exact ⟨hm, blockSize_malloc_of_wrap (by decide) (by decide) (by decide) (Prod.ext rfl hm)⟩

/-- When the product fits in `size_t` the guard of `calloc` lets it through, and `calloc` is
`malloc` of the exact product. -/
theorem calloc_of_lt (h : Heap) {a b : UInt32} (hab : a.toNat * b.toNat < 2 ^ 32) :
    calloc h a b = malloc h (a * b) ∧ (a * b).toNat = a.toNat * b.toNat := by
  have hprod : (a * b).toNat = a.toNat * b.toNat := by
    rw [UInt32.toNat_mul, Nat.mod_eq_of_lt hab]
  refine ⟨?_, hprod⟩
  unfold calloc
  dsimp only
  split_ifs with hg
  · -- the guard fires only on a zero factor, where `malloc (0)` is null too
    have hz : a * b = 0 := by
      rw [UInt32.lt_iff_toNat_lt, UInt32.lt_iff_toNat_lt, hprod] at hg
      rw [← UInt32.toNat_inj, hprod, UInt32.toNat_zero]
      rcases hg with hg | hg
      · exact Nat.eq_zero_of_not_pos fun hp => absurd hg
          (not_lt.mpr (Nat.le_mul_of_pos_right _ (Nat.pos_of_mul_pos_left hp)))
      · exact Nat.eq_zero_of_not_pos fun hp => absurd hg
          (not_lt.mpr (Nat.le_mul_of_pos_left _ (Nat.pos_of_mul_pos_right hp)))
    simp [hz, malloc]
  · rfl

/-- `calloc (65537, 65537)` on a heap of 33 free pages: the product 4295098369 wraps to
131073, which passes the guard, and the block is 135156 bytes. -/
theorem calloc_wrapped_product_accepted :
    (calloc (Heap.boot 0xC0100000 33) 65537 65537).2 = some 0xC010000C ∧
      blockSize (calloc (Heap.boot 0xC0100000 33) 65537 65537).1 0xC010000C = some 135156 ∧
      2 ^ 32 - 1 < 65537 * 65537 ∧ 135156 < 65537 * 65537 := by
  decide

end Pintos.Malloc
