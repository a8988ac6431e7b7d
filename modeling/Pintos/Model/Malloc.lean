import Pintos.Model.Bitmap
import Pintos.Model.Vaddr
import Mathlib.Logic.Function.Basic

/-!
# The kernel's `malloc`

`threads/malloc.c` on top of the page allocator of `threads/palloc.c`.

`size_t` is `UInt32`, so that `size + sizeof *a` and `DIV_ROUND_UP` wrap as the compiled
code does; addresses are `Nat`, and a pointer that may be null is an `Option Nat`.
`struct arena` (a `magic`, a `desc` pointer and `free_cnt`, 12 bytes) sits at the start of
its first page, so it is kept in `arenas`, keyed by that page's address; its `desc` is the
index of its descriptor, or `none` for a big block. The `struct block`s of a free list are
named by their addresses. A failed `ASSERT` in `block_to_arena` (no arena at the page of the
pointer) is `none`.

The page allocator is one pool: `palloc_get_multiple (0, page_cnt)` takes the first run of
`page_cnt` free pages from the pool's bitmap by `bitmap_scan_and_flip`
(palloc.c:69-101). What `calloc`'s `memset`, `realloc`'s `memcpy` and `free`'s debugging
`memset` write into the blocks is not modelled: none of it decides what these functions
return or which blocks are free.
-/

set_option autoImplicit false

namespace Pintos.Malloc

open Pintos.Bitmap

/-- `sizeof (struct arena)` on the 32-bit target. -/
def arenaSize : UInt32 := 12

/-- `struct desc`: the block size, the blocks of an arena and the free list. -/
structure Desc where
  blockSize : UInt32
  blocksPerArena : UInt32
  freeList : List Nat
  deriving DecidableEq, Repr

/-- `struct arena`: its descriptor (`none` for a big block) and `free_cnt`. -/
structure Arena where
  desc : Option Nat
  freeCnt : UInt32
  deriving DecidableEq, Repr

/-- A palloc pool: the address of its first page and its `used_map`. -/
structure Pool where
  base : Nat
  usedMap : List Bool
  deriving DecidableEq, Repr

/-- `malloc_init` (malloc.c:71-84): descriptors of 16, 32, ..., 1024 bytes, the sizes below
`PGSIZE / 2`. -/
def mallocInit : List Desc :=
  [16, 32, 64, 128, 256, 512, 1024].map fun blockSize =>
    { blockSize, blocksPerArena := (4096 - arenaSize) / blockSize, freeList := [] }

structure Heap where
  descs : List Desc
  arenas : Nat → Option Arena
  pool : Pool

/-- After `palloc_init` and `malloc_init`: a kernel pool of `pages` free pages from `base`,
no arena, and empty free lists. -/
def Heap.boot (base pages : Nat) : Heap :=
  ⟨mallocInit, fun _ => none, ⟨base, List.replicate pages false⟩⟩

/-- `palloc_get_multiple (0, page_cnt)` (palloc.c:69-101). -/
def pallocGetMultiple (pool : Pool) (pageCnt : UInt32) : Pool × Option Nat :=
  if pageCnt = 0 then (pool, none)
  else
    match bitmapScanAndFlip pool.usedMap 0 pageCnt.toNat false with
    | (usedMap, some pageIdx) => ({ pool with usedMap }, some (pool.base + PGSIZE * pageIdx))
    | (_, none) => (pool, none)

/-- `palloc_free_multiple (pages, page_cnt)` (palloc.c:115-140), for pages of the pool. -/
def pallocFreeMultiple (pool : Pool) (pages : Nat) (pageCnt : UInt32) : Pool :=
  if pageCnt = 0 then pool
  else { pool with usedMap :=
    bitmapSetMultiple pool.usedMap (pages / PGSIZE - pool.base / PGSIZE) pageCnt.toNat false }

/-- `arena_to_block (a, idx)` (malloc.c:283-289). -/
def arenaToBlock (a : Nat) (blockSize : UInt32) (idx : Nat) : Nat :=
  a + arenaSize.toNat + idx * blockSize.toNat

/-- `block_to_arena (b)` (malloc.c:266-279): the arena at the page of `b`. -/
def blockToArena (h : Heap) (b : Nat) : Option (Nat × Arena) :=
  (h.arenas (pgRoundDown b)).map fun a => (pgRoundDown b, a)

/-- `malloc (size)` (malloc.c:88-153). -/
def malloc (h : Heap) (size : UInt32) : Heap × Option Nat :=
  if size = 0 then (h, none)
  else
    match h.descs.findIdx? (fun d => decide (size ≤ d.blockSize)) with
    | none =>
        -- too big for every descriptor: whole pages, the size counted with the arena
        let pageCnt : UInt32 := (size + arenaSize + 4096 - 1) / 4096
        match pallocGetMultiple h.pool pageCnt with
        | (pool, none) => ({ h with pool }, none)
        | (pool, some a) =>
            let arenas := Function.update h.arenas a (some ⟨none, pageCnt⟩)
            ({ h with pool, arenas }, some (a + arenaSize.toNat))
    | some i =>
        let d := h.descs.getD i ⟨0, 0, []⟩
        -- an empty free list takes a new arena, and all its blocks
        let fresh : Option (Heap × Desc) :=
          if d.freeList = [] then
            match pallocGetMultiple h.pool 1 with
            | (_, none) => none
            | (pool, some a) =>
                let arenas := Function.update h.arenas a (some ⟨some i, d.blocksPerArena⟩)
                let blocks := (List.range d.blocksPerArena.toNat).map (arenaToBlock a d.blockSize)
                some ({ h with pool, arenas }, { d with freeList := blocks })
          else some (h, d)
        match fresh with
        | none => (h, none)
        | some (h, d) =>
            match d.freeList with
            | [] => (h, none)
            | b :: rest =>
                let a := pgRoundDown b
                let arenas := match h.arenas a with
                  | some ar => Function.update h.arenas a (some { ar with freeCnt := ar.freeCnt - 1 })
                  | none => h.arenas
                ({ h with descs := h.descs.set i { d with freeList := rest }, arenas }, some b)

/-- `block_size (block)` (malloc.c:177-185). -/
def blockSize (h : Heap) (block : Nat) : Option UInt32 :=
  (blockToArena h block).map fun (_, a) =>
    match a.desc with
    | some i => (h.descs.getD i ⟨0, 0, []⟩).blockSize
    | none => 4096 * a.freeCnt - (pgOfs block).toUInt32

/-- `free (p)` (malloc.c:217-262). -/
def free (h : Heap) (p : Option Nat) : Option Heap :=
  match p with
  | none => some h
  | some b =>
      (blockToArena h b).map fun (a, ar) =>
        match ar.desc with
        | none =>
            -- a big block: its pages go back, and the arena with them
            { h with arenas := Function.update h.arenas a none
                     pool := pallocFreeMultiple h.pool a ar.freeCnt }
        | some i =>
            let d := h.descs.getD i ⟨0, 0, []⟩
            let freeCnt := ar.freeCnt + 1
            if freeCnt ≥ d.blocksPerArena then
              -- the arena is unused: its blocks leave the free list and its page is freed
              let blocks := (List.range d.blocksPerArena.toNat).map (arenaToBlock a d.blockSize)
              { h with
                descs := h.descs.set i { d with freeList := (b :: d.freeList).filter (· ∉ blocks) }
                arenas := Function.update h.arenas a none
                pool := pallocFreeMultiple h.pool a 1 }
            else
              { h with
                descs := h.descs.set i { d with freeList := b :: d.freeList }
                arenas := Function.update h.arenas a (some { ar with freeCnt }) }

/-- `calloc (a, b)` (malloc.c:157-174). -/
def calloc (h : Heap) (a b : UInt32) : Heap × Option Nat :=
  let size := a * b
  if size < a ∨ size < b then (h, none)
  else malloc h size

/-- `realloc (old_block, new_size)` (malloc.c:193-213). -/
def realloc (h : Heap) (oldBlock : Option Nat) (newSize : UInt32) : Option (Heap × Option Nat) :=
  if newSize = 0 then (free h oldBlock).map fun h => (h, none)
  else
    match malloc h newSize, oldBlock with
    | (h, some newBlock), some old => (free h (some old)).map fun h => (h, some newBlock)
    | (h, newBlock), _ => some (h, newBlock)

end Pintos.Malloc
