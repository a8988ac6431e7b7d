import Pintos.Model.Malloc

/-!
# Page directories (`userprog/pagedir.c`, `threads/pte.h`)

A page directory is a page of 1024 page-directory entries (PDEs); a present PDE points to a
page table, a page of 1024 page-table entries (PTEs); a present PTE points to a frame. Both
kinds of entry are 32-bit words: the physical address of a page in the top 20 bits and the
flags `PTE_P`, `PTE_W`, `PTE_U`, `PTE_A`, `PTE_D` in the low ones (pte.h:59-69).

Memory is kept in words: `mem page i` is word `i` of the page at kernel virtual address
`page`, so `pd + pd_no (vaddr)` is `mem pd (pdNo vaddr)` and `&pt[pt_no (vaddr)]` is the pair
`(pt, ptNo vaddr)`. The page allocator is palloc's two pools (palloc.c:69-140), each a base
address and a `used_map`; `pagedir.c` takes its pages from the kernel pool, and
`palloc_free_page` finds the pool a page came from by its address. A failed `ASSERT` or
`NOT_REACHED` is the `none` result. `invalidate_pagedir` only reloads the CPU's page
directory base register, which has no counterpart here.
-/

set_option autoImplicit false

namespace Pintos.Pagedir

open Pintos.Bitmap Pintos.Malloc

/-! ## `pte.h` -/

/-- `BITMASK (SHIFT, CNT)`: `CNT` one bits from bit `SHIFT` up. -/
def bitmask (shift cnt : Nat) : Nat := ((1 <<< cnt) - 1) <<< shift

def PTSHIFT : Nat := PGBITS
def PTBITS : Nat := 10
def PTMASK : Nat := bitmask PTSHIFT PTBITS
def PDSHIFT : Nat := PTSHIFT + PTBITS

/-- `pt_no (va)`: the index of `va`'s entry in its page table (bits 12:21). -/
def ptNo (va : Nat) : Nat := (va &&& PTMASK) >>> PTSHIFT

/-- `pd_no (va)`: the index of `va`'s entry in the page directory (bits 22:31). -/
def pdNo (va : Nat) : Nat := va >>> PDSHIFT

def PTE_ADDR : UInt32 := 0xfffff000
def PTE_P : UInt32 := 0x1
def PTE_W : UInt32 := 0x2
def PTE_U : UInt32 := 0x4
def PTE_A : UInt32 := 0x20
def PTE_D : UInt32 := 0x40

/-- `pde_create (pt)`: a present, writable user PDE for page table `pt`. -/
def pdeCreate (pt : Nat) : UInt32 := (vtop pt).toUInt32 ||| PTE_U ||| PTE_P ||| PTE_W

/-- `pde_get_pt (pde)`: the page table a PDE points to. -/
def pdeGetPt (pde : UInt32) : Nat := ptov (pde &&& PTE_ADDR).toNat

/-- `pte_create_kernel (page, writable)`. -/
def pteCreateKernel (page : Nat) (writable : Bool) : UInt32 :=
  (vtop page).toUInt32 ||| PTE_P ||| (if writable then PTE_W else 0)

/-- `pte_create_user (page, writable)`. -/
def pteCreateUser (page : Nat) (writable : Bool) : UInt32 :=
  pteCreateKernel page writable ||| PTE_U

/-- `pte_get_page (pte)`: the page a PTE points to. -/
def pteGetPage (pte : UInt32) : Nat := ptov (pte &&& PTE_ADDR).toNat

/-! ## Memory and the page allocator -/

/-- What `pagedir.c` reads and writes: kernel memory in words, palloc's two pools,
`init_page_dir` and `init_ram_pages`. -/
structure Machine where
  mem : Nat → Nat → UInt32
  kernelPool : Pool
  userPool : Pool
  initPageDir : Nat
  initRamPages : Nat

namespace Machine

variable (m : Machine)

/-- `*(page + i) = w`. -/
def write (page i : Nat) (w : UInt32) : Machine :=
  { m with mem := Function.update m.mem page (Function.update (m.mem page) i w) }

/-- `palloc_get_page (flags)` from the kernel pool, `PAL_ZERO` when `zero`: the first free
page, filled with zeros for `PAL_ZERO`, or `NULL`. -/
def pallocGetPage (zero : Bool) : Machine × Option Nat :=
  match pallocGetMultiple m.kernelPool 1 with
  | (pool, some page) =>
      ({ m with kernelPool := pool,
                mem := if zero then Function.update m.mem page fun _ => 0 else m.mem }, some page)
  | (pool, none) => ({ m with kernelPool := pool }, none)

end Machine

/-- `page_from_pool (pool, page)`: the page lies among the pool's pages. -/
def pageFromPool (pool : Pool) (page : Nat) : Bool :=
  let pageNo := pgNo page
  let startPage := pgNo pool.base
  let endPage := startPage + pool.usedMap.length
  pageNo ≥ startPage && pageNo < endPage

/-- The `ASSERT (bitmap_all (...))` and `bitmap_set_multiple` of `palloc_free_multiple` for
one page of `pool`. -/
def freeInPool (pool : Pool) (page : Nat) : Option Pool :=
  let pageIdx := pgNo page - pgNo pool.base
  if bitmapAll pool.usedMap pageIdx 1 then some (pallocFreeMultiple pool page 1) else none

namespace Machine

variable (m : Machine)

/-- `palloc_free_page (page)`: the page goes back to its pool, filled with `0xcc` bytes. -/
def pallocFreePage (page : Nat) : Option Machine :=
  if pgOfs page ≠ 0 then none
  else if page = 0 then some m
  else
    let mem := Function.update m.mem page fun _ => 0xcccccccc
    if pageFromPool m.kernelPool page then
      (freeInPool m.kernelPool page).map fun pool => { m with kernelPool := pool, mem }
    else if pageFromPool m.userPool page then
      (freeInPool m.userPool page).map fun pool => { m with userPool := pool, mem }
    else none

end Machine

/-! ## `pagedir.c` -/

/-- `pagedir_create ()`: a new page, a copy of `init_page_dir`. -/
def pagedirCreate (m : Machine) : Machine × Option Nat :=
  match m.pallocGetPage false with
  | (m, some pd) => ({ m with mem := Function.update m.mem pd (m.mem m.initPageDir) }, some pd)
  | (m, none) => (m, none)

/-- `lookup_page (pd, vaddr, create)`: the page table entry of `vaddr` as its page table and
index, or `NULL` (`none`); with `create`, a missing page table is made from a zeroed page. -/
def lookupPage (m : Machine) (pd vaddr : Nat) (create : Bool) :
    Option (Machine × Option (Nat × Nat)) :=
  if pd = 0 then none
  else if create && !isUserVaddr vaddr then none
  else if m.mem pd (pdNo vaddr) = 0 then
    if create then
      match m.pallocGetPage true with
      | (m, some pt) =>
          let m := m.write pd (pdNo vaddr) (pdeCreate pt)
          some (m, some (pdeGetPt (m.mem pd (pdNo vaddr)), ptNo vaddr))
      | (m, none) => some (m, none)
    else some (m, none)
  else some (m, some (pdeGetPt (m.mem pd (pdNo vaddr)), ptNo vaddr))

/-- `pagedir_set_page (pd, upage, kpage, writable)`: maps `upage` to `kpage`; `false` when no
page could be had for a page table. The `ASSERT (is_kernel_vaddr (vaddr))` of `vtop (kpage)`
is checked with the others. -/
def pagedirSetPage (m : Machine) (pd upage kpage : Nat) (writable : Bool) :
    Option (Machine × Bool) :=
  if pgOfs upage ≠ 0 ∨ pgOfs kpage ≠ 0 ∨ !isUserVaddr upage ∨ kpage < PHYS_BASE ∨
      ¬ vtop kpage >>> PTSHIFT < m.initRamPages ∨ pd = m.initPageDir then none
  else
    match lookupPage m pd upage true with
    | some (m, some (pt, i)) =>
        if m.mem pt i &&& PTE_P ≠ 0 then none
        else some (m.write pt i (pteCreateUser kpage writable), true)
    | some (m, none) => some (m, false)
    | none => none

/-- `pagedir_get_page (pd, uaddr)`: the kernel virtual address of `uaddr`'s byte, or `NULL`
(`none`) for an unmapped page. -/
def pagedirGetPage (m : Machine) (pd uaddr : Nat) : Option (Option Nat) :=
  if !isUserVaddr uaddr then none
  else
    match lookupPage m pd uaddr false with
    | some (m, some (pt, i)) =>
        some (if m.mem pt i &&& PTE_P ≠ 0 then some (pteGetPage (m.mem pt i) + pgOfs uaddr)
          else none)
    | some (_, none) => some none
    | none => none

/-- `pagedir_clear_page (pd, upage)`: marks `upage` not present; the other bits stay. -/
def pagedirClearPage (m : Machine) (pd upage : Nat) : Option Machine :=
  if pgOfs upage ≠ 0 ∨ !isUserVaddr upage then none
  else
    match lookupPage m pd upage false with
    | some (m, some (pt, i)) =>
        some (if m.mem pt i &&& PTE_P ≠ 0 then m.write pt i (m.mem pt i &&& ~~~PTE_P) else m)
    | some (m, none) => some m
    | none => none

/-- `pagedir_is_dirty` and `pagedir_is_accessed`: whether `vpage` has a PTE with `flag` set. -/
def isFlag (flag : UInt32) (m : Machine) (pd vpage : Nat) : Option Bool :=
  match lookupPage m pd vpage false with
  | some (m, some (pt, i)) => some (m.mem pt i &&& flag ≠ 0)
  | some (_, none) => some false
  | none => none

/-- `pagedir_set_dirty` and `pagedir_set_accessed`: sets or clears `flag` in the PTE of
`vpage`, if it has one. -/
def setFlag (flag : UInt32) (m : Machine) (pd vpage : Nat) (value : Bool) : Option Machine :=
  match lookupPage m pd vpage false with
  | some (m, some (pt, i)) =>
      some (m.write pt i (if value then m.mem pt i ||| flag else m.mem pt i &&& ~~~flag))
  | some (m, none) => some m
  | none => none

/-- `pagedir_is_dirty (pd, vpage)`. -/
def pagedirIsDirty (m : Machine) (pd vpage : Nat) : Option Bool := isFlag PTE_D m pd vpage

/-- `pagedir_set_dirty (pd, vpage, dirty)`. -/
def pagedirSetDirty (m : Machine) (pd vpage : Nat) (dirty : Bool) : Option Machine :=
  setFlag PTE_D m pd vpage dirty

/-- `pagedir_is_accessed (pd, vpage)`. -/
def pagedirIsAccessed (m : Machine) (pd vpage : Nat) : Option Bool := isFlag PTE_A m pd vpage

/-- `pagedir_set_accessed (pd, vpage, accessed)`. -/
def pagedirSetAccessed (m : Machine) (pd vpage : Nat) (accessed : Bool) : Option Machine :=
  setFlag PTE_A m pd vpage accessed

/-- The inner loop of `pagedir_destroy`: frees the page of every present PTE of `pt`. -/
def destroyTable (m : Machine) (pt : Nat) : Option Machine :=
  (List.range (PGSIZE / 4)).foldlM (fun m pte =>
    if m.mem pt pte &&& PTE_P ≠ 0 then m.pallocFreePage (pteGetPage (m.mem pt pte))
    else some m) m

/-- `pagedir_destroy (pd)`: frees the pages of the present PTEs of every user page table,
the page tables and the directory. -/
def pagedirDestroy (m : Machine) (pd : Nat) : Option Machine :=
  if pd = 0 then some m
  else if pd = m.initPageDir then none
  else do
    let m ← (List.range (pdNo PHYS_BASE)).foldlM (fun m pde =>
      if m.mem pd pde &&& PTE_P ≠ 0 then do
        let pt := pdeGetPt (m.mem pd pde)
        let m ← destroyTable m pt
        m.pallocFreePage pt
      else some m) m
    m.pallocFreePage pd

end Pintos.Pagedir
