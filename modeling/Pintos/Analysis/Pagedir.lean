import Pintos.Model.Pagedir
import Pintos.Analysis.Malloc
import Pintos.Lib.WordBits

/-!
# A page directory is a map from user pages to frames

The page directory of `userprog/pagedir.c` is read through one view: `pteOf m pd va`, the
page-table entry of `va`, `0` where the directory has no page table for it. Every entry
`pagedir.c` reads is that word, so `pagedir_get_page`, `pagedir_is_dirty` and
`pagedir_is_accessed` are functions of it, and every call changes it at the page it is
given and nowhere else (`Wf.setPage_spec`, `Wf.clearPage_spec`, `Wf.setFlag_spec`): making a
page table changes it nowhere, since the new table is zero.

That rests on `Wf`, kept by every call: the directory and its page tables are distinct
pages in use in the kernel pool, so a fresh page from the pool is none of them, and a write
into one table reaches no other entry. Over `Wf`, the frames of the present entries are the
finite map `A : Nat → Option Nat` of the calls that made them (`Refines`): `set_page` that
returned `true` adds its page, `clear_page` removes it.
-/

set_option autoImplicit false

namespace Pintos.Pagedir

open Pintos.Bitmap Pintos.Malloc WordBits

/-! ## Entries -/

section Entries

@[simp] theorem toNat_PTE_ADDR : PTE_ADDR.toNat = 2 ^ 12 * (2 ^ 20 - 1) := rfl

/-- The physical address of a page of kernel memory, as a word, has no flag bits. -/
theorem vtop_and_addr {page : Nat} (haligned : pgOfs page = 0) (hlt : page < 2 ^ 32) :
    (vtop page).toUInt32 &&& PTE_ADDR = (vtop page).toUInt32 := by
  have hv : vtop page < 2 ^ 32 := by unfold vtop; omega
  apply UInt32.toNat_inj.mp
  rw [UInt32.toNat_and, toNat_toUInt32 hv, toNat_PTE_ADDR]
  refine and_high_mask ?_ hv
  simp only [vtop, pgOfs, PGSIZE_eq, PHYS_BASE_eq] at haligned ⊢
  omega

/-- A word made of an address with no flag bits and flags reads back its flags. -/
theorem flags_of_or {v : UInt32} (hv : v &&& PTE_ADDR = v) (f g : UInt32)
    (hg : g &&& PTE_ADDR = 0) : (v ||| f) &&& g = f &&& g := by
  have hvg : v &&& g = 0 := by
    rw [← hv, UInt32.and_assoc, UInt32.and_comm PTE_ADDR, hg, UInt32.and_zero]
  rw [or_and, hvg, UInt32.zero_or]

/-- `pte_get_page` and `pde_get_pt` read back the page an entry was made from. -/
theorem ptov_of_or {page : Nat} (haligned : pgOfs page = 0) (hk : PHYS_BASE ≤ page)
    (hlt : page < 2 ^ 32) {f : UInt32} (hf : f &&& PTE_ADDR = 0) :
    ptov (((vtop page).toUInt32 ||| f) &&& PTE_ADDR).toNat = page := by
  have hv : vtop page < 2 ^ 32 := by unfold vtop; omega
  rw [or_and, vtop_and_addr haligned hlt, hf, UInt32.or_zero, toNat_toUInt32 hv]
  unfold ptov vtop
  omega

theorem pdeCreate_eq (pt : Nat) : pdeCreate pt = (vtop pt).toUInt32 ||| 7 := by
  rw [pdeCreate, UInt32.or_assoc, UInt32.or_assoc]
  rfl

theorem pteCreateUser_eq (page : Nat) (writable : Bool) :
    pteCreateUser page writable = (vtop page).toUInt32 ||| (if writable then 7 else 5) := by
  rw [pteCreateUser, pteCreateKernel, UInt32.or_assoc, UInt32.or_assoc]
  cases writable <;> rfl

variable {page : Nat} (haligned : pgOfs page = 0) (hlt : page < 2 ^ 32)
include haligned hlt

theorem pdeGetPt_pdeCreate (hk : PHYS_BASE ≤ page) : pdeGetPt (pdeCreate page) = page := by
  rw [pdeGetPt, pdeCreate_eq]
  exact ptov_of_or haligned hk hlt (by decide)

theorem pdeCreate_present : pdeCreate page &&& PTE_P ≠ 0 := by
  rw [pdeCreate_eq, flags_of_or (vtop_and_addr haligned hlt) _ _ (by decide)]
  decide

theorem pteGetPage_pteCreateUser (hk : PHYS_BASE ≤ page) (writable : Bool) :
    pteGetPage (pteCreateUser page writable) = page := by
  rw [pteGetPage, pteCreateUser_eq]
  exact ptov_of_or haligned hk hlt (by cases writable <;> decide)

theorem pteCreateUser_present (writable : Bool) : pteCreateUser page writable &&& PTE_P ≠ 0 := by
  rw [pteCreateUser_eq, flags_of_or (vtop_and_addr haligned hlt) _ _ (by decide)]
  cases writable <;> decide

end Entries

/-- The frame a PTE maps, if it is present. -/
def entryFrame (w : UInt32) : Option Nat :=
  if w &&& PTE_P ≠ 0 then some (pteGetPage w) else none

@[simp] theorem entryFrame_zero : entryFrame 0 = none := by decide

theorem entryFrame_pteCreateUser {page : Nat} (haligned : pgOfs page = 0)
    (hk : PHYS_BASE ≤ page) (hlt : page < 2 ^ 32) (writable : Bool) :
    entryFrame (pteCreateUser page writable) = some page := by
  rw [entryFrame, if_pos (pteCreateUser_present haligned hlt writable),
    pteGetPage_pteCreateUser haligned hlt hk]

/-- Clearing `PTE_P` unmaps the entry. -/
theorem entryFrame_clear (w : UInt32) : entryFrame (w &&& ~~~PTE_P) = none := by
  rw [entryFrame, UInt32.and_assoc, if_neg (by simp [show ~~~PTE_P &&& PTE_P = 0 by decide])]

/-- Setting or clearing a flag that is neither `PTE_P` nor an address bit keeps the frame. -/
theorem entryFrame_flag (flag : UInt32) (hP : flag &&& PTE_P = 0) (hA : flag &&& PTE_ADDR = 0)
    (hnP : ~~~flag &&& PTE_P = PTE_P) (hnA : ~~~flag &&& PTE_ADDR = PTE_ADDR) (w : UInt32)
    (value : Bool) :
    entryFrame (if value then w ||| flag else w &&& ~~~flag) = entryFrame w := by
  have hkeep : ∀ g, (flag &&& g = 0) → (~~~flag &&& g = g) →
      (if value then w ||| flag else w &&& ~~~flag) &&& g = w &&& g := by
    intro g h1 h2
    cases value
    · rw [if_neg (by simp), UInt32.and_assoc, h2]
    · rw [if_pos rfl, or_and, h1, UInt32.or_zero]
  simp only [entryFrame, pteGetPage, hkeep PTE_P hP hnP, hkeep PTE_ADDR hA hnA]

/-! ## Addresses -/

section Addresses

theorem pdNo_eq (va : Nat) : pdNo va = va / 2 ^ 22 := by
  rw [pdNo, Nat.shiftRight_eq_div_pow]
  rfl

theorem ptNo_eq (va : Nat) : ptNo va = va / 4096 % 1024 := by
  rw [ptNo, Nat.shiftRight_and_distrib, show PTMASK >>> PTSHIFT = 2 ^ 10 - 1 from rfl,
    Nat.and_two_pow_sub_one_eq_mod, Nat.shiftRight_eq_div_pow]
  rfl

theorem pgNo_eq (va : Nat) : pgNo va = va / 4096 := by
  rw [pgNo, Nat.shiftRight_eq_div_pow]
  rfl

theorem pdNo_lt {va : Nat} (h : va < 2 ^ 32) : pdNo va < 1024 := by
  rw [pdNo_eq]
  omega

/-- On 32-bit addresses, the two indices name the page. -/
theorem pgNo_eq_iff (va va' : Nat) :
    pgNo va = pgNo va' ↔ pdNo va = pdNo va' ∧ ptNo va = ptNo va' := by
  rw [pgNo_eq, pgNo_eq, pdNo_eq, pdNo_eq, ptNo_eq, ptNo_eq]
  omega

theorem pdNo_pgRoundDown (va : Nat) : pdNo (pgRoundDown va) = pdNo va := by
  rw [pdNo_eq, pdNo_eq, pgRoundDown, PGSIZE_eq]
  omega

theorem ptNo_pgRoundDown (va : Nat) : ptNo (pgRoundDown va) = ptNo va := by
  rw [ptNo_eq, ptNo_eq, pgRoundDown, PGSIZE_eq]
  omega

theorem user_lt {va : Nat} (h : isUserVaddr va = true) : va < 2 ^ 32 := by
  have hu : va < PHYS_BASE := of_decide_eq_true h
  rw [PHYS_BASE_eq] at hu
  omega

theorem isUserVaddr_pgRoundDown {va : Nat} (h : isUserVaddr va = true) :
    isUserVaddr (pgRoundDown va) = true := by
  have hu : va < PHYS_BASE := of_decide_eq_true h
  exact decide_eq_true (show pgRoundDown va < PHYS_BASE by unfold pgRoundDown; omega)

theorem pgOfs_pgRoundDown (va : Nat) : pgOfs (pgRoundDown va) = 0 := by
  simp only [pgOfs, pgRoundDown, PGSIZE_eq]
  omega

end Addresses

/-! ## The pools -/

section Pools

/-- A page of kernel virtual memory: what `vtop` and the entries of `pte.h` need. -/
structure KernelPage (page : Nat) : Prop where
  aligned : pgOfs page = 0
  kernel : PHYS_BASE ≤ page
  lt : page < 2 ^ 32

/-- `page` is a page of `pool` whose bit is set. -/
def InUse (pool : Pool) (page : Nat) : Prop :=
  ∃ idx, page = pool.base + PGSIZE * idx ∧ bitmapTest pool.usedMap idx = true

/-- A pool as `palloc_init` places it: whole pages of kernel virtual memory. -/
structure Placed (pool : Pool) : Prop where
  aligned : pool.base % PGSIZE = 0
  kernel : PHYS_BASE ≤ pool.base
  fits : pool.base + PGSIZE * pool.usedMap.length ≤ 2 ^ 32

variable {pool : Pool}

theorem lt_length_of_bitmapTest {b : List Bool} {idx : Nat} (h : bitmapTest b idx = true) :
    idx < b.length := by
  by_contra hge
  rw [bitmapTest, List.getD_eq_default _ _ (by omega)] at h
  cases h

theorem Placed.kernelPage (hp : Placed pool) {idx : Nat} (hidx : idx < pool.usedMap.length) :
    KernelPage (pool.base + PGSIZE * idx) := by
  have hfit := hp.fits
  have hal := hp.aligned
  have hk := hp.kernel
  have hmul : PGSIZE * idx + PGSIZE ≤ PGSIZE * pool.usedMap.length := by
    rw [← Nat.mul_succ]
    exact Nat.mul_le_mul_left _ hidx
  simp only [PGSIZE_eq] at hfit hal hmul ⊢
  exact ⟨by simp only [pgOfs, PGSIZE_eq]; omega, by omega, by omega⟩

theorem InUse.kernelPage (hp : Placed pool) {page : Nat} (h : InUse pool page) :
    KernelPage page := by
  obtain ⟨idx, rfl, hidx⟩ := h
  exact hp.kernelPage (lt_length_of_bitmapTest hidx)

/-- Setting or clearing one bit of the pool changes whether that one page is in use. -/
theorem inUse_set {idx : Nat} (hidx : idx < pool.usedMap.length) (v : Bool) (q : Nat) :
    InUse { pool with usedMap := bitmapSetMultiple pool.usedMap idx 1 v } q ↔
      (q = pool.base + PGSIZE * idx ∧ v = true) ∨ (q ≠ pool.base + PGSIZE * idx ∧ InUse pool q) := by
  have hinj : ∀ j, pool.base + PGSIZE * j = pool.base + PGSIZE * idx ↔ j = idx := by
    intro j
    simp only [PGSIZE_eq]
    omega
  simp only [InUse, bitmapTest_bitmapSetMultiple]
  constructor
  · rintro ⟨j, rfl, hj⟩
    by_cases hji : j = idx
    · subst hji
      left
      simpa [hidx] using hj
    · right
      refine ⟨fun h => hji ((hinj j).mp h), j, rfl, ?_⟩
      rwa [if_neg (by omega)] at hj
  · rintro (⟨rfl, rfl⟩ | ⟨hne, j, rfl, hj⟩)
    · exact ⟨idx, rfl, by simp [hidx]⟩
    · have hji : j ≠ idx := fun h => hne ((hinj j).mpr h)
      exact ⟨j, rfl, by rwa [if_neg (by omega)]⟩

/-- `palloc_get_page` hands out a page that was free and marks it used. -/
theorem pallocGetMultiple_one_some {pool' : Pool} {page : Nat}
    (h : pallocGetMultiple pool 1 = (pool', some page)) :
    ∃ idx, idx < pool.usedMap.length ∧ page = pool.base + PGSIZE * idx ∧
      bitmapTest pool.usedMap idx = false ∧
      pool' = { pool with usedMap := bitmapSetMultiple pool.usedMap idx 1 true } := by
  unfold pallocGetMultiple bitmapScanAndFlip at h
  rw [if_neg (by decide), show (1 : UInt32).toNat = 1 from rfl] at h
  cases hs : bitmapScan pool.usedMap 0 1 false with
  | none => simp [hs] at h
  | some idx =>
    simp only [hs, Bool.not_false, Prod.mk.injEq, Option.some.injEq] at h
    obtain ⟨rfl, rfl⟩ := h
    obtain ⟨-, hfit, hfree⟩ := bitmapScan_spec hs
    exact ⟨idx, by simpa using hfit, rfl, by simpa using hfree 0 (by decide), rfl⟩

/-- `palloc_get_page` finds no page only in a full pool, and leaves it as it was. -/
theorem pallocGetMultiple_one_none {pool' : Pool}
    (h : pallocGetMultiple pool 1 = (pool', none)) : pool' = pool := by
  unfold pallocGetMultiple bitmapScanAndFlip at h
  rw [if_neg (by decide), show (1 : UInt32).toNat = 1 from rfl] at h
  cases hs : bitmapScan pool.usedMap 0 1 false with
  | none => simp only [hs, Prod.mk.injEq] at h; exact h.1.symm
  | some idx => simp [hs] at h

/-- Freeing a page in use clears its bit. -/
theorem freeInPool_of_inUse (hp : Placed pool) {page : Nat} (h : InUse pool page) :
    ∃ idx, idx < pool.usedMap.length ∧ page = pool.base + PGSIZE * idx ∧
      freeInPool pool page = some { pool with usedMap := bitmapSetMultiple pool.usedMap idx 1 false } := by
  obtain ⟨idx, rfl, hidx⟩ := h
  have hal := hp.aligned
  have hpg : pgNo (pool.base + PGSIZE * idx) - pgNo pool.base = idx := by
    rw [pgNo_eq, pgNo_eq]
    simp only [PGSIZE_eq] at hal ⊢
    omega
  refine ⟨idx, lt_length_of_bitmapTest hidx, rfl, ?_⟩
  have hall : bitmapAll pool.usedMap idx 1 = true := by
    simp [bitmapAll, bitmapContains, hidx]
  rw [freeInPool, hpg, if_pos hall, pallocFreeMultiple, if_neg (by decide)]
  congr 3
  simp only [PGSIZE_eq] at hal ⊢
  omega

/-- Freeing a page of the pool that is not in use fails the `ASSERT`. -/
theorem freeInPool_of_not_inUse (hp : Placed pool) {idx : Nat}
    (h : ¬ InUse pool (pool.base + PGSIZE * idx)) :
    freeInPool pool (pool.base + PGSIZE * idx) = none := by
  have hal := hp.aligned
  have hpg : pgNo (pool.base + PGSIZE * idx) - pgNo pool.base = idx := by
    rw [pgNo_eq, pgNo_eq]
    simp only [PGSIZE_eq] at hal ⊢
    omega
  have hfree : bitmapTest pool.usedMap idx = false := by
    by_contra hb
    exact h ⟨idx, rfl, by simpa using hb⟩
  have hall : bitmapAll pool.usedMap idx 1 = false := by
    simp [bitmapAll, bitmapContains, hfree]
  rw [freeInPool, hpg, if_neg (by simp [hall])]

/-- `page_from_pool`: the pages of a placed pool are its own. -/
theorem pageFromPool_iff (hp : Placed pool) (page : Nat) :
    pageFromPool pool page = true ↔
      ∃ idx, idx < pool.usedMap.length ∧ pool.base + PGSIZE * idx ≤ page ∧
        page < pool.base + PGSIZE * idx + PGSIZE := by
  have hal := hp.aligned
  simp only [pageFromPool, pgNo_eq, Bool.and_eq_true, decide_eq_true_eq, ge_iff_le]
  simp only [PGSIZE_eq] at hal ⊢
  constructor
  · rintro ⟨h1, h2⟩
    exact ⟨page / 4096 - pool.base / 4096, by omega, by omega, by omega⟩
  · rintro ⟨idx, hidx, h1, h2⟩
    omega

end Pools

/-! ## The machine and the view -/

/-- What `palloc_init` and `start.S` leave: two placed pools, the user pool above the kernel
pool, and at most 64 MB of RAM (start.S:44). -/
structure Layout (m : Machine) : Prop where
  kernel : Placed m.kernelPool
  user : Placed m.userPool
  apart : m.kernelPool.base + PGSIZE * m.kernelPool.usedMap.length ≤ m.userPool.base
  ram : m.initRamPages ≤ 0x10000

/-- The page table `pd` has for `va`, if any. -/
def tableOf (m : Machine) (pd va : Nat) : Option Nat :=
  if m.mem pd (pdNo va) = 0 then none else some (pdeGetPt (m.mem pd (pdNo va)))

/-- The page-table entry of `va` in `pd`, `0` where `pd` has no page table for it. -/
def pteOf (m : Machine) (pd va : Nat) : UInt32 :=
  match tableOf m pd va with
  | some pt => m.mem pt (ptNo va)
  | none => 0

/-- A page directory as `pagedir_create` makes it and every call keeps it: a page in use in
the kernel pool, not `init_page_dir`, whose non-zero entries are present PDEs of distinct
page tables, pages in use in the kernel pool other than the directory. -/
structure Wf (m : Machine) (pd : Nat) : Prop where
  layout : Layout m
  used : InUse m.kernelPool pd
  ne_init : pd ≠ m.initPageDir
  present : ∀ i < 1024, m.mem pd i ≠ 0 → m.mem pd i &&& PTE_P ≠ 0
  table_used : ∀ i < 1024, m.mem pd i ≠ 0 → InUse m.kernelPool (pdeGetPt (m.mem pd i))
  table_ne : ∀ i < 1024, m.mem pd i ≠ 0 → pdeGetPt (m.mem pd i) ≠ pd
  table_inj : ∀ i < 1024, ∀ j < 1024, m.mem pd i ≠ 0 → m.mem pd j ≠ 0 →
    pdeGetPt (m.mem pd i) = pdeGetPt (m.mem pd j) → i = j

section View

variable {m m' : Machine} {pd : Nat}

theorem pallocGetPage_of_some {pool : Pool} {page : Nat} (zero : Bool)
    (h : pallocGetMultiple m.kernelPool 1 = (pool, some page)) :
    m.pallocGetPage zero =
      ({ m with kernelPool := pool,
                mem := if zero then Function.update m.mem page fun _ => 0 else m.mem },
        some page) := by
  rw [Machine.pallocGetPage, h]

theorem pallocGetPage_of_none {pool : Pool} (zero : Bool)
    (h : pallocGetMultiple m.kernelPool 1 = (pool, none)) : m.pallocGetPage zero = (m, none) := by
  rw [Machine.pallocGetPage, h, pallocGetMultiple_one_none h]

theorem Wf.pd_ne_zero (hw : Wf m pd) : pd ≠ 0 := by
  have := (hw.used.kernelPage hw.layout.kernel).kernel
  rw [PHYS_BASE_eq] at this
  omega

/-- Without `create`, `lookup_page` reads the view. -/
theorem lookupPage_of_not_create (hpd : pd ≠ 0) (va : Nat) :
    lookupPage m pd va false = some (m, (tableOf m pd va).map fun pt => (pt, ptNo va)) := by
  unfold lookupPage tableOf
  rw [if_neg hpd, if_neg (by simp)]
  split <;> simp_all

theorem pteOf_of_tableOf {va pt : Nat} (h : tableOf m pd va = some pt) :
    pteOf m pd va = m.mem pt (ptNo va) := by
  rw [pteOf, h]

theorem pteOf_of_tableOf_none {va : Nat} (h : tableOf m pd va = none) : pteOf m pd va = 0 := by
  rw [pteOf, h]

theorem pteOf_pgRoundDown (va : Nat) : pteOf m pd (pgRoundDown va) = pteOf m pd va := by
  simp only [pteOf, tableOf, pdNo_pgRoundDown, ptNo_pgRoundDown]

/-- The table of an address is one of the directory's entries. -/
theorem tableOf_eq_some {va pt : Nat} (h : tableOf m pd va = some pt) :
    m.mem pd (pdNo va) ≠ 0 ∧ pdeGetPt (m.mem pd (pdNo va)) = pt := by
  unfold tableOf at h
  split at h
  · cases h
  · exact ⟨‹_›, Option.some.inj h⟩

/-- Two 32-bit addresses share a page table only if they share a directory entry. -/
theorem Wf.pdNo_eq_of_tableOf (hw : Wf m pd) {va va' pt : Nat} (hva : va < 2 ^ 32)
    (hva' : va' < 2 ^ 32) (h : tableOf m pd va = some pt) (h' : tableOf m pd va' = some pt) :
    pdNo va = pdNo va' := by
  obtain ⟨hne, rfl⟩ := tableOf_eq_some h
  obtain ⟨hne', heq⟩ := tableOf_eq_some h'
  exact hw.table_inj _ (pdNo_lt hva) _ (pdNo_lt hva') hne hne' heq.symm

theorem Wf.table_ne_pd (hw : Wf m pd) {va pt : Nat} (hva : va < 2 ^ 32)
    (h : tableOf m pd va = some pt) : pt ≠ pd := by
  obtain ⟨hne, rfl⟩ := tableOf_eq_some h
  exact hw.table_ne _ (pdNo_lt hva) hne

/-- Writing a page other than the directory changes the entries of the addresses it is
the page table of, and no others. -/
theorem pteOf_update {q : Nat} (hq : q ≠ pd) (f : Nat → UInt32) (va : Nat) :
    pteOf { m with mem := Function.update m.mem q f } pd va =
      if tableOf m pd va = some q then f (ptNo va) else pteOf m pd va := by
  have htable : tableOf { m with mem := Function.update m.mem q f } pd va = tableOf m pd va := by
    simp only [tableOf, Function.update_of_ne (Ne.symm hq)]
  rw [pteOf, htable]
  cases ht : tableOf m pd va with
  | none => simp [pteOf_of_tableOf_none ht]
  | some t =>
    by_cases htq : t = q
    · subst htq
      simp
    · simp [htq, pteOf_of_tableOf ht]

/-- Every part of `Wf` is about the directory's own page and the machine's pools. -/
theorem Wf.congr (hw : Wf m pd) (hmem : m'.mem pd = m.mem pd)
    (hk : m'.kernelPool = m.kernelPool) (hu : m'.userPool = m.userPool)
    (hi : m'.initPageDir = m.initPageDir) (hr : m'.initRamPages = m.initRamPages) :
    Wf m' pd where
  layout :=
    ⟨hk ▸ hw.layout.kernel, hu ▸ hw.layout.user, hk ▸ hu ▸ hw.layout.apart, hr ▸ hw.layout.ram⟩
  used := hk ▸ hw.used
  ne_init := hi ▸ hw.ne_init
  present := by rw [hmem]; exact hw.present
  table_used := by rw [hmem, hk]; exact hw.table_used
  table_ne := by rw [hmem]; exact hw.table_ne
  table_inj := by rw [hmem]; exact hw.table_inj

theorem Wf.update (hw : Wf m pd) {q : Nat} (hq : q ≠ pd) (f : Nat → UInt32) :
    Wf { m with mem := Function.update m.mem q f } pd :=
  hw.congr (Function.update_of_ne (Ne.symm hq) _ _) rfl rfl rfl rfl

/-- A write into the page table of `u` changes the entry of `u`'s page alone. -/
theorem Wf.pteOf_write (hw : Wf m pd) {u t : Nat} (hu : u < 2 ^ 32)
    (ht : tableOf m pd u = some t) (w : UInt32) {va : Nat} (hva : va < 2 ^ 32) :
    pteOf (m.write t (ptNo u) w) pd va = if pgNo va = pgNo u then w else pteOf m pd va := by
  have htpd := hw.table_ne_pd hu ht
  have hsame : tableOf m pd va = some t ↔ pdNo va = pdNo u := by
    constructor
    · intro hva'
      exact hw.pdNo_eq_of_tableOf hva hu hva' ht
    · intro h
      simpa [tableOf, h] using ht
  rw [Machine.write, pteOf_update htpd]
  simp only [pgNo_eq_iff]
  by_cases hpd : pdNo va = pdNo u
  · have hvt := hsame.mpr hpd
    by_cases hpt : ptNo va = ptNo u
    · simp [hvt, hpd, hpt]
    · simp [hvt, hpd, hpt, pteOf_of_tableOf hvt]
  · simp [hpd, mt hsame.mp hpd]

end View

/-! ## `lookup_page` -/

section Lookup

variable {m : Machine} {pd : Nat}

/-- The machine after `lookup_page` made a page table: `Wf` holds, no entry of the view
changed (the new table is zero, and the fresh page is none of the old ones), and the table
of `u` is the new page. -/
theorem Wf.allocTable (hw : Wf m pd) {u : Nat} (h0 : m.mem pd (pdNo u) = 0)
    {pool : Pool} {pt : Nat} (halloc : pallocGetMultiple m.kernelPool 1 = (pool, some pt)) :
    let m' := ({ m with kernelPool := pool,
                        mem := Function.update m.mem pt fun _ => 0 } : Machine).write
                pd (pdNo u) (pdeCreate pt)
    Wf m' pd ∧ (∀ va, va < 2 ^ 32 → pteOf m' pd va = pteOf m pd va) ∧
      tableOf m' pd u = some pt ∧ pdeGetPt (m'.mem pd (pdNo u)) = pt := by
  intro m'
  obtain ⟨idx, hidx, hpt, hfree, rfl⟩ := pallocGetMultiple_one_some halloc
  -- the fresh page was free: it is neither the directory nor one of its tables
  have hnot : ¬ InUse m.kernelPool pt := by
    rintro ⟨j, hj, hbit⟩
    have hji : j = idx := by simp only [hpt, PGSIZE_eq] at hj; omega
    rw [hji, hfree] at hbit
    cases hbit
  have hused : ∀ q, InUse { m.kernelPool with
      usedMap := bitmapSetMultiple m.kernelPool.usedMap idx 1 true } q ↔
      q = pt ∨ (q ≠ pt ∧ InUse m.kernelPool q) := by
    intro q
    rw [inUse_set hidx, ← hpt]
    simp
  have hkp : KernelPage pt := hpt ▸ hw.layout.kernel.kernelPage hidx
  have hpt_pd : pt ≠ pd := fun h => hnot (h ▸ hw.used)
  have hpd : ∀ i, m'.mem pd i = if i = pdNo u then pdeCreate pt else m.mem pd i := by
    intro i
    simp only [m', Machine.write, Function.update_self, Function.update_of_ne (Ne.symm hpt_pd)]
    by_cases hi : i = pdNo u
    · simp [hi]
    · simp [hi]
  have hother : ∀ q, q ≠ pd → q ≠ pt → m'.mem q = m.mem q := by
    intro q hqpd hqpt
    simp only [m', Machine.write, Function.update_of_ne hqpd, Function.update_of_ne hqpt]
  have hnew : pdeGetPt (pdeCreate pt) = pt := pdeGetPt_pdeCreate hkp.aligned hkp.lt hkp.kernel
  have hnew0 : pdeCreate pt ≠ 0 := fun h => pdeCreate_present hkp.aligned hkp.lt (by rw [h]; decide)
  -- an old table is in use, so it is not the fresh page
  have hold : ∀ i < 1024, m.mem pd i ≠ 0 → pdeGetPt (m.mem pd i) ≠ pt :=
    fun i hi hne h => hnot (h ▸ hw.table_used i hi hne)
  have htable : tableOf m' pd u = some pt := by
    simp [tableOf, hpd, hnew0, hnew]
  refine ⟨?_, ?_, htable, by rw [hpd, if_pos rfl, hnew]⟩
  · -- `Wf`: the new entry is a present PDE of the fresh table, the others are as they were
    refine ⟨⟨⟨hw.layout.kernel.aligned, hw.layout.kernel.kernel, ?_⟩, hw.layout.user, ?_,
      hw.layout.ram⟩, (hused pd).mpr (.inr ⟨Ne.symm hpt_pd, hw.used⟩), hw.ne_init, ?_, ?_, ?_, ?_⟩
    · show m.kernelPool.base + PGSIZE * (bitmapSetMultiple _ idx 1 true).length ≤ 2 ^ 32
      rw [length_bitmapSetMultiple]
      exact hw.layout.kernel.fits
    · show m.kernelPool.base + PGSIZE * (bitmapSetMultiple _ idx 1 true).length ≤ m.userPool.base
      rw [length_bitmapSetMultiple]
      exact hw.layout.apart
    · intro i hi hne
      rw [hpd] at hne ⊢
      split_ifs at hne ⊢ with hiu
      · exact pdeCreate_present hkp.aligned hkp.lt
      · exact hw.present i hi hne
    · intro i hi hne
      rw [hpd] at hne ⊢
      split_ifs at hne ⊢ with hiu
      · exact (hused _).mpr (.inl hnew)
      · exact (hused _).mpr (.inr ⟨hold i hi hne, hw.table_used i hi hne⟩)
    · intro i hi hne
      rw [hpd] at hne ⊢
      split_ifs at hne ⊢ with hiu
      · rw [hnew]; exact hpt_pd
      · exact hw.table_ne i hi hne
    · intro i hi j hj hne hne' heq
      have hi' := hpd i
      have hj' := hpd j
      by_cases hiu : i = pdNo u <;> by_cases hju : j = pdNo u
      · omega
      · rw [if_pos hiu] at hi'
        rw [if_neg hju] at hj'
        rw [hi', hj', hnew] at heq
        rw [hj'] at hne'
        exact absurd heq.symm (hold j hj hne')
      · rw [if_neg hiu] at hi'
        rw [if_pos hju] at hj'
        rw [hi', hj', hnew] at heq
        rw [hi'] at hne
        exact absurd heq (hold i hi hne)
      · rw [if_neg hiu] at hi'
        rw [if_neg hju] at hj'
        rw [hi', hj'] at heq
        rw [hi'] at hne
        rw [hj'] at hne'
        exact hw.table_inj i hi j hj hne hne' heq
  · -- the view: the new table is zero where there was no table, and old tables are intact
    intro va hva
    by_cases hsame : pdNo va = pdNo u
    · have hv0 : tableOf m pd va = none := by simp [tableOf, hsame, h0]
      have hv : tableOf m' pd va = some pt := by simp [tableOf, hpd, hsame, hnew0, hnew]
      rw [pteOf_of_tableOf hv, pteOf_of_tableOf_none hv0]
      simp [m', Machine.write, Function.update_of_ne hpt_pd]
    · have hv : tableOf m' pd va = tableOf m pd va := by simp [tableOf, hpd, hsame]
      cases ht : tableOf m pd va with
      | none => rw [pteOf_of_tableOf_none (hv.trans ht), pteOf_of_tableOf_none ht]
      | some t =>
        obtain ⟨hne, rfl⟩ := tableOf_eq_some ht
        have hi := pdNo_lt hva
        rw [pteOf_of_tableOf (hv.trans ht), pteOf_of_tableOf ht,
          hother _ (hw.table_ne _ hi hne) (hold _ hi hne)]

/-- `lookup_page` with `create` on a user address: the entry of `u` in its page table, which
is made if need be, or `NULL` only when there was no table and the kernel pool had no free
page. Either way `Wf` holds and no entry of the view changed. -/
theorem Wf.lookupPage_create (hw : Wf m pd) {u : Nat} (hu : isUserVaddr u = true) :
    ∃ m', Wf m' pd ∧ (∀ va, va < 2 ^ 32 → pteOf m' pd va = pteOf m pd va) ∧
      m'.initRamPages = m.initRamPages ∧
      ((∃ t, tableOf m' pd u = some t ∧ lookupPage m pd u true = some (m', some (t, ptNo u))) ∨
        (m' = m ∧ lookupPage m pd u true = some (m, none) ∧
          ∃ pool, pallocGetMultiple m.kernelPool 1 = (pool, none))) := by
  unfold lookupPage
  rw [if_neg hw.pd_ne_zero, if_neg (by simp [hu])]
  by_cases h0 : m.mem pd (pdNo u) = 0
  · rw [if_pos h0, if_pos rfl]
    cases halloc : pallocGetMultiple m.kernelPool 1 with
    | mk pool r =>
      cases r with
      | none =>
        -- no page for a table: `NULL`, and nothing changed
        rw [pallocGetPage_of_none true halloc]
        exact ⟨m, hw, fun _ _ => rfl, rfl, .inr ⟨rfl, rfl, pool, rfl⟩⟩
      | some pt =>
        rw [pallocGetPage_of_some true halloc]
        obtain ⟨hw', hview, htab, hget⟩ := hw.allocTable h0 halloc
        refine ⟨_, hw', hview, rfl, .inl ⟨pt, htab, ?_⟩⟩
        dsimp only
        rw [if_pos rfl, hget]
  · rw [if_neg h0]
    exact ⟨m, hw, fun _ _ => rfl, rfl, .inl ⟨_, by simp [tableOf, h0], rfl⟩⟩

end Lookup

/-! ## The calls -/

section Calls

variable {m : Machine} {pd : Nat}

/-- What `pagedir_set_page` asserts of its arguments. -/
structure SetPageArgs (ram upage kpage : Nat) : Prop where
  upage_aligned : pgOfs upage = 0
  user : isUserVaddr upage = true
  kpage_aligned : pgOfs kpage = 0
  kernel : PHYS_BASE ≤ kpage
  ram : vtop kpage >>> PTSHIFT < ram

/-- A frame of at most 64 MB of RAM is a kernel page. -/
theorem SetPageArgs.kernelPage {ram upage kpage : Nat} (ha : SetPageArgs ram upage kpage)
    (hram : ram ≤ 0x10000) : KernelPage kpage := by
  have h := ha.ram
  have hk := ha.kernel
  rw [Nat.shiftRight_eq_div_pow, show PTSHIFT = 12 from rfl] at h
  unfold vtop at h
  rw [PHYS_BASE_eq] at hk h
  exact ⟨ha.kpage_aligned, by rw [PHYS_BASE_eq]; exact hk, by omega⟩

/-- `pagedir_set_page` on an unmapped user page: its entry becomes the new PTE when it
returns `true`; it returns `false` only when the kernel pool had no page for a table, and
then changes nothing. -/
theorem Wf.setPage_spec (hw : Wf m pd) {upage kpage : Nat}
    (ha : SetPageArgs m.initRamPages upage kpage) (hfree : pteOf m pd upage &&& PTE_P = 0)
    (writable : Bool) :
    ∃ m' ok, pagedirSetPage m pd upage kpage writable = some (m', ok) ∧ Wf m' pd ∧
      m'.initRamPages = m.initRamPages ∧
      (∀ va, va < 2 ^ 32 → pteOf m' pd va =
        if ok ∧ pgNo va = pgNo upage then pteCreateUser kpage writable else pteOf m pd va) ∧
      (ok = false → ∃ pool, pallocGetMultiple m.kernelPool 1 = (pool, none)) := by
  have hu := user_lt ha.user
  have hkk : 3221225472 ≤ kpage := PHYS_BASE_eq ▸ ha.kernel
  unfold pagedirSetPage
  rw [if_neg (by simp [ha.upage_aligned, ha.kpage_aligned, ha.user, ha.ram, hw.ne_init, hkk])]
  obtain ⟨m₁, hw₁, hview, hram, ⟨t, ht, hlook⟩ | ⟨-, hlook, hnone⟩⟩ := hw.lookupPage_create ha.user
  · -- the entry is free, as `ASSERT ((*pte & PTE_P) == 0)` asks
    have hP : m₁.mem t (ptNo upage) &&& PTE_P = 0 := by
      rw [← pteOf_of_tableOf ht, hview _ hu]
      exact hfree
    rw [hlook]
    simp only [hP, ne_eq, not_true_eq_false, if_false]
    refine ⟨_, true, rfl, hw₁.update (hw₁.table_ne_pd hu ht) _, hram, fun va hva => ?_, by simp⟩
    rw [hw₁.pteOf_write hu ht _ hva, hview va hva]
    simp
  · rw [hlook]
    exact ⟨m, false, rfl, hw, rfl, fun va _ => by simp, fun _ => hnone⟩

/-- `pagedir_clear_page`: the entry of `upage` loses `PTE_P`, if it had it. -/
theorem Wf.clearPage_spec (hw : Wf m pd) {upage : Nat} (haligned : pgOfs upage = 0)
    (huser : isUserVaddr upage = true) :
    ∃ m', pagedirClearPage m pd upage = some m' ∧ Wf m' pd ∧
      m'.initRamPages = m.initRamPages ∧
      ∀ va, va < 2 ^ 32 → pteOf m' pd va =
        if pgNo va = pgNo upage ∧ pteOf m pd upage &&& PTE_P ≠ 0 then
          pteOf m pd upage &&& ~~~PTE_P
        else pteOf m pd va := by
  have hu := user_lt huser
  unfold pagedirClearPage
  rw [if_neg (by simp [haligned, huser]), lookupPage_of_not_create hw.pd_ne_zero]
  cases ht : tableOf m pd upage with
  | none =>
    refine ⟨m, rfl, hw, rfl, fun va _ => ?_⟩
    simp [pteOf_of_tableOf_none ht]
  | some t =>
    simp only [Option.map_some]
    by_cases hP : m.mem t (ptNo upage) &&& PTE_P ≠ 0
    · refine ⟨m.write t (ptNo upage) (m.mem t (ptNo upage) &&& ~~~PTE_P), by rw [if_pos hP],
        hw.update (hw.table_ne_pd hu ht) _, rfl, fun va hva => ?_⟩
      rw [hw.pteOf_write hu ht _ hva, pteOf_of_tableOf ht]
      simp [hP]
    · refine ⟨m, by rw [if_neg hP], hw, rfl, fun va _ => ?_⟩
      simp [pteOf_of_tableOf ht, hP]

/-- `pagedir_set_dirty` and `pagedir_set_accessed`: where `vpage` has a page table, its entry
gets `flag` set or cleared; elsewhere nothing changes. -/
theorem Wf.setFlag_spec (hw : Wf m pd) (flag : UInt32) {vpage : Nat} (hv : vpage < 2 ^ 32)
    (value : Bool) :
    ∃ m', setFlag flag m pd vpage value = some m' ∧ Wf m' pd ∧
      m'.initRamPages = m.initRamPages ∧
      ∀ va, va < 2 ^ 32 → pteOf m' pd va =
        if pgNo va = pgNo vpage ∧ tableOf m pd vpage ≠ none then
          (if value then pteOf m pd vpage ||| flag else pteOf m pd vpage &&& ~~~flag)
        else pteOf m pd va := by
  unfold Pagedir.setFlag
  rw [lookupPage_of_not_create hw.pd_ne_zero]
  cases ht : tableOf m pd vpage with
  | none => exact ⟨m, rfl, hw, rfl, fun va _ => by simp⟩
  | some t =>
    refine ⟨_, rfl, hw.update (hw.table_ne_pd hv ht) _, rfl, fun va hva => ?_⟩
    rw [hw.pteOf_write hv ht _ hva, pteOf_of_tableOf ht]
    simp

/-- `pagedir_get_page` decodes the entry of `uaddr`'s page. -/
theorem Wf.getPage_spec (hw : Wf m pd) {uaddr : Nat} (hu : isUserVaddr uaddr = true) :
    pagedirGetPage m pd uaddr = some ((entryFrame (pteOf m pd uaddr)).map (· + pgOfs uaddr)) := by
  unfold pagedirGetPage
  rw [if_neg (by simp [hu]), lookupPage_of_not_create hw.pd_ne_zero]
  cases ht : tableOf m pd uaddr with
  | none => simp [pteOf_of_tableOf_none ht]
  | some t =>
    simp only [Option.map_some, pteOf_of_tableOf ht, entryFrame]
    split_ifs <;> rfl

/-- `pagedir_is_dirty` and `pagedir_is_accessed` read `flag` of the entry. -/
theorem Wf.isFlag_spec (hw : Wf m pd) (flag : UInt32) (vpage : Nat) :
    isFlag flag m pd vpage = some (decide (pteOf m pd vpage &&& flag ≠ 0)) := by
  unfold Pagedir.isFlag
  rw [lookupPage_of_not_create hw.pd_ne_zero]
  cases ht : tableOf m pd vpage with
  | none => simp [pteOf_of_tableOf_none ht]
  | some t => simp [pteOf_of_tableOf ht]

end Calls

/-! ## Runs: the directory is a finite map -/

/-- The calls on one page directory. -/
inductive Call where
  | setPage (upage kpage : Nat) (writable : Bool)
  | clearPage (upage : Nat)
  | setDirty (vpage : Nat) (dirty : Bool)
  | setAccessed (vpage : Nat) (accessed : Bool)
  deriving DecidableEq, Repr

namespace Call

/-- The page a call is given. -/
def page : Call → Nat
  | .setPage upage _ _ | .clearPage upage => upage
  | .setDirty vpage _ | .setAccessed vpage _ => vpage

/-- What the calls assert of their arguments; the flags are set at 32-bit addresses. -/
def Valid (ram : Nat) : Call → Prop
  | .setPage upage kpage _ => SetPageArgs ram upage kpage
  | .clearPage upage => pgOfs upage = 0 ∧ isUserVaddr upage = true
  | .setDirty vpage _ | .setAccessed vpage _ => vpage < 2 ^ 32

end Call

/-- One call: the machine after it and what it returned, `true` for the calls that return
nothing; `none` is a failed `ASSERT`. -/
def callStep (m : Machine) (pd : Nat) : Call → Option (Machine × Bool)
  | .setPage upage kpage writable => pagedirSetPage m pd upage kpage writable
  | .clearPage upage => (pagedirClearPage m pd upage).map (·, true)
  | .setDirty vpage dirty => (pagedirSetDirty m pd vpage dirty).map (·, true)
  | .setAccessed vpage accessed => (pagedirSetAccessed m pd vpage accessed).map (·, true)

/-- The finite map of user pages to frames after a call that returned `ok`: a `set_page`
that returned `true` maps its page, a `clear_page` unmaps its page. -/
def mapStep (A : Nat → Option Nat) : Call × Bool → Nat → Option Nat
  | (.setPage upage kpage _, true) => Function.update A upage (some kpage)
  | (.clearPage upage, _) => Function.update A upage none
  | _ => A

/-- The map after the calls of a run, from `A`. -/
def mapAfter (A : Nat → Option Nat) (tr : List (Call × Bool)) : Nat → Option Nat :=
  tr.foldl mapStep A

/-- The calls that decide what the map holds for `u`: a `set_page` of `u` that returned
`true`, and a `clear_page` of `u`. -/
def touches (u : Nat) : Call × Bool → Bool
  | (.setPage upage _ _, ok) => upage == u && ok
  | (.clearPage upage, _) => upage == u
  | _ => false

/-- The frame a call maps its page to: `kpage` for a `set_page`, none for the others. -/
def setFrame : Call × Bool → Option Nat
  | (.setPage _ kpage _, _) => some kpage
  | _ => none

/-- The frame of the last `set_page` of `u` that returned `true`, unless a `clear_page` of
`u` follows it. -/
def lastSet (u : Nat) (tr : List (Call × Bool)) : Option Nat :=
  (tr.reverse.find? (touches u)).bind setFrame

theorem mapStep_apply (A : Nat → Option Nat) (e : Call × Bool) (u : Nat) :
    mapStep A e u = if touches u e then setFrame e else A u := by
  obtain ⟨c, ok⟩ := e
  cases c <;> cases ok <;>
    simp [mapStep, touches, setFrame, Function.update_apply, @eq_comm _ u]

/-- From no mapping, the map of a run is the last `set_page` not undone. -/
theorem mapAfter_eq_lastSet (tr : List (Call × Bool)) (u : Nat) :
    mapAfter (fun _ => none) tr u = lastSet u tr := by
  induction tr using List.reverseRecOn with
  | nil => rfl
  | append_singleton tr e ih =>
    rw [mapAfter, List.foldl_append, List.foldl_cons, List.foldl_nil, mapStep_apply, ← mapAfter,
      ih, lastSet, lastSet, List.reverse_append, List.reverse_singleton, List.singleton_append,
      List.find?_cons]
    cases touches u e <;> rfl

/-- The runs of page directory `pd`: each call with what it returned. -/
inductive Run (pd : Nat) : Machine → List (Call × Bool) → Machine → Prop
  | nil (m : Machine) : Run pd m [] m
  | cons {m m₁ m' : Machine} {c : Call} {ok : Bool} {tr : List (Call × Bool)} :
      callStep m pd c = some (m₁, ok) → Run pd m₁ tr m' → Run pd m ((c, ok) :: tr) m'

/-- The runs `pagedir.h` allows: every call valid, and `set_page` only on a page the map
does not hold. -/
def Allowed (ram : Nat) : (Nat → Option Nat) → List (Call × Bool) → Prop
  | _, [] => True
  | A, (c, ok) :: tr =>
      c.Valid ram ∧ (∀ upage kpage writable, c = .setPage upage kpage writable → A upage = none) ∧
        Allowed ram (mapStep A (c, ok)) tr

/-- The present entries of the user pages of `pd` are the frames of `A`. -/
def Refines (m : Machine) (pd : Nat) (A : Nat → Option Nat) : Prop :=
  ∀ u, isUserVaddr u = true → pgOfs u = 0 → entryFrame (pteOf m pd u) = A u

section Refinement

variable {m : Machine} {pd : Nat} {A : Nat → Option Nat}

theorem entryFrame_eq_none_iff (w : UInt32) : entryFrame w = none ↔ w &&& PTE_P = 0 := by
  unfold entryFrame
  split_ifs with h <;> simp_all

theorem pteOf_congr {va va' : Nat} (h : pgNo va = pgNo va') : pteOf m pd va = pteOf m pd va' := by
  obtain ⟨hd, ht⟩ := (pgNo_eq_iff va va').mp h
  simp only [pteOf, tableOf, hd, ht]

theorem eq_of_pgNo_eq {u u' : Nat} (hu : pgOfs u = 0) (hu' : pgOfs u' = 0)
    (h : pgNo u = pgNo u') : u = u' := by
  rw [pgNo_eq, pgNo_eq] at h
  simp only [pgOfs, PGSIZE_eq] at hu hu'
  omega

/-- `pagedir_get_page` is the map: the frame of the page of `uaddr`, at `uaddr`'s offset. -/
theorem Refines.getPage (hw : Wf m pd) (hA : Refines m pd A) {uaddr : Nat}
    (hu : isUserVaddr uaddr = true) :
    pagedirGetPage m pd uaddr = some ((A (pgRoundDown uaddr)).map (· + pgOfs uaddr)) := by
  rw [hw.getPage_spec hu, ← pteOf_pgRoundDown,
    hA _ (isUserVaddr_pgRoundDown hu) (pgOfs_pgRoundDown uaddr)]

/-- A map is kept by a change of the view that keeps the frame of every other page and
gives `u` the frame the map gives it. -/
theorem Refines.update {m' : Machine} (hA : Refines m pd A) {upage : Nat} (hal : pgOfs upage = 0)
    (frame : Option Nat)
    (hview : ∀ u, isUserVaddr u = true → pgOfs u = 0 →
      entryFrame (pteOf m' pd u) =
        if pgNo u = pgNo upage then frame else entryFrame (pteOf m pd u)) :
    Refines m' pd (Function.update A upage frame) := by
  intro u hu hal'
  rw [hview u hu hal']
  by_cases h : pgNo u = pgNo upage
  · rw [if_pos h, eq_of_pgNo_eq hal' hal h, Function.update_self]
  · rw [if_neg h, Function.update_of_ne (fun e => h (by rw [e])), hA u hu hal']

/-- `pagedir_set_dirty` and `pagedir_set_accessed` keep the map: their flag is neither
`PTE_P` nor an address bit. -/
theorem Wf.setFlag_refines (hw : Wf m pd) (hA : Refines m pd A) (flag : UInt32)
    (hP : flag &&& PTE_P = 0) (hAd : flag &&& PTE_ADDR = 0) (hnP : ~~~flag &&& PTE_P = PTE_P)
    (hnA : ~~~flag &&& PTE_ADDR = PTE_ADDR) {vpage : Nat} (hv : vpage < 2 ^ 32) (value : Bool) :
    ∃ m', setFlag flag m pd vpage value = some m' ∧ Wf m' pd ∧
      m'.initRamPages = m.initRamPages ∧ Refines m' pd A ∧
      ∀ va, va < 2 ^ 32 → pgNo va ≠ pgNo vpage → pteOf m' pd va = pteOf m pd va := by
  obtain ⟨m', hcall, hw', hram, hview⟩ := hw.setFlag_spec flag hv value
  refine ⟨m', hcall, hw', hram, fun u hu hal => ?_, fun va hva hne => by simp [hview va hva, hne]⟩
  rw [hview u (user_lt hu)]
  by_cases h : pgNo u = pgNo vpage ∧ tableOf m pd vpage ≠ none
  · rw [if_pos h, entryFrame_flag flag hP hAd hnP hnA, pteOf_congr h.1.symm]
    exact hA u hu hal
  · rw [if_neg h]
    exact hA u hu hal

/-- One allowed call: it returns, keeps `Wf`, moves the map by `mapStep`, and leaves the
entry of every other page as it was. -/
theorem Wf.step (hw : Wf m pd) (hA : Refines m pd A) {c : Call} (hc : c.Valid m.initRamPages)
    (hfree : ∀ upage kpage writable, c = .setPage upage kpage writable → A upage = none) :
    ∃ m' ok, callStep m pd c = some (m', ok) ∧ Wf m' pd ∧ m'.initRamPages = m.initRamPages ∧
      Refines m' pd (mapStep A (c, ok)) ∧
      ∀ va, va < 2 ^ 32 → pgNo va ≠ pgNo c.page → pteOf m' pd va = pteOf m pd va := by
  cases c with
  | setPage upage kpage writable =>
    have hP : pteOf m pd upage &&& PTE_P = 0 := by
      rw [← entryFrame_eq_none_iff, hA _ hc.user hc.upage_aligned, hfree _ _ _ rfl]
    obtain ⟨m', ok, hcall, hw', hram, hview, -⟩ := hw.setPage_spec hc hP writable
    refine ⟨m', ok, hcall, hw', hram, ?_, fun va hva hne => ?_⟩
    · cases ok with
      | false => exact fun u hu hal => by rw [hview u (user_lt hu)]; simpa [mapStep] using hA u hu hal
      | true =>
        have hk := hc.kernelPage hw.layout.ram
        refine hA.update hc.upage_aligned _ fun u hu _ => ?_
        rw [hview u (user_lt hu)]
        by_cases h : pgNo u = pgNo upage
        · rw [if_pos ⟨rfl, h⟩, if_pos h]
          exact entryFrame_pteCreateUser hk.aligned hk.kernel hk.lt writable
        · rw [if_neg (fun hc => h hc.2), if_neg h]
    · simp [hview va hva, show pgNo va ≠ pgNo upage from hne]
  | clearPage upage =>
    obtain ⟨m', hcall, hw', hram, hview⟩ := hw.clearPage_spec hc.1 hc.2
    refine ⟨m', true, by simp [callStep, hcall], hw', hram, ?_, fun va hva hne => ?_⟩
    · refine hA.update hc.1 _ fun u hu _ => ?_
      rw [hview u (user_lt hu)]
      by_cases h : pgNo u = pgNo upage
      · rw [if_pos h]
        by_cases hP : pteOf m pd upage &&& PTE_P ≠ 0
        · rw [if_pos ⟨h, hP⟩]
          exact entryFrame_clear _
        · rw [if_neg (fun hc => hP hc.2), entryFrame_eq_none_iff, pteOf_congr h]
          simpa using hP
      · rw [if_neg h, if_neg (fun hc => h hc.1)]
    · simp [hview va hva, show pgNo va ≠ pgNo upage from hne]
  | setDirty vpage dirty =>
    obtain ⟨m', hcall, hw', hram, hA', hframe⟩ :=
      hw.setFlag_refines hA PTE_D (by decide) (by decide) (by decide) (by decide) hc dirty
    exact ⟨m', true, by simp [callStep, pagedirSetDirty, hcall], hw', hram, hA', hframe⟩
  | setAccessed vpage accessed =>
    obtain ⟨m', hcall, hw', hram, hA', hframe⟩ :=
      hw.setFlag_refines hA PTE_A (by decide) (by decide) (by decide) (by decide) hc accessed
    exact ⟨m', true, by simp [callStep, pagedirSetAccessed, hcall], hw', hram, hA', hframe⟩

/-- Over an allowed run, `Wf` holds and the entries are the map of the run. -/
theorem Wf.run (hw : Wf m pd) (hA : Refines m pd A) {tr : List (Call × Bool)} {m' : Machine}
    (hrun : Run pd m tr m') (hallowed : Allowed m.initRamPages A tr) :
    Wf m' pd ∧ Refines m' pd (mapAfter A tr) ∧ m'.initRamPages = m.initRamPages := by
  induction hrun generalizing A with
  | nil => exact ⟨hw, hA, rfl⟩
  | @cons m m₁ m' c ok tr hcall _ ih =>
    obtain ⟨hc, hfree, hrest⟩ := hallowed
    obtain ⟨m₂, ok₂, hcall₂, hw₂, hram, hA₂, -⟩ := hw.step hA hc hfree
    rw [hcall] at hcall₂
    obtain ⟨rfl, rfl⟩ := Prod.mk.inj (Option.some.inj hcall₂)
    obtain ⟨hw', hA', hram'⟩ := ih hw₂ hA₂ (hram ▸ hrest)
    exact ⟨hw', hA', hram'.trans hram⟩

/-- An allowed run can always go on with an allowed call. -/
theorem Wf.run_extends (hw : Wf m pd) (hA : Refines m pd A) {tr : List (Call × Bool)}
    {m' : Machine} (hrun : Run pd m tr m') (hallowed : Allowed m.initRamPages A tr) {c : Call}
    (hc : c.Valid m.initRamPages)
    (hfree : ∀ upage kpage writable, c = .setPage upage kpage writable →
      mapAfter A tr upage = none) :
    ∃ m'' ok, callStep m' pd c = some (m'', ok) := by
  obtain ⟨hw', hA', hram⟩ := hw.run hA hrun hallowed
  obtain ⟨m'', ok, hcall, -⟩ := hw'.step hA' (hram ▸ hc) hfree
  exact ⟨m'', ok, hcall⟩

end Refinement

/-! ## `pagedir_create` -/

/-- What `paging_init` leaves in `init_page_dir` (init.c:167-190): it maps RAM at
`PHYS_BASE` and above only, so no user entry is set; its other entries are present PDEs of
distinct page tables from the kernel pool, as is the directory itself. -/
structure InitDir (m : Machine) : Prop where
  layout : Layout m
  used : InUse m.kernelPool m.initPageDir
  user_zero : ∀ i < pdNo PHYS_BASE, m.mem m.initPageDir i = 0
  present : ∀ i < 1024, m.mem m.initPageDir i ≠ 0 → m.mem m.initPageDir i &&& PTE_P ≠ 0
  table_used : ∀ i < 1024, m.mem m.initPageDir i ≠ 0 →
    InUse m.kernelPool (pdeGetPt (m.mem m.initPageDir i))
  table_inj : ∀ i < 1024, ∀ j < 1024, m.mem m.initPageDir i ≠ 0 → m.mem m.initPageDir j ≠ 0 →
    pdeGetPt (m.mem m.initPageDir i) = pdeGetPt (m.mem m.initPageDir j) → i = j

/-- A boot directory with no entry at all. -/
theorem InitDir.of_zero {m : Machine} (hl : Layout m) (hu : InUse m.kernelPool m.initPageDir)
    (h0 : ∀ i, m.mem m.initPageDir i = 0) : InitDir m where
  layout := hl
  used := hu
  user_zero := fun i _ => h0 i
  present := fun i _ hne => absurd (h0 i) hne
  table_used := fun i _ hne => absurd (h0 i) hne
  table_inj := fun i _ _ _ hne => absurd (h0 i) hne

theorem pdNo_lt_of_user {u : Nat} (hu : isUserVaddr u = true) : pdNo u < pdNo PHYS_BASE := by
  have h : u < PHYS_BASE := of_decide_eq_true hu
  rw [pdNo_eq, pdNo_eq]
  rw [PHYS_BASE_eq] at h ⊢
  omega

/-- `pagedir_create`: a fresh page of the kernel pool that copies `init_page_dir` is a
well-formed directory that maps no user page; without a free page it returns `NULL` and
changes nothing. -/
theorem InitDir.pagedirCreate {m : Machine} (hi : InitDir m) :
    (∃ m' pd, pagedirCreate m = (m', some pd) ∧ Wf m' pd ∧ Refines m' pd (fun _ => none) ∧
        m'.initRamPages = m.initRamPages) ∨
      pagedirCreate m = (m, none) := by
  unfold Pagedir.pagedirCreate
  cases halloc : pallocGetMultiple m.kernelPool 1 with
  | mk pool r =>
    cases r with
    | none =>
      right
      rw [pallocGetPage_of_none false halloc]
    | some pd =>
      left
      rw [pallocGetPage_of_some false halloc]
      obtain ⟨idx, hidx, hpd, hfree, rfl⟩ := pallocGetMultiple_one_some halloc
      simp only [Bool.false_eq_true, if_false]
      refine ⟨_, pd, rfl, ?_, ?_, rfl⟩
      · -- the fresh page is neither `init_page_dir` nor one of its tables
        have hnot : ¬ InUse m.kernelPool pd := by
          rintro ⟨j, hj, hbit⟩
          have hji : j = idx := by simp only [hpd, PGSIZE_eq] at hj; omega
          rw [hji, hfree] at hbit
          cases hbit
        have hused : ∀ q, InUse m.kernelPool q → InUse { m.kernelPool with
            usedMap := bitmapSetMultiple m.kernelPool.usedMap idx 1 true } q := by
          intro q hq
          rw [inUse_set hidx]
          exact .inr ⟨fun h => hnot (hpd ▸ h ▸ hq), hq⟩
        have hmem : (Function.update m.mem pd (m.mem m.initPageDir)) pd = m.mem m.initPageDir :=
          Function.update_self _ _ _
        refine ⟨⟨⟨hi.layout.kernel.aligned, hi.layout.kernel.kernel, ?_⟩, hi.layout.user, ?_,
          hi.layout.ram⟩, ?_, fun h => hnot (h ▸ hi.used), ?_, ?_, ?_, ?_⟩
        · show m.kernelPool.base + PGSIZE * (bitmapSetMultiple _ idx 1 true).length ≤ 2 ^ 32
          rw [length_bitmapSetMultiple]
          exact hi.layout.kernel.fits
        · show m.kernelPool.base + PGSIZE * (bitmapSetMultiple _ idx 1 true).length ≤
            m.userPool.base
          rw [length_bitmapSetMultiple]
          exact hi.layout.apart
        · rw [inUse_set hidx]
          exact .inl ⟨hpd, rfl⟩
        · simp only [hmem]
          exact hi.present
        · simp only [hmem]
          exact fun i hi' hne => hused _ (hi.table_used i hi' hne)
        · simp only [hmem]
          exact fun i hi' hne h => hnot (h ▸ hi.table_used i hi' hne)
        · simp only [hmem]
          exact hi.table_inj
      · -- the user half of the copy is zero: no user page is mapped
        intro u hu _
        rw [pteOf_of_tableOf_none, entryFrame_zero]
        simp [tableOf, hi.user_zero _ (pdNo_lt_of_user hu)]

end Pintos.Pagedir
