import Pintos.Analysis.Pagedir
import Pintos.Lib.Loops

/-!
# `pagedir_destroy` frees exactly what the directory holds

`pagedir_destroy` visits the user entries of the directory in order and, in each page table,
the entries in order: it frees the frame of every present entry, then the table, and last
the directory. Freeing fills a page with `0xcc`, but the frames are pages of the user pool
and the directory and tables pages of the kernel pool, so no freed page is read again: the
loops see the directory as it was. `Progress` is the machine part way through: the tables
not yet visited are intact, and each pool has lost exactly the pages freed so far, which
palloc's `ASSERT` lets through because no page is freed twice (`FramesOwned`).

The module ends with the life of a directory: made by `pagedir_create`, changed by any run of
the calls `pagedir.h` allows, read by `pagedir_get_page` and destroyed.
-/

set_option autoImplicit false

namespace Pintos.Pagedir

open Pintos.Bitmap Pintos.Malloc

/-! ## Freeing pages -/

section Free

variable {m : Machine}

/-- `page` is one of the pool's pages, used or not. -/
def InPool (pool : Pool) (page : Nat) : Prop :=
  ∃ idx < pool.usedMap.length, page = pool.base + PGSIZE * idx

theorem InUse.inPool {pool : Pool} {page : Nat} (h : InUse pool page) : InPool pool page := by
  obtain ⟨idx, rfl, hbit⟩ := h
  exact ⟨idx, lt_length_of_bitmapTest hbit, rfl⟩

/-- The kernel pool's pages lie below the user pool's. -/
theorem Layout.ne_of_inPool (hl : Layout m) {a b : Nat} (ha : InPool m.kernelPool a)
    (hb : InPool m.userPool b) : a ≠ b := by
  obtain ⟨i, hi, rfl⟩ := ha
  obtain ⟨j, -, rfl⟩ := hb
  have hapart := hl.apart
  have hmul : PGSIZE * i + PGSIZE ≤ PGSIZE * m.kernelPool.usedMap.length := by
    rw [← Nat.mul_succ]
    exact Nat.mul_le_mul_left _ hi
  simp only [PGSIZE_eq] at hapart hmul ⊢
  omega

theorem inUse_clear {pool : Pool} {idx : Nat} (hidx : idx < pool.usedMap.length) (q : Nat) :
    InUse { pool with usedMap := bitmapSetMultiple pool.usedMap idx 1 false } q ↔
      InUse pool q ∧ q ≠ pool.base + PGSIZE * idx := by
  rw [inUse_set hidx]
  simp [and_comm]

/-- `palloc_free_page` of a page in use in the user pool. -/
theorem Layout.pallocFreePage_user (hl : Layout m) {page : Nat} (h : InUse m.userPool page) :
    ∃ pool, m.pallocFreePage page =
        some { m with userPool := pool, mem := Function.update m.mem page fun _ => 0xcccccccc } ∧
      pool.base = m.userPool.base ∧ pool.usedMap.length = m.userPool.usedMap.length ∧
      ∀ q, InUse pool q ↔ InUse m.userPool q ∧ q ≠ page := by
  have hk := h.kernelPage hl.user
  obtain ⟨idx, hidx, rfl, hfree⟩ := freeInPool_of_inUse hl.user h
  have hnk : pageFromPool m.kernelPool (m.userPool.base + PGSIZE * idx) = false := by
    rw [Bool.eq_false_iff, ne_eq, pageFromPool_iff hl.kernel]
    rintro ⟨j, hj, h1, h2⟩
    have hapart := hl.apart
    have hmul : PGSIZE * j + PGSIZE ≤ PGSIZE * m.kernelPool.usedMap.length := by
      rw [← Nat.mul_succ]
      exact Nat.mul_le_mul_left _ hj
    simp only [PGSIZE_eq] at hapart hmul h2
    omega
  have hu : pageFromPool m.userPool (m.userPool.base + PGSIZE * idx) = true :=
    (pageFromPool_iff hl.user _).mpr ⟨idx, hidx, Nat.le_refl _, by simp⟩
  refine ⟨{ m.userPool with usedMap := bitmapSetMultiple m.userPool.usedMap idx 1 false }, ?_,
    rfl, length_bitmapSetMultiple _ _ _ _, inUse_clear hidx⟩
  have hne0 : m.userPool.base + PGSIZE * idx ≠ 0 := by
    have := hk.kernel
    rw [PHYS_BASE_eq] at this
    omega
  rw [Machine.pallocFreePage, if_neg (not_not.mpr hk.aligned), if_neg hne0,
    if_neg (by rw [hnk]; exact Bool.false_ne_true), if_pos hu, hfree]
  rfl

/-- `palloc_free_page` of a page in use in the kernel pool. -/
theorem Layout.pallocFreePage_kernel (hl : Layout m) {page : Nat} (h : InUse m.kernelPool page) :
    ∃ pool, m.pallocFreePage page =
        some { m with kernelPool := pool, mem := Function.update m.mem page fun _ => 0xcccccccc } ∧
      pool.base = m.kernelPool.base ∧ pool.usedMap.length = m.kernelPool.usedMap.length ∧
      ∀ q, InUse pool q ↔ InUse m.kernelPool q ∧ q ≠ page := by
  have hk := h.kernelPage hl.kernel
  obtain ⟨idx, hidx, rfl, hfree⟩ := freeInPool_of_inUse hl.kernel h
  have hkp : pageFromPool m.kernelPool (m.kernelPool.base + PGSIZE * idx) = true :=
    (pageFromPool_iff hl.kernel _).mpr ⟨idx, hidx, Nat.le_refl _, by simp⟩
  refine ⟨{ m.kernelPool with usedMap := bitmapSetMultiple m.kernelPool.usedMap idx 1 false },
    ?_, rfl, length_bitmapSetMultiple _ _ _ _, inUse_clear hidx⟩
  have hne0 : m.kernelPool.base + PGSIZE * idx ≠ 0 := by
    have := hk.kernel
    rw [PHYS_BASE_eq] at this
    omega
  rw [Machine.pallocFreePage, if_neg (not_not.mpr hk.aligned), if_neg hne0, if_pos hkp, hfree]
  rfl

end Free

/-! ## User pages by their indices -/

section Indices

/-- The user page at entry `k` of the page table of directory entry `i`. -/
def pageAt (i k : Nat) : Nat := i * 2 ^ 22 + k * PGSIZE

variable {i k : Nat}

theorem pdNo_pageAt (hk : k < 1024) : pdNo (pageAt i k) = i := by
  rw [pdNo_eq, pageAt, PGSIZE_eq]
  omega

theorem ptNo_pageAt (hk : k < 1024) : ptNo (pageAt i k) = k := by
  rw [ptNo_eq, pageAt, PGSIZE_eq]
  omega

theorem pgOfs_pageAt : pgOfs (pageAt i k) = 0 := by
  simp only [pgOfs, pageAt, PGSIZE_eq]
  omega

theorem isUserVaddr_pageAt (hi : i < pdNo PHYS_BASE) (hk : k < 1024) :
    isUserVaddr (pageAt i k) = true := by
  rw [show pdNo PHYS_BASE = 768 from rfl] at hi
  exact decide_eq_true (by simp only [pageAt, PGSIZE_eq, PHYS_BASE_eq]; omega)

theorem ptNo_lt (u : Nat) : ptNo u < 1024 := by
  rw [ptNo_eq]
  omega

/-- A page-aligned address is the page of its two indices. -/
theorem pageAt_pdNo_ptNo {u : Nat} (hu : pgOfs u = 0) : pageAt (pdNo u) (ptNo u) = u := by
  simp only [pgOfs, PGSIZE_eq] at hu
  rw [pageAt, pdNo_eq, ptNo_eq, PGSIZE_eq]
  omega

end Indices

/-! ## What the directory holds -/

/-- `f` is the frame of a present user page of `pd`. -/
def Maps (m : Machine) (pd f : Nat) : Prop :=
  ∃ u, isUserVaddr u = true ∧ pgOfs u = 0 ∧ entryFrame (pteOf m pd u) = some f

/-- `t` is the page table of some user page of `pd`. -/
def HasTable (m : Machine) (pd t : Nat) : Prop :=
  ∃ u, isUserVaddr u = true ∧ tableOf m pd u = some t

/-- What `pagedir_destroy` asks of the frames: pages in use in the user pool, each the frame
of one user page only. -/
structure FramesOwned (m : Machine) (pd : Nat) : Prop where
  used : ∀ f, Maps m pd f → InUse m.userPool f
  unique : ∀ u u' f, isUserVaddr u = true → pgOfs u = 0 → isUserVaddr u' = true →
    pgOfs u' = 0 → entryFrame (pteOf m pd u) = some f → entryFrame (pteOf m pd u') = some f →
    u = u'

/-- The frames of the user pages before entry `k` of the table of entry `i`, in the order
`pagedir_destroy` visits them. -/
def Freed (m : Machine) (pd i k q : Nat) : Prop :=
  ∃ u, isUserVaddr u = true ∧ pgOfs u = 0 ∧ (pdNo u < i ∨ (pdNo u = i ∧ ptNo u < k)) ∧
    entryFrame (pteOf m pd u) = some q

/-- The page tables of the directory entries before `i`. -/
def TablesBefore (m : Machine) (pd i q : Nat) : Prop :=
  ∃ j < i, m.mem pd j ≠ 0 ∧ pdeGetPt (m.mem pd j) = q

/-- The machine part way through `pagedir_destroy` of `pd` from `m₀`, at entry `k` of the
table of entry `i`: the directory and the tables from entry `i` on are as they were, and
the pools have lost exactly the tables and frames visited. -/
structure Progress (m₀ : Machine) (pd i k : Nat) (m : Machine) : Prop where
  kernel_base : m.kernelPool.base = m₀.kernelPool.base
  kernel_length : m.kernelPool.usedMap.length = m₀.kernelPool.usedMap.length
  user_base : m.userPool.base = m₀.userPool.base
  user_length : m.userPool.usedMap.length = m₀.userPool.usedMap.length
  ram : m.initRamPages = m₀.initRamPages
  dir : m.mem pd = m₀.mem pd
  tables : ∀ j, i ≤ j → j < 1024 → m₀.mem pd j ≠ 0 →
    m.mem (pdeGetPt (m₀.mem pd j)) = m₀.mem (pdeGetPt (m₀.mem pd j))
  kernel : ∀ q, InUse m.kernelPool q ↔ InUse m₀.kernelPool q ∧ ¬ TablesBefore m₀ pd i q
  user : ∀ q, InUse m.userPool q ↔ InUse m₀.userPool q ∧ ¬ Freed m₀ pd i k q

section Steps

variable {m₀ m : Machine} {pd : Nat}

theorem Progress.layout {i k : Nat} (hl : Layout m₀) (hp : Progress m₀ pd i k m) : Layout m where
  kernel := ⟨hp.kernel_base ▸ hl.kernel.aligned, hp.kernel_base ▸ hl.kernel.kernel,
    hp.kernel_base ▸ hp.kernel_length ▸ hl.kernel.fits⟩
  user := ⟨hp.user_base ▸ hl.user.aligned, hp.user_base ▸ hl.user.kernel,
    hp.user_base ▸ hp.user_length ▸ hl.user.fits⟩
  apart := hp.kernel_base ▸ hp.kernel_length ▸ hp.user_base ▸ hl.apart
  ram := hp.ram ▸ hl.ram

theorem progress_start : Progress m₀ pd 0 0 m₀ where
  kernel_base := rfl
  kernel_length := rfl
  user_base := rfl
  user_length := rfl
  ram := rfl
  dir := rfl
  tables := fun _ _ _ _ => rfl
  kernel := fun q => by simp [TablesBefore]
  user := fun q => by simp [Freed]

/-- A user page of entry `i` is visited at its own index. -/
theorem freed_succ {i k : Nat} (hi : i < pdNo PHYS_BASE) (hk : k < 1024) (q : Nat) :
    Freed m₀ pd i (k + 1) q ↔
      Freed m₀ pd i k q ∨ entryFrame (pteOf m₀ pd (pageAt i k)) = some q := by
  constructor
  · rintro ⟨u, hu, hal, hpos, hq⟩
    by_cases hlast : pdNo u = i ∧ ptNo u = k
    · right
      rw [← hlast.1, ← hlast.2, pageAt_pdNo_ptNo hal]
      exact hq
    · left
      exact ⟨u, hu, hal, by omega, hq⟩
  · rintro (⟨u, hu, hal, hpos, hq⟩ | hq)
    · exact ⟨u, hu, hal, by omega, hq⟩
    · exact ⟨pageAt i k, isUserVaddr_pageAt hi hk, pgOfs_pageAt,
        .inr ⟨pdNo_pageAt hk, by rw [ptNo_pageAt hk]; omega⟩, hq⟩

/-- A page table has 1024 entries: after the last, the next directory entry. -/
theorem freed_next {i : Nat} (q : Nat) : Freed m₀ pd i 1024 q ↔ Freed m₀ pd (i + 1) 0 q := by
  constructor
  · rintro ⟨u, hu, hal, hpos, hq⟩
    exact ⟨u, hu, hal, by omega, hq⟩
  · rintro ⟨u, hu, hal, hpos, hq⟩
    exact ⟨u, hu, hal, by have := ptNo_lt u; omega, hq⟩

/-- Directory entry `i` adds its table, if it has one. -/
theorem tablesBefore_succ {i : Nat} (q : Nat) :
    TablesBefore m₀ pd (i + 1) q ↔
      TablesBefore m₀ pd i q ∨ (m₀.mem pd i ≠ 0 ∧ pdeGetPt (m₀.mem pd i) = q) := by
  constructor
  · rintro ⟨j, hj, hnej, heq⟩
    rcases Nat.lt_succ_iff_lt_or_eq.mp hj with hj | rfl
    · exact .inl ⟨j, hj, hnej, heq⟩
    · exact .inr ⟨hnej, heq⟩
  · rintro (⟨j, hj, hnej, heq⟩ | ⟨hnej, heq⟩)
    · exact ⟨j, by omega, hnej, heq⟩
    · exact ⟨i, by omega, hnej, heq⟩

/-- A zero directory entry has no present user page. -/
theorem freed_of_zero {i : Nat} (h0 : m₀.mem pd i = 0) (q : Nat) :
    Freed m₀ pd (i + 1) 0 q ↔ Freed m₀ pd i 0 q := by
  rw [← freed_next]
  constructor
  · rintro ⟨u, hu, hal, hpos, hq⟩
    refine ⟨u, hu, hal, ?_, hq⟩
    have hui : pdNo u ≠ i := by
      rintro hui
      rw [pteOf_of_tableOf_none (by simp [tableOf, hui, h0]), entryFrame_zero] at hq
      cases hq
    omega
  · rintro ⟨u, hu, hal, hpos, hq⟩
    exact ⟨u, hu, hal, by omega, hq⟩

/-- One iteration of the inner loop: the frame of a present entry goes back to the user
pool. -/
theorem Progress.freeFrame (hw : Wf m₀ pd) (hf : FramesOwned m₀ pd) {i k : Nat}
    (hp : Progress m₀ pd i k m) (hi : i < pdNo PHYS_BASE) (hne : m₀.mem pd i ≠ 0)
    (hk : k < 1024) :
    ∃ m', (if m.mem (pdeGetPt (m₀.mem pd i)) k &&& PTE_P ≠ 0 then
          m.pallocFreePage (pteGetPage (m.mem (pdeGetPt (m₀.mem pd i)) k))
        else some m) = some m' ∧ Progress m₀ pd i (k + 1) m' := by
  have hi' : i < 1024 := Nat.lt_trans hi (by decide)
  -- the entry read is the entry of the user page `pageAt i k` as it was
  have htable : tableOf m₀ pd (pageAt i k) = some (pdeGetPt (m₀.mem pd i)) := by
    simp [tableOf, pdNo_pageAt hk, hne]
  have hentry : m.mem (pdeGetPt (m₀.mem pd i)) k = pteOf m₀ pd (pageAt i k) := by
    rw [hp.tables i (Nat.le_refl i) hi' hne, pteOf_of_tableOf htable, ptNo_pageAt hk]
  by_cases hP : m.mem (pdeGetPt (m₀.mem pd i)) k &&& PTE_P ≠ 0
  · rw [if_pos hP]
    set f := pteGetPage (m.mem (pdeGetPt (m₀.mem pd i)) k) with hfdef
    have hent : entryFrame (pteOf m₀ pd (pageAt i k)) = some f := by
      rw [← hentry, entryFrame, if_pos hP]
    have huser := isUserVaddr_pageAt hi hk
    have hmaps : Maps m₀ pd f := ⟨pageAt i k, huser, pgOfs_pageAt, hent⟩
    -- the frame is mapped at `pageAt i k` alone, so it was not freed before
    have hnot : ¬ Freed m₀ pd i k f := by
      rintro ⟨u, hu, hal, hpos, hq⟩
      have := hf.unique u _ f hu hal huser pgOfs_pageAt hq hent
      rw [this, pdNo_pageAt hk, ptNo_pageAt hk] at hpos
      omega
    have hused : InUse m.userPool f := (hp.user f).mpr ⟨hf.used f hmaps, hnot⟩
    have hl := hp.layout hw.layout
    obtain ⟨pool, hfree, hbase, hlen, hiff⟩ := hl.pallocFreePage_user hused
    -- the frame is a page of the user pool, the directory and tables of the kernel pool
    have hkernel : ∀ q, InUse m₀.kernelPool q → q ≠ f := fun q hq =>
      hw.layout.ne_of_inPool hq.inPool (hf.used f hmaps).inPool
    refine ⟨_, hfree, ⟨hp.kernel_base, hp.kernel_length, hbase.trans hp.user_base,
      hlen.trans hp.user_length, hp.ram, ?_, ?_, hp.kernel, fun q => ?_⟩⟩
    · show Function.update m.mem f _ pd = _
      rw [Function.update_of_ne (hkernel pd hw.used), hp.dir]
    · intro j hij hj hnej
      dsimp only
      rw [Function.update_of_ne (hkernel _ (hw.table_used j hj hnej)), hp.tables j hij hj hnej]
    · rw [hiff, hp.user, freed_succ hi hk, hent]
      constructor
      · rintro ⟨⟨h1, h2⟩, h3⟩
        exact ⟨h1, fun h => h.elim h2 (fun e => h3 (Option.some.inj e).symm)⟩
      · rintro ⟨h1, h2⟩
        exact ⟨⟨h1, fun h => h2 (.inl h)⟩, fun e => h2 (.inr (by rw [e]))⟩
  · rw [if_neg hP]
    have hnone : entryFrame (pteOf m₀ pd (pageAt i k)) = none := by
      rw [entryFrame_eq_none_iff, ← hentry]
      simpa using hP
    refine ⟨m, rfl, ⟨hp.kernel_base, hp.kernel_length, hp.user_base, hp.user_length, hp.ram,
      hp.dir, hp.tables, hp.kernel, fun q => ?_⟩⟩
    rw [hp.user, freed_succ hi hk, hnone]
    simp

/-- The inner loop of `pagedir_destroy` on the table of a present entry `i`. -/
theorem Progress.destroyTable (hw : Wf m₀ pd) (hf : FramesOwned m₀ pd) {i : Nat}
    (hp : Progress m₀ pd i 0 m) (hi : i < pdNo PHYS_BASE) (hne : m₀.mem pd i ≠ 0) :
    ∃ m', destroyTable m (pdeGetPt (m₀.mem pd i)) = some m' ∧ Progress m₀ pd i 1024 m' := by
  unfold Pagedir.destroyTable
  rw [show PGSIZE / 4 = 1024 from rfl]
  exact Loops.foldlM_range_some 1024 (fun k m => Progress m₀ pd i k m)
    (fun k hk m hp => hp.freeFrame hw hf hi hne hk) hp

/-- After its entries, the table of entry `i` goes back to the kernel pool. -/
theorem Progress.freeTable (hw : Wf m₀ pd) {i : Nat} (hp : Progress m₀ pd i 1024 m)
    (hi : i < pdNo PHYS_BASE) (hne : m₀.mem pd i ≠ 0) :
    ∃ m', m.pallocFreePage (pdeGetPt (m₀.mem pd i)) = some m' ∧ Progress m₀ pd (i + 1) 0 m' := by
  have hi' : i < 1024 := Nat.lt_trans hi (by decide)
  -- no table before entry `i` is this one
  have hnot : ¬ TablesBefore m₀ pd i (pdeGetPt (m₀.mem pd i)) := by
    rintro ⟨j, hj, hnej, heq⟩
    have := hw.table_inj j (by omega) i hi' hnej hne heq
    omega
  have hused : InUse m.kernelPool (pdeGetPt (m₀.mem pd i)) :=
    (hp.kernel _).mpr ⟨hw.table_used i hi' hne, hnot⟩
  obtain ⟨pool, hfree, hbase, hlen, hiff⟩ := (hp.layout hw.layout).pallocFreePage_kernel hused
  refine ⟨_, hfree, ⟨hbase.trans hp.kernel_base, hlen.trans hp.kernel_length, hp.user_base,
    hp.user_length, hp.ram, ?_, ?_, fun q => ?_, fun q => ?_⟩⟩
  · show Function.update m.mem _ _ pd = _
    rw [Function.update_of_ne (Ne.symm (hw.table_ne i hi' hne)), hp.dir]
  · intro j hij hj hnej
    dsimp only
    have hji : pdeGetPt (m₀.mem pd j) ≠ pdeGetPt (m₀.mem pd i) := fun heq => by
      have := hw.table_inj j hj i hi' hnej hne heq
      omega
    rw [Function.update_of_ne hji, hp.tables j (by omega) hj hnej]
  · rw [hiff, hp.kernel, tablesBefore_succ]
    simp only [ne_eq, hne, not_false_eq_true, true_and, not_or, @eq_comm _ _ q, and_assoc]
  · rw [hp.user, freed_next]

/-- A directory entry that is zero holds no table and no frame. -/
theorem Progress.skip {i : Nat} (hp : Progress m₀ pd i 0 m) (h0 : m₀.mem pd i = 0) :
    Progress m₀ pd (i + 1) 0 m := by
  refine ⟨hp.kernel_base, hp.kernel_length, hp.user_base, hp.user_length, hp.ram, hp.dir,
    fun j hij hj hnej => hp.tables j (by omega) hj hnej, fun q => ?_, fun q => ?_⟩
  · rw [hp.kernel, tablesBefore_succ, h0]
    simp
  · rw [hp.user, freed_of_zero h0]

/-- One iteration of the outer loop: a present entry's table is emptied and freed, a zero
entry is passed over. -/
theorem Progress.destroyEntry (hw : Wf m₀ pd) (hf : FramesOwned m₀ pd) {i : Nat}
    (hp : Progress m₀ pd i 0 m) (hi : i < pdNo PHYS_BASE) :
    ∃ m', (if m.mem pd i &&& PTE_P ≠ 0 then do
        let pt := pdeGetPt (m.mem pd i)
        let m ← Pagedir.destroyTable m pt
        m.pallocFreePage pt
      else some m) = some m' ∧ Progress m₀ pd (i + 1) 0 m' := by
  rw [hp.dir]
  by_cases hne : m₀.mem pd i = 0
  · rw [if_neg (by rw [hne]; decide)]
    exact ⟨m, rfl, hp.skip hne⟩
  · rw [if_pos (hw.present i (Nat.lt_trans hi (by decide)) hne)]
    obtain ⟨m₁, h₁, hp₁⟩ := hp.destroyTable hw hf hi hne
    obtain ⟨m₂, h₂, hp₂⟩ := hp₁.freeTable hw hi hne
    refine ⟨m₂, ?_, hp₂⟩
    dsimp only
    rw [h₁, Option.bind_eq_bind, Option.bind_some, h₂]

/-- Every user page has a directory entry below `pdNo PHYS_BASE`. -/
theorem freed_all (q : Nat) : Freed m₀ pd (pdNo PHYS_BASE) 0 q ↔ Maps m₀ pd q := by
  constructor
  · rintro ⟨u, hu, hal, -, hq⟩
    exact ⟨u, hu, hal, hq⟩
  · rintro ⟨u, hu, hal, hq⟩
    exact ⟨u, hu, hal, .inl (pdNo_lt_of_user hu), hq⟩

theorem tablesBefore_all (q : Nat) :
    TablesBefore m₀ pd (pdNo PHYS_BASE) q ↔ HasTable m₀ pd q := by
  constructor
  · rintro ⟨j, hj, hnej, rfl⟩
    refine ⟨pageAt j 0, isUserVaddr_pageAt hj (by decide), ?_⟩
    simp [tableOf, pdNo_pageAt, hnej]
  · rintro ⟨u, hu, ht⟩
    unfold tableOf at ht
    split_ifs at ht with h0
    exact ⟨pdNo u, pdNo_lt_of_user hu, h0, Option.some.inj ht⟩

end Steps

/-- `pagedir_destroy` of a well-formed directory whose frames are its own returns, and gives
back to their pools exactly the frames of its user pages, its page tables and the directory
itself. -/
theorem Wf.pagedirDestroy {m : Machine} {pd : Nat} (hw : Wf m pd) (hf : FramesOwned m pd) :
    ∃ m', pagedirDestroy m pd = some m' ∧
      (∀ q, InUse m'.userPool q ↔ InUse m.userPool q ∧ ¬ Maps m pd q) ∧
      (∀ q, InUse m'.kernelPool q ↔ InUse m.kernelPool q ∧ ¬ HasTable m pd q ∧ q ≠ pd) := by
  unfold Pagedir.pagedirDestroy
  rw [if_neg hw.pd_ne_zero, if_neg hw.ne_init]
  -- the outer loop, with `Progress` at each directory entry
  obtain ⟨m₁, h₁, hp⟩ := Loops.foldlM_range_some (pdNo PHYS_BASE)
    (fun i m' => Progress m pd i 0 m') (fun i hi m' hp => hp.destroyEntry hw hf hi) progress_start
  -- then the directory, which is no page table of its own
  have hnot : ¬ TablesBefore m pd (pdNo PHYS_BASE) pd := by
    rintro ⟨j, hj, hnej, heq⟩
    exact hw.table_ne j (Nat.lt_trans hj (by decide)) hnej heq
  obtain ⟨pool, hfree, -, -, hiff⟩ :=
    (hp.layout hw.layout).pallocFreePage_kernel ((hp.kernel pd).mpr ⟨hw.used, hnot⟩)
  refine ⟨{ m₁ with kernelPool := pool, mem := Function.update m₁.mem pd fun _ => 0xcccccccc },
    ?_, fun q => ?_, fun q => ?_⟩
  · rw [h₁]
    exact hfree
  · show InUse m₁.userPool q ↔ _
    rw [hp.user, freed_all]
  · show InUse pool q ↔ _
    rw [hiff, hp.kernel, tablesBefore_all, and_assoc]

/-! ## The life of a directory -/

/-- A directory from `pagedir_create`, after any allowed run of `set_page`, `clear_page`,
`set_dirty` and `set_accessed`: `get_page` gives the frame of the last `set_page` of the page
that returned `true` and was not cleared, each further call changes the entry of its own
page only, and `pagedir_destroy` frees exactly the frames, the tables and the directory. -/
theorem pagedir_finite_map {m m₁ m' : Machine} {pd : Nat} (hi : InitDir m)
    (hcreate : pagedirCreate m = (m₁, some pd)) {tr : List (Call × Bool)}
    (hrun : Run pd m₁ tr m') (hallowed : Allowed m.initRamPages (fun _ => none) tr) :
    (∀ u, isUserVaddr u = true →
      pagedirGetPage m' pd u = some ((lastSet (pgRoundDown u) tr).map (· + pgOfs u))) ∧
    (∀ c : Call, c.Valid m.initRamPages →
      (∀ upage kpage writable, c = .setPage upage kpage writable → lastSet upage tr = none) →
      ∃ m'' ok, callStep m' pd c = some (m'', ok) ∧
        ∀ va, va < 2 ^ 32 → pgNo va ≠ pgNo c.page → pteOf m'' pd va = pteOf m' pd va) ∧
    (FramesOwned m' pd → ∃ m'', pagedirDestroy m' pd = some m'' ∧
      (∀ q, InUse m''.userPool q ↔ InUse m'.userPool q ∧ ¬ Maps m' pd q) ∧
      (∀ q, InUse m''.kernelPool q ↔ InUse m'.kernelPool q ∧ ¬ HasTable m' pd q ∧ q ≠ pd)) := by
  -- the directory `pagedir_create` returned is well formed and maps nothing
  obtain ⟨hw₁, hA₁, hram₁⟩ : Wf m₁ pd ∧ Refines m₁ pd (fun _ => none) ∧
      m₁.initRamPages = m.initRamPages := by
    rcases hi.pagedirCreate with ⟨m₂, pd₂, h, hw, hA, hram⟩ | h <;> rw [hcreate] at h
    · simp only [Prod.mk.injEq, Option.some.injEq] at h
      obtain ⟨rfl, rfl⟩ := h
      exact ⟨hw, hA, hram⟩
    · cases (Prod.mk.inj h).2
  obtain ⟨hw, hA, hram⟩ := hw₁.run hA₁ hrun (hram₁ ▸ hallowed)
  have hmap : mapAfter (fun _ => none) tr = fun u => lastSet u tr :=
    funext (mapAfter_eq_lastSet tr)
  rw [hmap] at hA
  refine ⟨fun u hu => hA.getPage hw hu, fun c hc hfree => ?_, hw.pagedirDestroy⟩
  obtain ⟨m'', ok, hcall, -, -, -, hframe⟩ :=
    hw.step hA (by rw [hram, hram₁]; exact hc) hfree
  exact ⟨m'', ok, hcall, hframe⟩

/-- At boot with three free kernel pages, one user page mapped after `pagedir_create` is read
back by `get_page`. -/
theorem pagedir_finite_map_boot :
    ∃ m₁ m' pd, pagedirCreate ⟨fun _ _ => 0, ⟨0xc0100000, [true, false, false]⟩,
        ⟨0xc0400000, [false, false]⟩, 0xc0100000, 0x800⟩ = (m₁, some pd) ∧
      Run pd m₁ [(.setPage 0x08048000 0xc0400000 true, true)] m' ∧
      pagedirGetPage m' pd 0x08048005 = some (some 0xc0400005) := by
  refine ⟨_, _, _, rfl, .cons rfl (.nil _), ?_⟩
  have hi : InitDir ⟨fun _ _ => 0, ⟨0xc0100000, [true, false, false]⟩,
      ⟨0xc0400000, [false, false]⟩, 0xc0100000, 0x800⟩ :=
    .of_zero ⟨⟨by decide, by decide, by decide⟩, ⟨by decide, by decide, by decide⟩, by decide,
      by decide⟩ ⟨0, by decide, rfl⟩ fun _ => rfl
  have hallowed : Allowed 0x800 (fun _ => none)
      [(.setPage 0x08048000 0xc0400000 true, true)] :=
    ⟨⟨by decide, by decide, by decide, by decide, by decide⟩, fun _ _ _ _ => rfl, trivial⟩
  rw [(pagedir_finite_map hi rfl (.cons rfl (.nil _)) hallowed).1 0x08048005 (by decide)]
  decide

/-- With one free kernel page, `pagedir_create` takes it and the first `set_page` finds no
page for its table: it returns `false`, and `get_page` of the page it was given is `NULL`
though no `clear_page` followed. -/
theorem pagedir_set_page_without_table :
    InitDir ⟨fun _ _ => 0, ⟨0xc0100000, [true, false]⟩, ⟨0xc0400000, [false, false]⟩,
        0xc0100000, 0x800⟩ ∧
      Allowed 0x800 (fun _ => none) [(.setPage 0x08048000 0xc0400000 true, false)] ∧
      ∃ m₁ m' pd, pagedirCreate ⟨fun _ _ => 0, ⟨0xc0100000, [true, false]⟩,
          ⟨0xc0400000, [false, false]⟩, 0xc0100000, 0x800⟩ = (m₁, some pd) ∧
        Run pd m₁ [(.setPage 0x08048000 0xc0400000 true, false)] m' ∧
        pagedirGetPage m' pd 0x08048005 = some none := by
  refine ⟨.of_zero ⟨⟨by decide, by decide, by decide⟩, ⟨by decide, by decide, by decide⟩,
      by decide, by decide⟩ ⟨0, by decide, rfl⟩ fun _ => rfl,
    ⟨⟨by decide, by decide, by decide, by decide, by decide⟩, fun _ _ _ _ => rfl, trivial⟩,
    _, _, _, rfl, .cons rfl (.nil _), ?_⟩
  decide

end Pintos.Pagedir
