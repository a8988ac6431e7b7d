import Pintos.Model.Page

/-!
# The frame table, the page tables and the supplemental page tables

`Consistent` is what the three structures are meant to agree on: a swap slot is in use
exactly when one live entry is in it; frames are distinct, and each frame's page is
mapped to it and has an entry that says it is in memory there (the stack page of
`setup_stack` has no entry); no page that is not in memory is mapped; the clock hand is
on an entry of the table.

The clock hand that `alloc_frame_entry` runs always chooses a victim when the table is not
empty and the hand is on one of its entries (`getVictim_isSome`), by the termination
measure of `Clock.scan_isSome`. What it does on the way is `ClockRun` (`get_victim_clock`,
from `Clock.scan_spec`): it stops within `n + 1` iterations, whatever bound the fuel
puts past them, on an entry whose bit is clear, having cleared every entry it passed, and
leaves `clock_pointer` on the next entry.

`munmap` breaks `Consistent`. It deletes the table entries of the mapping, and leaves the
frames of its pages in the frame table and mapped in the page directory, so from any state
in which a page of the mapping other than the stack page has a frame, the frame is left
unbacked (`munmap_unbacks_frame`, `munmap_breaks_consistent`);
`munmap_leaves_frame_without_spte` runs it from boot. The frame stays mapped, so the
process still reads and writes a page it has unmapped; a later `mmap` at the same address
registers entries that say the page is not loaded while it is still mapped
(`remmap_maps_page_not_loaded`).
-/

set_option autoImplicit false

namespace Pintos.Vm.Analysis

open State

/-- The live entries in swap slot `i`: thread and page. -/
def swapOwners (vm : State) (i : Nat) : List (Nat × Nat) :=
  (List.range vm.procs.length).flatMap fun t =>
    if (vm.proc t).alive then
      (vm.proc t).spt.entries.filterMap fun e =>
        if e.2.status = .inSwap ∧ e.2.swapIndex = i then some (t, e.1) else none
    else []

/-- A frame of the table whose page is mapped to it and has an entry in memory there, or
is the stack page `setup_stack` mapped without one. -/
def FrameBacked (vm : State) (e : Fte) : Prop :=
  (vm.proc e.owner).getPage e.upage = some e.kpage ∧
    ((∃ spte, (vm.proc e.owner).findSpte e.upage = some spte ∧ spte.status = .inMemory ∧
        spte.kpage = some e.kpage) ∨
      (e.upage = PHYS_BASE - PGSIZE ∧ (vm.proc e.owner).findSpte e.upage = none))

structure Consistent (vm : State) : Prop where
  swap : ∀ i < vm.swapAvailable.length,
    vm.swapAvailable.getD i true = false ↔ (swapOwners vm i).length = 1
  distinct : (vm.frameTable.map (·.kpage)).Nodup
  backed : ∀ e ∈ vm.frameTable, FrameBacked vm e
  notLoadedUnmapped : ∀ t, (vm.proc t).alive → ∀ u spte, (vm.proc t).findSpte u = some spte →
    spte.status ≠ .inMemory → (vm.proc t).getPage u = none
  clock : ∀ id, vm.clockPointer = some id → ∃ e ∈ vm.frameTable, e.id = id

/-! ## The clock hand -/

theorem isAccessed_none (u : Nat) : Proc.none.isAccessed u = false := rfl

/-- Clearing an entry's accessed bit sets no other. -/
theorem frameAccessed_monotone : Clock.Monotone frameAccessed clearFrameAccessed := by
  intro vm a b h
  simp only [frameAccessed, clearFrameAccessed, proc_modifyProc] at h ⊢
  split at h
  · rename_i hab
    rw [← hab.1, Proc.isAccessed_setAccessed_false] at h
    rw [← hab.1]
    simp only [Bool.and_eq_true, decide_eq_true_eq] at h
    exact h.2
  · exact h

/-- Clearing an entry's accessed bit clears it; a frame of no process has none set. -/
theorem frameAccessed_clears : Clock.Clears frameAccessed clearFrameAccessed := by
  intro vm a
  simp only [frameAccessed, clearFrameAccessed, proc_modifyProc]
  split
  · simp [Proc.isAccessed_setAccessed_false]
  · rename_i h
    have hlen : vm.procs.length ≤ a.owner := by simp at h; omega
    rw [vm.proc_of_length_le hlen, isAccessed_none]

theorem clockStart_lt {vm : State} (hne : vm.frameTable ≠ [])
    (hclock : ∀ id, vm.clockPointer = some id → ∃ e ∈ vm.frameTable, e.id = id) :
    vm.clockStart < vm.frameTable.length := by
  unfold clockStart
  cases hc : vm.clockPointer with
  | none => exact List.length_pos_of_ne_nil hne
  | some id =>
      obtain ⟨e, he, rfl⟩ := hclock _ hc
      exact List.findIdx_lt_length_of_exists ⟨e, he, by simp⟩

/-- With the hand on an entry of a table that is not empty, `get_victim` chooses an
entry: `alloc_frame_entry` never runs the hand off the table. -/
theorem getVictim_isSome {vm : State} (hne : vm.frameTable ≠ [])
    (hclock : ∀ id, vm.clockPointer = some id → ∃ e ∈ vm.frameTable, e.id = id) :
    vm.getVictim.isSome := by
  obtain ⟨⟨vm', i⟩, hscan⟩ := Option.isSome_iff_exists.mp
    (Clock.scan_isSome frameAccessed_monotone frameAccessed_clears vm (clockStart_lt hne hclock))
  have hi := Clock.scan_lt hscan
  unfold getVictim
  simp [hscan, List.getElem?_eq_getElem hi]

theorem getVictim_mem {vm vm' : State} {victim : Fte} (h : vm.getVictim = some (vm', victim)) :
    victim ∈ vm.frameTable := by
  unfold getVictim at h
  dsimp only at h
  split at h
  · split at h
    · rename_i hv
      obtain ⟨-, rfl⟩ := Prod.mk.inj (Option.some.inj h)
      exact List.mem_of_getElem? hv
    · simp at h
  · simp at h

/-- A run of the clock hand from `vm` that stops `d` entries on from where it started, in
state `s`, on `victim`: `d + 1` iterations of the loop; every number of iterations past them
gives the same result, so the `while (1)` of `get_victim` ends there; the victim's bit is
clear and so is the bit of every entry passed over; the table is the same; and `get_victim`
returns the victim with `clock_pointer` on the next entry, round to the front after the
last. -/
structure ClockRun (vm : State) (d : Nat) (s : State) (victim : Fte) : Prop where
  iterations : d ≤ vm.frameTable.length
  stops : ∀ fuel, d + 1 ≤ fuel →
    Clock.scan frameAccessed clearFrameAccessed vm.frameTable fuel vm.clockStart vm =
      some (s, (vm.clockStart + d) % vm.frameTable.length)
  chosen : vm.frameTable[(vm.clockStart + d) % vm.frameTable.length]? = some victim
  victim_clear : s.frameAccessed victim = false
  passed_clear : ∀ k < d, ∀ e, vm.frameTable[(vm.clockStart + k) % vm.frameTable.length]? = some e →
    s.frameAccessed e = false
  frameTable : s.frameTable = vm.frameTable
  result : vm.getVictim = some
    ({ s with clockPointer :=
        (vm.frameTable[((vm.clockStart + d) % vm.frameTable.length + 1) %
          vm.frameTable.length]?).map (·.id) }, victim)

/-- `get_victim` on a table that is not empty, with the hand on one of its entries or
`NULL`, and any accessed bits: the loop ends within `n + 1` iterations (so within
`2n + 1`) and `get_victim` returns an entry whose bit it found clear, with every entry it
passed cleared and `clock_pointer` on the entry after the victim. -/
theorem get_victim_clock (vm : State) (hne : vm.frameTable ≠ [])
    (hclock : ∀ id, vm.clockPointer = some id → ∃ e ∈ vm.frameTable, e.id = id) :
    ∃ d s victim, ClockRun vm d s victim := by
  have hstart := clockStart_lt hne hclock
  obtain ⟨⟨s, j⟩, hscan⟩ := Option.isSome_iff_exists.mp
    (Clock.scan_isSome frameAccessed_monotone frameAccessed_clears vm hstart)
  obtain ⟨victim, hvictim, hclear⟩ := Clock.scan_chosen hscan
  obtain ⟨d, hd, hstep, rfl, hpassed⟩ :=
    Clock.scan_spec frameAccessed_monotone frameAccessed_clears hstart hscan
  -- clearing an accessed bit changes a page directory, never the table
  have hkeep : ∀ (s : State) (e : Fte), s.frameTable = vm.frameTable →
      (s.clearFrameAccessed e).frameTable = vm.frameTable := fun _ _ h => h
  have hft : s.frameTable = vm.frameTable := Clock.scan_invariant hkeep rfl hscan
  refine ⟨d, s, victim, ⟨by omega, fun fuel hf => Clock.scan_of_le_fuel hf hstep, hvictim, hclear,
    hpassed, hft, ?_⟩⟩
  unfold getVictim
  simp only [hscan, hvictim]

/-- Two frames of thread 0, both pages accessed, and the hand on the second. -/
def clockVm : State :=
  { State.init 0 0 [] with
    procs := [{ Proc.none with
      pagedir := ((∅ : AList fun _ : Nat => Pte).insert 0 ⟨1, true, true, true, false⟩).insert 4096
        ⟨2, true, true, true, false⟩ }],
    frameTable := [⟨10, 0, 1, 0⟩, ⟨11, 4096, 2, 0⟩],
    clockPointer := some 11 }

theorem get_victim_clock_all_accessed : ∃ d s victim, ClockRun clockVm d s victim :=
  get_victim_clock clockVm (by simp [clockVm]) (by
    intro id h
    simp only [clockVm, Option.some.injEq] at h
    subst h
    exact ⟨⟨11, 4096, 2, 0⟩, by simp [clockVm], rfl⟩)

/-- The hand clears both bits, comes round to the second frame and takes it; the pointer
wraps to the first. -/
example : clockVm.getVictim.map (fun r => (r.2.id, r.1.clockPointer)) = some (11, some 10) := by
  decide

/-! ## Munmap -/

section Munmap

variable {t : Nat} {mte : Mte}

/-- `munmap`'s loop keeps the frame table and every page directory. -/
theorem munmapLoop_frame (ps : List Nat) (vm : State) :
    (vm.munmapLoop t mte ps).frameTable = vm.frameTable ∧
      ∀ u, ((vm.munmapLoop t mte ps).proc u).pagedir = (vm.proc u).pagedir := by
  induction ps generalizing vm with
  | nil => exact ⟨rfl, fun _ => rfl⟩
  | cons p ps ih =>
      simp only [munmapLoop]
      split
      · exact ⟨rfl, fun _ => rfl⟩
      · -- the entry is erased from `t`'s table; the write-back touches the files
        obtain ⟨ih1, ih2⟩ := ih _
        rw [ih1]
        refine ⟨?_, fun u => ?_⟩
        · split
          · exact frameTable_writeBackPage _ _ _
          · rfl
        · rw [ih2]
          have hprocs : ∀ vm' : State, vm'.procs = (vm.modifyProc t fun pr =>
              { pr with spt := pr.spt.erase (mte.vaddr + p) }).procs →
              (vm'.proc u).pagedir = (vm.proc u).pagedir := by
            intro vm' h
            rw [proc_eq_of_procs_eq h, proc_modifyProc]
            split <;> rfl
          split
          · exact hprocs _ (procs_writeBackPage _ _ _)
          · exact hprocs _ rfl

theorem findSpte_erase (pr : Proc) (x y : Nat) :
    ({ pr with spt := pr.spt.erase y } : Proc).findSpte x = if x = y then none else pr.findSpte x := by
  by_cases h : x = y
  · subst h
    simp [Proc.findSpte, AList.lookup_erase]
  · simp [Proc.findSpte, AList.lookup_erase_ne h, h]

/-- One round of the loop leaves the page's entry deleted, and every other entry as it
was. -/
theorem findSpte_munmapRound (vm : State) (spte : Spte) (p x : Nat) (c : Prop) [Decidable c] :
    ((if c then (vm.modifyProc t fun pr => { pr with spt := pr.spt.erase (mte.vaddr + p) }).writeBackPage spte p
      else vm.modifyProc t fun pr => { pr with spt := pr.spt.erase (mte.vaddr + p) }).proc t).findSpte x =
      if x = mte.vaddr + p then none else (vm.proc t).findSpte x := by
  have hround : ((vm.modifyProc t fun pr => { pr with spt := pr.spt.erase (mte.vaddr + p) }).proc t).findSpte x =
      if x = mte.vaddr + p then none else (vm.proc t).findSpte x := by
    rw [proc_modifyProc]
    split
    · exact findSpte_erase _ _ _
    · rename_i ht
      have hlen : vm.procs.length ≤ t := by simp at ht; omega
      rw [vm.proc_of_length_le hlen]
      split <;> rfl
  split
  · rw [proc_eq_of_procs_eq (procs_writeBackPage _ _ _)]
    exact hround
  · exact hround

/-- The loop deletes entries of `t`'s table and adds none. -/
theorem findSpte_munmapLoop_of_none (ps : List Nat) (vm : State) {x : Nat}
    (hx : (vm.proc t).findSpte x = none) : ((vm.munmapLoop t mte ps).proc t).findSpte x = none := by
  induction ps generalizing vm with
  | nil => exact hx
  | cons p ps ih =>
      simp only [munmapLoop]
      split
      · exact hx
      · apply ih
        rw [findSpte_munmapRound]
        split
        · rfl
        · exact hx

/-- A loop that does not stop the machine deletes the entry of every page it visits. -/
theorem findSpte_munmapLoop (ps : List Nat) (vm : State)
    (hok : (vm.munmapLoop t mte ps).panicked = false) {p : Nat} (hp : p ∈ ps) :
    ((vm.munmapLoop t mte ps).proc t).findSpte (mte.vaddr + p) = none := by
  induction ps generalizing vm with
  | nil => simp at hp
  | cons q ps ih =>
      simp only [munmapLoop] at hok ⊢
      cases hq : (vm.proc t).findSpte (mte.vaddr + q) with
      | none =>
          -- a page with no entry stops the machine
          simp only [hq] at hok
          simp [State.panic] at hok
      | some spte =>
          simp only [hq] at hok ⊢
          rcases List.mem_cons.mp hp with rfl | hp
          · apply findSpte_munmapLoop_of_none
            rw [findSpte_munmapRound, if_pos rfl]
          · exact ih _ hok hp

/-- `munmap` deletes the entries of the mapping's pages, and leaves the frame table and the
page directories as they were: every frame of one of those pages stays in the table,
mapped, with no entry. Unless it is the stack page, it is no longer backed. -/
theorem munmap_unbacks_frame {vm : State} {m : Int} {e : Fte} {p : Nat}
    (hmte : (vm.proc t).mmapTable.find? (·.mapid = m) = some mte)
    (hp : p ∈ pagePositions (vm.fileLength mte.file)) (he : e ∈ vm.frameTable)
    (howner : e.owner = t) (hupage : e.upage = mte.vaddr + p) (hstack : e.upage ≠ PHYS_BASE - PGSIZE)
    (hok : (vm.syscallMunmap t m).panicked = false) :
    e ∈ (vm.syscallMunmap t m).frameTable ∧
      ((vm.syscallMunmap t m).proc t).getPage e.upage = (vm.proc t).getPage e.upage ∧
      ¬ FrameBacked (vm.syscallMunmap t m) e := by
  unfold syscallMunmap at hok ⊢
  rw [hmte] at hok ⊢
  dsimp only at hok ⊢
  set vm' := vm.munmapLoop t mte (pagePositions (vm.fileLength mte.file))
  obtain ⟨hft, hpd⟩ : vm'.frameTable = vm.frameTable ∧ ∀ u, (vm'.proc u).pagedir = (vm.proc u).pagedir :=
    munmapLoop_frame _ vm
  have hnone : (vm'.proc t).findSpte e.upage = none := by
    rw [hupage]
    exact findSpte_munmapLoop _ vm hok hp
  -- the last step only drops the mapping from the table of mappings
  have hproc : ((vm'.modifyProc t fun pr => { pr with mmapTable := pr.mmapTable.erase mte }).proc t).spt =
        (vm'.proc t).spt ∧
      ((vm'.modifyProc t fun pr => { pr with mmapTable := pr.mmapTable.erase mte }).proc t).pagedir =
        (vm'.proc t).pagedir := by
    rw [proc_modifyProc]
    split <;> exact ⟨rfl, rfl⟩
  refine ⟨by simpa [hft] using he, ?_, fun hb => ?_⟩
  · simp only [Proc.getPage, Proc.lookupPte, hproc.2, hpd]
  · rcases hb.2 with ⟨spte, hs, -⟩ | ⟨hs, -⟩
    · rw [howner] at hs
      simp only [Proc.findSpte, hproc.1] at hs
      simp [Proc.findSpte] at hnone
      simp [hnone] at hs
    · exact hstack hs

/-- So `munmap` of a mapping one of whose pages has a frame breaks `Consistent`. -/
theorem munmap_breaks_consistent {vm : State} {m : Int} {e : Fte} {p : Nat}
    (hmte : (vm.proc t).mmapTable.find? (·.mapid = m) = some mte)
    (hp : p ∈ pagePositions (vm.fileLength mte.file)) (he : e ∈ vm.frameTable)
    (howner : e.owner = t) (hupage : e.upage = mte.vaddr + p) (hstack : e.upage ≠ PHYS_BASE - PGSIZE)
    (hok : (vm.syscallMunmap t m).panicked = false) :
    ¬ Consistent (vm.syscallMunmap t m) := by
  obtain ⟨he', -, hunbacked⟩ := munmap_unbacks_frame hmte hp he howner hupage hstack hok
  exact fun h => hunbacked (h.backed e he')

end Munmap

/-! ## Munmap from boot -/

/-- An empty executable and a one-page file whose bytes are 5. -/
def bootFiles : List Inode := [⟨0, fun _ => 0, 0⟩, ⟨PGSIZE, fun _ => 5, 0⟩]

/-- A process opens the file (descriptor 2), maps it at `0x10000000` (mapping 0), writes
a byte of the page, and unmaps it. -/
def munmapRun : List Event :=
  [.load 0 [] [], .open 0 1, .mmap 0 2 0x10000000,
    .access 0 0x10000000 (PHYS_BASE - 16) (.write 7), .munmap 0 0]

/-- The machine with four user pages and four swap slots after `munmapRun`. -/
def munmapState : State := run (State.init 4 4 bootFiles) munmapRun

/-- After `munmap` the page's frame is still in the table and mapped, with no entry. -/
theorem munmap_leaves_frame_without_spte :
    ⟨1, 0x10000000, 1, 0⟩ ∈ munmapState.frameTable ∧
      (munmapState.proc 0).getPage 0x10000000 = some 1 ∧
      (munmapState.proc 0).findSpte 0x10000000 = none ∧ ¬ Consistent munmapState := by
  have hmem : (⟨1, 0x10000000, 1, 0⟩ : Fte) ∈ munmapState.frameTable := by decide
  have hpage : (munmapState.proc 0).getPage 0x10000000 = some 1 := by decide
  have hspte : (munmapState.proc 0).findSpte 0x10000000 = none := by decide
  refine ⟨hmem, hpage, hspte, fun h => ?_⟩
  -- the frame is neither backed by an entry nor the stack page
  rcases (h.backed _ hmem).2 with ⟨spte, hs, -⟩ | ⟨hstack, -⟩
  · simp [hspte] at hs
  · simp [PHYS_BASE, PGSIZE, PGBITS] at hstack

/-- Mapping the file again at the same address: the new entry says the page is not
loaded, and the old frame is still mapped there. -/
theorem remmap_maps_page_not_loaded :
    (((step munmapState (.mmap 0 2 0x10000000)).proc 0).findSpte 0x10000000).map (·.status) =
        some .notLoaded ∧
      ((step munmapState (.mmap 0 2 0x10000000)).proc 0).getPage 0x10000000 = some 1 := by
  decide

end Pintos.Vm.Analysis
