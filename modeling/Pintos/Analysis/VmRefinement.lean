import Pintos.Interface.FlatMemory

/-!
# Virtual memory against flat memory

`load_file_page` seeks the page's file to `spte->ofs` and then calls `alloc_frame_entry`.
When no frame is free, the eviction in between may write a dirty page of the same mapping
back through the same `struct file`, with a `file_seek` and a `file_write` of its own.
`file_read` then reads from where that write stopped. The loaded page holds another part
of the file, and the process reads bytes it never wrote that are not the page's initial
content.

`loadFilePage_mem` says where a loaded page's bytes come from: the file's position once
`alloc_frame_entry` has returned. With a free frame that is `spte->ofs`
(`loadFilePage_mem_of_free`); when the frame is taken from a written page of a mapping of the
same file, it is where that page's write-back stopped (`loadFilePage_mem_of_evict`).

`mmap_reload_reads_wrong_offset` runs this with two user pages: the first page of a
mapping, written, is evicted while the third loads, and the third shows the second's bytes
where `Flat` shows its own.
-/

set_option autoImplicit false

namespace Pintos.Vm.Analysis

open State

section LoadFilePage

variable {vm : State} {t u f : Nat} {spte : Spte}

/-- A page that `load_file_page` loads holds the file from wherever the file stands once
`alloc_frame_entry` has returned, not from where `file_seek` put it. -/
theorem loadFilePage_mem (hs : (vm.proc t).findSpte u = some spte) (hst : spte.status = .notLoaded)
    (hf : spte.file = some f) {vm1 : State} {kpage : Nat}
    (halloc : (vm.fileSeek f spte.ofs).allocFrameEntry t false u = (vm1, kpage))
    (hok : (vm.loadFilePage t u).2 = true) {o : Nat}
    (ho : o < (((vm1.proc t).findSpte u).getD spte).readBytes) :
    (vm.loadFilePage t u).1.mem kpage o = (vm1.inode (vm1.file f).inode).data ((vm1.file f).pos + o) := by
  unfold loadFilePage at hok ⊢
  simp only [hs, hst, hf, halloc, if_true] at hok ⊢
  set rb := (((vm1.proc t).findSpte u).getD spte).readBytes
  -- `file_read` returned `read_bytes`, so the whole prefix came from the file
  by_cases hn : (vm1.fileRead f kpage rb).2 = rb
  · have hmin : min rb ((vm1.inode (vm1.file f).inode).length - (vm1.file f).pos) = rb := by
      simpa [fileRead] using hn
    rw [if_neg (not_not.mpr hn)]
    simp only [mem_setSpte, mem_pagedirSetPage, setFrame, Function.update_self]
    rw [if_neg (by omega), mem_fileRead, if_pos (by omega)]
  · -- a short read frees the frame and fails
    rw [if_pos hn] at hok
    exact absurd hok Bool.false_ne_true

/-- With a free frame nothing runs between the seek and the read: the page holds the file
from `spte->ofs`, as a page of a mapping should. -/
theorem loadFilePage_mem_of_free (hs : (vm.proc t).findSpte u = some spte)
    (hst : spte.status = .notLoaded) (hf : spte.file = some f) (hfl : f < vm.files.length)
    {frame : Nat} {vm' : State} (hfree : (vm.fileSeek f spte.ofs).pallocGetPage false = (some frame, vm'))
    (hok : (vm.loadFilePage t u).2 = true) {o : Nat} (ho : o < spte.readBytes) :
    (vm.loadFilePage t u).1.mem frame o = (vm.inode (vm.file f).inode).data (spte.ofs + o) := by
  obtain ⟨hprocs, hfiles, hinodes⟩ := pallocGetPage_frame (vm.fileSeek f spte.ofs) false
  rw [hfree] at hprocs hfiles hinodes
  dsimp only at hprocs hfiles hinodes
  -- taking the page leaves the tables, and so the entry and the file, as the seek left them
  have ho' : o < (((vm'.proc t).findSpte u).getD spte).readBytes := by
    rwa [proc_eq_of_procs_eq hprocs, proc_fileSeek, hs]
  rw [loadFilePage_mem hs hst hf (allocFrameEntry_of_free _ hfree) hok ho']
  show (vm'.inode (vm'.file f).inode).data ((vm'.file f).pos + o) = _
  rw [file_eq_of_files_eq hfiles, file_fileSeek_self vm hfl, inode_eq_of_inodes_eq hinodes]
  rfl

/-- When the frame is taken from a written page of a mapping through the same file, the
page holds the file from where that page's write-back stopped. -/
theorem loadFilePage_mem_of_evict (hs : (vm.proc t).findSpte u = some spte)
    (hst : spte.status = .notLoaded) (hf : spte.file = some f) (hfl : f < vm.files.length)
    {vm' vm'' vm1 : State} {victim : Fte} {vspte : Spte} {kpage k : Nat}
    (hnone : (vm.fileSeek f spte.ofs).pallocGetPage false = (none, vm'))
    (hvictim : vm'.getVictim = some (vm'', victim))
    (hvs : (vm''.proc victim.owner).findSpte victim.upage = some vspte) (hmmap : vspte.isMmap = true)
    (hdirty : (vm''.proc victim.owner).isDirty victim.upage = true) (hvf : vspte.file = some f)
    (hvk : vspte.kpage = some k)
    (halloc : (vm.fileSeek f spte.ofs).allocFrameEntry t false u = (vm1, kpage))
    (hok : (vm.loadFilePage t u).2 = true) {o : Nat}
    (ho : o < (((vm1.proc t).findSpte u).getD spte).readBytes) :
    (vm.loadFilePage t u).1.mem kpage o =
      (vm.inode (vm.file f).inode).data
        (vspte.ofs + (if 0 < (vm.inode (vm.file f).inode).denyWriteCnt then 0
          else min vspte.readBytes ((vm.inode (vm.file f).inode).length - vspte.ofs)) + o) := by
  rw [loadFilePage_mem hs hst hf halloc hok ho]
  obtain ⟨hfiles, hinodes⟩ : vm''.files = (vm.fileSeek f spte.ofs).files ∧ vm''.inodes = vm.inodes := by
    obtain ⟨-, hf', hi'⟩ := pallocGetPage_frame (vm.fileSeek f spte.ofs) false
    rw [hnone] at hf' hi'
    obtain ⟨hf'', hi''⟩ := getVictim_files vm' hvictim
    exact ⟨hf''.trans hf', hi''.trans hi'⟩
  set vm2 : State := { vm'' with frameTable := vm''.frameTable.erase victim ++ [victim] }
  replace hfiles : vm2.files = (vm.fileSeek f spte.ofs).files := hfiles
  replace hinodes : vm2.inodes = vm.inodes := hinodes
  have hfile : vm2.file f = { vm.file f with pos := spte.ofs } := by
    rw [file_eq_of_files_eq hfiles, file_fileSeek_self vm hfl]
  have hfl2 : f < vm2.files.length := by
    rw [hfiles, length_files_fileSeek]
    exact hfl
  unfold allocFrameEntry at halloc
  rw [hnone] at halloc
  simp only [hvictim] at halloc
  obtain ⟨rfl, rfl⟩ := Prod.mk.inj halloc
  rw [evictFrame_of_dirty_mmap vm2 hvs hmmap hdirty]
  -- the read sees the files as the victim's write-back leaves them
  set wb := vm2.writeBackPage vspte vspte.ofs
  show (wb.inode (wb.file f).inode).data ((wb.file f).pos + o) = _
  have hwb := file_writeBackPage vm2 hvf hvk hfl2 vspte.ofs
  rw [show (wb.file f).inode = (vm2.file f).inode by rw [hwb],
    data_writeBackPage vm2 hvf hvk hfl2 (Nat.le_add_right _ o), hwb]
  dsimp only
  rw [hfile, inode_eq_of_inodes_eq hinodes]

end LoadFilePage

/-- A file of three pages whose page `k` holds the byte `k`. -/
def pagedFile : Inode := ⟨3 * PGSIZE, fun o => UInt8.ofNat (o / PGSIZE), 0⟩

def pagedFiles : List Inode := [⟨0, fun _ => 0, 0⟩, pagedFile]

/-- A process starts with three argument bytes on its stack page, opens the file
(descriptor 2), maps it at `0x10000000`, writes the first page, and reads the second and
the third. -/
def reloadRun : List Event :=
  [.load 0 [] [1, 2, 3], .open 0 1, .mmap 0 2 0x10000000,
    .access 0 0x10000000 (PHYS_BASE - 16) (.write 7),
    .access 0 0x10001000 (PHYS_BASE - 16) .read,
    .access 0 0x10002000 (PHYS_BASE - 16) .read]

/-- With two user pages, the read of the third page returns the second page's byte. The
second read evicts the stack page; the third evicts the written first page, whose
write-back leaves the file at offset `PGSIZE`. -/
theorem mmap_reload_reads_wrong_offset :
    (run (State.init 2 4 pagedFiles) reloadRun).reads =
        [⟨0, 0x10001000, 1⟩, ⟨0, 0x10002000, 1⟩] ∧
      (Flat.run (Flat.State.init pagedFiles) reloadRun).reads =
        [⟨0, 0x10001000, 1⟩, ⟨0, 0x10002000, 2⟩] := by
  decide

end Pintos.Vm.Analysis
