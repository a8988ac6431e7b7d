import Pintos.Model.Filesys
import Mathlib.Data.List.Nodup

/-!
# Open inodes are shared and counted

The inode layer keeps one `struct inode` per open sector, and its `open_cnt` and
`deny_write_cnt` count what refers to it. The invariant is `Bal o pend` over the kernel
objects `o` (open inodes, files, directories, the next address): addresses and open
sectors are distinct, every file, directory and pending reference points to an open inode,
and each inode's `open_cnt` is the number of files and directories on it plus the
references `pend` that the running call holds in local variables (`inode_open` gives one,
`file_open` and `dir_open` take one over, `inode_close` gives one back), and its
`deny_write_cnt` is the number of its files with `deny_write` set.

Each primitive is proved once against `Bal` with the references it takes or gives; every
call of `filesys.c`, `file.c` and `directory.c` is then a chain of them that starts and ends
with no pending reference.
-/

set_option autoImplicit false

namespace Pintos.Filesys

open Heap

/-- The kernel objects of the file system, and the next address `malloc` gives. -/
structure Objs where
  inodes : List (Nat × Inode)
  files : List (Nat × File)
  dirs : List (Nat × Dir)
  next : Nat

def FS.objs (fs : FS) : Objs := ⟨fs.openInodes, fs.files, fs.dirs, fs.nextAddr⟩

namespace Objs

variable (o : Objs)

def fileRefs (a : Nat) : Nat := o.files.countP fun p => p.2.inode = a

def dirRefs (a : Nat) : Nat := o.dirs.countP fun p => p.2.inode = a

def denyRefs (a : Nat) : Nat := o.files.countP fun p => p.2.inode = a && p.2.denyWrite

/-- What `inode_close` of the open inode `i` at `a` leaves: the inode freed by its last
opener, or its `open_cnt` one less. -/
def close (a : Nat) (i : Inode) : Objs :=
  if i.openCnt - 1 = 0 then { o with inodes := free o.inodes a }
  else { o with inodes := modify o.inodes a fun i => { i with openCnt := i.openCnt - 1 } }

end Objs

/-- The objects are well formed and every inode's counts balance, with `pend` the inode
references the running call holds. -/
structure Bal (o : Objs) (pend : List Nat) : Prop where
  inodes_nodup : (keys o.inodes).Nodup
  sectors_nodup : (o.inodes.map (·.2.sector)).Nodup
  files_nodup : (keys o.files).Nodup
  dirs_nodup : (keys o.dirs).Nodup
  inodes_fresh : ∀ a ∈ keys o.inodes, a < o.next
  files_fresh : ∀ a ∈ keys o.files, a < o.next
  dirs_fresh : ∀ a ∈ keys o.dirs, a < o.next
  files_live : ∀ p ∈ o.files, p.2.inode ∈ keys o.inodes
  dirs_live : ∀ p ∈ o.dirs, p.2.inode ∈ keys o.inodes
  pend_live : ∀ a ∈ pend, a ∈ keys o.inodes
  open_cnt : ∀ p ∈ o.inodes,
    p.2.openCnt = ((o.fileRefs p.1 + o.dirRefs p.1 + pend.count p.1 : Nat) : Int)
  deny_cnt : ∀ p ∈ o.inodes, p.2.denyWriteCnt = ((o.denyRefs p.1 : Nat) : Int)

/-! ## What leaves the objects alone -/

section Frame

variable (fs : FS)

@[simp] theorem objs_assert (b : Bool) : (fs.assert b).objs = fs.objs := rfl

@[simp] theorem objs_freeMapAllocate (cnt : Nat) : (fs.freeMapAllocate cnt).1.objs = fs.objs :=
  rfl

@[simp] theorem objs_freeMapRelease (sector cnt : Nat) :
    (fs.freeMapRelease sector cnt).objs = fs.objs := rfl

theorem freeMapAllocate_eq (cnt : Nat) :
    fs.freeMapAllocate cnt = ({ fs with freeMap := (Bitmap.bitmapScanAndFlip fs.freeMap 0 cnt false).1 },
      (Bitmap.bitmapScanAndFlip fs.freeMap 0 cnt false).2) := rfl

@[simp] theorem objs_inodeCreate (sector length : Nat) :
    (fs.inodeCreate sector length).1.objs = fs.objs := by
  unfold FS.inodeCreate
  dsimp only
  rw [freeMapAllocate_eq]
  cases (Bitmap.bitmapScanAndFlip fs.freeMap 0 (bytesToSectors length) false).2 <;> rfl

@[simp] theorem objs_writeEntry (addr idx : Nat) (e : DirEntry) :
    (fs.writeEntry addr idx e).1.objs = fs.objs := by
  unfold FS.writeEntry
  split
  · split <;> rfl
  · rfl

@[simp] theorem objs_dirAdd (addr : Nat) (name : List UInt8) (sector : Nat) :
    (fs.dirAdd addr name sector).1.objs = fs.objs := by
  unfold FS.dirAdd
  split
  · rfl
  · split
    · rfl
    · exact objs_writeEntry _ _ _ _

@[simp] theorem objs_inodeWriteAt (addr : Nat) (buffer : List UInt8) (size offset : Nat) :
    (fs.inodeWriteAt addr buffer size offset).1.objs = fs.objs := by
  unfold FS.inodeWriteAt
  split
  · rfl
  · split <;> rfl

end Frame

/-! ## The balance under each change of the objects -/

namespace Bal

variable {o : Objs} {pend : List Nat} {a : Nat}

theorem fileRefs_eq_zero (hb : Bal o pend) {a : Nat} (ha : a ∉ keys o.inodes) :
    o.fileRefs a = 0 :=
  List.countP_eq_zero.mpr fun p hp hpa => ha (of_decide_eq_true hpa ▸ hb.files_live p hp)

theorem dirRefs_eq_zero (hb : Bal o pend) {a : Nat} (ha : a ∉ keys o.inodes) :
    o.dirRefs a = 0 :=
  List.countP_eq_zero.mpr fun p hp hpa => ha (of_decide_eq_true hpa ▸ hb.dirs_live p hp)

theorem denyRefs_le_fileRefs (o : Objs) (a : Nat) : o.denyRefs a ≤ o.fileRefs a :=
  List.countP_mono_left fun p _ h => by simp_all

/-- Changing one inode in place, with its sector and the deny count kept. -/
theorem modify_inode (hb : Bal o pend) (a : Nat) (f : Inode → Inode) (pend' : List Nat)
    (hsec : ∀ i, (f i).sector = i.sector) (hdeny : ∀ i, (f i).denyWriteCnt = i.denyWriteCnt)
    (hpend : ∀ b ∈ pend', b ∈ keys o.inodes)
    (hcnt : ∀ i, (a, i) ∈ o.inodes →
      (f i).openCnt = ((o.fileRefs a + o.dirRefs a + pend'.count a : Nat) : Int))
    (hother : ∀ b, b ≠ a → pend'.count b = pend.count b) :
    Bal { o with inodes := modify o.inodes a f } pend' where
  inodes_nodup := by simpa using hb.inodes_nodup
  sectors_nodup := by
    rw [map_modify_of _ a f (·.2.sector) fun i => hsec i]
    exact hb.sectors_nodup
  files_nodup := hb.files_nodup
  dirs_nodup := hb.dirs_nodup
  inodes_fresh := by simpa using hb.inodes_fresh
  files_fresh := hb.files_fresh
  dirs_fresh := hb.dirs_fresh
  files_live := by simpa using hb.files_live
  dirs_live := by simpa using hb.dirs_live
  pend_live := by simpa using hpend
  open_cnt := by
    intro p hp
    obtain ⟨q, hq, rfl⟩ := (mem_modify _).mp hp
    by_cases hqa : q.1 = a
    · simp only [hqa, if_true]
      exact hcnt q.2 (by rw [← hqa]; exact hq)
    · simp only [hqa, if_false]
      rw [hb.open_cnt q hq, hother q.1 hqa]
      rfl
  deny_cnt := by
    intro p hp
    obtain ⟨q, hq, rfl⟩ := (mem_modify _).mp hp
    by_cases hqa : q.1 = a
    · simp only [hqa, if_true, hdeny]
      rw [hb.deny_cnt q hq, hqa]
      rfl
    · simp only [hqa, if_false]
      exact hb.deny_cnt q hq

/-- `inode_open` of a sector no inode is open on: a new inode at the fresh address, with the
one reference it returns. -/
theorem alloc_inode (hb : Bal o pend) (s : Nat) (d : InodeDisk)
    (hs : s ∉ o.inodes.map (·.2.sector)) :
    Bal ⟨(o.next, ⟨s, 1, false, 0, d⟩) :: o.inodes, o.files, o.dirs, o.next + 1⟩
      (o.next :: pend) := by
  have hfresh : o.next ∉ keys o.inodes := fun h => Nat.lt_irrefl _ (hb.inodes_fresh _ h)
  have hpend : pend.count o.next = 0 :=
    List.count_eq_zero.mpr fun h => hfresh (hb.pend_live _ h)
  refine ⟨?_, ?_, hb.files_nodup, hb.dirs_nodup, ?_, ?_, ?_, ?_, ?_, ?_, ?_, ?_⟩
  · exact List.nodup_cons.mpr ⟨hfresh, hb.inodes_nodup⟩
  · exact List.nodup_cons.mpr ⟨hs, hb.sectors_nodup⟩
  · intro a ha
    rcases List.mem_cons.mp ha with rfl | ha
    · exact Nat.lt_succ_self _
    · exact Nat.lt_succ_of_lt (hb.inodes_fresh a ha)
  · exact fun a ha => Nat.lt_succ_of_lt (hb.files_fresh a ha)
  · exact fun a ha => Nat.lt_succ_of_lt (hb.dirs_fresh a ha)
  · exact fun p hp => List.mem_cons_of_mem _ (hb.files_live p hp)
  · exact fun p hp => List.mem_cons_of_mem _ (hb.dirs_live p hp)
  · intro a ha
    rcases List.mem_cons.mp ha with rfl | ha
    · exact List.mem_cons_self
    · exact List.mem_cons_of_mem _ (hb.pend_live a ha)
  · intro p hp
    rcases List.mem_cons.mp hp with rfl | hp
    · -- the new inode: no file or directory is on it yet
      show (1 : Int) = ((o.fileRefs o.next + o.dirRefs o.next + (o.next :: pend).count o.next : Nat) : Int)
      rw [hb.fileRefs_eq_zero hfresh, hb.dirRefs_eq_zero hfresh, List.count_cons_self, hpend]
      rfl
    · have hne : o.next ≠ p.1 := fun h => hfresh (h ▸ (mem_keys _).mpr ⟨p.2, hp⟩)
      rw [hb.open_cnt p hp, List.count_cons_of_ne hne]
      rfl
  · intro p hp
    rcases List.mem_cons.mp hp with rfl | hp
    · have h0 := Nat.le_zero.mp ((denyRefs_le_fileRefs o o.next).trans_eq (hb.fileRefs_eq_zero hfresh))
      show (0 : Int) = ((o.denyRefs o.next : Nat) : Int)
      rw [h0]
      rfl
    · exact hb.deny_cnt p hp

/-- The last reference to an inode given back: no file, directory or other reference is on
it, and it leaves the objects. -/
theorem free_inode (hb : Bal o (a :: pend)) {i : Inode} (hi : (a, i) ∈ o.inodes)
    (h1 : i.openCnt - 1 = 0) :
    Bal { o with inodes := free o.inodes a } pend := by
  have hcnt := hb.open_cnt _ hi
  dsimp only at hcnt
  rw [List.count_cons_self] at hcnt
  have hf : o.fileRefs a = 0 := by omega
  have hd : o.dirRefs a = 0 := by omega
  have hp : pend.count a = 0 := by omega
  have hsub := free_sublist o.inodes a
  have hmem : ∀ b ∈ keys o.inodes, b ≠ a → b ∈ keys (free o.inodes a) := by
    intro b hb' hba
    rw [keys_free _ hb.inodes_nodup]
    exact (List.mem_erase_of_ne hba).mpr hb'
  refine ⟨keys_free_nodup _ hb.inodes_nodup a, hb.sectors_nodup.sublist (hsub.map _),
    hb.files_nodup, hb.dirs_nodup, fun b hb' => hb.inodes_fresh b ((hsub.map _).subset hb'),
    hb.files_fresh, hb.dirs_fresh, ?_, ?_, ?_, ?_, ?_⟩
  · intro p hp'
    refine hmem _ (hb.files_live p hp') fun h => ?_
    exact absurd hf (List.countP_pos_iff.mpr ⟨p, hp', by simp [h]⟩).ne'
  · intro p hp'
    refine hmem _ (hb.dirs_live p hp') fun h => ?_
    exact absurd hd (List.countP_pos_iff.mpr ⟨p, hp', by simp [h]⟩).ne'
  · intro b hb'
    refine hmem _ (hb.pend_live b (List.mem_cons_of_mem _ hb')) fun h => ?_
    exact absurd hp (List.count_pos_iff.mpr (h ▸ hb')).ne'
  · intro p hp'
    obtain ⟨hp', hpa⟩ := (mem_free _ hb.inodes_nodup).mp hp'
    rw [hb.open_cnt p hp', List.count_cons_of_ne (Ne.symm hpa)]
    rfl
  · exact fun p hp' => hb.deny_cnt p ((mem_free _ hb.inodes_nodup).mp hp').1

/-- `file_open (inode)`: the new file takes over the reference to the inode. -/
theorem add_file (hb : Bal o (a :: pend)) (f : File) (hfa : f.inode = a)
    (hfd : f.denyWrite = false) :
    Bal ⟨o.inodes, (o.next, f) :: o.files, o.dirs, o.next + 1⟩ pend := by
  have hfresh : o.next ∉ keys o.files := fun h => Nat.lt_irrefl _ (hb.files_fresh _ h)
  refine ⟨hb.inodes_nodup, hb.sectors_nodup, List.nodup_cons.mpr ⟨hfresh, hb.files_nodup⟩,
    hb.dirs_nodup, fun b h => Nat.lt_succ_of_lt (hb.inodes_fresh b h), ?_,
    fun b h => Nat.lt_succ_of_lt (hb.dirs_fresh b h), ?_, hb.dirs_live,
    fun b h => hb.pend_live b (List.mem_cons_of_mem _ h), ?_, ?_⟩
  · intro b hb'
    rcases List.mem_cons.mp hb' with rfl | hb'
    · exact Nat.lt_succ_self _
    · exact Nat.lt_succ_of_lt (hb.files_fresh b hb')
  · intro p hp
    rcases List.mem_cons.mp hp with rfl | hp
    · exact hfa ▸ hb.pend_live a List.mem_cons_self
    · exact hb.files_live p hp
  · intro p hp
    rw [hb.open_cnt p hp]
    simp only [Objs.fileRefs, Objs.dirRefs, List.countP_cons, List.count_cons, hfa]
    by_cases hap : a = p.1
    · simp [hap]
      omega
    · simp [hap]
  · intro p hp
    rw [hb.deny_cnt p hp]
    simp [Objs.denyRefs, hfd]

/-- `dir_open (inode)`: the new directory takes over the reference to the inode. -/
theorem add_dir (hb : Bal o (a :: pend)) (d : Dir) (hda : d.inode = a) :
    Bal ⟨o.inodes, o.files, (o.next, d) :: o.dirs, o.next + 1⟩ pend := by
  have hfresh : o.next ∉ keys o.dirs := fun h => Nat.lt_irrefl _ (hb.dirs_fresh _ h)
  refine ⟨hb.inodes_nodup, hb.sectors_nodup, hb.files_nodup,
    List.nodup_cons.mpr ⟨hfresh, hb.dirs_nodup⟩, fun b h => Nat.lt_succ_of_lt (hb.inodes_fresh b h),
    fun b h => Nat.lt_succ_of_lt (hb.files_fresh b h), ?_, hb.files_live, ?_,
    fun b h => hb.pend_live b (List.mem_cons_of_mem _ h), ?_, hb.deny_cnt⟩
  · intro b hb'
    rcases List.mem_cons.mp hb' with rfl | hb'
    · exact Nat.lt_succ_self _
    · exact Nat.lt_succ_of_lt (hb.dirs_fresh b hb')
  · intro p hp
    rcases List.mem_cons.mp hp with rfl | hp
    · exact hda ▸ hb.pend_live a List.mem_cons_self
    · exact hb.dirs_live p hp
  · intro p hp
    rw [hb.open_cnt p hp]
    simp only [Objs.fileRefs, Objs.dirRefs, List.countP_cons, List.count_cons, hda]
    by_cases hap : a = p.1
    · simp [hap]
      omega
    · simp [hap]

/-- `inode_close` of a reference the call holds. -/
theorem close_inode (hb : Bal o (a :: pend)) {i : Inode} (hi : (a, i) ∈ o.inodes) :
    Bal (o.close a i) pend := by
  unfold Objs.close
  split
  · exact hb.free_inode hi ‹_›
  · refine hb.modify_inode a _ pend (fun _ => rfl) (fun _ => rfl)
      (fun b h => hb.pend_live b (List.mem_cons_of_mem _ h)) ?_ ?_
    · intro j hj
      have h := hb.open_cnt _ hj
      dsimp only at h ⊢
      rw [List.count_cons_self] at h
      omega
    · exact fun b hba => (List.count_cons_of_ne (Ne.symm hba)).symm

/-- A file that does not deny writes gives its reference to the call: the first half of
`file_close`. -/
theorem detach_file (hb : Bal o pend) {f : Nat} {file : File} (hf : (f, file) ∈ o.files)
    (hd : file.denyWrite = false) :
    Bal { o with files := free o.files f } (file.inode :: pend) := by
  have hl := lookup_of_mem _ hb.files_nodup hf
  have hsub := free_sublist o.files f
  refine ⟨hb.inodes_nodup, hb.sectors_nodup, keys_free_nodup _ hb.files_nodup f, hb.dirs_nodup,
    hb.inodes_fresh, fun b h => hb.files_fresh b ((hsub.map _).subset h), hb.dirs_fresh,
    fun p hp => hb.files_live p (hsub.subset hp), hb.dirs_live, ?_, ?_, ?_⟩
  · intro b hb'
    rcases List.mem_cons.mp hb' with rfl | hb'
    · exact hb.files_live _ hf
    · exact hb.pend_live b hb'
  · intro p hp
    have hc := countP_free _ hb.files_nodup hl fun q => q.2.inode = p.1
    rw [hb.open_cnt p hp]
    simp only [Objs.fileRefs, Objs.dirRefs, List.count_cons] at hc ⊢
    by_cases hap : file.inode = p.1
    · simp only [hap, decide_true, if_true, beq_self_eq_true] at hc ⊢
      omega
    · simp only [hap, decide_false, Bool.false_eq_true, if_false, beq_eq_false_iff_ne.mpr hap] at hc ⊢
      omega
  · intro p hp
    have hc := countP_free _ hb.files_nodup hl fun q => q.2.inode = p.1 && q.2.denyWrite
    rw [hb.deny_cnt p hp]
    simp only [Objs.denyRefs, hd, Bool.and_false, Bool.false_eq_true, if_false,
      Nat.add_zero] at hc ⊢
    rw [hc]

/-- A directory gives its reference to the call: the first half of `dir_close`. -/
theorem detach_dir (hb : Bal o pend) {d : Nat} {dir : Dir} (hd : (d, dir) ∈ o.dirs) :
    Bal { o with dirs := free o.dirs d } (dir.inode :: pend) := by
  have hl := lookup_of_mem _ hb.dirs_nodup hd
  have hsub := free_sublist o.dirs d
  refine ⟨hb.inodes_nodup, hb.sectors_nodup, hb.files_nodup, keys_free_nodup _ hb.dirs_nodup d,
    hb.inodes_fresh, hb.files_fresh, fun b h => hb.dirs_fresh b ((hsub.map _).subset h),
    hb.files_live, fun p hp => hb.dirs_live p (hsub.subset hp), ?_, ?_, hb.deny_cnt⟩
  · intro b hb'
    rcases List.mem_cons.mp hb' with rfl | hb'
    · exact hb.dirs_live _ hd
    · exact hb.pend_live b hb'
  · intro p hp
    have hc := countP_free _ hb.dirs_nodup hl fun q => q.2.inode = p.1
    rw [hb.open_cnt p hp]
    simp only [Objs.fileRefs, Objs.dirRefs, List.count_cons] at hc ⊢
    by_cases hap : dir.inode = p.1
    · simp only [hap, decide_true, if_true, beq_self_eq_true] at hc ⊢
      omega
    · simp only [hap, decide_false, Bool.false_eq_true, if_false, beq_eq_false_iff_ne.mpr hap] at hc ⊢
      omega

/-- A change of a file that keeps its inode and its `deny_write`: `file_seek`, and the
position that `file_read` and `file_write` move. -/
theorem modify_file (hb : Bal o pend) (f : Nat) (g : File → File)
    (hinode : ∀ x, (g x).inode = x.inode) (hdeny : ∀ x, (g x).denyWrite = x.denyWrite) :
    Bal { o with files := modify o.files f g } pend := by
  have hrefs : ∀ b, ({ o with files := modify o.files f g } : Objs).fileRefs b = o.fileRefs b :=
    fun b => countP_modify_of _ f g _ fun x => by simp [hinode]
  have hdenies : ∀ b, ({ o with files := modify o.files f g } : Objs).denyRefs b = o.denyRefs b :=
    fun b => countP_modify_of _ f g _ fun x => by simp [hinode, hdeny]
  refine ⟨hb.inodes_nodup, hb.sectors_nodup, by simpa using hb.files_nodup, hb.dirs_nodup,
    hb.inodes_fresh, by simpa using hb.files_fresh, hb.dirs_fresh, ?_, hb.dirs_live,
    hb.pend_live, fun p hp => by rw [hrefs]; exact hb.open_cnt p hp,
    fun p hp => by rw [hdenies]; exact hb.deny_cnt p hp⟩
  intro p hp
  obtain ⟨q, hq, rfl⟩ := (mem_modify _).mp hp
  split
  · exact (hinode q.2).symm ▸ hb.files_live q hq
  · exact hb.files_live q hq

/-- A directory changed in place, still open on the same inode: `dir_readdir` moving its
position. -/
theorem modify_dir (hb : Bal o pend) (b : Nat) (g : Dir → Dir) (hinode : ∀ x, (g x).inode = x.inode) :
    Bal { o with dirs := modify o.dirs b g } pend := by
  have hrefs : ∀ a, ({ o with dirs := modify o.dirs b g } : Objs).dirRefs a = o.dirRefs a :=
    fun a => countP_modify_of _ b g _ fun x => by simp [hinode]
  refine ⟨hb.inodes_nodup, hb.sectors_nodup, hb.files_nodup, by simpa using hb.dirs_nodup,
    hb.inodes_fresh, hb.files_fresh, by simpa using hb.dirs_fresh, hb.files_live, ?_,
    hb.pend_live, fun p hp => by rw [hrefs]; exact hb.open_cnt p hp, hb.deny_cnt⟩
  intro p hp
  obtain ⟨q, hq, rfl⟩ := (mem_modify _).mp hp
  split
  · exact (hinode q.2).symm ▸ hb.dirs_live q hq
  · exact hb.dirs_live q hq

/-- `file_deny_write` and `file_allow_write`: the file's flag set to `d`, and its inode's
`deny_write_cnt` moved by the change of the flag, by `g`. -/
theorem set_deny (hb : Bal o pend) {f : Nat} {file : File} (hf : (f, file) ∈ o.files) (d : Bool)
    (g : Inode → Inode) (hsec : ∀ i, (g i).sector = i.sector)
    (hopen : ∀ i, (g i).openCnt = i.openCnt)
    (hdeny : ∀ i, (g i).denyWriteCnt + (if file.denyWrite then 1 else 0) =
      i.denyWriteCnt + (if d then 1 else 0)) :
    Bal ⟨modify o.inodes file.inode g, modify o.files f (fun x => { x with denyWrite := d }),
      o.dirs, o.next⟩ pend := by
  have hl := lookup_of_mem _ hb.files_nodup hf
  let o' : Objs := ⟨modify o.inodes file.inode g,
    modify o.files f (fun x => { x with denyWrite := d }), o.dirs, o.next⟩
  have hrefs : ∀ b, o'.fileRefs b = o.fileRefs b := fun b =>
    countP_modify_of o.files f (fun x => { x with denyWrite := d }) (fun q => q.2.inode = b)
      fun _ => rfl
  have hdenies : ∀ b, o'.denyRefs b + (if file.inode = b && file.denyWrite then 1 else 0) =
      o.denyRefs b + (if file.inode = b && d then 1 else 0) := fun b =>
    countP_modify o.files hb.files_nodup hl (fun x => { x with denyWrite := d })
      fun q => q.2.inode = b && q.2.denyWrite
  have hsecs : (modify o.inodes file.inode g).map (·.2.sector) = o.inodes.map (·.2.sector) :=
    map_modify_of _ _ g _ fun i => by simp [hsec]
  refine ⟨by simpa using hb.inodes_nodup, hsecs ▸ hb.sectors_nodup, by simpa using hb.files_nodup,
    hb.dirs_nodup, by simpa using hb.inodes_fresh, by simpa using hb.files_fresh, hb.dirs_fresh,
    ?_, by simpa using hb.dirs_live, by simpa using hb.pend_live, ?_, ?_⟩
  · intro p hp
    obtain ⟨q, hq, rfl⟩ := List.mem_map.mp hp
    simp only [keys_modify]
    split
    · exact hb.files_live q hq
    · exact hb.files_live q hq
  · intro p hp
    obtain ⟨q, hq, rfl⟩ := (mem_modify o.inodes).mp hp
    change _ = ((o'.fileRefs _ + o.dirRefs _ + pend.count _ : Nat) : Int)
    split
    · rw [hopen, hrefs]
      exact hb.open_cnt q hq
    · rw [hrefs]
      exact hb.open_cnt q hq
  · intro p hp
    obtain ⟨q, hq, rfl⟩ := (mem_modify o.inodes).mp hp
    have hq' := hb.deny_cnt q hq
    have hc := hdenies q.1
    change _ = ((o'.denyRefs _ : Nat) : Int)
    split
    · -- the file's inode: both counts move by the change of the flag
      rename_i hqa
      have hg := hdeny q.2
      simp only [hqa] at hc hq' ⊢
      cases hfd : file.denyWrite <;> cases d <;> simp [hfd] at hc hg ⊢ <;> omega
    · rename_i hqa
      simp [Ne.symm hqa] at hc
      rw [hc]
      exact hq'

end Bal

/-! ## Each call of the inode and file layers keeps the balance -/

section Calls

variable {fs : FS} {pend : List Nat} {a : Nat}

theorem objs_modifyInode (fs : FS) (a : Nat) (f : Inode → Inode) :
    (fs.modifyInode a f).objs = { fs.objs with inodes := modify fs.openInodes a f } := rfl

theorem objs_modifyFile (fs : FS) (a : Nat) (f : File → File) :
    (fs.modifyFile a f).objs = { fs.objs with files := modify fs.files a f } := rfl

@[simp] theorem files_inodeClose (fs : FS) (x : Option Nat) : (fs.inodeClose x).files = fs.files := by
  unfold FS.inodeClose
  split
  · rfl
  · split
    · split <;> rfl
    · rfl

theorem Objs.close_files (o : Objs) (a : Nat) (i : Inode) (fl : List (Nat × File)) :
    ({ o with files := fl } : Objs).close a i = { o.close a i with files := fl } := by
  unfold Objs.close
  split <;> rfl

theorem Objs.close_dirs (o : Objs) (a : Nat) (i : Inode) (dl : List (Nat × Dir)) :
    ({ o with dirs := dl } : Objs).close a i = { o.close a i with dirs := dl } := by
  unfold Objs.close
  split <;> rfl

/-- The open inode at an address the balance knows. -/
theorem Bal.inodeAt_of_mem (hb : Bal fs.objs pend) {a : Nat} (ha : a ∈ keys fs.openInodes) :
    ∃ i, fs.inodeAt a = some i ∧ (a, i) ∈ fs.openInodes := by
  obtain ⟨i, hi⟩ := (mem_keys _).mp ha
  exact ⟨i, lookup_of_mem _ hb.inodes_nodup hi, hi⟩

theorem objs_inodeClose {a : Nat} {i : Inode} (hi : fs.inodeAt a = some i) :
    (fs.inodeClose (some a)).objs = fs.objs.close a i := by
  unfold FS.inodeClose Objs.close
  simp only [Option.bind_some, hi, Option.getD_some]
  split
  · split <;> rfl
  · rfl

theorem bal_inodeReopen (hb : Bal fs.objs pend) {a : Nat} (ha : a ∈ keys fs.openInodes) :
    Bal (fs.inodeReopen (some a)).objs (a :: pend) := by
  refine hb.modify_inode a (fun i => { i with openCnt := i.openCnt + 1 }) (a :: pend)
    (fun _ => rfl) (fun _ => rfl) ?_ ?_ ?_
  · intro b hb'
    rcases List.mem_cons.mp hb' with rfl | hb'
    · exact ha
    · exact hb.pend_live b hb'
  · intro i hi
    have h := hb.open_cnt _ hi
    dsimp only at h ⊢
    rw [List.count_cons_self]
    omega
  · exact fun b hba => List.count_cons_of_ne (Ne.symm hba)

theorem bal_inodeClose (hb : Bal fs.objs (a :: pend)) : Bal (fs.inodeClose (some a)).objs pend := by
  obtain ⟨i, hi, hmem⟩ := hb.inodeAt_of_mem (hb.pend_live a List.mem_cons_self)
  rw [objs_inodeClose hi]
  exact hb.close_inode hmem

theorem inodeOpen_of_find {s a : Nat} {i : Inode}
    (h : fs.openInodes.find? (·.2.sector = s) = some (a, i)) :
    fs.inodeOpen s = (fs.inodeReopen (some a), a) := by
  unfold FS.inodeOpen
  rw [h]

theorem inodeOpen_of_find_none {s : Nat} (h : fs.openInodes.find? (·.2.sector = s) = none) :
    fs.inodeOpen s = ({ fs with nextAddr := fs.nextAddr + 1, openInodes :=
      (fs.nextAddr, ⟨s, 1, false, 0, (fs.diskInodes s).getD ⟨0, 0⟩⟩) :: fs.openInodes },
      fs.nextAddr) := by
  unfold FS.inodeOpen
  rw [h]
  rfl

theorem bal_inodeOpen (hb : Bal fs.objs pend) (s : Nat) :
    Bal (fs.inodeOpen s).1.objs ((fs.inodeOpen s).2 :: pend) := by
  cases h : fs.openInodes.find? (·.2.sector = s) with
  | some p =>
      obtain ⟨a, i⟩ := p
      rw [inodeOpen_of_find h]
      exact bal_inodeReopen hb ((mem_keys _).mpr ⟨i, List.mem_of_find?_eq_some h⟩)
  | none =>
      rw [inodeOpen_of_find_none h]
      refine hb.alloc_inode s _ fun hs => ?_
      obtain ⟨p, hp, hps⟩ := List.mem_map.mp hs
      exact absurd (decide_eq_true hps) (List.find?_eq_none.mp h p hp)

/-- `inode_open` of a sector gives the inode open on it, or a new one on it. -/
theorem inodeOpen_sector (hb : Bal fs.objs pend) (s : Nat) :
    ∃ i, (fs.inodeOpen s).1.inodeAt (fs.inodeOpen s).2 = some i ∧ i.sector = s := by
  cases h : fs.openInodes.find? (·.2.sector = s) with
  | some p =>
      obtain ⟨a, i⟩ := p
      have hi := List.mem_of_find?_eq_some h
      have hs : i.sector = s := by simpa using List.find?_some h
      rw [inodeOpen_of_find h]
      refine ⟨{ i with openCnt := i.openCnt + 1 }, ?_, hs⟩
      simp only [FS.inodeAt, FS.inodeReopen, FS.modifyInode]
      rw [lookup_modify_self, lookup_of_mem fs.openInodes hb.inodes_nodup hi]
      rfl
  | none =>
      rw [inodeOpen_of_find_none h]
      refine ⟨⟨s, 1, false, 0, (fs.diskInodes s).getD ⟨0, 0⟩⟩, ?_, rfl⟩
      simp [FS.inodeAt]

/-- Sharing: `inode_open` of a sector an inode is open on returns that inode. -/
theorem inodeOpen_shared (hb : Bal fs.objs pend) {a : Nat} {i : Inode} (hi : (a, i) ∈ fs.openInodes) :
    (fs.inodeOpen i.sector).2 = a := by
  cases h : fs.openInodes.find? (·.2.sector = i.sector) with
  | some p =>
      have hp := List.mem_of_find?_eq_some h
      have hs : p.2.sector = i.sector := by simpa using List.find?_some h
      have hpa : p = (a, i) := List.inj_on_of_nodup_map hb.sectors_nodup hp hi hs
      obtain ⟨b, j⟩ := p
      rw [inodeOpen_of_find h]
      exact (Prod.mk.inj hpa).1
  | none => exact absurd (decide_eq_true rfl) (List.find?_eq_none.mp h _ hi)

@[simp] theorem dirs_inodeClose (fs : FS) (x : Option Nat) : (fs.inodeClose x).dirs = fs.dirs := by
  unfold FS.inodeClose
  split
  · rfl
  · split
    · split <;> rfl
    · rfl

@[simp] theorem inodeAt_modifyFile (fs : FS) (a : Nat) (g : File → File) (b : Nat) :
    (fs.modifyFile a g).inodeAt b = fs.inodeAt b := rfl

@[simp] theorem files_inodeAllowWrite (fs : FS) (a : Nat) : (fs.inodeAllowWrite a).files = fs.files := by
  unfold FS.inodeAllowWrite
  split <;> rfl

theorem bal_fileOpen {x : Option Nat} (hb : Bal fs.objs (x.toList ++ pend)) :
    Bal (fs.fileOpen x).1.objs pend := by
  cases x with
  | none => exact hb
  | some a => exact hb.add_file ⟨a, 0, false⟩ rfl rfl

theorem bal_dirOpen {x : Option Nat} (hb : Bal fs.objs (x.toList ++ pend)) :
    Bal (fs.dirOpen x).1.objs pend := by
  cases x with
  | none => exact hb
  | some a => exact hb.add_dir ⟨a, 0⟩ rfl

theorem bal_fileDenyWrite (hb : Bal fs.objs pend) (f : Nat) : Bal (fs.fileDenyWrite f).objs pend := by
  unfold FS.fileDenyWrite
  cases hf : fs.fileAt f with
  | none => exact hb
  | some file =>
      dsimp only
      split
      · rename_i hd
        have hmem := mem_of_lookup _ hf
        obtain ⟨i, hi, -⟩ := hb.inodeAt_of_mem (hb.files_live _ hmem)
        simp only [FS.inodeDenyWrite, inodeAt_modifyFile, hi, objs_assert]
        exact hb.set_deny hmem true (fun i => { i with denyWriteCnt := i.denyWriteCnt + 1 })
          (fun _ => rfl) (fun _ => rfl) fun j => by simp_all
      · exact hb

theorem bal_fileAllowWrite (hb : Bal fs.objs pend) (f : Nat) : Bal (fs.fileAllowWrite f).objs pend := by
  unfold FS.fileAllowWrite
  cases hf : fs.fileAt f with
  | none => exact hb
  | some file =>
      dsimp only
      split
      · rename_i hd
        have hmem := mem_of_lookup _ hf
        obtain ⟨i, hi, -⟩ := hb.inodeAt_of_mem (hb.files_live _ hmem)
        simp only [FS.inodeAllowWrite, inodeAt_modifyFile, hi]
        exact hb.set_deny hmem false (fun i => { i with denyWriteCnt := i.denyWriteCnt - 1 })
          (fun _ => rfl) (fun _ => rfl) fun j => by simp [hd]
      · exact hb

/-- After `file_allow_write` the file is there, on the same inode, and does not deny writes. -/
theorem fileAt_fileAllowWrite {f : Nat} {file : File} (hf : fs.fileAt f = some file) :
    ∃ file', (fs.fileAllowWrite f).fileAt f = some file' ∧ file'.inode = file.inode ∧
      file'.denyWrite = false := by
  unfold FS.fileAllowWrite
  rw [hf]
  dsimp only
  split
  · refine ⟨{ file with denyWrite := false }, ?_, rfl, rfl⟩
    simp only [FS.fileAt, files_inodeAllowWrite, FS.modifyFile] at hf ⊢
    rw [lookup_modify_self, hf]
    rfl
  · rename_i hd
    exact ⟨file, hf, rfl, by simpa using hd⟩

theorem bal_fileClose (hb : Bal fs.objs pend) (x : Option Nat) : Bal (fs.fileClose x).objs pend := by
  unfold FS.fileClose
  cases hx : x.bind fs.fileAt with
  | none => exact hb
  | some file =>
      obtain ⟨f, rfl, hf⟩ := Option.bind_eq_some_iff.mp hx
      dsimp only [Option.getD_some]
      -- `file_allow_write`, then the file's reference goes back through `inode_close`
      have hb1 := bal_fileAllowWrite hb f
      obtain ⟨file', hf', hinode, hdeny⟩ := fileAt_fileAllowWrite hf
      have hmem := mem_of_lookup _ hf'
      obtain ⟨i, hi, himem⟩ := hb1.inodeAt_of_mem (hb1.files_live _ hmem)
      have hc := (hb1.detach_file hmem hdeny).close_inode himem
      rw [Objs.close_files] at hc
      rw [← hinode]
      show Bal { ((fs.fileAllowWrite f).inodeClose (some file'.inode)).objs with
        files := free ((fs.fileAllowWrite f).inodeClose (some file'.inode)).files f } pend
      rw [files_inodeClose, objs_inodeClose hi]
      exact hc

theorem bal_dirClose (hb : Bal fs.objs pend) (x : Option Nat) : Bal (fs.dirClose x).objs pend := by
  unfold FS.dirClose
  cases hx : x.bind fs.dirAt with
  | none => exact hb
  | some dir =>
      obtain ⟨d, rfl, hd⟩ := Option.bind_eq_some_iff.mp hx
      dsimp only [Option.getD_some]
      have hmem := mem_of_lookup _ hd
      obtain ⟨i, hi, himem⟩ := hb.inodeAt_of_mem (hb.dirs_live _ hmem)
      have hc := (hb.detach_dir hmem).close_inode himem
      rw [Objs.close_dirs] at hc
      show Bal { (fs.inodeClose (some dir.inode)).objs with
        dirs := free (fs.inodeClose (some dir.inode)).dirs d } pend
      rw [dirs_inodeClose, objs_inodeClose hi]
      exact hc

theorem bal_fileSeek (hb : Bal fs.objs pend) (f newPos : Nat) : Bal (fs.fileSeek f newPos).objs pend :=
  hb.modify_file f (fun x => { x with pos := newPos }) (fun _ => rfl) (fun _ => rfl)

theorem bal_fileRead (hb : Bal fs.objs pend) (f size : Nat) : Bal (fs.fileRead f size).1.objs pend := by
  unfold FS.fileRead
  cases fs.fileAt f with
  | none => exact hb
  | some file =>
      exact hb.modify_file f (fun x => { x with pos := x.pos + (fs.inodeReadAt file.inode size file.pos).length })
        (fun _ => rfl) (fun _ => rfl)

theorem bal_fileWrite (hb : Bal fs.objs pend) (f : Nat) (buffer : List UInt8) (size : Nat) :
    Bal (fs.fileWrite f buffer size).1.objs pend := by
  unfold FS.fileWrite
  cases fs.fileAt f with
  | none => exact hb
  | some file =>
      have hw := objs_inodeWriteAt fs file.inode buffer size file.pos
      have hfiles : (fs.inodeWriteAt file.inode buffer size file.pos).1.files = fs.files :=
        congrArg Objs.files hw
      rw [objs_modifyFile, hfiles, hw]
      exact hb.modify_file f
        (fun x => { x with pos := x.pos + (fs.inodeWriteAt file.inode buffer size file.pos).2 })
        (fun _ => rfl) (fun _ => rfl)

theorem bal_fileWriteAt (hb : Bal fs.objs pend) (f : Nat) (buffer : List UInt8) (size fileOfs : Nat) :
    Bal (fs.fileWriteAt f buffer size fileOfs).1.objs pend := by
  unfold FS.fileWriteAt
  cases fs.fileAt f with
  | none => exact hb
  | some file => rw [objs_inodeWriteAt]; exact hb

theorem bal_inodeRemove (hb : Bal fs.objs pend) (a : Nat) : Bal (fs.inodeRemove a).objs pend :=
  hb.modify_inode a (fun i => { i with removed := true }) pend (fun _ => rfl) (fun _ => rfl)
    hb.pend_live (fun _ hi => hb.open_cnt _ hi) fun _ _ => rfl

theorem bal_fileReopen (hb : Bal fs.objs pend) (f : Nat) : Bal (fs.fileReopen f).1.objs pend := by
  unfold FS.fileReopen
  cases hf : fs.fileAt f with
  | none => exact hb
  | some file =>
      exact bal_fileOpen (x := some file.inode)
        (bal_inodeReopen hb (hb.files_live _ (mem_of_lookup _ hf)))

theorem bal_dirReopen (hb : Bal fs.objs pend) (d : Nat) : Bal (fs.dirReopen d).1.objs pend := by
  unfold FS.dirReopen
  cases hd : fs.dirAt d with
  | none => exact hb
  | some dir =>
      exact bal_dirOpen (x := some dir.inode)
        (bal_inodeReopen hb (hb.dirs_live _ (mem_of_lookup _ hd)))

theorem bal_dirOpenRoot (hb : Bal fs.objs pend) : Bal fs.dirOpenRoot.1.objs pend :=
  bal_dirOpen (x := some _) (bal_inodeOpen hb ROOT_DIR_SECTOR)

/-- `dir_lookup` hands the inode it opens to its caller. -/
theorem bal_dirLookup (hb : Bal fs.objs pend) (d : Nat) (name : List UInt8) :
    Bal (fs.dirLookup d name).1.objs ((fs.dirLookup d name).2.toList ++ pend) := by
  unfold FS.dirLookup
  split
  · exact bal_inodeOpen hb _
  · exact hb

theorem bal_filesysOpen (hb : Bal fs.objs pend) (name : List UInt8) :
    Bal (fs.filesysOpen name).1.objs pend := by
  have h1 := bal_dirOpenRoot hb
  have h2 := bal_dirLookup h1 (fs.dirOpenRoot.2.getD 0) name
  exact bal_fileOpen (bal_dirClose h2 fs.dirOpenRoot.2)

/-- A step whose result has the objects `o` leaves them to what it returns. -/
theorem objs_of_eq {α : Type} {p : FS × α} {fs' : FS} {x : α} {o : Objs} (h : p = (fs', x))
    (hp : p.1.objs = o) : fs'.objs = o := by
  subst h
  exact hp

theorem objs_inodeClose_none (h : fs.inodeAt a = none) : (fs.inodeClose (some a)).objs = fs.objs := by
  unfold FS.inodeClose
  simp [h]

/-- `dir_close` does to the objects what their state says, whatever else the state holds. -/
theorem objs_dirClose_congr {fs' : FS} (h : fs.objs = fs'.objs) (x : Option Nat) :
    (fs.dirClose x).objs = (fs'.dirClose x).objs := by
  have hdirs : fs.dirs = fs'.dirs := congrArg Objs.dirs h
  have hinodes : fs.inodeAt = fs'.inodeAt := by
    funext b
    exact congrArg (List.lookup b) (congrArg Objs.inodes h)
  unfold FS.dirClose
  rw [show fs.dirAt = fs'.dirAt by funext d; simp [FS.dirAt, hdirs]]
  cases x.bind fs'.dirAt with
  | none => exact h
  | some dir =>
      show { (fs.inodeClose (some dir.inode)).objs with
          dirs := free (fs.inodeClose (some dir.inode)).dirs (x.getD 0) } =
        { (fs'.inodeClose (some dir.inode)).objs with
          dirs := free (fs'.inodeClose (some dir.inode)).dirs (x.getD 0) }
      rw [dirs_inodeClose, dirs_inodeClose, hdirs]
      cases hi : fs'.inodeAt dir.inode with
      | none => rw [objs_inodeClose_none (hinodes ▸ hi), objs_inodeClose_none hi, h]
      | some i => rw [objs_inodeClose (hinodes ▸ hi), objs_inodeClose hi, h]

/-- `filesys_create` opens and closes the root directory, and does nothing else to the
objects: the free map, the disk inode and the entry are not objects. -/
theorem objs_filesysCreate (fs : FS) (name : List UInt8) (initialSize : Nat) :
    (fs.filesysCreate name initialSize).1.objs = (fs.dirOpenRoot.1.dirClose fs.dirOpenRoot.2).objs := by
  unfold FS.filesysCreate
  apply objs_dirClose_congr
  rw [apply_ite FS.objs, objs_freeMapRelease, ite_self]
  split
  · rename_i ha
    exact objs_of_eq ha (objs_freeMapAllocate _ 1)
  · rename_i fs2 sector ha
    have h2 := objs_of_eq ha (objs_freeMapAllocate _ 1)
    split
    · rename_i hc
      exact (objs_of_eq hc (objs_inodeCreate _ _ _)).trans h2
    · rename_i fs3 hc
      exact (objs_dirAdd fs3 _ name sector).trans ((objs_of_eq hc (objs_inodeCreate _ _ _)).trans h2)

theorem bal_filesysCreate (hb : Bal fs.objs pend) (name : List UInt8) (initialSize : Nat) :
    Bal (fs.filesysCreate name initialSize).1.objs pend := by
  rw [objs_filesysCreate]
  exact bal_dirClose (bal_dirOpenRoot hb) _

theorem bal_dirRemove (hb : Bal fs.objs pend) (d : Nat) (name : List UInt8) :
    Bal (fs.dirRemove d name).1.objs pend := by
  unfold FS.dirRemove
  split
  · exact hb
  · rename_i e ofs _
    have h1 := bal_inodeOpen hb e.inodeSector
    split
    rename_i fs1 inode hopen
    rw [hopen] at h1
    split
    · rename_i hw
      have h2 := objs_of_eq hw (objs_writeEntry _ d _ _) ▸ h1
      exact bal_inodeClose (bal_inodeRemove h2 _)
    · rename_i hw
      have h2 := objs_of_eq hw (objs_writeEntry _ d _ _) ▸ h1
      exact bal_inodeClose h2

theorem bal_filesysRemove (hb : Bal fs.objs pend) (name : List UInt8) :
    Bal (fs.filesysRemove name).1.objs pend :=
  bal_dirClose (bal_dirRemove (bal_dirOpenRoot hb) _ name) _

theorem bal_freeMapOpen (hb : Bal fs.objs pend) : Bal fs.freeMapOpen.objs pend :=
  bal_fileOpen (x := some _) (bal_inodeOpen hb FREE_MAP_SECTOR)

@[simp] theorem objs_dirCreate (fs : FS) (sector entryCnt : Nat) :
    (fs.dirCreate sector entryCnt).1.objs = fs.objs := by
  unfold FS.dirCreate
  have h := objs_inodeCreate fs sector (entryCnt * DIR_ENTRY_SIZE)
  rcases hc : fs.inodeCreate sector (entryCnt * DIR_ENTRY_SIZE) with ⟨fs', _ | _⟩
  all_goals
    rw [hc] at h
    exact h

/-- The objects of `filesys_init`: the free-map file and its inode, balanced. -/
theorem bal_filesysInit (size : Nat) (disk : ByteMemory.Memory) : Bal (filesysInit size disk).objs [] := by
  have h0 : Bal (freeMapInit size disk).objs [] :=
    ⟨List.nodup_nil, List.nodup_nil, List.nodup_nil, List.nodup_nil, by simp [FS.objs, freeMapInit],
      by simp [FS.objs, freeMapInit], by simp [FS.objs, freeMapInit], by simp [FS.objs, freeMapInit],
      by simp [FS.objs, freeMapInit], by simp, by simp [FS.objs, freeMapInit],
      by simp [FS.objs, freeMapInit]⟩
  -- the steps of `do_format` and `free_map_open` one by one
  unfold filesysInit
  have e1 := objs_inodeCreate (freeMapInit size disk) FREE_MAP_SECTOR
    (Bitmap.bitmapFileSize (freeMapInit size disk).freeMap)
  rcases hA : (freeMapInit size disk).inodeCreate FREE_MAP_SECTOR
    (Bitmap.bitmapFileSize (freeMapInit size disk).freeMap) with ⟨fs1, c1⟩
  rw [hA] at e1
  simp only [hA]
  have e2 := objs_dirCreate (fs1.assert c1).freeMapOpen ROOT_DIR_SECTOR 16
  rcases hB : (fs1.assert c1).freeMapOpen.dirCreate ROOT_DIR_SECTOR 16 with ⟨fs2, c2⟩
  rw [hB] at e2
  apply bal_freeMapOpen
  apply bal_fileClose
  rw [objs_assert, e2]
  apply bal_freeMapOpen
  rw [objs_assert, e1]
  exact h0

end Calls

/-! ## What the balance says of an open inode -/

section Consequences

variable {fs : FS} {pend : List Nat}

/-- Between calls, `0 ≤ deny_write_cnt ≤ open_cnt`. -/
theorem Bal.denyWriteCnt_le (hb : Bal fs.objs []) {p : Nat × Inode} (hp : p ∈ fs.openInodes) :
    0 ≤ p.2.denyWriteCnt ∧ p.2.denyWriteCnt ≤ p.2.openCnt := by
  have hd := hb.deny_cnt p hp
  have ho := hb.open_cnt p hp
  have hle := Bal.denyRefs_le_fileRefs fs.objs p.1
  simp only [List.count_nil, Nat.add_zero] at ho
  omega

/-- `inode_close` frees the inode exactly when its `open_cnt` drops to 0, and releases its
sector and its data exactly when it is also removed. -/
theorem inodeClose_frees (hb : Bal fs.objs pend) {a : Nat} {i : Inode} (hi : (a, i) ∈ fs.openInodes) :
    ((fs.inodeClose (some a)).inodeAt a = none ↔ i.openCnt = 1) ∧
      (fs.inodeClose (some a)).freeMap =
        if i.openCnt = 1 ∧ i.removed then
          Bitmap.bitmapSetMultiple (Bitmap.bitmapSetMultiple fs.freeMap i.sector 1 false)
            i.data.start (bytesToSectors i.data.length) false
        else fs.freeMap := by
  have hl : fs.inodeAt a = some i := lookup_of_mem _ hb.inodes_nodup hi
  unfold FS.inodeClose
  simp only [Option.bind_some, hl, Option.getD_some]
  by_cases h1 : i.openCnt - 1 = 0
  · have hfree : (free fs.openInodes a).lookup a = none := lookup_free_self _ hb.inodes_nodup a
    have h1' : i.openCnt = 1 := by omega
    rw [if_pos h1]
    by_cases hr : i.removed
    · simp only [hr, if_true, h1', true_and]
      exact ⟨iff_of_true hfree trivial, rfl⟩
    · simp only [hr, Bool.false_eq_true, if_false, h1', and_false]
      exact ⟨iff_of_true hfree trivial, trivial⟩
  · have h1' : i.openCnt ≠ 1 := by omega
    rw [if_neg h1]
    simp only [h1', false_and, if_false]
    refine ⟨iff_of_false ?_ not_false, rfl⟩
    simp only [FS.inodeAt, FS.modifyInode] at hl ⊢
    rw [lookup_modify_self, hl]
    simp

/-- A file that denies writes makes every `inode_write_at` to its inode write nothing. -/
theorem inodeWriteAt_denied (hb : Bal fs.objs pend) {f : Nat} {file : File}
    (hf : fs.fileAt f = some file) (hd : file.denyWrite = true) (buffer : List UInt8)
    (size offset : Nat) : (fs.inodeWriteAt file.inode buffer size offset).2 = 0 := by
  have hmem := mem_of_lookup _ hf
  obtain ⟨i, hi, himem⟩ := hb.inodeAt_of_mem (hb.files_live _ hmem)
  -- the file is one of the files that deny writes to the inode
  have hpos : 0 < fs.objs.denyRefs file.inode :=
    List.countP_pos_iff.mpr ⟨(f, file), hmem, by simp [hd]⟩
  have hcnt : i.denyWriteCnt ≠ 0 := by
    have := hb.deny_cnt _ himem
    dsimp only at this
    omega
  unfold FS.inodeWriteAt
  rw [hi]
  simp [hcnt]

end Consequences

end Pintos.Filesys
