import Pintos.Model.OpenFiles
import Pintos.Analysis.OpenInodes

/-!
# Open inodes over every run, and the executables processes run

Every call keeps `Bal` (`bal_call`), so from `filesys_init` on, over any run of calls, the open
inodes are one per sector and `inode_open` of an open sector shares it, each `open_cnt` is
the files and directories on the inode and each `deny_write_cnt` its files that deny writes.

A process's running file is the file `load` denied writes to. The kernel's invariant
`KInv` says that the files the processes hold are live and held once, and that each running
file still denies writes: what a process closes is one of its own files, and `file_close`
and `file_write` of one file leave every other file's inode and flag as they were
(`FS.handle`). With `Bal`, a running file's inode then has `deny_write_cnt > 0`, and every
`inode_write_at` to it writes nothing.
-/

set_option autoImplicit false

namespace Pintos.Filesys

open Heap

variable {fs : FS} {pend : List Nat}

/-! ## Every call keeps the balance -/

theorem bal_call (hb : Bal fs.objs pend) (c : Call) : Bal (fs.call c).objs pend := by
  cases c with
  | create name initialSize => exact bal_filesysCreate hb name initialSize
  | «open» name => exact bal_filesysOpen hb name
  | remove name => exact bal_filesysRemove hb name
  | reopen file => exact bal_fileReopen hb file
  | close file => exact bal_fileClose hb (some file)
  | read file size => exact bal_fileRead hb file size
  | write file buffer size => exact bal_fileWrite hb file buffer size
  | writeAt file buffer size fileOfs => exact bal_fileWriteAt hb file buffer size fileOfs
  | seek file newPos => exact bal_fileSeek hb file newPos
  | denyWrite file => exact bal_fileDenyWrite hb file
  | allowWrite file => exact bal_fileAllowWrite hb file
  | dirOpenRoot => exact bal_dirOpenRoot hb
  | dirReopen dir => exact bal_dirReopen hb dir
  | dirClose dir => exact bal_dirClose hb (some dir)

theorem bal_runCalls (hb : Bal fs.objs pend) (cs : List Call) : Bal (fs.runCalls cs).objs pend := by
  induction cs generalizing fs with
  | nil => exact hb
  | cons c cs ih => exact ih (bal_call hb c)

/-! ## What a call leaves of the other files

`FS.handle fs f` is what the kernel's invariant reads of file `f`: its inode and whether it
denies writes, or `none` once it is closed. -/

/-- The inode of file `f` and its `deny_write`. -/
def FS.handle (fs : FS) (f : Nat) : Option (Nat × Bool) :=
  (fs.fileAt f).map fun x => (x.inode, x.denyWrite)

theorem mem_keys_iff_handle {f : Nat} : f ∈ keys fs.files ↔ (fs.handle f).isSome := by
  rw [mem_keys_iff_lookup, FS.handle, FS.fileAt, Option.isSome_map]

theorem mem_keys_of_handle {fs' : FS} {f : Nat} (h : fs'.handle f = fs.handle f)
    (hf : f ∈ keys fs.files) : f ∈ keys fs'.files := by
  rw [mem_keys_iff_handle] at hf ⊢
  rw [h]
  exact hf

theorem handle_of_files {fs' : FS} (h : fs'.files = fs.files) (f : Nat) : fs'.handle f = fs.handle f := by
  simp [FS.handle, FS.fileAt, h]

/-- A change of one file that keeps its inode and its flag keeps every handle. -/
theorem handle_modifyFile (g : Nat) (h : File → File) (hinode : ∀ x, (h x).inode = x.inode)
    (hdeny : ∀ x, (h x).denyWrite = x.denyWrite) (f : Nat) :
    (fs.modifyFile g h).handle f = fs.handle f := by
  unfold FS.handle FS.fileAt FS.modifyFile
  by_cases hfg : f = g
  · subst hfg
    rw [lookup_modify_self, Option.map_map]
    congr 1
    funext x
    simp [hinode, hdeny]
  · rw [lookup_modify_ne _ hfg]

theorem handle_fileSeek (g newPos f : Nat) : (fs.fileSeek g newPos).handle f = fs.handle f :=
  handle_modifyFile g (fun x => { x with pos := newPos }) (fun _ => rfl) (fun _ => rfl) f

theorem handle_fileRead (g size f : Nat) : (fs.fileRead g size).1.handle f = fs.handle f := by
  unfold FS.fileRead
  cases fs.fileAt g with
  | none => rfl
  | some file =>
      exact handle_modifyFile g
        (fun x => { x with pos := x.pos + (fs.inodeReadAt file.inode size file.pos).length })
        (fun _ => rfl) (fun _ => rfl) f

theorem files_inodeWriteAt (fs : FS) (a : Nat) (buffer : List UInt8) (size offset : Nat) :
    (fs.inodeWriteAt a buffer size offset).1.files = fs.files :=
  congrArg Objs.files (objs_inodeWriteAt fs a buffer size offset)

theorem handle_fileWrite (g : Nat) (buffer : List UInt8) (size f : Nat) :
    (fs.fileWrite g buffer size).1.handle f = fs.handle f := by
  unfold FS.fileWrite
  cases fs.fileAt g with
  | none => rfl
  | some file =>
      exact (handle_modifyFile g
        (fun x => { x with pos := x.pos + (fs.inodeWriteAt file.inode buffer size file.pos).2 })
        (fun _ => rfl) (fun _ => rfl) f).trans
        (handle_of_files (files_inodeWriteAt fs file.inode buffer size file.pos) f)

theorem handle_writePage (m : Nat) (page : Page) (f : Nat) :
    (writePage fs m page).handle f = fs.handle f :=
  (handle_fileWrite m _ _ f).trans (handle_fileSeek m _ f)

theorem bal_writePage (hb : Bal fs.objs pend) (m : Nat) (page : Page) :
    Bal (writePage fs m page).objs pend :=
  bal_fileWrite (bal_fileSeek hb m page.ofs) m _ _

theorem fileAt_fileAllowWrite_ne {f g : Nat} (hfg : f ≠ g) :
    (fs.fileAllowWrite g).fileAt f = fs.fileAt f := by
  unfold FS.fileAllowWrite
  cases fs.fileAt g with
  | none => rfl
  | some file =>
      dsimp only
      split
      · simp only [FS.fileAt, files_inodeAllowWrite, FS.modifyFile]
        exact lookup_modify_ne _ hfg _
      · rfl

/-- `file_close` of another file: `file_allow_write` changes the flag of the closed file
only, `inode_close` no file, and `free` the closed file only. -/
theorem handle_fileClose_ne {f g : Nat} (hfg : f ≠ g) :
    (fs.fileClose (some g)).handle f = fs.handle f := by
  unfold FS.fileClose
  cases (some g).bind fs.fileAt with
  | none => rfl
  | some file =>
      simp only [FS.handle, FS.fileAt, Option.getD_some]
      rw [lookup_free_ne _ hfg, files_inodeClose]
      exact congrArg _ (fileAt_fileAllowWrite_ne hfg)

theorem files_inodeDenyWrite (fs : FS) (a : Nat) : (fs.inodeDenyWrite a).files = fs.files := by
  unfold FS.inodeDenyWrite
  split <;> rfl

theorem handle_fileDenyWrite_ne {f g : Nat} (hfg : f ≠ g) :
    (fs.fileDenyWrite g).handle f = fs.handle f := by
  unfold FS.fileDenyWrite
  cases fs.fileAt g with
  | none => rfl
  | some file =>
      dsimp only
      split
      · simp only [FS.handle, FS.fileAt, files_inodeDenyWrite, FS.modifyFile]
        rw [lookup_modify_ne _ hfg]
      · rfl

/-- After `file_deny_write` the file denies writes, on the same inode. -/
theorem handle_fileDenyWrite_self {g : Nat} {file : File} (hg : fs.fileAt g = some file) :
    (fs.fileDenyWrite g).handle g = some (file.inode, true) := by
  unfold FS.fileDenyWrite
  rw [hg]
  dsimp only
  split
  · simp only [FS.handle, FS.fileAt, files_inodeDenyWrite, FS.modifyFile] at hg ⊢
    rw [lookup_modify_self, hg]
    rfl
  · rename_i hd
    simp only [Bool.not_eq_true', Bool.not_eq_false] at hd
    simp [FS.handle, hg, hd]

@[simp] theorem files_inodeOpen (fs : FS) (s : Nat) : (fs.inodeOpen s).1.files = fs.files := by
  unfold FS.inodeOpen
  split <;> rfl

@[simp] theorem files_dirOpen (fs : FS) (x : Option Nat) : (fs.dirOpen x).1.files = fs.files := by
  cases x <;> rfl

@[simp] theorem files_dirOpenRoot (fs : FS) : fs.dirOpenRoot.1.files = fs.files :=
  (files_dirOpen _ _).trans (files_inodeOpen _ _)

@[simp] theorem files_dirClose (fs : FS) (x : Option Nat) : (fs.dirClose x).files = fs.files := by
  unfold FS.dirClose
  split
  · exact files_inodeClose _ _
  · rfl

@[simp] theorem files_dirLookup (fs : FS) (d : Nat) (name : List UInt8) :
    (fs.dirLookup d name).1.files = fs.files := by
  unfold FS.dirLookup
  split
  · exact files_inodeOpen _ _
  · rfl

theorem files_filesysCreate (fs : FS) (name : List UInt8) (initialSize : Nat) :
    (fs.filesysCreate name initialSize).1.files = fs.files := by
  have h := congrArg Objs.files (objs_filesysCreate fs name initialSize)
  simp only [FS.objs] at h
  rw [h, files_dirClose, files_dirOpenRoot]

theorem files_dirRemove (fs : FS) (d : Nat) (name : List UInt8) :
    (fs.dirRemove d name).1.files = fs.files := by
  unfold FS.dirRemove
  split
  · rfl
  · rename_i e ofs _
    have h1 := files_inodeOpen fs e.inodeSector
    split
    rename_i fs1 inode hopen
    rw [hopen] at h1
    split
    · rename_i hw
      have h2 := congrArg Objs.files (objs_of_eq hw (objs_writeEntry fs1 d _ _))
      exact (files_inodeClose _ _).trans (h2.trans h1)
    · rename_i hw
      have h2 := congrArg Objs.files (objs_of_eq hw (objs_writeEntry fs1 d _ _))
      exact (files_inodeClose _ _).trans (h2.trans h1)

theorem files_filesysRemove (fs : FS) (name : List UInt8) :
    (fs.filesysRemove name).1.files = fs.files :=
  (files_dirClose _ _).trans ((files_dirRemove _ _ _).trans (files_dirOpenRoot fs))

/-- `file_open` puts the new file at a fresh address: no live file moves. -/
theorem fileAt_fileOpen (hb : Bal fs.objs pend) {f : Nat} (hf : f ∈ keys fs.files)
    (x : Option Nat) : (fs.fileOpen x).1.fileAt f = fs.fileAt f := by
  cases x with
  | none => rfl
  | some a =>
      have hlt : f < fs.nextAddr := hb.files_fresh f hf
      show ((fs.nextAddr, (⟨a, 0, false⟩ : File)) :: fs.files).lookup f = fs.files.lookup f
      rw [lookup_cons_eq, if_neg (Nat.ne_of_lt hlt)]

theorem fileOpen_fresh (hb : Bal fs.objs pend) {x : Option Nat} {g : Nat}
    (hg : (fs.fileOpen x).2 = some g) : g ∉ keys fs.files ∧ g ∈ keys (fs.fileOpen x).1.files := by
  cases x with
  | none => cases hg
  | some a =>
      obtain rfl : fs.nextAddr = g := Option.some.inj hg
      exact ⟨fun h => Nat.lt_irrefl _ (hb.files_fresh _ h), List.mem_cons_self⟩

theorem filesysOpen_eq (fs : FS) (name : List UInt8) :
    fs.filesysOpen name =
      ((fs.dirOpenRoot.1.dirLookup (fs.dirOpenRoot.2.getD 0) name).1.dirClose fs.dirOpenRoot.2).fileOpen
        (fs.dirOpenRoot.1.dirLookup (fs.dirOpenRoot.2.getD 0) name).2 := rfl

theorem handle_filesysOpen (hb : Bal fs.objs pend) {f : Nat} (hf : f ∈ keys fs.files)
    (name : List UInt8) : (fs.filesysOpen name).1.handle f = fs.handle f := by
  have hb3 := bal_dirClose (bal_dirLookup (bal_dirOpenRoot hb) (fs.dirOpenRoot.2.getD 0) name)
    fs.dirOpenRoot.2
  have h3 : ((fs.dirOpenRoot.1.dirLookup (fs.dirOpenRoot.2.getD 0) name).1.dirClose
      fs.dirOpenRoot.2).files = fs.files := by simp
  rw [filesysOpen_eq]
  unfold FS.handle
  rw [fileAt_fileOpen hb3 (h3 ▸ hf)]
  simp only [FS.fileAt, h3]

theorem filesysOpen_fresh (hb : Bal fs.objs pend) {name : List UInt8} {g : Nat}
    (hg : (fs.filesysOpen name).2 = some g) :
    g ∉ keys fs.files ∧ g ∈ keys (fs.filesysOpen name).1.files := by
  have hb3 := bal_dirClose (bal_dirLookup (bal_dirOpenRoot hb) (fs.dirOpenRoot.2.getD 0) name)
    fs.dirOpenRoot.2
  have h3 : ((fs.dirOpenRoot.1.dirLookup (fs.dirOpenRoot.2.getD 0) name).1.dirClose
      fs.dirOpenRoot.2).files = fs.files := by simp
  rw [filesysOpen_eq] at hg ⊢
  exact h3 ▸ fileOpen_fresh hb3 hg

theorem handle_fileReopen (hb : Bal fs.objs pend) {f : Nat} (hf : f ∈ keys fs.files) (g : Nat) :
    (fs.fileReopen g).1.handle f = fs.handle f := by
  unfold FS.fileReopen
  cases hg : fs.fileAt g with
  | none => rfl
  | some file =>
      have hb1 := bal_inodeReopen hb (hb.files_live _ (mem_of_lookup _ hg))
      unfold FS.handle
      exact congrArg _ (fileAt_fileOpen hb1 hf _)

theorem fileReopen_fresh (hb : Bal fs.objs pend) {f g : Nat} (hg : (fs.fileReopen f).2 = some g) :
    g ∉ keys fs.files ∧ g ∈ keys (fs.fileReopen f).1.files := by
  unfold FS.fileReopen at hg ⊢
  cases hf : fs.fileAt f with
  | none => rw [hf] at hg; cases hg
  | some file =>
      rw [hf] at hg
      exact fileOpen_fresh (bal_inodeReopen hb (hb.files_live _ (mem_of_lookup _ hf))) hg

/-! ## The loops of `syscall_munmap` and `process_exit` -/

theorem handle_writePages (m : Nat) (pages : List Page) (f : Nat) :
    (pages.foldl (fun fs page => writePage fs m page) fs).handle f = fs.handle f := by
  induction pages generalizing fs with
  | nil => rfl
  | cons page pages ih => exact (ih).trans (handle_writePage m page f)

theorem bal_writePages (hb : Bal fs.objs pend) (m : Nat) (pages : List Page) :
    Bal (pages.foldl (fun fs page => writePage fs m page) fs).objs pend := by
  induction pages generalizing fs with
  | nil => exact hb
  | cons page pages ih => exact ih (bal_writePage hb m page)

theorem handle_syscallMunmap_ne {f m : Nat} (hfm : f ≠ m) (dirty : List Page) :
    (syscallMunmap fs m dirty).handle f = fs.handle f :=
  (handle_fileClose_ne hfm).trans (handle_writePages m dirty f)

theorem bal_syscallMunmap (hb : Bal fs.objs pend) (m : Nat) (dirty : List Page) :
    Bal (syscallMunmap fs m dirty).objs pend :=
  bal_fileClose (bal_writePages hb m dirty) _

theorem handle_closeAll {f : Nat} {files : List Nat} (hf : f ∉ files) :
    (closeAll fs files).handle f = fs.handle f := by
  induction files generalizing fs with
  | nil => rfl
  | cons g files ih =>
      rw [List.mem_cons, not_or] at hf
      exact (ih hf.2).trans (handle_fileClose_ne hf.1)

theorem bal_closeAll (hb : Bal fs.objs pend) (files : List Nat) : Bal (closeAll fs files).objs pend := by
  induction files generalizing fs with
  | nil => exact hb
  | cons g files ih => exact ih (bal_fileClose hb (some g))

theorem handle_munmaps {f : Nat} {ms : List Nat} (hf : f ∉ ms) (dirty : Nat → List Page) :
    (ms.foldl (fun fs m => syscallMunmap fs m (dirty m)) fs).handle f = fs.handle f := by
  induction ms generalizing fs with
  | nil => rfl
  | cons m ms ih =>
      rw [List.mem_cons, not_or] at hf
      exact (ih hf.2).trans (handle_syscallMunmap_ne hf.1 (dirty m))

theorem bal_munmaps (hb : Bal fs.objs pend) (ms : List Nat) (dirty : Nat → List Page) :
    Bal (ms.foldl (fun fs m => syscallMunmap fs m (dirty m)) fs).objs pend := by
  induction ms generalizing fs with
  | nil => exact hb
  | cons m ms ih => exact ih (bal_syscallMunmap hb m (dirty m))

/-! ## The kernel's invariant -/

/-- The files a process holds, in its three tables. -/
def Holder.files (h : Holder) : List Nat := h.fds ++ h.mmaps ++ h.running.toList

namespace Holder

variable (h : Holder) {f : Nat}

theorem mem_files_of_running {h : Holder} (hr : h.running = some f) : f ∈ h.files := by
  simp [Holder.files, hr]

theorem files_appendFd (g : Nat) : ({ h with fds := h.fds ++ [g] } : Holder).files.Perm (g :: h.files) := by
  simp only [Holder.files, List.append_assoc, List.singleton_append]
  exact List.perm_middle

theorem files_appendMmap (g : Nat) :
    ({ h with mmaps := h.mmaps ++ [g] } : Holder).files.Perm (g :: h.files) := by
  simp only [Holder.files, List.append_assoc, List.singleton_append]
  rw [← List.append_assoc, ← List.append_assoc]
  exact List.perm_middle

theorem files_eraseFd (hf : f ∈ h.fds) :
    ({ h with fds := h.fds.erase f } : Holder).files = h.files.erase f := by
  simp only [Holder.files, List.append_assoc]
  rw [List.erase_append_left _ hf]

theorem files_eraseMmap (hnd : h.files.Nodup) (hf : f ∈ h.mmaps) :
    ({ h with mmaps := h.mmaps.erase f } : Holder).files = h.files.erase f := by
  have hfd : f ∉ h.fds := fun hfd =>
    List.disjoint_of_nodup_append (List.nodup_append.mp hnd).1 hfd hf
  simp only [Holder.files]
  rw [List.erase_append_left _ (List.mem_append_right _ hf), List.erase_append_right _ hfd]

/-- `load` sets `running_file`; a running file it had before is dropped, not closed. -/
theorem files_setRunning (g : Nat) :
    ({ h with running := some g } : Holder).files.Perm (g :: (h.fds ++ h.mmaps)) := by
  simp only [Holder.files, Option.toList_some]
  exact List.perm_append_singleton g _

theorem fds_mmaps_sublist : (h.fds ++ h.mmaps).Sublist h.files := List.sublist_append_left _ _

end Holder

/-- The files the processes hold are live and each is held once, by one table of one
process, and every running file denies writes. -/
structure KInv (k : Kernel) : Prop where
  bal : Bal k.fs.objs []
  held_live : ∀ t, ∀ f ∈ (k.procs t).files, f ∈ keys k.fs.files
  held_nodup : ∀ t, (k.procs t).files.Nodup
  held_apart : ∀ t u, t ≠ u → ∀ f ∈ (k.procs t).files, f ∉ (k.procs u).files
  running_denied : ∀ t f, (k.procs t).running = some f → ∃ a, k.fs.handle f = some (a, true)

namespace KInv

variable {k : Kernel}

/-- A step that leaves the tables and every live file's handle. -/
theorem of_fs (hk : KInv k) {fs' : FS} (hbal : Bal fs'.objs [])
    (hkeep : ∀ f ∈ keys k.fs.files, fs'.handle f = k.fs.handle f) : KInv { k with fs := fs' } where
  bal := hbal
  held_live t f hf := mem_keys_of_handle (hkeep f (hk.held_live t f hf)) (hk.held_live t f hf)
  held_nodup := hk.held_nodup
  held_apart := hk.held_apart
  running_denied t f hr := by
    have hf := hk.held_live t f (Holder.mem_files_of_running hr)
    rw [show ({ k with fs := fs' } : Kernel).fs.handle f = k.fs.handle f from hkeep f hf]
    exact hk.running_denied t f hr

/-- A step of process `t`: other processes' files keep their handles, and `t`'s new tables
hold live files once, each one it held or a new one. -/
theorem update (hk : KInv k) {fs' : FS} {t : Nat} {h : Holder} (hbal : Bal fs'.objs [])
    (hkeep : ∀ f ∈ keys k.fs.files, f ∉ (k.procs t).files → fs'.handle f = k.fs.handle f)
    (hlive : ∀ f ∈ h.files, f ∈ keys fs'.files) (hnd : h.files.Nodup)
    (hnew : ∀ f ∈ h.files, f ∈ (k.procs t).files ∨ f ∉ keys k.fs.files)
    (hrun : ∀ f, h.running = some f → ∃ a, fs'.handle f = some (a, true)) :
    KInv ⟨fs', Function.update k.procs t h⟩ := by
  -- another process's file is live, and not `t`'s, so it keeps its handle
  have hother : ∀ u, u ≠ t → ∀ f ∈ (k.procs u).files, fs'.handle f = k.fs.handle f :=
    fun u hu f hf => hkeep f (hk.held_live u f hf) (hk.held_apart u t hu f hf)
  refine ⟨hbal, ?_, ?_, ?_, ?_⟩
  · intro u f hf
    dsimp only at hf ⊢
    by_cases hu : u = t
    · subst hu
      exact hlive f (by simpa using hf)
    · rw [Function.update_of_ne hu] at hf
      exact mem_keys_of_handle (hother u hu f hf) (hk.held_live u f hf)
  · intro u
    dsimp only
    by_cases hu : u = t
    · subst hu
      simpa using hnd
    · rw [Function.update_of_ne hu]
      exact hk.held_nodup u
  · intro u v huv f hf
    dsimp only at hf ⊢
    by_cases hu : u = t
    · subst hu
      have hv : v ≠ u := Ne.symm huv
      rw [Function.update_self] at hf
      rw [Function.update_of_ne hv]
      rcases hnew f hf with hold | hfresh
      · exact hk.held_apart u v huv f hold
      · exact fun hfv => hfresh (hk.held_live v f hfv)
    · rw [Function.update_of_ne hu] at hf
      by_cases hv : v = t
      · subst hv
        rw [Function.update_self]
        intro hfv
        rcases hnew f hfv with hold | hfresh
        · exact hk.held_apart u v huv f hf hold
        · exact hfresh (hk.held_live u f hf)
      · rw [Function.update_of_ne hv]
        exact hk.held_apart u v huv f hf
  · intro u f hr
    dsimp only at hr ⊢
    by_cases hu : u = t
    · subst hu
      exact hrun f (by simpa using hr)
    · rw [Function.update_of_ne hu] at hr
      rw [hother u hu f (Holder.mem_files_of_running hr)]
      exact hk.running_denied u f hr

/-- Process `t` takes a new file into a table other than `running_file`. -/
theorem add (hk : KInv k) {fs' : FS} {t g : Nat} {h : Holder} (hbal : Bal fs'.objs [])
    (hkeep : ∀ f ∈ keys k.fs.files, fs'.handle f = k.fs.handle f)
    (hfresh : g ∉ keys k.fs.files) (hg : g ∈ keys fs'.files)
    (hperm : h.files.Perm (g :: (k.procs t).files)) (hrun : h.running = (k.procs t).running) :
    KInv ⟨fs', Function.update k.procs t h⟩ := by
  refine hk.update hbal (fun f hf _ => hkeep f hf) ?_ ?_ ?_ ?_
  · intro f hf
    rcases List.mem_cons.mp (hperm.subset hf) with rfl | hold
    · exact hg
    · exact mem_keys_of_handle (hkeep f (hk.held_live t f hold)) (hk.held_live t f hold)
  · exact hperm.nodup_iff.mpr
      (List.nodup_cons.mpr ⟨fun hgt => hfresh (hk.held_live t g hgt), hk.held_nodup t⟩)
  · intro f hf
    rcases List.mem_cons.mp (hperm.subset hf) with rfl | hold
    · exact Or.inr hfresh
    · exact Or.inl hold
  · intro f hr
    rw [hrun] at hr
    have hf := hk.held_live t f (Holder.mem_files_of_running hr)
    rw [hkeep f hf]
    exact hk.running_denied t f hr

/-- Process `t` closes its file `g` and drops it from its tables. -/
theorem remove (hk : KInv k) {fs' : FS} {t g : Nat} {h : Holder} (hbal : Bal fs'.objs [])
    (hkeep : ∀ f ∈ keys k.fs.files, f ≠ g → fs'.handle f = k.fs.handle f)
    (hg : g ∈ (k.procs t).files) (hsub : h.files.Sublist (k.procs t).files) (hgh : g ∉ h.files)
    (hrun : h.running = (k.procs t).running) :
    KInv ⟨fs', Function.update k.procs t h⟩ := by
  have hne : ∀ f ∈ h.files, f ≠ g := fun f hf hfg => hgh (hfg ▸ hf)
  refine hk.update hbal (fun f hf hft => hkeep f hf fun hfg => hft (hfg ▸ hg)) ?_
    ((hk.held_nodup t).sublist hsub) (fun f hf => Or.inl (hsub.subset hf)) ?_
  · intro f hf
    have hold := hk.held_live t f (hsub.subset hf)
    exact mem_keys_of_handle (hkeep f hold (hne f hf)) hold
  · intro f hr
    have hf := Holder.mem_files_of_running hr
    rw [hrun] at hr
    have hold := hk.held_live t f (Holder.mem_files_of_running hr)
    rw [hkeep f hold (hne f hf)]
    exact hk.running_denied t f hr

end KInv

/-! ## Each step of a process keeps the invariant -/

theorem handle_fileClose_of_ne {x : Option Nat} {f : Nat} (hx : x ≠ some f) :
    (fs.fileClose x).handle f = fs.handle f := by
  cases x with
  | none => rfl
  | some g => exact handle_fileClose_ne fun hfg => hx (hfg ▸ rfl)

namespace KInv

variable {k : Kernel}

theorem step_open (hk : KInv k) (t : Nat) (name : List UInt8) : KInv (k.step (.open t name)) := by
  have hb := bal_filesysOpen hk.bal name
  have hkeep : ∀ f ∈ keys k.fs.files, (k.fs.filesysOpen name).1.handle f = k.fs.handle f :=
    fun f hf => handle_filesysOpen hk.bal hf name
  unfold Kernel.step
  dsimp only
  rcases hr : k.fs.filesysOpen name with ⟨fs', _ | g⟩
  · rw [hr] at hb hkeep
    exact hk.of_fs hb hkeep
  · have hfr := filesysOpen_fresh hk.bal (show (k.fs.filesysOpen name).2 = some g by rw [hr])
    rw [hr] at hb hkeep hfr
    exact hk.add hb hkeep hfr.1 hfr.2 (Holder.files_appendFd _ g) rfl

theorem step_close (hk : KInv k) (t f : Nat) : KInv (k.step (.close t f)) := by
  unfold Kernel.step
  dsimp only
  split
  · rename_i hf
    have hnd := hk.held_nodup t
    refine hk.remove (bal_fileClose hk.bal _) (fun f' _ hne => handle_fileClose_ne hne)
      (by simp [Holder.files, hf]) ?_ ?_ rfl
    · rw [Holder.files_eraseFd _ hf]
      exact List.erase_sublist
    · rw [Holder.files_eraseFd _ hf]
      exact hnd.not_mem_erase
  · exact hk

theorem step_read (hk : KInv k) (t f size : Nat) : KInv (k.step (.read t f size)) := by
  unfold Kernel.step
  dsimp only
  split
  · exact hk.of_fs (bal_fileRead hk.bal f size) fun g _ => handle_fileRead f size g
  · exact hk

theorem step_write (hk : KInv k) (t f : Nat) (buffer : List UInt8) (size : Nat) :
    KInv (k.step (.write t f buffer size)) := by
  unfold Kernel.step
  dsimp only
  split
  · exact hk.of_fs (bal_fileWrite hk.bal f buffer size) fun g _ => handle_fileWrite f buffer size g
  · exact hk

theorem step_seek (hk : KInv k) (t f position : Nat) : KInv (k.step (.seek t f position)) := by
  unfold Kernel.step
  dsimp only
  split
  · exact hk.of_fs (bal_fileSeek hk.bal f position) fun g _ => handle_fileSeek f position g
  · exact hk

theorem step_mmap (hk : KInv k) (t f : Nat) (inserted : Bool) :
    KInv (k.step (.mmap t f inserted)) := by
  unfold Kernel.step
  dsimp only
  split
  · have hb := bal_fileReopen hk.bal f
    have hkeep : ∀ g ∈ keys k.fs.files, (k.fs.fileReopen f).1.handle g = k.fs.handle g :=
      fun g hg => handle_fileReopen hk.bal hg f
    rcases hr : k.fs.fileReopen f with ⟨fs', _ | g⟩
    · rw [hr] at hb hkeep
      exact hk.of_fs hb hkeep
    · have hfr := fileReopen_fresh hk.bal (show (k.fs.fileReopen f).2 = some g by rw [hr])
      rw [hr] at hb hkeep hfr
      dsimp only
      split
      · exact hk.add hb hkeep hfr.1 hfr.2 (Holder.files_appendMmap _ g) rfl
      · exact hk.of_fs hb hkeep
  · exact hk

theorem step_evict (hk : KInv k) (t m : Nat) (page : Page) : KInv (k.step (.evict t m page)) := by
  unfold Kernel.step
  dsimp only
  split
  · exact hk.of_fs (bal_writePage hk.bal m page) fun g _ => handle_writePage m page g
  · exact hk

theorem step_pageIn (hk : KInv k) (t f : Nat) (page : Page) : KInv (k.step (.pageIn t f page)) := by
  unfold Kernel.step
  dsimp only
  split
  · exact hk.of_fs (bal_fileRead (bal_fileSeek hk.bal f page.ofs) f page.readBytes)
      fun g _ => (handle_fileRead f _ g).trans (handle_fileSeek f _ g)
  · exact hk

theorem step_munmap (hk : KInv k) (t m : Nat) (dirty : List Page) :
    KInv (k.step (.munmap t m dirty)) := by
  unfold Kernel.step
  dsimp only
  split
  · rename_i hm
    have hnd := hk.held_nodup t
    refine hk.remove (bal_syscallMunmap hk.bal m dirty)
      (fun f _ hne => handle_syscallMunmap_ne hne dirty) (by simp [Holder.files, hm]) ?_ ?_ rfl
    · rw [Holder.files_eraseMmap _ hnd hm]
      exact List.erase_sublist
    · rw [Holder.files_eraseMmap _ hnd hm]
      exact hnd.not_mem_erase
  · exact hk

theorem step_create (hk : KInv k) (name : List UInt8) (initialSize : Nat) :
    KInv (k.step (.create name initialSize)) :=
  hk.of_fs (bal_filesysCreate hk.bal name initialSize)
    fun g _ => handle_of_files (files_filesysCreate _ _ _) g

theorem step_remove (hk : KInv k) (name : List UInt8) : KInv (k.step (.remove name)) :=
  hk.of_fs (bal_filesysRemove hk.bal name) fun g _ => handle_of_files (files_filesysRemove _ _) g

/-- `load`: the executable is a new file, and once writes to it are denied it is the running
file. -/
theorem step_load (hk : KInv k) (t : Nat) (name : List UInt8) (ok : Bool) :
    KInv (k.step (.load t name ok)) := by
  have hb := bal_filesysOpen hk.bal name
  have hkeep : ∀ f ∈ keys k.fs.files, (k.fs.filesysOpen name).1.handle f = k.fs.handle f :=
    fun f hf => handle_filesysOpen hk.bal hf name
  unfold Kernel.step
  dsimp only
  rcases hr : k.fs.filesysOpen name with ⟨fs1, _ | g⟩
  · rw [hr] at hb hkeep
    exact hk.of_fs hb hkeep
  · have hfr := filesysOpen_fresh hk.bal (show (k.fs.filesysOpen name).2 = some g by rw [hr])
    rw [hr] at hb hkeep hfr
    dsimp only
    split
    · obtain ⟨file, hfile⟩ : ∃ file, fs1.fileAt g = some file :=
        Option.isSome_iff_exists.mp ((mem_keys_iff_lookup _).mp hfr.2)
      have hdeny := handle_fileDenyWrite_self hfile
      have hne : ∀ f ∈ keys k.fs.files, f ≠ g := fun f hf hfg => hfr.1 (hfg ▸ hf)
      have hkeep' : ∀ f ∈ keys k.fs.files, (fs1.fileDenyWrite g).handle f = k.fs.handle f :=
        fun f hf => (handle_fileDenyWrite_ne (hne f hf)).trans (hkeep f hf)
      have hperm := Holder.files_setRunning (k.procs t) g
      have hsub := Holder.fds_mmaps_sublist (k.procs t)
      refine hk.update (bal_fileDenyWrite hb g) (fun f hf _ => hkeep' f hf) ?_ ?_ ?_ ?_
      · intro f hf
        rcases List.mem_cons.mp (hperm.subset hf) with rfl | hold
        · exact mem_keys_iff_handle.mpr (by rw [hdeny]; rfl)
        · have hl := hk.held_live t f (hsub.subset hold)
          exact mem_keys_of_handle (hkeep' f hl) hl
      · refine hperm.nodup_iff.mpr (List.nodup_cons.mpr ⟨fun hg => ?_, (hk.held_nodup t).sublist hsub⟩)
        exact hfr.1 (hk.held_live t g (hsub.subset hg))
      · intro f hf
        rcases List.mem_cons.mp (hperm.subset hf) with rfl | hold
        · exact Or.inr hfr.1
        · exact Or.inl (hsub.subset hold)
      · intro f hf
        obtain rfl : g = f := Option.some.inj hf
        exact ⟨file.inode, hdeny⟩
    · exact hk.of_fs hb hkeep

/-- `process_exit`: every file the process closes or unmaps is its own. -/
theorem step_exit (hk : KInv k) (t : Nat) (reached : Nat → Bool) (dirty : Nat → List Page) :
    KInv (k.step (.exit t reached dirty)) := by
  unfold Kernel.step
  dsimp only
  refine hk.update (bal_munmaps (bal_fileClose (bal_closeAll hk.bal _) _) _ _) ?_
    (by simp [Holder.empty, Holder.files]) (by simp [Holder.empty, Holder.files])
    (by simp [Holder.empty, Holder.files]) (by simp [Holder.empty])
  intro f _ hft
  have h1 : f ∉ (k.procs t).fds.filter reached := fun h =>
    hft (List.mem_append_left _ (List.mem_append_left _ (List.mem_of_mem_filter h)))
  have h2 : f ∉ (k.procs t).mmaps := fun h =>
    hft (List.mem_append_left _ (List.mem_append_right _ h))
  have h3 : (k.procs t).running ≠ some f := fun h => hft (Holder.mem_files_of_running h)
  rw [handle_munmaps h2, handle_fileClose_of_ne h3, handle_closeAll h1]

theorem step (hk : KInv k) (op : Op) : KInv (k.step op) := by
  cases op with
  | «open» t name => exact hk.step_open t name
  | close t f => exact hk.step_close t f
  | read t f size => exact hk.step_read t f size
  | write t f buffer size => exact hk.step_write t f buffer size
  | seek t f position => exact hk.step_seek t f position
  | mmap t f inserted => exact hk.step_mmap t f inserted
  | evict t m page => exact hk.step_evict t m page
  | pageIn t f page => exact hk.step_pageIn t f page
  | munmap t m dirty => exact hk.step_munmap t m dirty
  | create name initialSize => exact hk.step_create name initialSize
  | remove name => exact hk.step_remove name
  | load t name ok => exact hk.step_load t name ok
  | exit t reached dirty => exact hk.step_exit t reached dirty

theorem run (hk : KInv k) (ops : List Op) : KInv (k.run ops) := by
  induction ops generalizing k with
  | nil => exact hk
  | cons op ops ih => exact ih (hk.step op)

theorem boot (size : Nat) (disk : ByteMemory.Memory) : KInv (Kernel.boot size disk) where
  bal := bal_filesysInit size disk
  held_live := by simp [Kernel.boot, Holder.empty, Holder.files]
  held_nodup := by simp [Kernel.boot, Holder.empty, Holder.files]
  held_apart := by simp [Kernel.boot, Holder.empty, Holder.files]
  running_denied := by simp [Kernel.boot, Holder.empty]

end KInv

/-! ## The kernel's file system is a run of calls -/

theorem closeAll_eq_runCalls (fs : FS) (files : List Nat) :
    closeAll fs files = fs.runCalls (files.map Call.close) := by
  induction files generalizing fs with
  | nil => rfl
  | cons f files ih => exact ih (fs.fileClose (some f))

theorem fileClose_eq_runCalls (fs : FS) (x : Option Nat) :
    fs.fileClose x = fs.runCalls (x.toList.map Call.close) := by
  cases x <;> rfl

theorem writePages_eq_runCalls (fs : FS) (m : Nat) (pages : List Page) :
    pages.foldl (fun fs page => writePage fs m page) fs =
      fs.runCalls (pages.flatMap fun page => [.seek m page.ofs, .write m page.kpage page.readBytes]) := by
  induction pages generalizing fs with
  | nil => rfl
  | cons page pages ih =>
      rw [List.foldl_cons, ih, List.flatMap_cons, FS.runCalls_append]
      rfl

theorem syscallMunmap_eq_runCalls (fs : FS) (m : Nat) (dirty : List Page) :
    syscallMunmap fs m dirty =
      fs.runCalls ((dirty.flatMap fun page => [.seek m page.ofs, .write m page.kpage page.readBytes]) ++
        [.close m]) := by
  rw [FS.runCalls_append, ← writePages_eq_runCalls]
  rfl

theorem munmaps_eq_runCalls (fs : FS) (ms : List Nat) (dirty : Nat → List Page) :
    ∃ cs, ms.foldl (fun fs m => syscallMunmap fs m (dirty m)) fs = fs.runCalls cs := by
  induction ms generalizing fs with
  | nil => exact ⟨[], rfl⟩
  | cons m ms ih =>
      obtain ⟨cs, hcs⟩ := ih (syscallMunmap fs m (dirty m))
      rw [List.foldl_cons, hcs, syscallMunmap_eq_runCalls, ← FS.runCalls_append]
      exact ⟨_, rfl⟩

/-- A step of the kernel changes the file system by a run of calls: what holds over every
run of calls holds over every run of the kernel. -/
theorem Kernel.step_fs_eq_runCalls (k : Kernel) (op : Op) : ∃ cs, (k.step op).fs = k.fs.runCalls cs := by
  cases op with
  | «open» t name =>
      refine ⟨[.open name], ?_⟩
      unfold Kernel.step
      dsimp only
      rcases hr : k.fs.filesysOpen name with ⟨fs', _ | g⟩ <;>
        exact (congrArg Prod.fst hr).symm
  | close t f =>
      unfold Kernel.step
      dsimp only
      split
      · exact ⟨[.close f], rfl⟩
      · exact ⟨[], rfl⟩
  | read t f size =>
      unfold Kernel.step
      dsimp only
      split
      · exact ⟨[.read f size], rfl⟩
      · exact ⟨[], rfl⟩
  | write t f buffer size =>
      unfold Kernel.step
      dsimp only
      split
      · exact ⟨[.write f buffer size], rfl⟩
      · exact ⟨[], rfl⟩
  | seek t f position =>
      unfold Kernel.step
      dsimp only
      split
      · exact ⟨[.seek f position], rfl⟩
      · exact ⟨[], rfl⟩
  | mmap t f inserted =>
      unfold Kernel.step
      dsimp only
      split
      · refine ⟨[.reopen f], ?_⟩
        rcases hr : k.fs.fileReopen f with ⟨fs', _ | g⟩
        · exact (congrArg Prod.fst hr).symm
        · dsimp only
          split <;> exact (congrArg Prod.fst hr).symm
      · exact ⟨[], rfl⟩
  | evict t m page =>
      unfold Kernel.step
      dsimp only
      split
      · exact ⟨[.seek m page.ofs, .write m page.kpage page.readBytes], rfl⟩
      · exact ⟨[], rfl⟩
  | pageIn t f page =>
      unfold Kernel.step
      dsimp only
      split
      · exact ⟨[.seek f page.ofs, .read f page.readBytes], rfl⟩
      · exact ⟨[], rfl⟩
  | munmap t m dirty =>
      unfold Kernel.step
      dsimp only
      split
      · exact ⟨_, syscallMunmap_eq_runCalls k.fs m dirty⟩
      · exact ⟨[], rfl⟩
  | create name initialSize => exact ⟨[.create name initialSize], rfl⟩
  | remove name => exact ⟨[.remove name], rfl⟩
  | load t name ok =>
      unfold Kernel.step
      dsimp only
      rcases hr : k.fs.filesysOpen name with ⟨fs1, _ | g⟩
      · exact ⟨[.open name], (congrArg Prod.fst hr).symm⟩
      · dsimp only
        split
        · refine ⟨[.open name, .denyWrite g], ?_⟩
          show fs1.fileDenyWrite g = (k.fs.filesysOpen name).1.fileDenyWrite g
          rw [hr]
        · exact ⟨[.open name], (congrArg Prod.fst hr).symm⟩
  | exit t reached dirty =>
      unfold Kernel.step
      dsimp only
      obtain ⟨cs, hcs⟩ := munmaps_eq_runCalls
        ((closeAll k.fs ((k.procs t).fds.filter reached)).fileClose (k.procs t).running)
        (k.procs t).mmaps dirty
      refine ⟨(((k.procs t).fds.filter reached).map Call.close ++
        (k.procs t).running.toList.map Call.close) ++ cs, ?_⟩
      show List.foldl _ _ _ = _
      rw [hcs, fileClose_eq_runCalls, closeAll_eq_runCalls, ← FS.runCalls_append,
        ← FS.runCalls_append, List.append_assoc]

theorem Kernel.run_fs_eq_runCalls (k : Kernel) (ops : List Op) :
    ∃ cs, (k.run ops).fs = k.fs.runCalls cs := by
  induction ops generalizing k with
  | nil => exact ⟨[], rfl⟩
  | cons op ops ih =>
      obtain ⟨cs, hcs⟩ := k.step_fs_eq_runCalls op
      obtain ⟨cs', hcs'⟩ := ih (k.step op)
      refine ⟨cs ++ cs', ?_⟩
      rw [FS.runCalls_append, ← hcs]
      exact hcs'

/-! ## Open inodes over every run -/

theorem open_inodes_shared_and_counted :
    (∀ fs : FS,
      ((∃ size disk cs, fs = (filesysInit size disk).runCalls cs) ∨
        ∃ size disk ops, fs = ((Kernel.boot size disk).run ops).fs) →
      (fs.openInodes.map (·.2.sector)).Nodup ∧
        ∀ a i, (a, i) ∈ fs.openInodes →
          (fs.inodeOpen i.sector).2 = a ∧
          i.openCnt = ((fs.objs.fileRefs a + fs.objs.dirRefs a : Nat) : Int) ∧
          i.denyWriteCnt = ((fs.objs.denyRefs a : Nat) : Int) ∧
          0 ≤ i.denyWriteCnt ∧ i.denyWriteCnt ≤ i.openCnt ∧
          ((fs.inodeClose (some a)).inodeAt a = none ↔ i.openCnt = 1) ∧
          (fs.inodeClose (some a)).freeMap =
            if i.openCnt = 1 ∧ i.removed then
              Bitmap.bitmapSetMultiple (Bitmap.bitmapSetMultiple fs.freeMap i.sector 1 false)
                i.data.start (bytesToSectors i.data.length) false
            else fs.freeMap) ∧
    (∀ (size : Nat) (disk : ByteMemory.Memory) (ops : List Op) (k : Kernel),
      k = (Kernel.boot size disk).run ops →
        ∀ t f, (k.procs t).running = some f →
          ∃ file, k.fs.fileAt f = some file ∧ file.denyWrite = true ∧
            ∀ buffer n offset, (k.fs.inodeWriteAt file.inode buffer n offset).2 = 0) := by
  refine ⟨?_, ?_⟩
  · intro fs hfs
    -- a kernel run changes the file system by a run of calls, and calls keep the balance
    have hb : Bal fs.objs [] := by
      rcases hfs with ⟨size, disk, cs, rfl⟩ | ⟨size, disk, ops, rfl⟩
      · exact bal_runCalls (bal_filesysInit size disk) cs
      · obtain ⟨cs, hcs⟩ := (Kernel.boot size disk).run_fs_eq_runCalls ops
        rw [hcs]
        exact bal_runCalls (bal_filesysInit size disk) cs
    refine ⟨hb.sectors_nodup, fun a i hi => ?_⟩
    have hopen := hb.open_cnt _ hi
    simp only [List.count_nil, Nat.add_zero] at hopen
    exact ⟨inodeOpen_shared hb hi, hopen, hb.deny_cnt _ hi, (hb.denyWriteCnt_le hi).1,
      (hb.denyWriteCnt_le hi).2, (inodeClose_frees hb hi).1, (inodeClose_frees hb hi).2⟩
  · intro size disk ops k hk t f hr
    subst hk
    have hinv := (KInv.boot size disk).run ops
    obtain ⟨a, ha⟩ := hinv.running_denied t f hr
    obtain ⟨file, hfile, hpair⟩ := Option.map_eq_some_iff.mp ha
    obtain ⟨-, hd⟩ := Prod.mk.inj hpair
    exact ⟨file, hfile, hd, inodeWriteAt_denied hinv.bal hfile hd⟩

/-- A process that loads the file `a` it created runs it, and writes to it write nothing. -/
theorem open_inodes_shared_and_counted_rox :
    (((Kernel.boot 16 fun _ => 0).run [.create [97] 0, .load 0 [97] true]).procs 0).running = some 10 ∧
      ∃ file, ((Kernel.boot 16 fun _ => 0).run [.create [97] 0, .load 0 [97] true]).fs.fileAt 10 =
          some file ∧ file.denyWrite = true ∧
        ∀ buffer n offset, (((Kernel.boot 16 fun _ => 0).run
          [.create [97] 0, .load 0 [97] true]).fs.inodeWriteAt file.inode buffer n offset).2 = 0 := by
  have hr : (((Kernel.boot 16 fun _ => 0).run [.create [97] 0, .load 0 [97] true]).procs 0).running =
      some 10 := by decide
  exact ⟨hr, open_inodes_shared_and_counted.2 16 _ _ _ rfl 0 10 hr⟩

end Pintos.Filesys
