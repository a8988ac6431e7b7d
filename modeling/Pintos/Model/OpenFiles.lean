import Pintos.Model.Filesys

/-!
# The calls of the file system, and the files processes hold

`Call` names the calls of `filesys.c`, `file.c` and `directory.c` that the rest of the kernel
makes, on the handles it names (the addresses of `struct file` and `struct dir` objects);
`FS.call` runs one and drops what it returns. The file system lock makes every call atomic,
so a run of calls from `filesys_init` is any order the kernel's threads make them in.

A process holds files through three tables (`Holder`): its descriptor table
(`syscall_open` appends the file `filesys_open` gives, `syscall_close` closes it,
syscall.c:331-481), its mmap table (`syscall_mmap` reopens a descriptor's file,
`syscall_munmap` writes the dirty pages back and closes it, syscall.c:483-591) and
`running_file` (`load` opens the executable and denies writes to it, process.c:352-460).
`process_exit` (process.c:159-214) closes the descriptors its loop reaches, then the running
file, then unmaps every mapping. `Op` is what a process does to these tables, and
`Kernel.step` runs it.

Descriptor numbers and mapping ids are left out: a process names the file of the entry.
A call that fails before it reaches the file system (an address check, `palloc_get_page`)
changes nothing and is not an `Op`. What `load` reads of the executable, and the checks it
makes, are one flag: whether everything between `filesys_open` and `thread_set_running_file`
succeeds. On failure `load` does not close the file. A page is written back as
`file_seek (file, ofs)` and `file_write (file, kpage, read_bytes)`, by `syscall_munmap` for
the dirty pages of a mapping and by the eviction in `alloc_frame_entry` (frame.c:72-78); a
page of a file is read in by `load_file_page` (page.c:63-93).
-/

set_option autoImplicit false

namespace Pintos.Filesys

/-- A call of the file system on the handles it names. -/
inductive Call where
  | create (name : List UInt8) (initialSize : Nat)
  | «open» (name : List UInt8)
  | remove (name : List UInt8)
  | reopen (file : Nat)
  | close (file : Nat)
  | read (file size : Nat)
  | write (file : Nat) (buffer : List UInt8) (size : Nat)
  | writeAt (file : Nat) (buffer : List UInt8) (size fileOfs : Nat)
  | seek (file newPos : Nat)
  | denyWrite (file : Nat)
  | allowWrite (file : Nat)
  | dirOpenRoot
  | dirReopen (dir : Nat)
  | dirClose (dir : Nat)
  deriving DecidableEq, Repr

namespace FS

def call (fs : FS) : Call → FS
  | .create name initialSize => (fs.filesysCreate name initialSize).1
  | .open name => (fs.filesysOpen name).1
  | .remove name => (fs.filesysRemove name).1
  | .reopen file => (fs.fileReopen file).1
  | .close file => fs.fileClose (some file)
  | .read file size => (fs.fileRead file size).1
  | .write file buffer size => (fs.fileWrite file buffer size).1
  | .writeAt file buffer size fileOfs => (fs.fileWriteAt file buffer size fileOfs).1
  | .seek file newPos => fs.fileSeek file newPos
  | .denyWrite file => fs.fileDenyWrite file
  | .allowWrite file => fs.fileAllowWrite file
  | .dirOpenRoot => fs.dirOpenRoot.1
  | .dirReopen dir => (fs.dirReopen dir).1
  | .dirClose dir => fs.dirClose (some dir)

def runCalls (fs : FS) (cs : List Call) : FS := cs.foldl call fs

@[simp] theorem runCalls_nil (fs : FS) : fs.runCalls [] = fs := rfl

theorem runCalls_append (fs : FS) (cs cs' : List Call) :
    fs.runCalls (cs ++ cs') = (fs.runCalls cs).runCalls cs' :=
  List.foldl_append

end FS

/-- The `struct file`s one process holds: its descriptor table's, its mmap table's, and
`running_file`. -/
structure Holder where
  fds : List Nat
  mmaps : List Nat
  running : Option Nat
  deriving DecidableEq, Repr

/-- `init_thread`: empty tables and no running file. -/
def Holder.empty : Holder := ⟨[], [], none⟩

structure Kernel where
  fs : FS
  procs : Nat → Holder

/-- A page of a file in memory: its offset in the file, its bytes and `read_bytes`. -/
structure Page where
  ofs : Nat
  kpage : List UInt8
  readBytes : Nat
  deriving DecidableEq, Repr

/-- What process `t` does to the files it holds. `mmap t f inserted`: the checks of
`syscall_mmap` before `file_reopen` pass, and `inserted` says whether every
`insert_unmapped_spte` succeeds. `evict t m page`: a dirty page of mapping `m` is evicted.
`pageIn t f page`: a page of `f` is read in. `exit t reached dirty`: `reached` says which
descriptors the loop of `process_exit` closes, `dirty m` are the dirty pages of mapping `m`. -/
inductive Op where
  | «open» (t : Nat) (name : List UInt8)
  | close (t f : Nat)
  | read (t f size : Nat)
  | write (t f : Nat) (buffer : List UInt8) (size : Nat)
  | seek (t f position : Nat)
  | mmap (t f : Nat) (inserted : Bool)
  | evict (t m : Nat) (page : Page)
  | pageIn (t f : Nat) (page : Page)
  | munmap (t m : Nat) (dirty : List Page)
  | create (name : List UInt8) (initialSize : Nat)
  | remove (name : List UInt8)
  | load (t : Nat) (name : List UInt8) (ok : Bool)
  | exit (t : Nat) (reached : Nat → Bool) (dirty : Nat → List Page)

/-- A dirty page written back: `file_seek`, then `file_write`. -/
def writePage (fs : FS) (m : Nat) (page : Page) : FS :=
  ((fs.fileSeek m page.ofs).fileWrite m page.kpage page.readBytes).1

/-- `syscall_munmap` of mapping `m` with its dirty pages: write them back, close the file. -/
def syscallMunmap (fs : FS) (m : Nat) (dirty : List Page) : FS :=
  (dirty.foldl (fun fs page => writePage fs m page) fs).fileClose (some m)

/-- `file_close` of each file in turn. -/
def closeAll (fs : FS) (files : List Nat) : FS :=
  files.foldl (fun fs f => fs.fileClose (some f)) fs

namespace Kernel

variable (k : Kernel)

def step : Op → Kernel
  | .open t name =>
      match k.fs.filesysOpen name with
      | (fs, some f) =>
          { fs := fs, procs := Function.update k.procs t
              { k.procs t with fds := (k.procs t).fds ++ [f] } }
      | (fs, none) => { k with fs := fs }
  | .close t f =>
      if f ∈ (k.procs t).fds then
        { fs := k.fs.fileClose (some f), procs := Function.update k.procs t
            { k.procs t with fds := (k.procs t).fds.erase f } }
      else k
  | .read t f size =>
      if f ∈ (k.procs t).fds then { k with fs := (k.fs.fileRead f size).1 } else k
  | .write t f buffer size =>
      if f ∈ (k.procs t).fds then { k with fs := (k.fs.fileWrite f buffer size).1 } else k
  | .seek t f position =>
      if f ∈ (k.procs t).fds then { k with fs := k.fs.fileSeek f position } else k
  | .mmap t f inserted =>
      if f ∈ (k.procs t).fds ∧ k.fs.fileLength f ≠ 0 then
        match k.fs.fileReopen f with
        | (fs, some g) =>
            -- a failed `insert_unmapped_spte` returns -1 and leaves the reopened file open
            if inserted then
              { fs := fs, procs := Function.update k.procs t
                  { k.procs t with mmaps := (k.procs t).mmaps ++ [g] } }
            else { k with fs := fs }
        | (fs, none) => { k with fs := fs }
      else k
  | .evict t m page =>
      if m ∈ (k.procs t).mmaps then { k with fs := writePage k.fs m page } else k
  | .pageIn t f page =>
      if f ∈ (k.procs t).mmaps ∨ (k.procs t).running = some f then
        { k with fs := ((k.fs.fileSeek f page.ofs).fileRead f page.readBytes).1 }
      else k
  | .munmap t m dirty =>
      if m ∈ (k.procs t).mmaps then
        { fs := syscallMunmap k.fs m dirty, procs := Function.update k.procs t
            { k.procs t with mmaps := (k.procs t).mmaps.erase m } }
      else k
  | .create name initialSize => { k with fs := (k.fs.filesysCreate name initialSize).1 }
  | .remove name => { k with fs := (k.fs.filesysRemove name).1 }
  | .load t name ok =>
      match k.fs.filesysOpen name with
      | (fs, some f) =>
          -- on failure the executable stays open
          if ok then
            { fs := fs.fileDenyWrite f, procs := Function.update k.procs t
                { k.procs t with running := some f } }
          else { k with fs := fs }
      | (fs, none) => { k with fs := fs }
  | .exit t reached dirty =>
      let h := k.procs t
      let fs := closeAll k.fs (h.fds.filter reached)
      let fs := fs.fileClose h.running
      let fs := h.mmaps.foldl (fun fs m => syscallMunmap fs m (dirty m)) fs
      { fs := fs, procs := Function.update k.procs t Holder.empty }

def run (ops : List Op) : Kernel := ops.foldl step k

/-- Boot: `filesys_init (true)` on a device of `size` sectors, and no process holds a file. -/
def boot (size : Nat) (disk : ByteMemory.Memory) : Kernel :=
  ⟨filesysInit size disk, fun _ => Holder.empty⟩

end Kernel

end Pintos.Filesys
