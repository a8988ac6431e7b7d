import Pintos.Model.Bitmap
import Pintos.Lib.ByteMemory
import Pintos.Lib.Heap

/-!
# The file system: free map, inodes, the root directory and open files

`filesys/free-map.c`, `inode.c`, `directory.c`, `file.c` and `filesys.c`, over one state
`FS`.

* The free map is the in-memory bitmap, one bit per sector of the device.
  `free_map_allocate (cnt)` (free-map.c:27-42) is first fit: `bitmap_scan_and_flip` from 0,
  so `cnt = 0` gives sector 0. Its `bitmap_write` to the free-map file always succeeds here:
  nothing denies writes to that file, and the bytes it writes (the bitmap's copy in sector 2)
  are not modelled.
* The device keeps, for each sector `inode_create` wrote an `inode_disk` to, its start and
  length (`diskInodes`), and the bytes of the data sectors (`disk`, sector `s` at
  `512 * s`). A directory's data is kept as its entries (`dirEntries`, by the sector of the
  directory's inode): `dir_create` writes zeros over it, which read as free entries.
* Kernel objects live at addresses that `malloc` takes from a counter and that it never
  reuses; `malloc` and `calloc` never fail here. `open_inodes` is the list of open inodes,
  front first, with their addresses (`openInodes`); an inode is in it from `inode_open` to
  the `inode_close` that frees it. `struct file` and `struct dir` objects are `files` and
  `dirs`. A null pointer is `none`.
* `open_cnt` and `deny_write_cnt` are `int`. A failed `ASSERT` sets `panicked`.
* `inode_read_at` and `inode_write_at` (inode.c:201-310) go sector by sector through chunks
  of at most the bytes left in the file and in the sector; `inode_write_at` writes nothing
  when `deny_write_cnt` is not 0, and past the end of the file (growth is not implemented).
  A partial sector goes through a bounce buffer: the sector is read, the chunk copied in and
  the sector written back, which changes the chunk's bytes only.
-/

set_option autoImplicit false

namespace Pintos.Filesys

open Pintos.Bitmap ByteMemory

def BLOCK_SECTOR_SIZE : Nat := 512

def FREE_MAP_SECTOR : Nat := 0

def ROOT_DIR_SECTOR : Nat := 1

def NAME_MAX : Nat := 14

/-- `sizeof (struct dir_entry)`: a sector number, `char name[NAME_MAX + 1]` and a flag. -/
def DIR_ENTRY_SIZE : Nat := 20

/-- `DIV_ROUND_UP (size, BLOCK_SECTOR_SIZE)`. -/
def bytesToSectors (size : Nat) : Nat := (size + BLOCK_SECTOR_SIZE - 1) / BLOCK_SECTOR_SIZE

/-- `struct inode_disk`; the magic number is written and never read. -/
structure InodeDisk where
  start : Nat
  length : Nat
  deriving DecidableEq, Repr

/-- `struct inode`. -/
structure Inode where
  sector : Nat
  openCnt : Int
  removed : Bool
  denyWriteCnt : Int
  data : InodeDisk
  deriving DecidableEq, Repr

/-- `struct dir_entry`; the name without its terminator. -/
structure DirEntry where
  inodeSector : Nat
  name : List UInt8
  inUse : Bool
  deriving DecidableEq, Repr

/-- An entry of zeros: free. -/
def DirEntry.zero : DirEntry := ⟨0, [], false⟩

/-- `struct file`: the address of its inode. -/
structure File where
  inode : Nat
  pos : Nat
  denyWrite : Bool
  deriving DecidableEq, Repr

/-- `struct dir`. -/
structure Dir where
  inode : Nat
  pos : Nat
  deriving DecidableEq, Repr

structure FS where
  freeMap : List Bool
  diskInodes : Nat → Option InodeDisk
  disk : Memory
  dirEntries : Nat → List DirEntry
  openInodes : List (Nat × Inode)
  files : List (Nat × File)
  dirs : List (Nat × Dir)
  nextAddr : Nat
  /-- `free_map_file`. -/
  freeMapFile : Option Nat
  panicked : Bool

namespace FS

variable (fs : FS)

/-- `malloc`: a fresh address. -/
def malloc : FS × Nat := ({ fs with nextAddr := fs.nextAddr + 1 }, fs.nextAddr)

def assert (b : Bool) : FS := { fs with panicked := fs.panicked || !b }

/-! ## The free map -/

def freeMapAllocate (cnt : Nat) : FS × Option Nat :=
  let (b, sector) := bitmapScanAndFlip fs.freeMap 0 cnt false
  ({ fs with freeMap := b }, sector)

def freeMapRelease (sector cnt : Nat) : FS :=
  { fs.assert (bitmapAll fs.freeMap sector cnt) with
    freeMap := bitmapSetMultiple fs.freeMap sector cnt false }

/-! ## Inodes -/

def inodeAt (addr : Nat) : Option Inode := fs.openInodes.lookup addr

def modifyInode (addr : Nat) (f : Inode → Inode) : FS :=
  { fs with openInodes := Heap.modify fs.openInodes addr f }

/-- `inode_create (sector, length)`: the data sectors, then the disk inode and zeros over
the data. -/
def inodeCreate (sector length : Nat) : FS × Bool :=
  let sectors := bytesToSectors length
  match fs.freeMapAllocate sectors with
  | (fs, some start) =>
      ({ fs with
          diskInodes := Function.update fs.diskInodes sector (some ⟨start, length⟩),
          disk := writeBytes fs.disk (start * BLOCK_SECTOR_SIZE)
            (List.replicate (sectors * BLOCK_SECTOR_SIZE) 0) }, true)
  | (fs, none) => (fs, false)

def inodeReopen (addr : Option Nat) : FS :=
  match addr with
  | some a => fs.modifyInode a fun i => { i with openCnt := i.openCnt + 1 }
  | none => fs

/-- `inode_open (sector)`: the open inode of the sector, reopened, or a new one at the front
of `open_inodes`, read from the disk. -/
def inodeOpen (sector : Nat) : FS × Nat :=
  match fs.openInodes.find? (·.2.sector = sector) with
  | some (addr, _) => (fs.inodeReopen (some addr), addr)
  | none =>
      let (fs, addr) := fs.malloc
      ({ fs with openInodes := (addr, ⟨sector, 1, false, 0, (fs.diskInodes sector).getD ⟨0, 0⟩⟩) ::
          fs.openInodes }, addr)

/-- `inode_close`: the last opener removes the inode from `open_inodes`, frees it, and
releases its sectors if it was removed. -/
def inodeClose (addr : Option Nat) : FS :=
  match addr.bind fs.inodeAt with
  | none => fs
  | some i =>
      let a := addr.getD 0
      if i.openCnt - 1 = 0 then
        let fs := { fs with openInodes := Heap.free fs.openInodes a }
        if i.removed then
          (fs.freeMapRelease i.sector 1).freeMapRelease i.data.start (bytesToSectors i.data.length)
        else fs
      else fs.modifyInode a fun i => { i with openCnt := i.openCnt - 1 }

def inodeRemove (addr : Nat) : FS := fs.modifyInode addr fun i => { i with removed := true }

def inodeDenyWrite (addr : Nat) : FS :=
  match fs.inodeAt addr with
  | none => fs
  | some i =>
      (fs.modifyInode addr fun i => { i with denyWriteCnt := i.denyWriteCnt + 1 }).assert
        (decide (i.denyWriteCnt + 1 ≤ i.openCnt))

def inodeAllowWrite (addr : Nat) : FS :=
  match fs.inodeAt addr with
  | none => fs
  | some i =>
      ((fs.assert (decide (i.denyWriteCnt > 0))).assert (decide (i.denyWriteCnt ≤ i.openCnt))).modifyInode
        addr fun i => { i with denyWriteCnt := i.denyWriteCnt - 1 }

def inodeLength (addr : Nat) : Nat := ((fs.inodeAt addr).map (·.data.length)).getD 0

end FS

/-- `byte_to_sector`: `-1`, as a `block_sector_t`, past the end. -/
def byteToSector (i : Inode) (pos : Nat) : Nat :=
  if pos < i.data.length then i.data.start + pos / BLOCK_SECTOR_SIZE else 2 ^ 32 - 1

/-- The bytes of one round of `inode_read_at` and `inode_write_at` at `offset` with `size`
bytes to go: at most the bytes left in the file and in the sector. -/
def chunkSize (i : Inode) (size offset : Nat) : Int :=
  let sectorOfs := offset % BLOCK_SECTOR_SIZE
  let inodeLeft : Int := (i.data.length : Int) - offset
  let sectorLeft : Int := BLOCK_SECTOR_SIZE - sectorOfs
  let minLeft := if inodeLeft < sectorLeft then inodeLeft else sectorLeft
  if (size : Int) < minLeft then size else minLeft

/-- The loop of `inode_read_at`; each round reads at least one byte, so `size + 1` rounds
are enough. -/
def readLoop (disk : Memory) (i : Inode) : Nat → Nat → Nat → List UInt8 → List UInt8
  | 0, _, _, acc => acc
  | fuel + 1, size, offset, acc =>
      if size > 0 then
        let chunk := chunkSize i size offset
        if chunk ≤ 0 then acc
        else
          let bytes := readBytes disk (byteToSector i offset * BLOCK_SECTOR_SIZE +
            offset % BLOCK_SECTOR_SIZE) chunk.toNat
          readLoop disk i fuel (size - chunk.toNat) (offset + chunk.toNat) (acc ++ bytes)
      else acc

/-- The loop of `inode_write_at` over the bytes of `buffer` from `written`. -/
def writeLoop (i : Inode) (buffer : List UInt8) : Nat → Memory → Nat → Nat → Nat → Memory × Nat
  | 0, disk, _, _, written => (disk, written)
  | fuel + 1, disk, size, offset, written =>
      if size > 0 then
        let chunk := chunkSize i size offset
        if chunk ≤ 0 then (disk, written)
        else
          let disk := writeBytes disk (byteToSector i offset * BLOCK_SECTOR_SIZE +
            offset % BLOCK_SECTOR_SIZE) ((buffer.drop written).take chunk.toNat)
          writeLoop i buffer fuel disk (size - chunk.toNat) (offset + chunk.toNat)
            (written + chunk.toNat)
      else (disk, written)

/-- The loop of `dir_readdir` over the entries from slot `slot` on: the slot after the last
entry it reads, and the name of the first entry in use. -/
def readdirFrom : List DirEntry → Nat → Nat × Option (List UInt8)
  | [], slot => (slot, none)
  | e :: es, slot => if e.inUse then (slot + 1, some e.name) else readdirFrom es (slot + 1)

namespace FS

variable (fs : FS)

/-- `inode_read_at (inode, buffer, size, offset)`: the bytes read. -/
def inodeReadAt (addr size offset : Nat) : List UInt8 :=
  match fs.inodeAt addr with
  | none => []
  | some i => readLoop fs.disk i (size + 1) size offset []

/-- `inode_write_at (inode, buffer, size, offset)` of the first `size` bytes of `buffer`:
the bytes written. -/
def inodeWriteAt (addr : Nat) (buffer : List UInt8) (size offset : Nat) : FS × Nat :=
  match fs.inodeAt addr with
  | none => (fs, 0)
  | some i =>
      if i.denyWriteCnt ≠ 0 then (fs, 0)
      else
        let (disk, written) := writeLoop i buffer (size + 1) fs.disk size offset 0
        ({ fs with disk := disk }, written)

/-! ## Files -/

def fileAt (addr : Nat) : Option File := fs.files.lookup addr

def modifyFile (addr : Nat) (f : File → File) : FS :=
  { fs with files := Heap.modify fs.files addr f }

/-- `file_open (inode)`: a new file at position 0, or `NULL` for a null inode. -/
def fileOpen (inode : Option Nat) : FS × Option Nat :=
  match inode with
  | some a =>
      let (fs, addr) := fs.malloc
      ({ fs with files := (addr, ⟨a, 0, false⟩) :: fs.files }, some addr)
  | none => (fs.inodeClose none, none)

def fileReopen (addr : Nat) : FS × Option Nat :=
  match fs.fileAt addr with
  | some file => (fs.inodeReopen (some file.inode)).fileOpen (some file.inode)
  | none => (fs, none)

def fileDenyWrite (addr : Nat) : FS :=
  match fs.fileAt addr with
  | some file =>
      if !file.denyWrite then
        (fs.modifyFile addr fun f => { f with denyWrite := true }).inodeDenyWrite file.inode
      else fs
  | none => fs

def fileAllowWrite (addr : Nat) : FS :=
  match fs.fileAt addr with
  | some file =>
      if file.denyWrite then
        (fs.modifyFile addr fun f => { f with denyWrite := false }).inodeAllowWrite file.inode
      else fs
  | none => fs

/-- `file_close`: allow writes again, close the inode, free the file. -/
def fileClose (addr : Option Nat) : FS :=
  match addr.bind fs.fileAt with
  | some file =>
      let fs := fs.fileAllowWrite (addr.getD 0)
      let fs := fs.inodeClose (some file.inode)
      { fs with files := Heap.free fs.files (addr.getD 0) }
  | none => fs

def fileLength (addr : Nat) : Nat := ((fs.fileAt addr).map fun f => fs.inodeLength f.inode).getD 0

/-- `file_read (file, buffer, size)`: the bytes read; the position moves past them. -/
def fileRead (addr size : Nat) : FS × List UInt8 :=
  match fs.fileAt addr with
  | some file =>
      let bytes := fs.inodeReadAt file.inode size file.pos
      (fs.modifyFile addr fun f => { f with pos := f.pos + bytes.length }, bytes)
  | none => (fs, [])

/-- `file_write (file, buffer, size)`: the bytes written; the position moves past them. -/
def fileWrite (addr : Nat) (buffer : List UInt8) (size : Nat) : FS × Nat :=
  match fs.fileAt addr with
  | some file =>
      let (fs, n) := fs.inodeWriteAt file.inode buffer size file.pos
      (fs.modifyFile addr fun f => { f with pos := f.pos + n }, n)
  | none => (fs, 0)

/-- `file_write_at (file, buffer, size, file_ofs)`: the position stays. -/
def fileWriteAt (addr : Nat) (buffer : List UInt8) (size fileOfs : Nat) : FS × Nat :=
  match fs.fileAt addr with
  | some file => fs.inodeWriteAt file.inode buffer size fileOfs
  | none => (fs, 0)

/-- `file_seek (file, new_pos)`. -/
def fileSeek (addr newPos : Nat) : FS := fs.modifyFile addr fun f => { f with pos := newPos }

/-! ## The root directory -/

def dirAt (addr : Nat) : Option Dir := fs.dirs.lookup addr

/-- `dir_create (sector, entry_cnt)`: its data reads as `entry_cnt` free entries. -/
def dirCreate (sector entryCnt : Nat) : FS × Bool :=
  match fs.inodeCreate sector (entryCnt * DIR_ENTRY_SIZE) with
  | (fs, true) =>
      let entries := List.replicate entryCnt DirEntry.zero
      ({ fs with dirEntries := Function.update fs.dirEntries sector entries }, true)
  | (fs, false) => (fs, false)

def dirOpen (inode : Option Nat) : FS × Option Nat :=
  match inode with
  | some a =>
      let (fs, addr) := fs.malloc
      ({ fs with dirs := (addr, ⟨a, 0⟩) :: fs.dirs }, some addr)
  | none => (fs.inodeClose none, none)

def dirOpenRoot : FS × Option Nat :=
  let (fs, inode) := fs.inodeOpen ROOT_DIR_SECTOR
  fs.dirOpen (some inode)

def dirReopen (addr : Nat) : FS × Option Nat :=
  match fs.dirAt addr with
  | some dir => (fs.inodeReopen (some dir.inode)).dirOpen (some dir.inode)
  | none => (fs, none)

def dirClose (addr : Option Nat) : FS :=
  match addr.bind fs.dirAt with
  | some dir =>
      let fs := fs.inodeClose (some dir.inode)
      { fs with dirs := Heap.free fs.dirs (addr.getD 0) }
  | none => fs

/-- The inode behind a directory, and the entries its data holds. -/
def dirInode (addr : Nat) : Option Inode := (fs.dirAt addr).bind fun d => fs.inodeAt d.inode

def entriesOf (addr : Nat) : List DirEntry :=
  ((fs.dirInode addr).map fun i => fs.dirEntries i.sector).getD []

/-- `lookup`: the first entry in use with the name, and its slot. -/
def lookup (addr : Nat) (name : List UInt8) : Option (DirEntry × Nat) :=
  ((fs.entriesOf addr).zipIdx.find? fun p => p.1.inUse && p.1.name == name)

/-- Write the entry into slot `idx` with `inode_write_at`: it fails when writes to the
directory are denied. -/
def writeEntry (addr idx : Nat) (e : DirEntry) : FS × Bool :=
  match fs.dirInode addr with
  | some i =>
      if i.denyWriteCnt ≠ 0 ∨ (fs.dirEntries i.sector).length ≤ idx then (fs, false)
      else
        let entries := (fs.dirEntries i.sector).set idx e
        ({ fs with dirEntries := Function.update fs.dirEntries i.sector entries }, true)
  | none => (fs, false)

def dirLookup (addr : Nat) (name : List UInt8) : FS × Option Nat :=
  match fs.lookup addr name with
  | some (e, _) =>
      let (fs, inode) := fs.inodeOpen e.inodeSector
      (fs, some inode)
  | none => (fs, none)

/-- `dir_add`: a valid name not in use goes into the first free slot; with no free slot the
write lands at the end of the directory and writes nothing. -/
def dirAdd (addr : Nat) (name : List UInt8) (inodeSector : Nat) : FS × Bool :=
  if name = [] ∨ name.length > NAME_MAX then (fs, false)
  else if (fs.lookup addr name).isSome then (fs, false)
  else
    let ofs := ((fs.entriesOf addr).findIdx? (!·.inUse)).getD (fs.entriesOf addr).length
    fs.writeEntry addr ofs ⟨inodeSector, name, true⟩

/-- `dir_remove`: erase the entry and mark its inode removed; the inode is released when
its last opener closes it. -/
def dirRemove (addr : Nat) (name : List UInt8) : FS × Bool :=
  match fs.lookup addr name with
  | none => (fs, false)
  | some (e, ofs) =>
      let (fs, inode) := fs.inodeOpen e.inodeSector
      match fs.writeEntry addr ofs { e with inUse := false } with
      | (fs, true) => ((fs.inodeRemove inode).inodeClose (some inode), true)
      | (fs, false) => (fs.inodeClose (some inode), false)

/-- `dir_readdir (dir, name)`: the name of the next entry in use from `dir->pos`, which moves
past every entry it reads. `dir->pos` is a byte offset that starts at 0 and moves by whole
entries, so it reads entry `pos / DIR_ENTRY_SIZE`; a read past the last entry is short and
ends the loop. -/
def dirReaddir (addr : Nat) : FS × Option (List UInt8) :=
  match fs.dirAt addr with
  | none => (fs, none)
  | some dir =>
      let r := readdirFrom ((fs.entriesOf addr).drop (dir.pos / DIR_ENTRY_SIZE))
        (dir.pos / DIR_ENTRY_SIZE)
      ({ fs with dirs := Heap.modify fs.dirs addr fun d => { d with pos := r.1 * DIR_ENTRY_SIZE } },
        r.2)

/-! ## `filesys.c` -/

/-- `filesys_create (name, initial_size)`: a sector for the inode, the inode, the entry;
on failure the inode's sector is released. -/
def filesysCreate (name : List UInt8) (initialSize : Nat) : FS × Bool :=
  let (fs, dir) := fs.dirOpenRoot
  let (fs, inodeSector, success) :=
    match fs.freeMapAllocate 1 with
    | (fs, none) => (fs, 0, false)
    | (fs, some sector) =>
        match fs.inodeCreate sector initialSize with
        | (fs, false) => (fs, sector, false)
        | (fs, true) =>
            let (fs, ok) := fs.dirAdd (dir.getD 0) name sector
            (fs, sector, ok)
  let fs := if !success && inodeSector ≠ 0 then fs.freeMapRelease inodeSector 1 else fs
  (fs.dirClose dir, success)

def filesysOpen (name : List UInt8) : FS × Option Nat :=
  let (fs, dir) := fs.dirOpenRoot
  let (fs, inode) := fs.dirLookup (dir.getD 0) name
  let fs := fs.dirClose dir
  fs.fileOpen inode

def filesysRemove (name : List UInt8) : FS × Bool :=
  let (fs, dir) := fs.dirOpenRoot
  let (fs, success) := fs.dirRemove (dir.getD 0) name
  (fs.dirClose dir, success)

/-- `free_map_open`: open the free-map file; `bitmap_read` gives back the map it holds. -/
def freeMapOpen : FS :=
  let (fs, inode) := fs.inodeOpen FREE_MAP_SECTOR
  let (fs, file) := fs.fileOpen (some inode)
  { fs with freeMapFile := file }

end FS

/-- The state of `free_map_init` on a device of `size` sectors holding `disk`. -/
def freeMapInit (size : Nat) (disk : Memory) : FS where
  freeMap := bitmapMark (bitmapMark (bitmapCreate size) FREE_MAP_SECTOR) ROOT_DIR_SECTOR
  diskInodes := fun _ => none
  disk := disk
  dirEntries := fun _ => []
  openInodes := []
  files := []
  dirs := []
  nextAddr := 1
  freeMapFile := none
  panicked := false

/-- `filesys_init (true)`: `do_format` (`free_map_create`, the root directory with 16
entries, `free_map_close`), then `free_map_open`. A failed step would `PANIC`. -/
def filesysInit (size : Nat) (disk : Memory) : FS :=
  let fs := freeMapInit size disk
  let (fs, created) := fs.inodeCreate FREE_MAP_SECTOR (bitmapFileSize fs.freeMap)
  let fs := fs.assert created
  let fs := fs.freeMapOpen
  let (fs, rootCreated) := fs.dirCreate ROOT_DIR_SECTOR 16
  let fs := fs.assert rootCreated
  let fs := fs.fileClose fs.freeMapFile
  fs.freeMapOpen

end Pintos.Filesys
