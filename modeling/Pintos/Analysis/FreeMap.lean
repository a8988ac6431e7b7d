import Pintos.Model.Filesys

/-!
# What the free map marks

The free map should mark exactly the two fixed sectors and, for each inode named in the root
directory or open, its sector and its data (`claimedMarked`). Two things break that.

* The root directory's own data: `dir_create (ROOT_DIR_SECTOR, 16)` allocates a data sector
  for it in `do_format`, and the root inode is not named and, between calls, not open. On a
  formatted 16-sector device the map marks sectors 0 to 3: the fixed sectors, the free-map
  file's data (sector 2, the free-map file stays open) and the root directory's data
  (sector 3).
* A `filesys_create` whose `dir_add` fails, here because the name is in use, has already
  run `inode_create`, which allocated the data sectors. The failure path releases only the
  inode's sector, so the data stays marked with nothing pointing to it: the call returns
  `false` and the map has changed (`failed_create_leaks_data_sector`).
-/

set_option autoImplicit false

namespace Pintos.Filesys

open Pintos.Bitmap

/-- The sectors of the inodes the root directory names. -/
def namedSectors (fs : FS) : List Nat :=
  (fs.dirEntries ROOT_DIR_SECTOR).filterMap fun e => if e.inUse then some e.inodeSector else none

/-- The sectors of the open inodes. -/
def openSectors (fs : FS) : List Nat := fs.openInodes.map (·.2.sector)

/-- Whether sector `s` is in the data of the inode at sector `t`. -/
def inExtent (fs : FS) (t s : Nat) : Bool :=
  match fs.diskInodes t with
  | some d => decide (d.start ≤ s ∧ s < d.start + bytesToSectors d.length)
  | none => false

/-- The set the free map should mark: the free-map and root sectors, and the sector and the
data of every inode that is named or open. -/
def claimedMarked (fs : FS) (s : Nat) : Bool :=
  s == FREE_MAP_SECTOR || s == ROOT_DIR_SECTOR ||
    (namedSectors fs ++ openSectors fs).any fun t => s == t || inExtent fs t s

/-- A formatted device of 16 sectors. -/
def formatted : FS := filesysInit 16 fun _ => 0

/-- `formatted` after `filesys_create ("a", 1)`. -/
def withFileA : FS := (formatted.filesysCreate [97] 1).1

theorem failed_create_leaks_data_sector :
    bitmapTest formatted.freeMap 3 = true ∧ claimedMarked formatted 3 = false ∧
      (formatted.filesysCreate [97] 1).2 = true ∧
      (withFileA.filesysCreate [97] 1).2 = false ∧
      bitmapTest withFileA.freeMap 7 = false ∧
      bitmapTest (withFileA.filesysCreate [97] 1).1.freeMap 7 = true ∧
      claimedMarked (withFileA.filesysCreate [97] 1).1 7 = false := by
  decide

end Pintos.Filesys
