import Pintos.Model.Filesys
import Pintos.Model.Ustar

/-!
# Moving files through the scratch device in ustar format

`filesys/fsutil.c`. `fsutil_append (file_name)` (fsutil.c:167-223) writes a header, then the
file's data sector by sector (the last one padded with zeros), then two sectors of zeros,
the end-of-archive marker, without moving its position past them, so that the next
`append` writes over them. `fsutil_extract` (fsutil.c:73-156) reads headers from sector 0:
for a regular file it creates the file under the header's name, opens it and copies the data
sector by sector; at the end-of-archive marker it stops and overwrites sectors 0 and 1 with
zeros.

Each keeps its sector in a `static` variable (`appendSector`, `extractSector`). The scratch
device is a byte memory of `size` sectors; `block_read` and `block_write` of a sector past
the end `PANIC` (`check_sector`, block.c:104-114). Every `PANIC` of the two functions ends the
run with its reason (`Panic`); the messages they print are left out. A loop of `fsutil`
consumes a sector every round, or a byte of the file, so the fuel it gets (the sectors of the
device, the bytes of the file) is never what stops it.
-/

set_option autoImplicit false

namespace Pintos.Fsutil

open Pintos.Filesys Pintos.Ustar ByteMemory

/-- The scratch block device: its bytes, sector `s` at `512 * s`, and `block_size`. -/
structure Scratch where
  bytes : Memory
  size : Nat

structure State where
  fs : FS
  scratch : Scratch
  /-- `fsutil_append`'s `static block_sector_t sector`. -/
  appendSector : Nat
  /-- `fsutil_extract`'s `static block_sector_t sector`. -/
  extractSector : Nat

end Pintos.Fsutil
