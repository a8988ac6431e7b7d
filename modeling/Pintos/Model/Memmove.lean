import Pintos.Lib.ByteMemory

/-!
# `memmove` (`lib/string.c`)

`memmove (dst_, src_, size)` (string.c:22-45) copies `size` bytes from `src_` to `dst_`,
which may overlap. It copies upwards when `dst < src`, and otherwise moves both cursors to
the ends and copies downwards, so that each byte of the source is read before the copy
overwrites it. It returns its cursor `dst`, which the upward loop has moved to the end of
the copy.

Memory is `ByteMemory.Memory` and pointers are addresses; `NULL` is address 0. The two
`ASSERT`s are the `none` result.
-/

set_option autoImplicit false

namespace Pintos.Str

open ByteMemory

/-- `while (size-- > 0) *dst++ = *src++;`: the memory and the cursor `dst` after it. -/
def copyUp (m : Memory) : Nat → Nat → Nat → Memory × Nat
  | 0, dst, _ => (m, dst)
  | size + 1, dst, src => copyUp (Function.update m dst (m src)) size (dst + 1) (src + 1)

/-- `while (size-- > 0) *--dst = *--src;`, from cursors at the ends of the regions. -/
def copyDown (m : Memory) : Nat → Nat → Nat → Memory × Nat
  | 0, dst, _ => (m, dst)
  | size + 1, dst, src =>
      copyDown (Function.update m (dst - 1) (m (src - 1))) size (dst - 1) (src - 1)

/-- `memmove (dst_, src_, size)`: the memory after the copy and the pointer returned. -/
def memmove (m : Memory) (dst src size : Nat) : Option (Memory × Nat) :=
  if (dst = 0 ∧ size ≠ 0) ∨ (src = 0 ∧ size ≠ 0) then none
  else if dst < src then some (copyUp m size dst src)
  else some (copyDown m size (dst + size) (src + size))

end Pintos.Str
