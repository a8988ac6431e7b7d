import Mathlib

/-!
# 64-bit division on a 32-bit machine

GCC compiles a 64-bit `/` and `%` on x86 into calls of `__udivdi3`, `__umoddi3`, `__divdi3`
and `__moddi3`, which `lib/arithmetic.c` provides. They rest on `udiv64`, which divides
with the `divl` instruction: a 64-bit dividend by a 32-bit divisor, trapping with a divide
error (#DE) when the divisor is zero or the quotient does not fit in 32 bits. `divl` is
therefore partial here: `none` is the trap.

The C types are kept: `uint64_t` is `UInt64`, `uint32_t` is `UInt32`, `int64_t` is `Int64`
and `int32_t` is `Int32`, so that every conversion (a `return` of a 64-bit value from a
function declared `uint32_t`, a cast between signed and unsigned) is the truncation or the
reinterpretation that the compiled code performs. `nlz` returns a C `int` that is between 0
and 31 for every argument; it is a `Nat` here.
-/

set_option autoImplicit false

namespace Pintos.Arithmetic

/-- `divl (n, d)` (arithmetic.c:25-37): the quotient of the `divl` instruction, `none` when it
traps with #DE. -/
def divl (n : UInt64) (d : UInt32) : Option UInt32 :=
  if d = 0 ∨ 2 ^ 32 ≤ n.toNat / d.toNat then none
  else some (n / d.toUInt64).toUInt32

/-- `nlz (x)` (arithmetic.c:41-73): the leading zero bits of a nonzero `x`, by halving. -/
def nlz (x : UInt32) : Nat :=
  let (n, x) := if x ≤ 0x0000FFFF then (16, x <<< 16) else (0, x)
  let (n, x) := if x ≤ 0x00FFFFFF then (n + 8, x <<< 8) else (n, x)
  let (n, x) := if x ≤ 0x0FFFFFFF then (n + 4, x <<< 4) else (n, x)
  let (n, x) := if x ≤ 0x3FFFFFFF then (n + 2, x <<< 2) else (n, x)
  if x ≤ 0x7FFFFFFF then n + 1 else n

/-- `udiv64 (n, d)` (arithmetic.c:77-127). A divisor below `2 ^ 32` divides in two steps of
long division; a larger one is normalised by `nlz` of its high word, a quotient is
estimated with one `divl` of `n >> 1`, and the estimate is corrected by one. -/
def udiv64 (n d : UInt64) : Option UInt64 :=
  if d >>> 32 = 0 then
    let b : UInt64 := (1 : UInt64) <<< 32
    let n1 : UInt32 := (n >>> 32).toUInt32
    let n0 : UInt32 := n.toUInt32
    let d0 : UInt32 := d.toUInt32
    (divl (b * (n1 % d0).toUInt64 + n0.toUInt64) d0).map fun q =>
      q.toUInt64 + b * (n1 / d0).toUInt64
  else if n < d then some 0
  else
    let d1 : UInt32 := (d >>> 32).toUInt32
    let s := nlz d1
    (divl (n >>> 1) ((d <<< s.toUInt64) >>> 32).toUInt32).map fun q1 =>
      let q : UInt64 := (q1 >>> (31 - s).toUInt32).toUInt64
      if n - (q - 1) * d < d then q - 1 else q

/-- `umod64 (n, d)` (arithmetic.c:131-135): `n - d * udiv64 (n, d)`, returned as the
function's `uint32_t`. -/
def umod64 (n d : UInt64) : Option UInt32 :=
  (udiv64 n d).map fun q => (n - d * q).toUInt32

/-- `sdiv64 (n, d)` (arithmetic.c:139-146): divide the magnitudes, then set the sign. -/
def sdiv64 (n d : Int64) : Option Int64 :=
  let nAbs : UInt64 := if 0 ≤ n then n.toUInt64 else -n.toUInt64
  let dAbs : UInt64 := if 0 ≤ d then d.toUInt64 else -d.toUInt64
  (udiv64 nAbs dAbs).map fun qAbs =>
    if (n < 0) = (d < 0) then qAbs.toInt64 else -qAbs.toInt64

/-- `smod64 (n, d)` (arithmetic.c:150-154): `n - d * sdiv64 (n, d)`, returned as the
function's `int32_t`. -/
def smod64 (n d : Int64) : Option Int32 :=
  (sdiv64 n d).map fun q => (n - d * q).toInt32

/-- `__divdi3`. -/
def divdi3 (n d : Int64) : Option Int64 := sdiv64 n d

/-- `__moddi3`: the `int32_t` of `smod64`, widened to `long long`. -/
def moddi3 (n d : Int64) : Option Int64 := (smod64 n d).map Int32.toInt64

/-- `__udivdi3`. -/
def udivdi3 (n d : UInt64) : Option UInt64 := udiv64 n d

/-- `__umoddi3`: the `uint32_t` of `umod64`, widened to `unsigned long long`. -/
def umoddi3 (n d : UInt64) : Option UInt64 := (umod64 n d).map UInt32.toUInt64

end Pintos.Arithmetic
