import Mathlib.Data.List.Basic

/-!
# The kernel command line: `read_command_line` (`threads/init.c`)

The loader leaves the number of words in the 32-bit word at `LOADER_ARG_CNT` and the
words, each ended by `'\0'`, in the `LOADER_ARGS_LEN` bytes at `LOADER_ARGS`
(`loader.h:18-25`). `read_command_line` (init.c:204-235) assigns the count to an `int`,
and for each `i < argc` panics once the cursor has reached the end of the area, stores
the cursor in `argv[i]` and moves it past the word and its terminator,
`p += strnlen (p, end - p) + 1`; then it stores `NULL` in `argv[argc]`. `argv` is a
static array of `LOADER_ARGS_LEN / 2 + 1` pointers.

The area is the list of its bytes and a pointer into it an offset. What the function does
is the list of its stores into `argv`, in order, as `(index, pointer)` with `none` for
`NULL`; `PANIC` is `none`. Printing the words afterwards changes nothing and is left out.
-/

set_option autoImplicit false

namespace Pintos.Init

def LOADER_ARGS_LEN : Nat := 128

/-- The number of pointers `argv` has room for. -/
def argvSlots : Nat := LOADER_ARGS_LEN / 2 + 1

/-- `strnlen (string, maxlen)` (string.c:309-316): the bytes before the first `'\0'`, at
most `maxlen`. -/
def strnlen : List UInt8 → Nat → Nat
  | [], _ => 0
  | c :: s, maxlen => if c ≠ 0 ∧ 0 < maxlen then strnlen s (maxlen - 1) + 1 else 0

/-- The loop from index `i`, with `n` iterations to go and the cursor at `p`: the stores
into `argv`, or `none` for the panic. -/
def readWords (args : List UInt8) : Nat → Nat → Nat → Option (List (Int × Option Nat))
  | 0, _, _ => some []
  | n + 1, i, p =>
      if p ≥ LOADER_ARGS_LEN then none
      else
        (readWords args n (i + 1) (p + strnlen (args.drop p) (LOADER_ARGS_LEN - p) + 1)).map
          ((i, some p) :: ·)

/-- `argc = *(uint32_t *) ptov (LOADER_ARG_CNT)`: the word converted to `int`. -/
def argcOf (argCnt : UInt32) : Int := argCnt.toInt32.toInt

/-- `read_command_line ()`: the stores into `argv`, or `none` for the panic. -/
def readCommandLine (argCnt : UInt32) (args : List UInt8) : Option (List (Int × Option Nat)) :=
  let argc := argcOf argCnt
  (readWords args argc.toNat 0 0).map (· ++ [(argc, none)])

end Pintos.Init
