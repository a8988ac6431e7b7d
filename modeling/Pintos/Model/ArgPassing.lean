import Pintos.Model.StringLib
import Pintos.Model.Vaddr

/-!
# Argument passing: `parse_line` and `push_arguments`

`start_process` (userprog/process.c:87-132) splits the command line that
`process_execute` copied into a page, and after a successful `load` pushes the arguments
onto the new process's stack, whose pointer `load` left at `PHYS_BASE`:

* `parse_line` (process.c:597-604) calls `strtok_r (line, " ", &save_ptr)` and then
  `strtok_r (NULL, " ", &save_ptr)` until it returns `NULL`, storing each token in
  `argv[(*argc)++]`; `argc` starts at 0.
* `push_arguments` (process.c:607-642) copies `argv[argc - 1]` down to `argv[0]` onto the
  stack with `strlcpy`, each below the previous one, recording their addresses in
  `addr[]`; rounds the stack pointer down to a multiple of 4; pushes a null pointer, then
  `addr[argc - 1]` down to `addr[0]`; then the address of `addr[0]`'s slot, then `argc`;
  and last moves the stack pointer over a dummy return address without writing it.

The command line lives in a kernel page, a list of bytes; the stack is user memory, and
`pushArguments` returns the final stack pointer and its writes in order. Stack addresses
are `uintptr_t`; they stay within a page of `PHYS_BASE` (3 GB), far from wrapping, so
`Nat` arithmetic is theirs.
-/

set_option autoImplicit false

namespace Pintos.ArgPassing

open Pintos.Str ByteMemory

/-- `MAX_ARGS` (process.h:8): the size of `argv` and `addr`. -/
def MAX_ARGS : Nat := 128

/-- The delimiter string `" "` of `parse_line`. -/
def spaceDelims : List UInt8 := [32]

/-- The loop of `parse_line` from the saved position `pos`: the tokens' positions and the
buffer after `strtok_r`'s writes. -/
def parseLineFrom (buf : List UInt8) (pos : Nat) : List Nat × List UInt8 :=
  match _h : strtokR spaceDelims buf pos with
  | (none, buf', _) => ([], buf')
  | (some tok, buf', save) =>
      ((parseLineFrom buf' save).1.cons tok, (parseLineFrom buf' save).2)
termination_by buf.length - pos
decreasing_by
  obtain ⟨hlen, hlt, hpos⟩ := strtokR_some spaceDelims buf pos tok buf' save _h
  omega

theorem parseLineFrom_of_none {buf buf' : List UInt8} {pos save : Nat}
    (h : strtokR spaceDelims buf pos = (none, buf', save)) : parseLineFrom buf pos = ([], buf') := by
  rw [parseLineFrom]
  split <;> simp_all

theorem parseLineFrom_of_some {buf buf' : List UInt8} {pos tok save : Nat}
    (h : strtokR spaceDelims buf pos = (some tok, buf', save)) :
    parseLineFrom buf pos = (tok :: (parseLineFrom buf' save).1, (parseLineFrom buf' save).2) := by
  rw [parseLineFrom]
  split <;> simp_all

/-- `parse_line (line, &argc, argv)` with `argc = 0`: `argv[0 .. argc)` and the line after
`strtok_r` has cut it. -/
def parseLine (line : List UInt8) : List Nat × List UInt8 :=
  parseLineFrom line 0

/-- One iteration of `push_arguments`' first loop: make room for `argv[i]` and its
terminator, copy it with `strlcpy`, and record its address. The accumulator is the stack
pointer, the writes, and the addresses recorded so far. -/
def pushArgString (buf : List UInt8) (acc : Nat × List (Nat × List UInt8) × List Nat)
    (arg : Nat) : Nat × List (Nat × List UInt8) × List Nat :=
  (acc.1 - (strlen buf arg + 1),
    acc.2.1 ++ strlcpy (acc.1 - (strlen buf arg + 1)) buf arg (strlen buf arg + 1),
    (acc.1 - (strlen buf arg + 1)) :: acc.2.2)

/-- One iteration of `push_arguments`' second loop: push `addr[i]`. -/
def pushArgAddr (acc : Nat × List (Nat × List UInt8)) (a : Nat) :
    Nat × List (Nat × List UInt8) :=
  (acc.1 - 4, acc.2 ++ [(acc.1 - 4, le32 a)])

/-- `push_arguments`' first loop, `for (i = argc - 1; i >= 0; i--)`: the stack pointer,
the writes, and `addr[0 .. argc)`. -/
def pushArgStrings (buf : List UInt8) (argv : List Nat) (esp : Nat) :
    Nat × List (Nat × List UInt8) × List Nat :=
  argv.reverse.foldl (pushArgString buf) (esp, [], [])

/-- `push_arguments`' second loop, after the writes `ws`: push `addr[argc - 1]` down to
`addr[0]`. -/
def pushArgAddrs (addr : List Nat) (esp : Nat) (ws : List (Nat × List UInt8)) :
    Nat × List (Nat × List UInt8) :=
  addr.reverse.foldl pushArgAddr (esp, ws)

/-- `push_arguments (argc, argv, esp)`, with the strings read from the command-line page
`buf`: the final stack pointer and the writes to user memory. -/
def pushArguments (buf : List UInt8) (argv : List Nat) (esp : Nat) :
    Nat × List (Nat × List UInt8) :=
  -- Push ARGVs
  let strs := pushArgStrings buf argv esp
  -- Word alignment: `*esp & ~0x3`
  let aligned := strs.1 / 4 * 4
  -- Push ARGV addresses: the null pointer, then the loop
  let ptrs := pushArgAddrs strs.2.2 (aligned - 4) (strs.2.1 ++ [(aligned - 4, le32 0)])
  -- Push ARGV start address, ARGC, and the dummy return address
  (ptrs.1 - 4 - 4 - 4,
    ptrs.2 ++ [(ptrs.1 - 4, le32 (ptrs.1 - 4 + 4)), (ptrs.1 - 4 - 4, le32 argv.length)])

@[simp] theorem pushArgStrings_nil (buf : List UInt8) (esp : Nat) :
    pushArgStrings buf [] esp = (esp, [], []) := rfl

/-- The loop runs from the last argument down, so the first argument is pushed last. -/
theorem pushArgStrings_cons (buf : List UInt8) (a : Nat) (argv : List Nat) (esp : Nat) :
    pushArgStrings buf (a :: argv) esp = pushArgString buf (pushArgStrings buf argv esp) a := by
  simp [pushArgStrings, List.foldl_reverse]

@[simp] theorem pushArgAddrs_nil (esp : Nat) (ws : List (Nat × List UInt8)) :
    pushArgAddrs [] esp ws = (esp, ws) := rfl

theorem pushArgAddrs_cons (a : Nat) (addr : List Nat) (esp : Nat)
    (ws : List (Nat × List UInt8)) :
    pushArgAddrs (a :: addr) esp ws = pushArgAddr (pushArgAddrs addr esp ws) a := by
  simp [pushArgAddrs, List.foldl_reverse]

end Pintos.ArgPassing
