import Pintos.Model.Vaddr

/-!
# The system-call handler

`syscall_handler` (userprog/syscall.c:49-238) reads the system-call number and the
arguments from the user stack, checking user addresses with `check_vaddr` (syscall.c:242)
before it reads them, and dispatches to the `syscall_*` routines, which check every byte
of a string argument up to its terminator and every byte of a buffer before the kernel
uses them.

The model records what the handler does as a list of events: each `check_vaddr` that
passes or fails, each byte of user memory the kernel reads or writes on the user's behalf,
and how the call ends (the process exits, the machine halts, a kernel `ASSERT` fails, or
the call returns to the user). User addresses are 32-bit pointers, `UInt32`, so pointer
arithmetic wraps as on the 80x86. A check that fails ends the process at once
(`syscall_exit (-1)` does not return), so the handler is written in continuation style:
`checkVaddr vaddr k` is `k` after a passing check.

Of the kernel services behind the system calls the model keeps what touches user memory
or asserts on user values: `process_execute`, `filesys_create`, `filesys_remove` and
`filesys_open` read the string argument, `read` and `write` transfer at most the buffer's
bytes, `file_seek` and `inode_create` assert that a position or a length is not negative.
The values returned in `eax` are not modelled.
-/

set_option autoImplicit false

namespace Pintos.Syscall

/-- User memory: the byte at each 32-bit virtual address. -/
abbrev UserMem := UInt32 → UInt8

/-- The system-call numbers of `lib/syscall-nr.h`. -/
inductive SyscallNr
  | sysHalt | sysExit | sysExec | sysWait | sysCreate | sysRemove | sysOpen | sysFilesize
  | sysRead | sysWrite | sysSeek | sysTell | sysClose | sysMmap | sysMunmap
  | sysChdir | sysMkdir | sysReaddir | sysIsdir | sysInumber
  deriving DecidableEq, Repr

/-- The numbers in the order of the enumeration, which starts at 0. -/
def SyscallNr.all : List SyscallNr :=
  [.sysHalt, .sysExit, .sysExec, .sysWait, .sysCreate, .sysRemove, .sysOpen, .sysFilesize,
    .sysRead, .sysWrite, .sysSeek, .sysTell, .sysClose, .sysMmap, .sysMunmap,
    .sysChdir, .sysMkdir, .sysReaddir, .sysIsdir, .sysInumber]

/-- The system call whose number is the word `w`, compared as `int` in the `switch`. -/
def SyscallNr.ofWord (w : UInt32) : Option SyscallNr :=
  SyscallNr.all[w.toNat]?

/-- A 32-bit word read as `int` (or `off_t`): two's complement. -/
def asInt (w : UInt32) : Int :=
  if w.toNat < 2 ^ 31 then w.toNat else w.toNat - 2 ^ 32

/-- The 32-bit little-endian word at `vaddr`. -/
def loadWord (m : UserMem) (vaddr : UInt32) : UInt32 :=
  (m vaddr).toUInt32 + 2 ^ 8 * (m (vaddr + 1)).toUInt32 + 2 ^ 16 * (m (vaddr + 2)).toUInt32 +
    2 ^ 24 * (m (vaddr + 3)).toUInt32

/-- The test of `check_vaddr (vaddr)`: not null, and `is_user_vaddr`. -/
def validVaddr (vaddr : UInt32) : Bool :=
  vaddr != 0 && isUserVaddr vaddr.toNat

/-- What the handler does, in order. -/
inductive Event
  /-- `check_vaddr (vaddr)` passed. -/
  | check (vaddr : UInt32)
  /-- `check_vaddr (vaddr)` failed. -/
  | reject (vaddr : UInt32)
  /-- The kernel reads the user byte at `vaddr`. -/
  | load (vaddr : UInt32)
  /-- The kernel writes the user byte at `vaddr`. -/
  | store (vaddr : UInt32)
  /-- `syscall_exit (status)`: the process ends. -/
  | exit (status : Int)
  /-- `shutdown_power_off ()`. -/
  | halt
  /-- A kernel `ASSERT` fails: the kernel panics. -/
  | panic
  /-- The handler returns to the user. -/
  | ret
  deriving DecidableEq, Repr

/-! ## Checks and accesses -/

/-- `check_vaddr (vaddr)`, then the rest `k` of the handler; a failed check ends the
process with `syscall_exit (-1)`. -/
def checkVaddr (vaddr : UInt32) (k : List Event) : List Event :=
  if validVaddr vaddr then .check vaddr :: k else [.reject vaddr, .exit (-1)]

/-- The kernel reads the `n` user bytes from `vaddr`. -/
def loadBytes (vaddr : UInt32) (n : Nat) : List Event :=
  (List.range n).map fun i => .load (vaddr + i.toUInt32)

/-- The kernel writes the `n` user bytes from `vaddr`. -/
def storeBytes (vaddr : UInt32) (n : Nat) : List Event :=
  (List.range n).map fun i => .store (vaddr + i.toUInt32)

/-- Words `first .. first + count - 1` above the stack pointer, as the handler fetches
them: `check_vaddr` on the first and on the last byte, then the reads. -/
def fetchWords (esp : UInt32) (first count : Nat) (k : List Event) : List Event :=
  checkVaddr (esp + (4 * first).toUInt32) <|
    checkVaddr (esp + (4 * (first + count)).toUInt32 - 1) <|
      loadBytes (esp + (4 * first).toUInt32) (4 * count) ++ k

/-- The loop `for (i = 0; *(s + i); i++) check_vaddr (s + i + 1);` from the byte at
`p = s + i`; at the terminator the rest `k` gets the string's length `i`. It stops at the
latest when the next check fails at `PHYS_BASE`. -/
def checkStringFrom (m : UserMem) (s p : UInt32) (k : Nat → List Event) : List Event :=
  .load p ::
    if m p = 0 then k (p - s).toNat
    else if h : validVaddr (p + 1) then .check (p + 1) :: checkStringFrom m s (p + 1) k
    else [.reject (p + 1), .exit (-1)]
termination_by PHYS_BASE - p.toNat
decreasing_by
  simp only [validVaddr, isUserVaddr, Bool.and_eq_true, bne_iff_ne, ne_eq,
    decide_eq_true_eq] at h
  have hadd : (p + 1).toNat = (p.toNat + 1) % 2 ^ 32 := by simp [UInt32.toNat_add]
  have hne : (p + 1).toNat ≠ 0 := fun h0 => h.1 (UInt32.toNat_inj.mp (by simpa using h0))
  have hlt := p.toNat_lt
  simp only [PHYS_BASE_eq] at h ⊢
  omega

/-- A string argument: `check_vaddr (s)`, then the loop over its bytes. -/
def checkString (m : UserMem) (s : UInt32) (k : Nat → List Event) : List Event :=
  checkVaddr s (checkStringFrom m s s k)

/-- The loop `for (i = 0; i < size; i++) check_vaddr (buffer + i);` (the counter `i`
counts up to `size` as an unsigned value). -/
def checkBuffer (buffer size : UInt32) (k : List Event) : List Event :=
  (List.range size.toNat).foldr (fun i k => checkVaddr (buffer + i.toUInt32) k) k

theorem checkStringFrom_eq (m : UserMem) (s p : UInt32) (k : Nat → List Event) :
    checkStringFrom m s p k =
      .load p :: if m p = 0 then k (p - s).toNat
        else checkVaddr (p + 1) (checkStringFrom m s (p + 1) k) := by
  rw [checkStringFrom]
  by_cases hv : validVaddr (p + 1) <;> simp [checkVaddr, hv]

/-! ## The kernel services -/

/-- The parts of the kernel's state the handler's course depends on. -/
structure Env where
  /-- The descriptors in the process's file-descriptor table (`process_get_fde`). -/
  fdt : List Int
  /-- `free_map_allocate (1, ...)` finds a free sector for a new inode. -/
  freeMapHasSector : Bool

/-- `file_seek (file, new_pos)`: `ASSERT (new_pos >= 0)`. -/
def fileSeek (newPos : Int) (k : List Event) : List Event :=
  if 0 ≤ newPos then k else [.panic]

/-- `inode_create (sector, length)`: `ASSERT (length >= 0)`. -/
def inodeCreate (length : Int) (k : List Event) : List Event :=
  if 0 ≤ length then k else [.panic]

/-- `filesys_create (name, initial_size)` for a name of `len` bytes: a sector from the free
map, `inode_create`, then `dir_add`, which reads the name. -/
def filesysCreate (env : Env) (name : UInt32) (len : Nat) (initialSize : Int)
    (k : List Event) : List Event :=
  if env.freeMapHasSector then inodeCreate initialSize (loadBytes name (len + 1) ++ k) else k

/-- A system call on a string argument whose service reads the string: the checks, then
the service's reads, then the return. -/
def withString (m : UserMem) (s : UInt32) : List Event :=
  checkString m s fun len => loadBytes s (len + 1) ++ [.ret]

/-- `syscall_exec (cmd_line)`: `process_execute` copies the command line. -/
def syscallExec (m : UserMem) (cmdLine : UInt32) : List Event :=
  withString m cmdLine

/-- `syscall_create (file, initial_size)`: `filesys_create (file, (off_t) initial_size)`. -/
def syscallCreate (env : Env) (m : UserMem) (file initialSize : UInt32) : List Event :=
  checkString m file fun len => filesysCreate env file len (asInt initialSize) [.ret]

/-- `syscall_remove (file)`: `filesys_remove` reads the name. -/
def syscallRemove (m : UserMem) (file : UInt32) : List Event :=
  withString m file

/-- `syscall_open (file)`: `filesys_open` reads the name. -/
def syscallOpen (m : UserMem) (file : UInt32) : List Event :=
  withString m file

/-- `syscall_read (fd, buffer, size)`: from the keyboard `input_getc` fills all `size`
bytes; from a file, `file_read (file, buffer, (off_t) size)` writes at most `size` of
them, which the model records. -/
def syscallRead (env : Env) (fd : Int) (buffer size : UInt32) : List Event :=
  checkBuffer buffer size <|
    if fd = 0 then storeBytes buffer size.toNat ++ [.ret]
    else if fd ∈ env.fdt then storeBytes buffer (asInt size).toNat ++ [.ret]
    else [.ret]

/-- `syscall_write (fd, buffer, size)`: to the console `putbuf` reads all `size` bytes; to a
file, `file_write (file, buffer, (off_t) size)` reads at most `size` of them. -/
def syscallWrite (env : Env) (fd : Int) (buffer size : UInt32) : List Event :=
  checkBuffer buffer size <|
    if fd = 1 then loadBytes buffer size.toNat ++ [.ret]
    else if fd ∈ env.fdt then loadBytes buffer (asInt size).toNat ++ [.ret]
    else [.ret]

/-- `syscall_seek (fd, position)`: `file_seek (fde->file, (off_t) position)` for an open
descriptor. -/
def syscallSeek (env : Env) (fd : Int) (position : UInt32) : List Event :=
  if fd ∈ env.fdt then fileSeek (asInt position) [.ret] else [.ret]

/-! ## The handler -/

/-- `syscall_handler` with the user stack pointer `esp` and user memory `m`. -/
def syscallHandler (env : Env) (m : UserMem) (esp : UInt32) : List Event :=
  let arg (i : Nat) := loadWord m (esp + (4 * i).toUInt32)
  fetchWords esp 0 1 <|
    match SyscallNr.ofWord (loadWord m esp) with
    | some .sysHalt => [.halt]
    | some .sysExit => fetchWords esp 1 1 [.exit (asInt (arg 1))]
    | some .sysExec => fetchWords esp 1 1 (syscallExec m (arg 1))
    | some .sysWait => fetchWords esp 1 1 [.ret]
    | some .sysCreate => fetchWords esp 1 2 (syscallCreate env m (arg 1) (arg 2))
    | some .sysRemove => fetchWords esp 1 1 (syscallRemove m (arg 1))
    | some .sysOpen => fetchWords esp 1 1 (syscallOpen m (arg 1))
    | some .sysFilesize => fetchWords esp 1 1 [.ret]
    | some .sysRead => fetchWords esp 1 3 (syscallRead env (asInt (arg 1)) (arg 2) (arg 3))
    | some .sysWrite => fetchWords esp 1 3 (syscallWrite env (asInt (arg 1)) (arg 2) (arg 3))
    | some .sysSeek => fetchWords esp 1 2 (syscallSeek env (asInt (arg 1)) (arg 2))
    | some .sysTell => fetchWords esp 1 1 [.ret]
    | some .sysClose => fetchWords esp 1 1 [.ret]
    | some .sysMmap => fetchWords esp 1 2 [.ret]
    | some .sysMunmap => fetchWords esp 1 1 [.ret]
    | _ => [.exit (-1)]

end Pintos.Syscall
