import Mathlib.Data.List.Basic
import Mathlib.Logic.Function.Basic

/-!
# The file-descriptor table of a process

A process keeps `fdt`, the list of its `struct file_descriptor_entry`s (an `int fd` and the
`struct file` the entry owns, process.h:30-35), and `next_fd`, the `int` that
`thread_get_next_fd` (thread.c:525-528) returns and then increments; `init_thread` starts it
at 2 (thread.c:663-664).

* `syscall_open` (syscall.c:331-363) takes a descriptor only once `palloc_get_page` and
  `filesys_open` have succeeded, and appends the entry.
* `process_get_fde` (process.c:263-277) returns the first entry with the descriptor.
* `syscall_close` (syscall.c:469-481) closes that entry's file and removes the entry.
* `read` and `write` (syscall.c:382-427) move the position of the entry's file by what
  `file_read` or `file_write` returns; `seek` sets it; `tell` and `filesize` only read.
  Descriptor 0 for `read` and 1 for `write` are the keyboard and the console.
* `syscall_mmap` (syscall.c:483-541) refuses descriptors 0 and 1, and reopens the entry's
  file: a new `struct file` that is not in `fdt`.
* `process_exit` (process.c:159-214) takes `max_fd = thread_get_next_fd ()` and calls
  `syscall_close (i)` for `i` from 2 while `i < max_fd`.

`int` and `off_t` are `Int32`: `next_fd++` at `INT_MAX` gives `INT_MIN`, the wrap of the
compiled `addl`. A `struct file` is named by the number of its allocation.
-/

set_option autoImplicit false

namespace Pintos.FdTable

/-- `struct file_descriptor_entry`. -/
structure Fde where
  fd : Int32
  file : Nat
  deriving DecidableEq, Repr

/-- What the descriptor calls of one process read and write. -/
structure Proc where
  fdt : List Fde
  nextFd : Int32
  /-- `pos` of each `struct file`. -/
  pos : Nat → Int32
  /-- The number the next `struct file` gets. -/
  nextFile : Nat
  /-- The files passed to `file_close`, in order. -/
  closed : List Nat

/-- `init_thread`: an empty table and `next_fd = 2`. -/
def Proc.init : Proc :=
  { fdt := [], nextFd := 2, pos := fun _ => 0, nextFile := 0, closed := [] }

/-- The calls on descriptors. `open ok`: `palloc_get_page` and `filesys_open` succeed.
`read fd n`, `write fd n`: `file_read` or `file_write` moves `n` bytes. `mmap fd ok`: the
address and length checks pass. -/
inductive Call where
  | «open» (ok : Bool)
  | close (fd : Int32)
  | read (fd n : Int32)
  | write (fd n : Int32)
  | filesize (fd : Int32)
  | seek (fd : Int32) (position : UInt32)
  | tell (fd : Int32)
  | mmap (fd : Int32) (ok : Bool)
  deriving DecidableEq, Repr

namespace Proc

variable (p : Proc)

/-- `thread_get_next_fd`: `return thread_current ()->next_fd++`. -/
def threadGetNextFd : Proc × Int32 := ({ p with nextFd := p.nextFd + 1 }, p.nextFd)

def processGetFde (fd : Int32) : Option Fde := p.fdt.find? (·.fd = fd)

/-- A new `struct file` from `file_open`, at position 0. -/
def newFile : Proc × Nat :=
  ({ p with nextFile := p.nextFile + 1, pos := Function.update p.pos p.nextFile 0 }, p.nextFile)

def syscallOpen (ok : Bool) : Proc × Int32 :=
  if ok then
    let (p, file) := p.newFile
    let (p, fd) := p.threadGetNextFd
    ({ p with fdt := p.fdt ++ [⟨fd, file⟩] }, fd)
  else (p, -1)

/-- `syscall_close`: `file_close` and `list_remove` of the entry `process_get_fde` found. -/
def syscallClose (fd : Int32) : Proc :=
  match p.processGetFde fd with
  | none => p
  | some fde => { p with fdt := p.fdt.eraseP (·.fd = fd), closed := p.closed ++ [fde.file] }

/-- The position of `file` moves by `n`. -/
def advance (file : Nat) (n : Int32) : Proc :=
  { p with pos := Function.update p.pos file (p.pos file + n) }

def syscallRead (fd n : Int32) : Proc :=
  if fd = 0 then p
  else match p.processGetFde fd with
    | none => p
    | some fde => p.advance fde.file n

def syscallWrite (fd n : Int32) : Proc :=
  if fd = 1 then p
  else match p.processGetFde fd with
    | none => p
    | some fde => p.advance fde.file n

/-- `syscall_seek`: `file_seek (fde->file, (off_t) position)`. -/
def syscallSeek (fd : Int32) (position : UInt32) : Proc :=
  match p.processGetFde fd with
  | none => p
  | some fde => { p with pos := Function.update p.pos fde.file position.toInt32 }

/-- `syscall_mmap`: `file_reopen` of the entry's file. -/
def syscallMmap (fd : Int32) (ok : Bool) : Proc :=
  if fd = 0 ∨ fd = 1 ∨ ok = false then p
  else match p.processGetFde fd with
    | none => p
    | some _ => p.newFile.1

/-- The descriptor loop of `process_exit`. -/
def processExit : Proc :=
  let (p, maxFd) := p.threadGetNextFd
  (List.range (maxFd.toInt - 2).toNat).foldl (fun p (i : Nat) => p.syscallClose (Int32.ofInt (2 + i))) p

end Proc

/-- One call; `tell` and `filesize` change nothing. -/
def step (p : Proc) : Call → Proc
  | .open ok => (p.syscallOpen ok).1
  | .close fd => p.syscallClose fd
  | .read fd n => p.syscallRead fd n
  | .write fd n => p.syscallWrite fd n
  | .filesize _ => p
  | .seek fd position => p.syscallSeek fd position
  | .tell _ => p
  | .mmap fd ok => p.syscallMmap fd ok

def run (p : Proc) (cs : List Call) : Proc := cs.foldl step p

/-- The descriptor a call returns to the process from a successful `open`. -/
def handsOut (p : Proc) : Call → Option Int32
  | .open true => some (p.syscallOpen true).2
  | _ => none

/-- The descriptors the successful opens of a run return, in order. -/
def given : Proc → List Call → List Int32
  | _, [] => []
  | p, c :: cs => (handsOut p c).toList ++ given (step p c) cs

/-- The successful opens of a run. -/
def opens (cs : List Call) : Nat := cs.count (.open true)

end Pintos.FdTable
