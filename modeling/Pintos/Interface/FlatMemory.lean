import Pintos.Model.Page

/-!
# What a user process's memory is meant to be

Virtual memory is meant to be invisible: a process sees flat memory, page by page, in which
a read returns the last byte the process wrote there, and a byte never written is the
page's initial content. `Flat` states this over the same events as `Pintos.Model.Page`,
without frames, swap or faults:

* `load` registers the pages of each segment with the executable's bytes at the segment's
  offset, and zeros after `read_bytes`; the stack page is zeros, with the arguments
  written at its top;
* an access to a registered page reads or writes it; an access just below the stack
  pointer in the stack area registers a zeroed page first; any other access, and a write
  to a read-only page, ends the process;
* `mmap` registers the pages of a file under the argument checks of `syscall_mmap`;
  `munmap` and exit write the pages the process wrote back to their file and drop them.
-/

set_option autoImplicit false

namespace Pintos.Vm.Flat

/-- A registered page: its bytes, whether the process may write it and has, and for a
mapped file the open file and offset its first `read_bytes` bytes go back to. -/
structure Page where
  bytes : Nat → UInt8
  writable : Bool
  written : Bool
  backing : Option (Nat × Nat × Nat)

structure Mapping where
  mapid : Int
  vaddr : Nat
  pages : List Nat
  deriving DecidableEq

structure Proc where
  pages : AList (fun _ : Nat => Page)
  mappings : List Mapping
  maxMapid : Int
  /-- `fd` and the open file. -/
  fdt : List (Int × Nat)
  nextFd : Int
  runningInode : Option Nat
  alive : Bool

def Proc.none : Proc :=
  { pages := ∅, mappings := [], maxMapid := 0, fdt := [], nextFd := 2, runningInode := Option.none,
    alive := false }

/-- The open files are their inodes: what a position would be does not matter here. -/
structure State where
  procs : List Proc
  inodes : List Inode
  files : List Nat
  reads : List Read

namespace State

variable (fm : State)

def proc (t : Nat) : Proc := fm.procs.getD t .none

def modifyProc (t : Nat) (g : Proc → Proc) : State :=
  { fm with procs := fm.procs.set t (g (fm.proc t)) }

def inode (i : Nat) : Inode := fm.inodes.getD i ⟨0, fun _ => 0, 0⟩

/-- The first `readBytes` bytes of a page from offset `ofs` of an inode, then zeros. -/
def fileBytes (i ofs readBytes : Nat) : Nat → UInt8 :=
  fun o => if o < readBytes then (fm.inode i).data (ofs + o) else 0

theorem proc_modifyProc (t u : Nat) (g : Proc → Proc) :
    (fm.modifyProc t g).proc u = if t = u ∧ u < fm.procs.length then g (fm.proc u) else fm.proc u :=
  Table.getD_set_getD _ _ t u g

theorem proc_of_length_le {t : Nat} (h : fm.procs.length ≤ t) : fm.proc t = .none :=
  Table.getD_of_length_le _ _ h

@[simp] theorem reads_modifyProc (t : Nat) (g : Proc → Proc) : (fm.modifyProc t g).reads = fm.reads := rfl

@[simp] theorem inodes_modifyProc (t : Nat) (g : Proc → Proc) : (fm.modifyProc t g).inodes = fm.inodes := rfl

@[simp] theorem files_modifyProc (t : Nat) (g : Proc → Proc) : (fm.modifyProc t g).files = fm.files := rfl

@[simp] theorem length_procs_modifyProc (t : Nat) (g : Proc → Proc) :
    (fm.modifyProc t g).procs.length = fm.procs.length := by
  simp [modifyProc]

/-- Registering a page that already is fails. -/
def register (t upage : Nat) (pg : Page) : State × Bool :=
  match (fm.proc t).pages.lookup upage with
  | some _ => (fm, false)
  | Option.none => (fm.modifyProc t fun p => { p with pages := p.pages.insert upage pg }, true)

/-- A written page goes back to its file, up to the end of the file, unless the file is
being run. -/
def writeBack (pg : Page) : State :=
  match pg.backing with
  | some (f, ofs, readBytes) =>
      let i := fm.files.getD f 0
      let ino := fm.inode i
      if pg.written ∧ ino.denyWriteCnt = 0 then
        let n := min readBytes (ino.length - ofs)
        let data := fun o => if ofs ≤ o ∧ o < ofs + n then pg.bytes (o - ofs) else ino.data o
        { fm with inodes := fm.inodes.set i { ino with data := data } }
      else fm
  | Option.none => fm

/-- Write back and drop the pages of a mapping. -/
def unmap (t : Nat) (m : Mapping) : State :=
  let fm := m.pages.foldl (fun fm u =>
    match (fm.proc t).pages.lookup u with
    | some pg => (fm.writeBack pg).modifyProc t fun p => { p with pages := p.pages.erase u }
    | Option.none => fm) fm
  fm.modifyProc t fun p => { p with mappings := p.mappings.erase m }

/-- The executable may be written again before the mappings go back to their files. -/
def exit (t : Nat) : State :=
  let fm := match (fm.proc t).runningInode with
    | some i => { fm with inodes := fm.inodes.set i { fm.inode i with denyWriteCnt := (fm.inode i).denyWriteCnt - 1 } }
    | Option.none => fm
  let fm := (fm.proc t).mappings.foldl (fun fm m => fm.unmap t m) fm
  fm.modifyProc t fun p => { p with pages := ∅, mappings := [], alive := false }

/-- What changing the inodes and updating thread `t` keep, exit keeps. -/
theorem exit_keeps {β : Type} (π : State → β) (t : Nat)
    (hproc : ∀ (fm : State) (g : Proc → Proc), π (fm.modifyProc t g) = π fm)
    (hinodes : ∀ (fm : State) (l : List Inode), π { fm with inodes := l } = π fm) :
    π (fm.exit t) = π fm := by
  have hwb : ∀ (fm : State) (pg : Page), π (fm.writeBack pg) = π fm := by
    intro fm pg
    unfold writeBack
    split
    · dsimp only
      split
      · exact hinodes _ _
      · rfl
    · rfl
  have hunmap : ∀ (fm : State) (m : Mapping), π (fm.unmap t m) = π fm := by
    intro fm m
    unfold unmap
    rw [hproc, Table.foldl_eq_of_step π _ (fun fm u => by split <;> simp only [hproc, hwb])]
  unfold exit
  rw [hproc, Table.foldl_eq_of_step π _ hunmap]
  split
  · exact hinodes _ _
  · rfl

theorem reads_exit (t : Nat) : (fm.exit t).reads = fm.reads :=
  exit_keeps fm State.reads t (fun _ _ => rfl) (fun _ _ => rfl)

theorem length_procs_exit (t : Nat) : (fm.exit t).procs.length = fm.procs.length :=
  exit_keeps fm (fun fm : State => fm.procs.length) t (fun fm g => length_procs_modifyProc fm t g)
    (fun _ _ => rfl)

/-- Exit ends the thread. -/
theorem alive_exit (t : Nat) : ((fm.exit t).proc t).alive = false := by
  unfold exit
  rw [proc_modifyProc]
  split_ifs with h
  · rfl
  · -- a thread past the table is no process
    rw [proc_of_length_le]
    · rfl
    · simp only [not_and, not_lt] at h
      exact h trivial

/-- The bytes of the page at `a`, when it is registered and the access may go through. -/
def perform (t a : Nat) (pg : Page) : Access → State
  | .read => { fm with reads := fm.reads ++ [⟨t, a, pg.bytes (pgOfs a)⟩] }
  | .write v =>
      let pg' := { pg with bytes := Function.update pg.bytes (pgOfs a) v, written := true }
      fm.modifyProc t fun p => { p with pages := p.pages.insert (pgRoundDown a) pg' }

def access (t a esp : Nat) (acc : Access) : State :=
  if isKernelVaddr a then fm.exit t
  else match (fm.proc t).pages.lookup (pgRoundDown a) with
    | some pg => if acc.isWrite ∧ ¬ pg.writable then fm.exit t else fm.perform t a pg acc
    | Option.none =>
        if ptrdiff esp a ≤ 32 ∧ inStackArea a then
          let pg : Page := ⟨fun _ => 0, true, false, Option.none⟩
          (fm.register t (pgRoundDown a) pg).1.perform t a pg acc
        else fm.exit t

/-- The pages of a segment, as `load_segment` divides it. -/
def segmentPages (f : Nat) (seg : Segment) : List (Nat × Page) :=
  (List.range ((seg.readBytes + seg.zeroBytes) / PGSIZE)).map fun k =>
    let readBytes := min (seg.readBytes - k * PGSIZE) PGSIZE
    (seg.memPage + k * PGSIZE,
      ⟨fm.fileBytes f (seg.filePage + k * PGSIZE) readBytes, seg.writable, false, Option.none⟩)

/-- A new process opens its executable, registers its segments and its stack, and denies
writes to the executable. -/
def load (exe : Nat) (segs : List Segment) (args : List UInt8) : State :=
  let t := fm.procs.length
  let fm := { fm with procs := fm.procs ++ [{ Proc.none with alive := true }], files := fm.files ++ [exe] }
  let pages := segs.flatMap (fm.segmentPages exe)
  match pages.foldl (fun (r : State × Bool) pg => if r.2 then r.1.register t pg.1 pg.2 else r) (fm, true) with
  | (fm, false) => fm.exit t
  | (fm, true) =>
      let stack : Page :=
        ⟨fun o => if PGSIZE - args.length ≤ o then args.getD (o - (PGSIZE - args.length)) 0 else 0,
          true, false, Option.none⟩
      let fm := (fm.register t (PHYS_BASE - PGSIZE) stack).1
      let fm := { fm with inodes := fm.inodes.set exe { fm.inode exe with denyWriteCnt := (fm.inode exe).denyWriteCnt + 1 } }
      fm.modifyProc t fun p => { p with runningInode := some exe }

def syscallOpen (t inode : Nat) : State :=
  let f := fm.files.length
  ({ fm with files := fm.files ++ [inode] }).modifyProc t fun p =>
    { p with fdt := p.fdt ++ [(p.nextFd, f)], nextFd := p.nextFd + 1 }

/-- `mmap` under the checks of `syscall_mmap`. -/
def mmap (t : Nat) (fd : Int) (addr : Nat) : State :=
  if fd = 0 ∨ fd = 1 ∨ addr = 0 ∨ addr % PGSIZE ≠ 0 ∨ inStackArea addr then fm
  else
    match ((fm.proc t).fdt.find? (·.1 = fd)).map (·.2) with
    | Option.none => fm
    | some f =>
        let i := fm.files.getD f 0
        let len := (fm.inode i).length
        let positions := pagePositions len
        if len = 0 ∨ positions.any (fun pos => ((fm.proc t).pages.lookup (addr + pos)).isSome) then fm
        else
          -- the mapping reads through a file of its own, as `file_reopen` gives it
          let fp := fm.files.length
          let fm := { fm with files := fm.files ++ [i] }
          let fm := positions.foldl (fun fm pos =>
            let readBytes := min (len - pos) PGSIZE
            (fm.register t (addr + pos) ⟨fm.fileBytes i pos readBytes, true, false, some (fp, pos, readBytes)⟩).1) fm
          fm.modifyProc t fun p =>
            { p with mappings := p.mappings ++ [⟨p.maxMapid, addr, positions.map (addr + ·)⟩],
                     maxMapid := p.maxMapid + 1 }

def munmap (t : Nat) (mapping : Int) : State :=
  match (fm.proc t).mappings.find? (·.mapid = mapping) with
  | some m => fm.unmap t m
  | Option.none => fm

end State

def step (fm : State) (e : Event) : State :=
  if e.thread.any (fun t => !(fm.proc t).alive) then fm
  else match e with
    | .load exe segs args => fm.load exe segs args
    | .open t inode => fm.syscallOpen t inode
    | .access t a esp acc => fm.access t a esp acc
    | .mmap t fd addr => fm.mmap t fd addr
    | .munmap t mapping => fm.munmap t mapping
    | .exit t => fm.exit t

def run (fm : State) (evs : List Event) : State := evs.foldl step fm

def State.init (inodes : List Inode) : State := ⟨[], inodes, [], []⟩

end Pintos.Vm.Flat
