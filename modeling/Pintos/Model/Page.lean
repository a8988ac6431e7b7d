import Pintos.Model.Frame

/-!
# Pages: loading, faults, mmap and exit

The upper half of the virtual-memory code, over the state of `Pintos.Model.Frame`:

* `load` (process.c:352-456) registers each `PT_LOAD` segment page by page without loading
  it (`load_segment`, process.c:526-555), maps a zeroed stack page with no table entry
  (`setup_stack`, process.c:559-574), and `push_arguments` writes the arguments into it
  through the user addresses;
* `page_fault` (exception.c:124-189) kills the process on a rights violation or a kernel
  address, grows the stack for an address in the stack area at most 32 bytes below
  `esp` (`grow_stack`, page.c:115-130), loads a registered page that is not in memory
  (`load_file_page`, page.c:64-113), and kills the process otherwise;
* `mmap` and `munmap` (syscall.c:483-591); `munmap` writes back a dirty page that is in
  memory and deletes the table entries, and leaves frames and page table entries alone;
* the virtual-memory half of `process_exit` (process.c:181-212).

A user access that faults runs the handler and then the instruction again. The ELF
headers are not parsed: `load` is given the segments it would compute, as `Segment`.
-/

set_option autoImplicit false

namespace Pintos.Vm

/-- A `PT_LOAD` segment as `load` passes it to `load_segment`. -/
structure Segment where
  filePage : Nat
  memPage : Nat
  readBytes : Nat
  zeroBytes : Nat
  writable : Bool
  deriving DecidableEq, Repr

/-- What a user program does with a byte. -/
inductive Access where
  | read
  | write (v : UInt8)
  deriving DecidableEq, Repr

def Access.isWrite : Access → Bool
  | .read => false
  | .write _ => true

/-- `f->esp - fault_addr` on two `void *`: the 32-bit difference read as an `int`. -/
def ptrdiff (p q : Nat) : Int :=
  let d := ((p : Int) - q) % 2 ^ 32
  if d < 2 ^ 31 then d else d - 2 ^ 32

/-- The page offsets `0, PGSIZE, ...` below `len`. -/
def pagePositions (len : Nat) : List Nat :=
  (List.range ((len + PGSIZE - 1) / PGSIZE)).map (· * PGSIZE)

namespace State

variable (vm : State)

/-! ## Loading -/

/-- The loop of `load_segment`: one table entry per page, `false` if a page already has
one. -/
def loadSegmentLoop (t file : Nat) (writable : Bool) :
    Nat → State → Nat → Nat → Nat → Nat → State × Bool
  | 0, vm, _, _, _, _ => (vm, true)
  | n + 1, vm, ofs, upage, readBytes, zeroBytes =>
      let pageReadBytes := min readBytes PGSIZE
      let pageZeroBytes := PGSIZE - pageReadBytes
      match vm.insertSpte t upage
          ⟨none, .notLoaded, some file, ofs, pageReadBytes, pageZeroBytes, writable, false, 0⟩ with
      | (vm, false) => (vm, false)
      | (vm, true) =>
          loadSegmentLoop t file writable n vm (ofs + pageReadBytes) (upage + PGSIZE)
            (readBytes - pageReadBytes) (zeroBytes - pageZeroBytes)

/-- `load_segment`; its `ASSERT`s fail on a segment that is not whole pages. -/
def loadSegment (t file : Nat) (seg : Segment) : State × Bool :=
  if (seg.readBytes + seg.zeroBytes) % PGSIZE = 0 ∧ pgOfs seg.memPage = 0 ∧ seg.filePage % PGSIZE = 0 then
    loadSegmentLoop t file seg.writable ((seg.readBytes + seg.zeroBytes) / PGSIZE) vm seg.filePage
      seg.memPage seg.readBytes seg.zeroBytes
  else (vm.panic, false)

/-- `setup_stack`: a zeroed frame at `PHYS_BASE - PGSIZE`, mapped writable by
`install_page`, with no table entry. -/
def setupStack (t : Nat) : State × Bool :=
  let (vm, kpage) := vm.allocFrameEntry t true (PHYS_BASE - PGSIZE)
  match (vm.proc t).getPage (PHYS_BASE - PGSIZE) with
  | some _ => (vm.freeFrameEntry kpage, false)
  | none => (vm.modifyProc t fun p => p.setPage (PHYS_BASE - PGSIZE) kpage true, true)

/-! ## The user's view of memory -/

/-- The MMU: the page table entry an access goes through, if it does not fault. -/
def translate (p : Proc) (a : Nat) (write : Bool) : Option Pte :=
  if isKernelVaddr a then none
  else match p.lookupPte (pgRoundDown a) with
    | some pte => if pte.present ∧ (!write || pte.writable) then some pte else none
    | none => none

/-- An access that goes through: the byte, and the accessed and dirty bits. -/
def perform (t a : Nat) (pte : Pte) : Access → State
  | .read =>
      ({ vm with reads := vm.reads ++ [({ thread := t, addr := a, value := vm.mem pte.kpage (pgOfs a) } : Read)] }).modifyProc t fun p =>
        p.modifyPte (pgRoundDown a) fun pte => { pte with accessed := true }
  | .write v =>
      (vm.setFrame pte.kpage (Function.update (vm.mem pte.kpage) (pgOfs a) v)).modifyProc t fun p =>
        p.modifyPte (pgRoundDown a) fun pte => { pte with accessed := true, dirty := true }

/-- `push_arguments`: the kernel writes the argument bytes below `PHYS_BASE` through the
user addresses, in the stack page `setup_stack` mapped. -/
def pushArguments (t : Nat) (args : List UInt8) : State :=
  (List.range args.length).foldl (fun vm i =>
    let a := PHYS_BASE - args.length + i
    match translate (vm.proc t) a true with
    | some pte => vm.perform t a pte (.write (args.getD i 0))
    | none => vm) vm

/-! ## Loading a page -/

/-- `load_file_page (spte)` for the entry of `upage`. The entry is read through its
pointer: after `alloc_frame_entry` it is read again. -/
def loadFilePage (t upage : Nat) : State × Bool :=
  match (vm.proc t).findSpte upage with
  | none => (vm, false)
  | some spte =>
      if spte.status = .notLoaded then
        match spte.file with
        | none => (vm.panic, false)
        | some f =>
            let vm := vm.fileSeek f spte.ofs
            let (vm, kpage) := vm.allocFrameEntry t false upage
            let spte := ((vm.proc t).findSpte upage).getD spte
            let (vm, n) := vm.fileRead f kpage spte.readBytes
            if n ≠ spte.readBytes then (vm.freeFrameEntry kpage, false)
            else
              -- `memset (kpage + read_bytes, 0, zero_bytes)`
              let vm := vm.setFrame kpage fun o =>
                if spte.readBytes ≤ o ∧ o < spte.readBytes + spte.zeroBytes then 0 else vm.mem kpage o
              let vm := vm.pagedirSetPage t upage kpage spte.writable
              (vm.setSpte t upage { spte with status := .inMemory, kpage := some kpage }, true)
      else
        let (vm, kpage) := vm.allocFrameEntry t false upage
        let spte := ((vm.proc t).findSpte upage).getD spte
        let vm := vm.pagedirSetPage t upage kpage spte.writable
        let vm := vm.setSpte t upage { spte with kpage := some kpage }
        let vm := vm.freeSwapSlot spte.swapIndex kpage
        (vm.setSpte t upage { spte with kpage := some kpage, status := .inMemory }, true)

/-- `grow_stack (fault_addr)`: a zeroed frame, mapped writable, with a table entry that
says it is in memory. -/
def growStack (t faultAddr : Nat) : State :=
  let upage := pgRoundDown faultAddr
  let (vm, frame) := vm.allocFrameEntry t true upage
  let vm := vm.pagedirSetPage t upage frame true
  (vm.insertSpte t upage ⟨some frame, .inMemory, none, 0, 0, 0, true, false, 0⟩).1

/-- What a fault that maps a new frame leaves: page `u` of thread `t` mapped to `frame`,
which was free and now holds `bytes`, with `spte` as its table entry; nothing else of the
processes, the files or the log changes. -/
structure MapsNewFrame (vm vm' : State) (t u frame : Nat) (writable : Bool) (spte : Spte)
    (bytes : Nat → UInt8) : Prop where
  free : vm.userPool[frame]? = some false
  proc : ∀ t', vm'.proc t' = if t = t' ∧ t' < vm.procs.length then
    { (vm.proc t).setPage u frame writable with spt := (vm.proc t).spt.insert u spte } else vm.proc t'
  mem : vm'.mem = Function.update vm.mem frame bytes
  userPool : vm'.userPool = vm.userPool.set frame true
  files : vm'.files.map (·.inode) = vm.files.map (·.inode)
  inodes : vm'.inodes = vm.inodes
  reads : vm'.reads = vm.reads
  panicked : vm'.panicked = vm.panicked
  length_procs : vm'.procs.length = vm.procs.length

/-- Mapping the page and registering its entry, in a state that differs from `vm` only in
the new frame and its pool bit, maps a new frame. -/
theorem mapsNewFrame_intro {vmA : State} {t u frame : Nat} {writable : Bool} {spte : Spte}
    {bytes : Nat → UInt8} (hfree : vm.userPool[frame]? = some false) (hprocs : vmA.procs = vm.procs)
    (hmem : vmA.mem = Function.update vm.mem frame bytes) (hpool : vmA.userPool = vm.userPool.set frame true)
    (hfiles : vmA.files.map (·.inode) = vm.files.map (·.inode)) (hinodes : vmA.inodes = vm.inodes)
    (hreads : vmA.reads = vm.reads) (hpanicked : vmA.panicked = vm.panicked) :
    MapsNewFrame vm ((vmA.modifyProc t fun p => p.setPage u frame writable).modifyProc t fun p =>
      { p with spt := p.spt.insert u spte }) t u frame writable spte bytes where
  free := hfree
  proc t' := by
    rw [proc_modifyProc, proc_modifyProc, length_procs_modifyProc, hprocs, proc_eq_of_procs_eq hprocs]
    by_cases h : t = t' ∧ t' < vm.procs.length
    · obtain ⟨rfl, ht⟩ := h
      simp [ht, Proc.setPage]
    · simp only [if_neg h]
  mem := by simpa using hmem
  userPool := by simpa using hpool
  files := by simpa using hfiles
  inodes := by simpa using hinodes
  reads := by simpa using hreads
  panicked := by simpa using hpanicked
  length_procs := by simp [hprocs]

/-- `grow_stack` with a free page in the pool and no entry for the page: a zeroed frame,
mapped writable. -/
theorem growStack_of_free {t fa : Nat} (hs : (vm.proc t).findSpte (pgRoundDown fa) = none)
    (hpage : (vm.proc t).getPage (pgRoundDown fa) = none) (hfree : false ∈ vm.userPool) :
    ∃ frame, MapsNewFrame vm (vm.growStack t fa) t (pgRoundDown fa) frame true
      ⟨some frame, .inMemory, none, 0, 0, 0, true, false, 0⟩ fun _ => 0 := by
  obtain ⟨k, -, hk, halloc⟩ := vm.pallocGetPage_of_mem true hfree
  rw [if_pos rfl] at halloc
  refine ⟨k, ?_⟩
  unfold growStack
  dsimp only
  rw [allocFrameEntry_of_free _ halloc]
  dsimp only
  rw [pagedirSetPage_of_none _ ?_, insertSpte_of_none]
  · exact mapsNewFrame_intro vm hk rfl rfl rfl rfl rfl rfl rfl
  · rw [proc_modifyProc]
    split <;> exact hs
  · exact hpage

/-- `load_file_page` of a page that is not loaded, with a free page in the pool and a file
that holds all `read_bytes` of the page: the frame holds them and then `zero_bytes` zeros,
and is mapped with the entry's rights. -/
theorem loadFilePage_of_free {t u f : Nat} {spte : Spte}
    (hs : (vm.proc t).findSpte u = some spte) (hst : spte.status = .notLoaded)
    (hf : spte.file = some f) (hfl : f < vm.files.length)
    (hlen : spte.ofs + spte.readBytes ≤ (vm.inode (vm.file f).inode).length)
    (hpage : (vm.proc t).getPage u = none) (hfree : false ∈ vm.userPool) :
    (vm.loadFilePage t u).2 = true ∧ ∃ frame, MapsNewFrame vm (vm.loadFilePage t u).1 t u frame
      spte.writable { spte with status := .inMemory, kpage := some frame } fun o =>
        if spte.readBytes ≤ o ∧ o < spte.readBytes + spte.zeroBytes then 0
        else if o < spte.readBytes then (vm.inode (vm.file f).inode).data (spte.ofs + o)
        else vm.mem frame o := by
  obtain ⟨k, -, hk, hget⟩ := (vm.fileSeek f spte.ofs).pallocGetPage_of_mem false hfree
  rw [if_neg Bool.false_ne_true] at hget
  have halloc := (vm.fileSeek f spte.ofs).allocFrameEntry_of_free (t := t) (u := u) hget
  unfold loadFilePage
  rw [hs]
  simp only [hst, hf, if_true]
  generalize (vm.fileSeek f spte.ofs).allocFrameEntry t false u = A at halloc ⊢
  obtain ⟨hvmA, rfl⟩ := Prod.mk.inj halloc
  clear halloc hget
  -- `alloc_frame_entry` after the seek changes the frame table and the pool only
  have hprocs : A.1.procs = vm.procs := by rw [hvmA]; rfl
  have hfile : A.1.file f = { vm.file f with pos := spte.ofs } := by
    rw [hvmA]; exact file_fileSeek_self vm hfl _
  have hinodes : A.1.inodes = vm.inodes := by rw [hvmA]; rfl
  have hmin : min spte.readBytes ((vm.inode (vm.file f).inode).length - spte.ofs) = spte.readBytes :=
    min_eq_left (by omega)
  rw [proc_eq_of_procs_eq hprocs, hs, Option.getD_some]
  have hn : (A.1.fileRead f A.2 spte.readBytes).2 = spte.readBytes := by
    rw [snd_fileRead, hfile, inode_eq_of_inodes_eq hinodes]
    exact hmin
  rw [if_neg (not_not.mpr hn)]
  refine ⟨rfl, A.2, ?_⟩
  rw [pagedirSetPage_of_none _ ?_, hf]
  · refine mapsNewFrame_intro vm hk hprocs ?_ (by show A.1.userPool = _; rw [hvmA]; rfl) ?_ hinodes
      (by show A.1.reads = _; rw [hvmA]; rfl) (by show A.1.panicked = _; rw [hvmA]; rfl)
    · -- the frame holds the file's `read_bytes`, then the zeros of the `memset`
      show Function.update (A.1.fileRead f A.2 spte.readBytes).1.mem A.2 _ = _
      rw [mem_fileRead_eq, Function.update_idem, show A.1.mem = vm.mem by rw [hvmA]; rfl]
      congr 1
      funext o
      rw [Function.update_self, hfile, inode_eq_of_inodes_eq hinodes]
      dsimp only
      rw [hmin]
    · show (A.1.fileRead f A.2 spte.readBytes).1.files.map _ = _
      rw [map_inode_files_fileRead, hvmA]
      exact map_inode_files_fileSeek vm f _
  · show (A.1.proc t).getPage u = none
    rw [proc_eq_of_procs_eq hprocs]
    exact hpage

/-! ## Munmap and exit -/

/-- The loop of `munmap` over the pages of the mapping: delete each entry, and write back
a page that is dirty and in memory. A page with no entry is a `NULL` dereference. -/
def munmapLoop (t : Nat) (mte : Mte) : List Nat → State → State
  | [], vm => vm
  | position :: rest, vm =>
      let vaddr := mte.vaddr + position
      match (vm.proc t).findSpte vaddr with
      | none => vm.panic
      | some spte =>
          let vm := vm.modifyProc t fun p => { p with spt := p.spt.erase vaddr }
          let vm :=
            if (vm.proc t).isDirty vaddr ∧ spte.status = .inMemory then vm.writeBackPage spte position
            else vm
          munmapLoop t mte rest vm

/-- `syscall_munmap (mapping)`. -/
def syscallMunmap (t : Nat) (mapping : Int) : State :=
  match (vm.proc t).mmapTable.find? (·.mapid = mapping) with
  | none => vm
  | some mte =>
      let vm := vm.munmapLoop t mte (pagePositions (vm.fileLength mte.file))
      vm.modifyProc t fun p => { p with mmapTable := p.mmapTable.erase mte }

/-- `destroy_spt`: the swap slot of every entry in swap is freed. -/
def destroySpt (t : Nat) : State :=
  let vm := (vm.proc t).spt.entries.foldl (fun vm e =>
    if e.2.status = .inSwap then vm.destroySwapSlot e.2.swapIndex else vm) vm
  vm.modifyProc t fun p => { p with spt := ∅ }

/-- `pagedir_destroy`: every present page goes back to the pool. -/
def pagedirDestroy (t : Nat) : State :=
  let vm := (vm.proc t).pagedir.entries.foldl (fun vm e =>
    if e.2.present then vm.pallocFreePage e.2.kpage else vm) vm
  vm.modifyProc t fun p => { p with pagedir := ∅ }

/-- The virtual-memory half of `process_exit`: let the executable be written again,
`munmap` every mapping, drop the frame entries and the table, and free the pages. -/
def processExit (t : Nat) : State :=
  -- `file_close` of the running file allows writes before the mappings are written back
  let vm := match (vm.proc t).runningFile with
    | some f =>
        let i := (vm.file f).inode
        { vm with inodes := vm.inodes.set i { vm.inode i with denyWriteCnt := (vm.inode i).denyWriteCnt - 1 } }
    | none => vm
  let vm := (vm.proc t).mmapTable.foldl (fun vm mte => vm.syscallMunmap t mte.mapid) vm
  let vm := ((vm.destoryFrameEntry t).destroySpt t).pagedirDestroy t
  vm.modifyProc t fun p => { p with mmapTable := [], alive := false }

/-- What each piece of `process_exit` keeps of the state, the whole keeps. -/
theorem processExit_keeps {β : Type} (π : State → β) (t : Nat)
    (hpanic : ∀ vm : State, π vm.panic = π vm)
    (hproc : ∀ (vm : State) (g : Proc → Proc), π (vm.modifyProc t g) = π vm)
    (hwb : ∀ (vm : State) (spte : Spte) (ofs : Nat), π (vm.writeBackPage spte ofs) = π vm)
    (hfree : ∀ (vm : State) (k : Nat), π (vm.pallocFreePage k) = π vm)
    (hswap : ∀ (vm : State) (i : Nat), π (vm.destroySwapSlot i) = π vm)
    (hframes : ∀ vm : State, π (vm.destoryFrameEntry t) = π vm)
    (hinodes : ∀ (vm : State) (l : List Inode), π { vm with inodes := l } = π vm) :
    π (vm.processExit t) = π vm := by
  have hloop : ∀ (mte : Mte) (ps : List Nat) (vm : State), π (vm.munmapLoop t mte ps) = π vm := by
    intro mte ps
    induction ps with
    | nil => exact fun _ => rfl
    | cons p ps ih =>
        intro vm
        simp only [munmapLoop]
        split
        · exact hpanic vm
        · rw [ih]
          split
          · rw [hwb, hproc]
          · exact hproc _ _
  have hmunmap : ∀ (vm : State) (mte : Mte), π (vm.syscallMunmap t mte.mapid) = π vm := by
    intro vm mte
    unfold syscallMunmap
    split
    · rfl
    · rw [hproc, hloop]
  unfold processExit pagedirDestroy destroySpt
  rw [hproc, hproc,
    Table.foldl_eq_of_step π _ (fun vm e => by split <;> simp only [hfree]),
    hproc, Table.foldl_eq_of_step π _ (fun vm e => by split <;> simp only [hswap]),
    hframes, Table.foldl_eq_of_step π _ hmunmap]
  split
  · exact hinodes _ _
  · rfl

theorem reads_processExit (t : Nat) : (vm.processExit t).reads = vm.reads := by
  apply processExit_keeps vm State.reads t <;> intros <;> try rfl
  · unfold writeBackPage fileWrite
    split <;> rfl
  · unfold pallocFreePage
    split <;> rfl

theorem length_procs_processExit (t : Nat) : (vm.processExit t).procs.length = vm.procs.length := by
  apply processExit_keeps vm (fun vm : State => vm.procs.length) t <;> intros <;> try rfl
  · exact length_procs_modifyProc _ _ _
  · exact congrArg List.length (procs_writeBackPage _ _ _)
  · unfold pallocFreePage
    split <;> rfl

/-- `process_exit` ends the thread. -/
theorem alive_processExit (t : Nat) : ((vm.processExit t).proc t).alive = false := by
  unfold processExit
  rw [proc_modifyProc]
  split_ifs with h
  · rfl
  · -- a thread past the table is no process
    rw [proc_of_length_le]
    · rfl
    · simp only [not_and, not_lt] at h
      exact h trivial

/-! ## Page faults -/

/-- `page_fault` at `faultAddr`, with the user's `esp`. -/
def pageFault (t : Nat) (notPresent : Bool) (faultAddr esp : Nat) : State :=
  if !notPresent || isKernelVaddr faultAddr then vm.processExit t
  else
    match (vm.proc t).findSpte (pgRoundDown faultAddr) with
    | none =>
        if ptrdiff esp faultAddr ≤ 32 ∧ inStackArea faultAddr then vm.growStack t faultAddr
        else vm.processExit t
    | some spte =>
        if spte.status = .notLoaded ∨ spte.status = .inSwap then (vm.loadFilePage t (pgRoundDown faultAddr)).1
        else vm.processExit t

/-- The fault's `PF_P` bit: whether the page of `a` is not present. -/
def notPresent (t a : Nat) : Bool := !((vm.proc t).lookupPte (pgRoundDown a)).any (·.present)

/-- A user access by thread `t` with stack pointer `esp`: the access, or the fault and then
the instruction again. A second fault runs the handler again, so a write to a page that the
first one loaded read-only ends the process. On a page whose load fails the source faults
for ever; the model stops after the second fault. Nothing runs after a panic. -/
def userAccess (t a esp : Nat) (acc : Access) : State :=
  match translate (vm.proc t) a acc.isWrite with
  | some pte => vm.perform t a pte acc
  | none =>
      let vm := vm.pageFault t (vm.notPresent t a) a esp
      if (vm.proc t).alive ∧ vm.panicked = false then
        match translate (vm.proc t) a acc.isWrite with
        | some pte => vm.perform t a pte acc
        | none => vm.pageFault t (vm.notPresent t a) a esp
      else vm

/-! ## System calls -/

/-- `open` of a file by its inode: a new `struct file` under the next descriptor. -/
def syscallOpen (t inode : Nat) : State :=
  let f := vm.files.length
  ({ vm with files := vm.files ++ [({ inode := inode, pos := 0 } : File)] }).modifyProc t fun p =>
    { p with fdt := p.fdt ++ [(p.nextFd, f)], nextFd := p.nextFd + 1 }

/-- The loop of `mmap`: one table entry per page; `false` if a page already has one. -/
def mmapLoop (t fp addr len : Nat) : List Nat → State → State × Bool
  | [], vm => (vm, true)
  | position :: rest, vm =>
      let readBytes := if len - position < PGSIZE then len - position else PGSIZE
      let zeroBytes := PGSIZE - readBytes
      match vm.insertSpte t (addr + position)
          ⟨none, .notLoaded, some fp, position, readBytes, zeroBytes, true, true, 0⟩ with
      | (vm, false) => (vm, false)
      | (vm, true) => mmapLoop t fp addr len rest vm

/-- `syscall_mmap (fd, addr)`: the mapping's id, or -1. -/
def syscallMmap (t : Nat) (fd : Int) (addr : Nat) : State × Int :=
  if fd = 0 ∨ fd = 1 ∨ addr = 0 ∨ addr % PGSIZE ≠ 0 then (vm, -1)
  else if inStackArea addr then (vm, -1)
  else
    match ((vm.proc t).fdt.find? (·.1 = fd)).map (·.2) with
    | none => (vm, -1)
    | some f =>
        let len := vm.fileLength f
        if len = 0 then (vm, -1)
        else if (pagePositions len).any (fun position => ((vm.proc t).findSpte (addr + position)).isSome) then
          (vm, -1)
        else
          let (vm, fp) := vm.fileReopen f
          let mapid := (vm.proc t).maxMapid
          let vm := vm.modifyProc t fun p => { p with maxMapid := p.maxMapid + 1 }
          match vm.mmapLoop t fp addr len (pagePositions len) with
          | (vm, false) => (vm, -1)
          | (vm, true) =>
              (vm.modifyProc t fun p => { p with mmapTable := p.mmapTable ++ [⟨mapid, fp, addr⟩] }, mapid)

/-- `load` by a new process: open the executable, register its segments, set up the stack,
push the arguments and deny writes to the executable. A failed load ends the process. -/
def load (exe : Nat) (segs : List Segment) (args : List UInt8) : State :=
  let t := vm.procs.length
  let vm := { vm with procs := vm.procs ++ [{ Proc.none with alive := true }] }
  let file := vm.files.length
  let vm := { vm with files := vm.files ++ [({ inode := exe, pos := 0 } : File)] }
  match segs.foldl (fun (r : State × Bool) seg => if r.2 then r.1.loadSegment t file seg else r) (vm, true) with
  | (vm, false) => vm.processExit t
  | (vm, true) =>
      match vm.setupStack t with
      | (vm, false) => vm.processExit t
      | (vm, true) =>
          let vm := vm.pushArguments t args
          let vm := { vm with inodes := vm.inodes.set exe { vm.inode exe with denyWriteCnt := (vm.inode exe).denyWriteCnt + 1 } }
          vm.modifyProc t fun p => { p with runningFile := some file }

end State

/-! ## Runs -/

/-- What the user programs do next. -/
inductive Event where
  /-- A new process runs `exe` with these segments and argument bytes. -/
  | load (exe : Nat) (segs : List Segment) (args : List UInt8)
  | open (t inode : Nat)
  | access (t a esp : Nat) (acc : Access)
  | mmap (t : Nat) (fd : Int) (addr : Nat)
  | munmap (t : Nat) (mapping : Int)
  | exit (t : Nat)

/-- The thread an event runs in; `load` starts a new one. -/
def Event.thread : Event → Option Nat
  | .load .. => none
  | .open t _ | .access t .. | .mmap t .. | .munmap t _ | .exit t => some t

/-- One event. After a panic nothing runs, and a thread that has exited does nothing. -/
def step (vm : State) (e : Event) : State :=
  if vm.panicked then vm
  else if e.thread.any (fun t => !(vm.proc t).alive) then vm
  else match e with
    | .load exe segs args => vm.load exe segs args
    | .open t inode => vm.syscallOpen t inode
    | .access t a esp acc => vm.userAccess t a esp acc
    | .mmap t fd addr => (vm.syscallMmap t fd addr).1
    | .munmap t mapping => vm.syscallMunmap t mapping
    | .exit t => vm.processExit t

def run (vm : State) (evs : List Event) : State := evs.foldl step vm

/-- The machine at boot: `poolSize` user pages, `swapSize` swap slots, the given files. -/
def State.init (poolSize swapSize : Nat) (inodes : List Inode) : State :=
  { procs := [], frameTable := [], clockPointer := none, nextFte := 0,
    userPool := List.replicate poolSize false, mem := fun _ _ => 0xcc, inodes := inodes,
    files := [], swapAvailable := List.replicate swapSize true, swap := fun _ _ => 0,
    reads := [], panicked := false }

end Pintos.Vm
