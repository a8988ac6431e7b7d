import Pintos.Lib.Clock
import Pintos.Lib.Table
import Pintos.Model.Vaddr
import Mathlib.Data.List.AList

/-!
# Frames, page tables, swap and files

The state the virtual-memory code of `vm/` works on, and its lower half:

* each process's page directory (`userprog/pagedir.c`): per user page a frame and the
  writable, present, accessed and dirty bits; `pagedir_clear_page` keeps the other bits;
* each process's supplemental page table (`vm/page.h`), a hash keyed by `upage`;
* the user pool of `threads/palloc.c`: the first free page, zeroed for `PAL_ZERO`, and
  filled with `0xcc` when freed;
* open files and their inodes (`filesys/file.c`, `inode.c`): reads and writes stop at the
  end of the file, and writes to an inode with `deny_write_cnt` write nothing;
* the swap bitmap and slots (`vm/swap.c`);
* the frame table and its clock hand (`vm/frame.c`): `alloc_frame_entry` takes a free page,
  or evicts the entry `get_victim` chooses, writing it back to its file, to swap, or
  nowhere, by the four branches of the source.

Frames hold bytes by offset; a thread's number is its index. A failed `ASSERT` (a full
swap disk, freeing a free page, `file_seek (NULL, ...)`) and dereferencing a stale clock
hand or a `NULL` page stop the machine: `panicked`.
-/

set_option autoImplicit false

namespace Pintos.Vm

def isKernelVaddr (a : Nat) : Bool := PHYS_BASE ≤ a

/-- `PHYS_BASE - 0x800000 <= upage`: the 8 MB below `PHYS_BASE` that the stack may use. -/
def inStackArea (a : Nat) : Bool := PHYS_BASE - 0x800000 ≤ a

/-- A page table entry. -/
structure Pte where
  kpage : Nat
  writable : Bool
  present : Bool
  accessed : Bool
  dirty : Bool
  deriving DecidableEq, Repr

/-- `spte->status`: 0, 1 and 2. -/
inductive PageStatus where
  | notLoaded
  | inMemory
  | inSwap
  deriving DecidableEq, Repr

/-- `struct supplemental_page_table_entry`; its `upage` is its key in the table, and
`is_dirty` and `is_accessed` are never read. -/
structure Spte where
  kpage : Option Nat
  status : PageStatus
  file : Option Nat
  ofs : Nat
  readBytes : Nat
  zeroBytes : Nat
  writable : Bool
  isMmap : Bool
  swapIndex : Nat
  deriving DecidableEq, Repr

/-- `struct frame_table_entry`; `id` is the address `malloc` gave it. -/
structure Fte where
  id : Nat
  upage : Nat
  kpage : Nat
  owner : Nat
  deriving DecidableEq, Repr

/-- `struct mmap_table_entry`. -/
structure Mte where
  mapid : Int
  file : Nat
  vaddr : Nat
  deriving DecidableEq, Repr

/-- What the virtual-memory code keeps of a `struct thread`. -/
structure Proc where
  spt : AList (fun _ : Nat => Spte)
  pagedir : AList (fun _ : Nat => Pte)
  mmapTable : List Mte
  maxMapid : Int
  /-- The file descriptor table: `fd` and the open file. -/
  fdt : List (Int × Nat)
  nextFd : Int
  runningFile : Option Nat
  alive : Bool

/-- A thread number past the last process. -/
def Proc.none : Proc :=
  { spt := ∅, pagedir := ∅, mmapTable := [], maxMapid := 0, fdt := [], nextFd := 2,
    runningFile := Option.none, alive := false }

structure Inode where
  length : Nat
  data : Nat → UInt8
  denyWriteCnt : Nat

/-- `struct file`. -/
structure File where
  inode : Nat
  pos : Nat
  deriving DecidableEq, Repr

/-- A byte a user program read: the thread, the address and the value. -/
structure Read where
  thread : Nat
  addr : Nat
  value : UInt8
  deriving DecidableEq, Repr

structure State where
  procs : List Proc
  frameTable : List Fte
  clockPointer : Option Nat
  nextFte : Nat
  /-- palloc's bitmap of the user pool: `true` for a page in use. -/
  userPool : List Bool
  mem : Nat → Nat → UInt8
  inodes : List Inode
  files : List File
  /-- `swap_available`: `true` for a free slot. -/
  swapAvailable : List Bool
  swap : Nat → Nat → UInt8
  reads : List Read
  panicked : Bool

/-! ## Page directories -/

namespace Proc

variable (p : Proc)

def lookupPte (upage : Nat) : Option Pte := p.pagedir.lookup upage

/-- `pagedir_get_page`: the frame of a present page. -/
def getPage (upage : Nat) : Option Nat :=
  match p.lookupPte upage with
  | some pte => if pte.present then some pte.kpage else Option.none
  | Option.none => Option.none

/-- A new entry: present, neither accessed nor dirty. -/
def setPage (upage kpage : Nat) (writable : Bool) : Proc :=
  { p with pagedir := p.pagedir.insert upage ⟨kpage, writable, true, false, false⟩ }

def modifyPte (upage : Nat) (f : Pte → Pte) : Proc :=
  match p.lookupPte upage with
  | some pte => { p with pagedir := p.pagedir.insert upage (f pte) }
  | Option.none => p

/-- `pagedir_clear_page`: not present; the other bits stay. -/
def clearPage (upage : Nat) : Proc := p.modifyPte upage fun pte => { pte with present := false }

def isDirty (upage : Nat) : Bool := (p.lookupPte upage).any (·.dirty)

def isAccessed (upage : Nat) : Bool := (p.lookupPte upage).any (·.accessed)

def setAccessed (upage : Nat) (b : Bool) : Proc := p.modifyPte upage fun pte => { pte with accessed := b }

def findSpte (upage : Nat) : Option Spte := p.spt.lookup upage

theorem lookupPte_modifyPte (u u' : Nat) (f : Pte → Pte) :
    (p.modifyPte u f).lookupPte u' = if u' = u then (p.lookupPte u).map f else p.lookupPte u' := by
  unfold modifyPte
  cases h : p.lookupPte u with
  | none => split <;> simp_all
  | some pte =>
      by_cases hu : u' = u
      · subst hu
        simp [lookupPte]
      · simp [lookupPte, hu]

@[simp] theorem spt_modifyPte (u : Nat) (f : Pte → Pte) : (p.modifyPte u f).spt = p.spt := by
  unfold modifyPte
  split <;> rfl

@[simp] theorem findSpte_setPage (u u' k : Nat) (w : Bool) : (p.setPage u k w).findSpte u' = p.findSpte u' := rfl

@[simp] theorem findSpte_modifyPte (u u' : Nat) (f : Pte → Pte) : (p.modifyPte u f).findSpte u' = p.findSpte u' := by
  simp [findSpte]

@[simp] theorem alive_modifyPte (u : Nat) (f : Pte → Pte) : (p.modifyPte u f).alive = p.alive := by
  unfold modifyPte
  split <;> rfl

@[simp] theorem fdt_modifyPte (u : Nat) (f : Pte → Pte) : (p.modifyPte u f).fdt = p.fdt := by
  unfold modifyPte
  split <;> rfl

@[simp] theorem nextFd_modifyPte (u : Nat) (f : Pte → Pte) : (p.modifyPte u f).nextFd = p.nextFd := by
  unfold modifyPte
  split <;> rfl

/-- Changing bits of an entry other than the frame and the present bit keeps every mapping. -/
theorem getPage_modifyPte (u u' : Nat) {f : Pte → Pte}
    (hf : ∀ pte, (f pte).present = pte.present ∧ (f pte).kpage = pte.kpage) :
    (p.modifyPte u f).getPage u' = p.getPage u' := by
  unfold getPage
  rw [lookupPte_modifyPte]
  split_ifs with h
  · subst h
    cases p.lookupPte u' with
    | none => rfl
    | some pte => simp [(hf pte).1, (hf pte).2]
  · rfl

theorem isAccessed_setAccessed_false (u u' : Nat) :
    (p.setAccessed u false).isAccessed u' = (decide (u' ≠ u) && p.isAccessed u') := by
  unfold setAccessed isAccessed
  rw [lookupPte_modifyPte]
  by_cases hu : u' = u
  · subst hu
    cases p.lookupPte u' <;> simp
  · simp [hu]

end Proc

/-! ## The machine state -/

namespace State

variable (vm : State)

def proc (t : Nat) : Proc := vm.procs.getD t .none

def modifyProc (t : Nat) (g : Proc → Proc) : State :=
  { vm with procs := vm.procs.set t (g (vm.proc t)) }

def setFrame (kpage : Nat) (bytes : Nat → UInt8) : State :=
  { vm with mem := Function.update vm.mem kpage bytes }

def inode (i : Nat) : Inode := vm.inodes.getD i ⟨0, fun _ => 0, 0⟩

def file (f : Nat) : File := vm.files.getD f ⟨0, 0⟩

def setFile (f : Nat) (fl : File) : State := { vm with files := vm.files.set f fl }

def panic : State := { vm with panicked := true }

theorem proc_modifyProc (t u : Nat) (g : Proc → Proc) :
    (vm.modifyProc t g).proc u = if t = u ∧ u < vm.procs.length then g (vm.proc u) else vm.proc u :=
  Table.getD_set_getD _ _ t u g

theorem proc_of_length_le {t : Nat} (h : vm.procs.length ≤ t) : vm.proc t = .none :=
  Table.getD_of_length_le _ _ h

@[simp] theorem frameTable_modifyProc (t : Nat) (g : Proc → Proc) :
    (vm.modifyProc t g).frameTable = vm.frameTable := rfl

@[simp] theorem clockPointer_modifyProc (t : Nat) (g : Proc → Proc) :
    (vm.modifyProc t g).clockPointer = vm.clockPointer := rfl

@[simp] theorem panicked_modifyProc (t : Nat) (g : Proc → Proc) :
    (vm.modifyProc t g).panicked = vm.panicked := rfl

@[simp] theorem files_modifyProc (t : Nat) (g : Proc → Proc) :
    (vm.modifyProc t g).files = vm.files := rfl

@[simp] theorem inodes_modifyProc (t : Nat) (g : Proc → Proc) :
    (vm.modifyProc t g).inodes = vm.inodes := rfl

@[simp] theorem length_procs_modifyProc (t : Nat) (g : Proc → Proc) :
    (vm.modifyProc t g).procs.length = vm.procs.length := List.length_set

/-- `insert_unmapped_spte`: `false`, and no change, if `upage` already has an entry. -/
def insertSpte (t upage : Nat) (spte : Spte) : State × Bool :=
  match (vm.proc t).findSpte upage with
  | some _ => (vm, false)
  | Option.none => (vm.modifyProc t fun p => { p with spt := p.spt.insert upage spte }, true)

/-- `pagedir_set_page` in thread `t`'s page directory: mapping a present page fails its
`ASSERT`. -/
def pagedirSetPage (t upage kpage : Nat) (writable : Bool) : State :=
  match (vm.proc t).getPage upage with
  | some _ => vm.panic
  | Option.none => vm.modifyProc t fun p => p.setPage upage kpage writable

/-- Writing through the pointer `find_spte` returned. -/
def setSpte (t upage : Nat) (spte : Spte) : State :=
  vm.modifyProc t fun p => { p with spt := p.spt.insert upage spte }

@[simp] theorem reads_modifyProc (t : Nat) (g : Proc → Proc) : (vm.modifyProc t g).reads = vm.reads := rfl

@[simp] theorem userPool_modifyProc (t : Nat) (g : Proc → Proc) : (vm.modifyProc t g).userPool = vm.userPool := rfl

@[simp] theorem mem_modifyProc (t : Nat) (g : Proc → Proc) : (vm.modifyProc t g).mem = vm.mem := rfl

@[simp] theorem mem_setSpte (t upage : Nat) (spte : Spte) : (vm.setSpte t upage spte).mem = vm.mem := rfl

theorem pagedirSetPage_of_none {t upage kpage : Nat} {writable : Bool}
    (h : (vm.proc t).getPage upage = none) :
    vm.pagedirSetPage t upage kpage writable = vm.modifyProc t fun p => p.setPage upage kpage writable := by
  simp [pagedirSetPage, h]

theorem insertSpte_of_none {t upage : Nat} {spte : Spte} (h : (vm.proc t).findSpte upage = none) :
    vm.insertSpte t upage spte = (vm.modifyProc t fun p => { p with spt := p.spt.insert upage spte }, true) := by
  simp [insertSpte, h]

@[simp] theorem mem_pagedirSetPage (t upage kpage : Nat) (writable : Bool) :
    (vm.pagedirSetPage t upage kpage writable).mem = vm.mem := by
  unfold pagedirSetPage
  split <;> rfl

theorem file_setFile_self {f : Nat} (hf : f < vm.files.length) (fl : File) : (vm.setFile f fl).file f = fl := by
  simp [setFile, file, hf]

/-! Two states that agree on a table agree on every lookup in it. -/

theorem proc_eq_of_procs_eq {s s' : State} (h : s'.procs = s.procs) (u : Nat) : s'.proc u = s.proc u := by
  simp [proc, h]

theorem file_eq_of_files_eq {s s' : State} (h : s'.files = s.files) (f : Nat) : s'.file f = s.file f := by
  simp [file, h]

theorem inode_eq_of_inodes_eq {s s' : State} (h : s'.inodes = s.inodes) (i : Nat) : s'.inode i = s.inode i := by
  simp [inode, h]

end State

/-! ## The user pool -/

namespace State

variable (vm : State)

/-- `palloc_get_page (PAL_USER | (zero ? PAL_ZERO : 0))`. -/
def pallocGetPage (zero : Bool) : Option Nat × State :=
  match vm.userPool.findIdx? (· = false) with
  | some k =>
      let vm' := { vm with userPool := vm.userPool.set k true }
      (some k, if zero then vm'.setFrame k fun _ => 0 else vm')
  | Option.none => (Option.none, vm)

/-- With a free page in the pool, `palloc_get_page` takes the first and marks it used. -/
theorem pallocGetPage_of_mem (zero : Bool) (h : false ∈ vm.userPool) :
    ∃ k, k < vm.userPool.length ∧ vm.userPool[k]? = some false ∧
      vm.pallocGetPage zero =
        (some k, if zero then ({ vm with userPool := vm.userPool.set k true }).setFrame k fun _ => 0
          else { vm with userPool := vm.userPool.set k true }) := by
  have hsome : (vm.userPool.findIdx? (· = false)).isSome := by
    rw [List.findIdx?_isSome]
    exact List.any_eq_true.mpr ⟨false, h, by simp⟩
  obtain ⟨k, hk⟩ := Option.isSome_iff_exists.mp hsome
  obtain ⟨hlt, hkf, -⟩ := List.findIdx?_eq_some_iff_getElem.mp hk
  refine ⟨k, hlt, ?_, ?_⟩
  · simp only [decide_eq_true_eq] at hkf
    rw [List.getElem?_eq_getElem hlt, hkf]
  · unfold pallocGetPage
    rw [hk]

/-- Taking a page from the pool touches the pool and the page only. -/
theorem pallocGetPage_frame (zero : Bool) :
    (vm.pallocGetPage zero).2.procs = vm.procs ∧ (vm.pallocGetPage zero).2.files = vm.files ∧
      (vm.pallocGetPage zero).2.inodes = vm.inodes := by
  unfold pallocGetPage
  split
  · dsimp only
    split <;> exact ⟨rfl, rfl, rfl⟩
  · exact ⟨rfl, rfl, rfl⟩

/-- `palloc_free_page`: freeing a free page fails the allocator's `ASSERT`. -/
def pallocFreePage (kpage : Nat) : State :=
  if vm.userPool.getD kpage false then
    ({ vm with userPool := vm.userPool.set kpage false }).setFrame kpage fun _ => 0xcc
  else vm.panic

end State

/-! ## Files -/

namespace State

variable (vm : State)

def fileSeek (f : Nat) (pos : Nat) : State := vm.setFile f { vm.file f with pos := pos }

theorem file_fileSeek_self {f : Nat} (hf : f < vm.files.length) (pos : Nat) :
    (vm.fileSeek f pos).file f = { vm.file f with pos := pos } :=
  file_setFile_self _ hf _

@[simp] theorem proc_fileSeek (f pos t : Nat) : (vm.fileSeek f pos).proc t = vm.proc t := rfl

@[simp] theorem length_files_fileSeek (f pos : Nat) : (vm.fileSeek f pos).files.length = vm.files.length := by
  simp [fileSeek, setFile]

/-- `file_length`. -/
def fileLength (f : Nat) : Nat := (vm.inode (vm.file f).inode).length

/-- `file_read (f, kpage, size)`: the bytes up to the end of the file, to the start of
the frame. -/
def fileRead (f kpage size : Nat) : State × Nat :=
  let fl := vm.file f
  let ino := vm.inode fl.inode
  let n := min size (ino.length - fl.pos)
  let vm := vm.setFrame kpage fun o => if o < n then ino.data (fl.pos + o) else vm.mem kpage o
  (vm.setFile f { fl with pos := fl.pos + n }, n)

/-- `file_read` fills the frame from the file's position, up to the end of the file. -/
theorem mem_fileRead (f k size o : Nat) :
    (vm.fileRead f k size).1.mem k o =
      if o < min size ((vm.inode (vm.file f).inode).length - (vm.file f).pos) then
        (vm.inode (vm.file f).inode).data ((vm.file f).pos + o)
      else vm.mem k o := by
  simp [fileRead, setFrame, setFile]

theorem mem_fileRead_eq (f k size : Nat) :
    (vm.fileRead f k size).1.mem = Function.update vm.mem k fun o =>
      if o < min size ((vm.inode (vm.file f).inode).length - (vm.file f).pos) then
        (vm.inode (vm.file f).inode).data ((vm.file f).pos + o)
      else vm.mem k o := rfl

theorem snd_fileRead (f k size : Nat) :
    (vm.fileRead f k size).2 = min size ((vm.inode (vm.file f).inode).length - (vm.file f).pos) := rfl

@[simp] theorem procs_fileRead (f k size : Nat) : (vm.fileRead f k size).1.procs = vm.procs := rfl

@[simp] theorem inodes_fileRead (f k size : Nat) : (vm.fileRead f k size).1.inodes = vm.inodes := rfl

@[simp] theorem reads_fileRead (f k size : Nat) : (vm.fileRead f k size).1.reads = vm.reads := rfl

@[simp] theorem panicked_fileRead (f k size : Nat) : (vm.fileRead f k size).1.panicked = vm.panicked := rfl

@[simp] theorem userPool_fileRead (f k size : Nat) : (vm.fileRead f k size).1.userPool = vm.userPool := rfl

/-- Moving a file changes no file's inode. -/
theorem map_inode_setFile_pos (f pos : Nat) :
    (vm.setFile f { vm.file f with pos := pos }).files.map (·.inode) = vm.files.map (·.inode) := by
  simp only [setFile, List.map_set]
  by_cases hf : f < vm.files.length
  · have hf' : f < (vm.files.map (·.inode)).length := by simpa using hf
    rw [show (vm.file f).inode = (vm.files.map (·.inode))[f] by simp [file, hf]]
    exact List.set_getElem_self _
  · exact List.set_eq_of_length_le (by simpa using Nat.le_of_not_lt hf)

@[simp] theorem map_inode_files_fileRead (f k size : Nat) :
    (vm.fileRead f k size).1.files.map (·.inode) = vm.files.map (·.inode) :=
  map_inode_setFile_pos _ f _

@[simp] theorem map_inode_files_fileSeek (f pos : Nat) :
    (vm.fileSeek f pos).files.map (·.inode) = vm.files.map (·.inode) :=
  map_inode_setFile_pos _ f _

/-- `file_write (f, kpage, size)`: nothing past the end of the file, and nothing at all
to a file that is being run. -/
def fileWrite (f kpage size : Nat) : State × Nat :=
  let fl := vm.file f
  let ino := vm.inode fl.inode
  let n := if 0 < ino.denyWriteCnt then 0 else min size (ino.length - fl.pos)
  let data := fun o => if fl.pos ≤ o ∧ o < fl.pos + n then vm.mem kpage (o - fl.pos) else ino.data o
  let ino' := { ino with data := data }
  ({ (vm.setFile f { fl with pos := fl.pos + n }) with inodes := vm.inodes.set fl.inode ino' }, n)

/-- `file_reopen`: a new `struct file` for the same inode, at position 0. -/
def fileReopen (f : Nat) : State × Nat :=
  ({ vm with files := vm.files ++ [⟨(vm.file f).inode, 0⟩] }, vm.files.length)

end State

/-! ## Swap -/

namespace State

variable (vm : State)

/-- `alloc_swap_slot (kpage)`: the first free slot gets the frame's bytes. A full swap disk
fails the `ASSERT`. -/
def allocSwapSlot (kpage : Nat) : State × Nat :=
  match vm.swapAvailable.findIdx? (· = true) with
  | some i =>
      ({ vm with swapAvailable := vm.swapAvailable.set i false,
                 swap := Function.update vm.swap i (vm.mem kpage) }, i)
  | Option.none => (vm.panic, 0)

/-- `free_swap_slot (i, kpage)`: the slot's bytes back to the frame. -/
def freeSwapSlot (i kpage : Nat) : State :=
  { (vm.setFrame kpage (vm.swap i)) with swapAvailable := vm.swapAvailable.set i true }

/-- `destroy_swap_slot (i)`. -/
def destroySwapSlot (i : Nat) : State := { vm with swapAvailable := vm.swapAvailable.set i true }

end State

/-! ## Writing a page back -/

namespace State

variable (vm : State)

/-- `file_seek (spte->file, ofs)` and `file_write (spte->file, spte->kpage,
spte->read_bytes)`, as eviction and `munmap` write a page back. A `NULL` file or page
stops the machine. -/
def writeBackPage (spte : Spte) (ofs : Nat) : State :=
  match spte.file, spte.kpage with
  | some f, some k => ((vm.fileSeek f ofs).fileWrite f k spte.readBytes).1
  | _, _ => vm.panic

@[simp] theorem procs_writeBackPage (spte : Spte) (ofs : Nat) :
    (vm.writeBackPage spte ofs).procs = vm.procs := by
  unfold writeBackPage
  split <;> rfl

/-- A page written back leaves its file where the write stopped. -/
theorem file_writeBackPage {spte : Spte} {f k : Nat} (hf : spte.file = some f) (hk : spte.kpage = some k)
    (hfl : f < vm.files.length) (ofs : Nat) :
    (vm.writeBackPage spte ofs).file f =
      { vm.file f with
        pos := ofs + (if 0 < (vm.inode (vm.file f).inode).denyWriteCnt then 0
          else min spte.readBytes ((vm.inode (vm.file f).inode).length - ofs)) } := by
  simp [writeBackPage, hf, hk, fileWrite, fileSeek, file, setFile, hfl, inode]

/-- A write-back changes its file's inode only below where it leaves the file. -/
theorem data_writeBackPage {spte : Spte} {f k : Nat} (hf : spte.file = some f) (hk : spte.kpage = some k)
    (hfl : f < vm.files.length) {ofs x : Nat} (hx : ((vm.writeBackPage spte ofs).file f).pos ≤ x) :
    ((vm.writeBackPage spte ofs).inode (vm.file f).inode).data x = (vm.inode (vm.file f).inode).data x := by
  rw [file_writeBackPage vm hf hk hfl ofs] at hx
  simp only [writeBackPage, hf, hk, fileWrite, file_fileSeek_self vm hfl]
  simp only [fileSeek, setFile, inode, List.getD_eq_getElem?_getD, List.getElem?_set, if_true] at hx ⊢
  by_cases hi : (vm.file f).inode < vm.inodes.length
  · -- the bytes written lie below the file's new position, and so below `x`
    simp only [hi, if_true, Option.getD_some]
    exact if_neg fun h => Nat.not_lt.mpr hx h.2
  · simp only [hi, if_false, Option.getD_none, List.getElem?_eq_none (Nat.le_of_not_lt hi)]

@[simp] theorem frameTable_writeBackPage (spte : Spte) (ofs : Nat) :
    (vm.writeBackPage spte ofs).frameTable = vm.frameTable := by
  unfold writeBackPage
  split <;> rfl

end State

/-! ## The frame table -/

namespace State

variable (vm : State)

/-- The reference bit the clock reads: the accessed bit in the owner's page directory. -/
def frameAccessed (e : Fte) : Bool := (vm.proc e.owner).isAccessed e.upage

def clearFrameAccessed (e : Fte) : State := vm.modifyProc e.owner fun p => p.setAccessed e.upage false

/-- Where the clock hand starts: the entry `clock_pointer` points at, or the first. -/
def clockStart : Nat :=
  match vm.clockPointer with
  | some id => vm.frameTable.findIdx (·.id = id)
  | Option.none => 0

/-- `get_victim`: the clock hand starts at `clockStart` and stops past the entry it
chooses. `none` is the hand on no entry: an empty table, or a
stale `clock_pointer`. -/
def getVictim : Option (State × Fte) :=
  let ft := vm.frameTable
  match Clock.scan frameAccessed clearFrameAccessed ft (ft.length + 1) vm.clockStart vm with
  | some (vm', i) =>
      match ft[i]? with
      | some victim => some ({ vm' with clockPointer := (ft[(i + 1) % ft.length]?).map (·.id) }, victim)
      | Option.none => Option.none
  | Option.none => Option.none

/-- The clock hand touches accessed bits and the clock pointer, never a file. -/
theorem getVictim_files {vm' : State} {e : Fte} (h : vm.getVictim = some (vm', e)) :
    vm'.files = vm.files ∧ vm'.inodes = vm.inodes := by
  unfold getVictim at h
  dsimp only at h
  split at h
  · rename_i s i hscan
    split at h
    · obtain ⟨rfl, -⟩ := Prod.mk.inj (Option.some.inj h)
      have hinv : ∀ (s : State) (e : Fte), s.files = vm.files ∧ s.inodes = vm.inodes →
          (s.clearFrameAccessed e).files = vm.files ∧ (s.clearFrameAccessed e).inodes = vm.inodes :=
        fun _ _ hs => hs
      have hs := Clock.scan_invariant (P := fun s : State => s.files = vm.files ∧ s.inodes = vm.inodes)
        hinv ⟨rfl, rfl⟩ hscan
      exact hs
    · simp at h
  · simp at h

/-- Swap the victim's page out: the second and third branches of `alloc_frame_entry`. -/
def swapOut (victim : Fte) (spte : Spte) : State :=
  let (vm, i) := vm.allocSwapSlot victim.kpage
  (vm.setSpte victim.owner victim.upage { spte with status := .inSwap, swapIndex := i }).modifyProc
    victim.owner fun p => p.clearPage victim.upage

/-- What `alloc_frame_entry` does with the victim's page before it takes the frame. A page
with no entry (the stack page of `setup_stack`) gets one that says it is in swap. -/
def evictFrame (victim : Fte) : State :=
  let o := victim.owner
  let u := victim.upage
  let vm := match (vm.proc o).findSpte u with
    | some _ => vm
    | Option.none =>
        (vm.insertSpte o u ⟨Option.none, .inSwap, Option.none, 0, 0, 0, true, false, 0⟩).1
  match (vm.proc o).findSpte u with
  | Option.none => vm
  | some spte =>
      let dirty := (vm.proc o).isDirty u
      if spte.isMmap ∧ dirty then
        let vm := vm.writeBackPage spte spte.ofs
        (vm.setSpte o u { spte with status := .notLoaded }).modifyProc o fun p => p.clearPage u
      else if ¬ spte.isMmap then vm.swapOut victim spte
      else if ¬ dirty ∧ inStackArea u then vm.swapOut victim spte
      else (vm.setSpte o u { spte with status := .notLoaded }).modifyProc o fun p => p.clearPage u

/-- `alloc_frame_entry (flags, upage)` by thread `t`: a frame from the user pool, or the
victim's frame, zeroed, with its entry moved to the back of the table. -/
def allocFrameEntry (t : Nat) (zero : Bool) (upage : Nat) : State × Nat :=
  match vm.pallocGetPage zero with
  | (some frame, vm) =>
      ({ vm with frameTable := vm.frameTable ++ [⟨vm.nextFte, upage, frame, t⟩],
                 nextFte := vm.nextFte + 1 }, frame)
  | (Option.none, vm) =>
      match vm.getVictim with
      | Option.none => (vm.panic, 0)
      | some (vm, victim) =>
          let vm := { vm with frameTable := vm.frameTable.erase victim ++ [victim] }
          let vm := (vm.evictFrame victim).setFrame victim.kpage fun _ => 0
          ({ vm with frameTable := vm.frameTable.map fun e =>
              if e.id = victim.id then { e with owner := t, upage := upage } else e },
            victim.kpage)

/-- The first branch of the eviction in `alloc_frame_entry`: a written page of a mapping
goes back to its file through the mapping's own file, and is unmapped. -/
theorem evictFrame_of_dirty_mmap {e : Fte} {spte : Spte}
    (hs : (vm.proc e.owner).findSpte e.upage = some spte) (hmmap : spte.isMmap = true)
    (hdirty : (vm.proc e.owner).isDirty e.upage = true) :
    vm.evictFrame e =
      ((vm.writeBackPage spte spte.ofs).setSpte e.owner e.upage { spte with status := .notLoaded }).modifyProc
        e.owner fun p => p.clearPage e.upage := by
  unfold evictFrame
  simp only [hs, hmmap, hdirty, and_self, if_true]

/-- With a free page, `alloc_frame_entry` evicts nothing: it appends a new entry. -/
theorem allocFrameEntry_of_free {t : Nat} {zero : Bool} {u frame : Nat} {vm' : State}
    (h : vm.pallocGetPage zero = (some frame, vm')) :
    vm.allocFrameEntry t zero u =
      ({ vm' with frameTable := vm'.frameTable ++ [⟨vm'.nextFte, u, frame, t⟩],
                  nextFte := vm'.nextFte + 1 }, frame) := by
  unfold allocFrameEntry
  rw [h]

/-- `free_frame_entry (kpage)`: the first entry of the frame, and the page. -/
def freeFrameEntry (kpage : Nat) : State :=
  let vm' := match vm.frameTable.find? (·.kpage = kpage) with
    | some e =>
        { vm with frameTable := vm.frameTable.erase e,
                  clockPointer := if vm.clockPointer = some e.id then Option.none else vm.clockPointer }
    | Option.none => vm
  vm'.pallocFreePage kpage

/-- `destory_frame_entry (t)`: every entry `t` owns; the pages go with the page directory. -/
def destoryFrameEntry (t : Nat) : State :=
  { vm with
    frameTable := vm.frameTable.filter (·.owner ≠ t),
    clockPointer := match vm.clockPointer with
      | some id => if vm.frameTable.any (fun e => e.id = id ∧ e.owner = t) then Option.none else some id
      | Option.none => Option.none }

end State

end Pintos.Vm
