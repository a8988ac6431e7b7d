import Pintos.Analysis.OpenInodes
import Mathlib.Tactic.SplitIfs

/-!
# The bytes of an inode: `inode_read_at` and `inode_write_at`

An inode's content is the `length` bytes of its data sectors, which follow each other from
sector `start` (`fileBytes`): `byte_to_sector` puts byte `pos` of the file at
`start * BLOCK_SECTOR_SIZE + pos` of the device (`sectorAddr_eq`).

As a list of bytes a file is read and written as `FileSpec` says. A read of `size` bytes at
`offset` gives bytes `[offset, offset + r)` of the content, where
`r = min (size, max (0, length - offset))`. A write covers the same `r` bytes and replaces
them with the first `r` bytes of the buffer; while `deny_write_cnt` is not 0 it writes
nothing and returns 0.

Both loops of `inode.c` cut a request into chunks of at most the bytes left in the request,
in the file and in the sector (`chunkSize_of_lt`), and each round moves the chunk that starts
where the previous one ended, so the rounds join into one block (`readLoop_eq`,
`writeLoop_eq`). Every run of reads and writes on an open inode therefore refines the list
model (`runInodeCalls_refines`); a write changes no byte of the device outside the file
(`disk_runInodeCalls_of_not_mem`), so no byte of another inode whose sectors are apart from its
own. `inode_create` writes zeros over all the data sectors, so a new inode reads as zeros
(`fileBytes_inodeCreate`).
-/

set_option autoImplicit false

namespace Pintos.Filesys

open ByteMemory

/-! ## A file as a list of bytes -/

namespace FileSpec

/-- How many bytes a request of `size` bytes at `offset` covers: none past the end. -/
def span (content : List UInt8) (size offset : Nat) : Nat :=
  min size (content.length - offset)

/-- The bytes a read of `size` bytes at `offset` returns. -/
def readAt (content : List UInt8) (size offset : Nat) : List UInt8 :=
  (content.drop offset).take size

/-- The content after a write: the `span` bytes at `offset` replaced by the buffer's first
ones. -/
def writeAt (content buffer : List UInt8) (size offset : Nat) : List UInt8 :=
  let r := span content size offset
  content.take offset ++ buffer.take r ++ content.drop (offset + r)

theorem length_readAt (content : List UInt8) (size offset : Nat) :
    (readAt content size offset).length = span content size offset := by
  simp [readAt, span]

theorem length_writeAt (content buffer : List UInt8) {size : Nat} (offset : Nat)
    (hbuf : size ≤ buffer.length) : (writeAt content buffer size offset).length = content.length := by
  simp only [writeAt, span, List.length_append, List.length_take, List.length_drop]
  omega

theorem span_of_le {content : List UInt8} (size : Nat) {offset : Nat} (h : content.length ≤ offset) :
    span content size offset = 0 := by
  simp only [span]
  omega

/-- A write at or past the end changes nothing. -/
theorem writeAt_of_le {content : List UInt8} (buffer : List UInt8) (size : Nat) {offset : Nat}
    (h : content.length ≤ offset) : writeAt content buffer size offset = content := by
  simp [writeAt, span_of_le size h, List.take_of_length_le h, List.drop_of_length_le h]

/-- A write replaces exactly the `span` bytes at `offset`, and every other byte keeps its
value. -/
theorem getD_writeAt (content buffer : List UInt8) {size : Nat} (offset : Nat)
    (hbuf : size ≤ buffer.length) (j : Nat) :
    (writeAt content buffer size offset).getD j 0 =
      if offset ≤ j ∧ j < offset + span content size offset then buffer.getD (j - offset) 0
      else content.getD j 0 := by
  by_cases hend : content.length ≤ offset
  · rw [writeAt_of_le buffer size hend, span_of_le size hend, if_neg (by omega)]
  have hr : span content size offset ≤ buffer.length := by simp only [span]; omega
  simp only [writeAt, List.getD_eq_getElem?_getD, List.getElem?_append, List.getElem?_take,
    List.getElem?_drop, List.length_append, List.length_take, Nat.min_eq_left hr,
    Nat.min_eq_left (Nat.le_of_not_le hend)]
  -- before the write, inside it, and after it
  by_cases hbefore : j < offset
  · have hin : j < offset + span content size offset := by omega
    have hout : ¬(offset ≤ j ∧ j < offset + span content size offset) := by omega
    rw [if_pos hin, if_pos hbefore, if_pos hbefore, if_neg hout]
  by_cases hinside : j < offset + span content size offset
  · have hin : j - offset < span content size offset := by omega
    rw [if_pos hinside, if_neg hbefore, if_pos hin, if_pos ⟨by omega, hinside⟩]
  · have hout : ¬(offset ≤ j ∧ j < offset + span content size offset) := by omega
    rw [if_neg hinside, if_neg hout, Nat.add_sub_cancel' (by omega)]

end FileSpec

/-- A call on an open inode: `inode_read_at (inode, buffer, size, offset)` or
`inode_write_at (inode, buffer, size, offset)`. -/
inductive InodeCall
  | read (size offset : Nat)
  | write (buffer : List UInt8) (size offset : Nat)
  deriving DecidableEq, Repr

/-- What a call gives back: the bytes read into the buffer, or the count written. -/
inductive InodeReply
  | bytes (bs : List UInt8)
  | count (n : Nat)
  deriving DecidableEq, Repr

/-- The buffer of a write holds the `size` bytes it is asked to write. -/
def InodeCall.Valid : InodeCall → Prop
  | .read _ _ => True
  | .write buffer size _ => size ≤ buffer.length

open FileSpec in
/-- The list model of a run of calls on a file holding `content`; `denied` says
`deny_write_cnt` is not 0, which no read or write changes. -/
def runSpec (denied : Bool) : List UInt8 → List InodeCall → List UInt8 × List InodeReply
  | content, [] => (content, [])
  | content, .read size offset :: calls =>
      let run := runSpec denied content calls
      (run.1, .bytes (readAt content size offset) :: run.2)
  | content, .write buffer size offset :: calls =>
      if denied then
        let run := runSpec denied content calls
        (run.1, .count 0 :: run.2)
      else
        let run := runSpec denied (writeAt content buffer size offset) calls
        (run.1, .count (span content size offset) :: run.2)

/-- A run of calls on the open inode at `addr`. -/
def FS.runInodeCalls (fs : FS) (addr : Nat) : List InodeCall → FS × List InodeReply
  | [] => (fs, [])
  | .read size offset :: calls =>
      let run := fs.runInodeCalls addr calls
      (run.1, .bytes (fs.inodeReadAt addr size offset) :: run.2)
  | .write buffer size offset :: calls =>
      let w := fs.inodeWriteAt addr buffer size offset
      let run := w.1.runInodeCalls addr calls
      (run.1, .count w.2 :: run.2)

/-! ## Where the bytes of a file lie -/

/-- The first byte of an inode's data on the device. -/
def InodeDisk.base (d : InodeDisk) : Nat := d.start * BLOCK_SECTOR_SIZE

/-- The content of an inode: the `length` bytes from the start of its first data sector. -/
def fileBytes (disk : Memory) (d : InodeDisk) : List UInt8 := readBytes disk d.base d.length

@[simp] theorem length_fileBytes (disk : Memory) (d : InodeDisk) :
    (fileBytes disk d).length = d.length := length_readBytes _ _ _

/-- Two inodes whose data sectors share none. -/
def SectorsApart (d d' : InodeDisk) : Prop :=
  d.start + bytesToSectors d.length ≤ d'.start ∨ d'.start + bytesToSectors d'.length ≤ d.start

/-- The bytes of a file lie within its data sectors. -/
theorem length_le_sectors (d : InodeDisk) : d.length ≤ bytesToSectors d.length * BLOCK_SECTOR_SIZE := by
  simp only [bytesToSectors, BLOCK_SECTOR_SIZE]
  omega

/-- `byte_to_sector` puts byte `pos` of the file `pos` bytes after the file's first one. -/
theorem sectorAddr_eq (i : Inode) {pos : Nat} (h : pos < i.data.length) :
    byteToSector i pos * BLOCK_SECTOR_SIZE + pos % BLOCK_SECTOR_SIZE = i.data.base + pos := by
  simp only [byteToSector, if_pos h, InodeDisk.base, BLOCK_SECTOR_SIZE, Nat.add_mul]
  omega

/-! ## One round of the loops -/

/-- Within the file a round moves the bytes left in the request, in the file and in the
sector, whichever are fewest. -/
theorem chunkSize_of_lt (i : Inode) (size : Nat) {offset : Nat} (h : offset < i.data.length) :
    chunkSize i size offset =
      ((min size (min (i.data.length - offset) (BLOCK_SECTOR_SIZE - offset % BLOCK_SECTOR_SIZE)) :
        Nat) : Int) := by
  simp only [chunkSize, BLOCK_SECTOR_SIZE]
  split_ifs <;> omega

/-- At or past the end of the file a round moves nothing, and the loop stops. -/
theorem chunkSize_nonpos (i : Inode) (size : Nat) {offset : Nat} (h : i.data.length ≤ offset) :
    chunkSize i size offset ≤ 0 := by
  simp only [chunkSize, BLOCK_SECTOR_SIZE]
  split_ifs <;> omega

/-- `inode_read_at`'s loop reads the bytes the request covers, in one block from `offset`;
by induction on the rounds, each of which reads the chunk where the previous one ended. -/
theorem readLoop_eq (disk : Memory) (i : Inode) :
    ∀ (fuel size offset : Nat) (acc : List UInt8), size < fuel →
      readLoop disk i fuel size offset acc =
        acc ++ readBytes disk (i.data.base + offset) (min size (i.data.length - offset)) := by
  intro fuel
  induction fuel with
  | zero => intro _ _ _ h; omega
  | succ fuel ih =>
      intro size offset acc hfuel
      unfold readLoop
      by_cases hsize : size > 0
      swap
      · -- nothing asked for
        rw [if_neg hsize, Nat.eq_zero_of_not_pos hsize, Nat.zero_min]
        simp [readBytes]
      rw [if_pos hsize]
      by_cases hend : i.data.length ≤ offset
      · -- at the end of the file
        rw [if_pos (chunkSize_nonpos i size hend), Nat.sub_eq_zero_of_le hend, Nat.min_zero]
        simp [readBytes]
      have hlt : offset < i.data.length := by omega
      rw [chunkSize_of_lt i size hlt]
      set c := min size (min (i.data.length - offset) (BLOCK_SECTOR_SIZE - offset % BLOCK_SECTOR_SIZE))
      have hc : 0 < c := by simp only [c, BLOCK_SECTOR_SIZE]; omega
      have hcs : c ≤ size := by omega
      have hcl : c ≤ i.data.length - offset := by omega
      rw [if_neg (by omega), Int.toNat_natCast, ih _ _ _ (by omega), sectorAddr_eq i hlt,
        List.append_assoc, ← Nat.add_assoc, ← readBytes_add]
      congr 2
      omega

/-- `inode_write_at`'s loop writes the buffer's bytes from `written` over the bytes the
request covers, as one block, and counts them; by induction on the rounds, as for the
read. -/
theorem writeLoop_eq (i : Inode) (buffer : List UInt8) :
    ∀ (fuel : Nat) (disk : Memory) (size offset written : Nat), size < fuel →
      writeLoop i buffer fuel disk size offset written =
        (writeBytes disk (i.data.base + offset)
            ((buffer.drop written).take (min size (i.data.length - offset))),
          written + min size (i.data.length - offset)) := by
  intro fuel
  induction fuel with
  | zero => intro _ _ _ _ h; omega
  | succ fuel ih =>
      intro disk size offset written hfuel
      unfold writeLoop
      by_cases hsize : size > 0
      swap
      · rw [if_neg hsize, Nat.eq_zero_of_not_pos hsize, Nat.zero_min]
        simp
      rw [if_pos hsize]
      by_cases hend : i.data.length ≤ offset
      · rw [if_pos (chunkSize_nonpos i size hend), Nat.sub_eq_zero_of_le hend, Nat.min_zero]
        simp
      have hlt : offset < i.data.length := by omega
      rw [chunkSize_of_lt i size hlt]
      set c := min size (min (i.data.length - offset) (BLOCK_SECTOR_SIZE - offset % BLOCK_SECTOR_SIZE))
      have hc : 0 < c := by simp only [c, BLOCK_SECTOR_SIZE]; omega
      have hcs : c ≤ size := by omega
      have hcl : c ≤ i.data.length - offset := by omega
      rw [if_neg (by omega), Int.toNat_natCast, ih _ _ _ _ (by omega), sectorAddr_eq i hlt,
        ← Nat.add_assoc, ← List.drop_drop, writeBytes_take_drop]
      have hsplit : c + min (size - c) (i.data.length - (offset + c)) =
          min size (i.data.length - offset) := by omega
      rw [hsplit, Nat.add_assoc, hsplit]

/-! ## One call -/

section Calls

variable (fs : FS) {addr : Nat} {i : Inode}

theorem inodeReadAt_eq (hi : fs.inodeAt addr = some i) (size offset : Nat) :
    fs.inodeReadAt addr size offset = FileSpec.readAt (fileBytes fs.disk i.data) size offset := by
  rw [FS.inodeReadAt, hi]
  dsimp only
  rw [readLoop_eq _ _ _ _ _ _ (Nat.lt_succ_self size), List.nil_append, FileSpec.readAt,
    fileBytes, drop_readBytes, take_readBytes]

/-- A write while `deny_write_cnt` is not 0 returns 0 and changes nothing. -/
theorem inodeWriteAt_of_denied (hi : fs.inodeAt addr = some i) (hdeny : i.denyWriteCnt ≠ 0)
    (buffer : List UInt8) (size offset : Nat) :
    fs.inodeWriteAt addr buffer size offset = (fs, 0) := by
  rw [FS.inodeWriteAt, hi]
  dsimp only
  rw [if_pos hdeny]

/-- Otherwise it writes the buffer's first bytes over the bytes the request covers. -/
theorem inodeWriteAt_eq (hi : fs.inodeAt addr = some i) (hdeny : i.denyWriteCnt = 0)
    (buffer : List UInt8) (size offset : Nat) :
    fs.inodeWriteAt addr buffer size offset =
      ({ fs with disk := writeBytes fs.disk (i.data.base + offset) (buffer.take
          (min size (i.data.length - offset))) }, min size (i.data.length - offset)) := by
  rw [FS.inodeWriteAt, hi]
  dsimp only
  rw [if_neg (not_not.mpr hdeny), writeLoop_eq _ _ _ _ _ _ _ (Nat.lt_succ_self size),
    List.drop_zero, Nat.zero_add]

@[simp] theorem openInodes_inodeWriteAt (buffer : List UInt8) (size offset : Nat) :
    (fs.inodeWriteAt addr buffer size offset).1.openInodes = fs.openInodes := by
  unfold FS.inodeWriteAt
  split
  · rfl
  · split
    · rfl
    · rfl

end Calls

/-- The bytes a write covers, read back from the device, are the list model's write. -/
theorem fileBytes_writeBytes (disk : Memory) (d : InodeDisk) (buffer : List UInt8)
    {size : Nat} (offset : Nat) (hbuf : size ≤ buffer.length) :
    fileBytes (writeBytes disk (d.base + offset) (buffer.take (min size (d.length - offset)))) d =
      FileSpec.writeAt (fileBytes disk d) buffer size offset := by
  simp only [FileSpec.writeAt, FileSpec.span, length_fileBytes]
  by_cases hend : d.length ≤ offset
  · -- past the end nothing is written
    rw [Nat.sub_eq_zero_of_le hend, Nat.min_zero, List.take_zero, writeBytes_nil, Nat.add_zero,
      List.take_of_length_le (by simpa using hend), List.drop_of_length_le (by simpa using hend)]
    simp
  · have hlen : (buffer.take (min size (d.length - offset))).length = min size (d.length - offset) := by
      simp only [List.length_take]
      omega
    unfold fileBytes
    rw [readBytes_writeBytes_inside _ _ _ _ _ (by omega), hlen]

/-! ## Runs of reads and writes -/

section Runs

variable {addr : Nat} {i : Inode}

/-- One write on the open inode, in the list model's terms. -/
theorem inodeWriteAt_spec (fs : FS) (hi : fs.inodeAt addr = some i) (hdeny : i.denyWriteCnt = 0)
    {buffer : List UInt8} {size : Nat} (offset : Nat) (hbuf : size ≤ buffer.length) :
    fileBytes (fs.inodeWriteAt addr buffer size offset).1.disk i.data =
        FileSpec.writeAt (fileBytes fs.disk i.data) buffer size offset ∧
      (fs.inodeWriteAt addr buffer size offset).2 =
        FileSpec.span (fileBytes fs.disk i.data) size offset := by
  rw [inodeWriteAt_eq fs hi hdeny]
  exact ⟨fileBytes_writeBytes _ _ _ _ hbuf, by simp [FileSpec.span]⟩

/-- A write changes no byte of the device outside the file. -/
theorem disk_inodeWriteAt_of_not_mem (fs : FS) (hi : fs.inodeAt addr = some i) {x : Nat}
    (hx : x < i.data.base ∨ i.data.base + i.data.length ≤ x) (buffer : List UInt8)
    (size offset : Nat) : (fs.inodeWriteAt addr buffer size offset).1.disk x = fs.disk x := by
  by_cases hdeny : i.denyWriteCnt = 0
  · rw [inodeWriteAt_eq fs hi hdeny]
    simp only [writeBytes, List.length_take]
    rw [if_neg (by omega)]
  · rw [inodeWriteAt_of_denied fs hi hdeny]

/-- Every run of reads and writes on an open inode refines the list model: the same replies,
and the file's bytes on the device end as the model's content. By induction on the calls:
the inode stays as it is, a read returns the model's bytes and a write changes them as the
model does. -/
theorem runInodeCalls_refines (i : Inode) :
    ∀ (fs : FS) (calls : List InodeCall), fs.inodeAt addr = some i → (∀ c ∈ calls, c.Valid) →
      (fileBytes (fs.runInodeCalls addr calls).1.disk i.data, (fs.runInodeCalls addr calls).2) =
        runSpec (i.denyWriteCnt ≠ 0) (fileBytes fs.disk i.data) calls := by
  intro fs calls
  induction calls generalizing fs with
  | nil => intro _ _; rfl
  | cons c calls ih =>
      intro hi hvalid
      have hrest : ∀ c ∈ calls, c.Valid := fun c hc => hvalid c (List.mem_cons_of_mem _ hc)
      cases c with
      | read size offset =>
          simp only [FS.runInodeCalls, runSpec, inodeReadAt_eq fs hi, ← ih fs hi hrest]
      | write buffer size offset =>
          have hi' : (fs.inodeWriteAt addr buffer size offset).1.inodeAt addr = some i := by
            rw [FS.inodeAt, openInodes_inodeWriteAt]
            exact hi
          have ih' := ih _ hi' hrest
          simp only [FS.runInodeCalls, runSpec]
          by_cases hdeny : i.denyWriteCnt = 0
          · -- the write goes through
            obtain ⟨hbytes, hcount⟩ := inodeWriteAt_spec fs hi hdeny offset
              (hvalid _ List.mem_cons_self)
            have hdec : decide (i.denyWriteCnt ≠ 0) = false := by simp [hdeny]
            rw [hbytes, hdec] at ih'
            simp only [hdec, Bool.false_eq_true, if_false, hcount]
            rw [← ih']
          · -- a denied write returns 0 and changes nothing
            have hdec : decide (i.denyWriteCnt ≠ 0) = true := by simp [hdeny]
            rw [inodeWriteAt_of_denied fs hi hdeny] at ih' ⊢
            dsimp only at ih'
            rw [hdec] at ih'
            simp only [hdec, if_true]
            rw [← ih']

/-- No run of reads and writes changes a byte of the device outside the file; by induction
on the calls, from `disk_inodeWriteAt_of_not_mem`. -/
theorem disk_runInodeCalls_of_not_mem (i : Inode) {x : Nat}
    (hx : x < i.data.base ∨ i.data.base + i.data.length ≤ x) :
    ∀ (fs : FS) (calls : List InodeCall), fs.inodeAt addr = some i →
      (fs.runInodeCalls addr calls).1.disk x = fs.disk x := by
  intro fs calls
  induction calls generalizing fs with
  | nil => intro _; rfl
  | cons c calls ih =>
      intro hi
      cases c with
      | read size offset => exact ih fs hi
      | write buffer size offset =>
          have hi' : (fs.inodeWriteAt addr buffer size offset).1.inodeAt addr = some i := by
            rw [FS.inodeAt, openInodes_inodeWriteAt]
            exact hi
          simp only [FS.runInodeCalls]
          rw [ih _ hi', disk_inodeWriteAt_of_not_mem fs hi hx]

/-- The bytes of an inode whose sectors are apart from the file's lie outside the file. -/
theorem not_mem_of_sectorsApart {d d' : InodeDisk} (h : SectorsApart d d') {k : Nat}
    (hk : k < d'.length) : d'.base + k < d.base ∨ d.base + d.length ≤ d'.base + k := by
  have hd := length_le_sectors d
  have hd' := length_le_sectors d'
  simp only [SectorsApart, InodeDisk.base, BLOCK_SECTOR_SIZE] at h hd hd' ⊢
  rcases h with h | h
  · right
    have : (d.start + bytesToSectors d.length) * 512 ≤ d'.start * 512 := Nat.mul_le_mul_right _ h
    rw [Nat.add_mul] at this
    omega
  · left
    have : (d'.start + bytesToSectors d'.length) * 512 ≤ d.start * 512 := Nat.mul_le_mul_right _ h
    rw [Nat.add_mul] at this
    omega

/-- No run of reads and writes changes the content of an inode whose sectors are apart from
the file's. -/
theorem fileBytes_runInodeCalls_of_apart (fs : FS) (calls : List InodeCall) (hi : fs.inodeAt addr = some i)
    {d : InodeDisk} (hapart : SectorsApart i.data d) :
    fileBytes (fs.runInodeCalls addr calls).1.disk d = fileBytes fs.disk d :=
  readBytes_congr fun _ hk =>
    disk_runInodeCalls_of_not_mem i (not_mem_of_sectorsApart hapart hk) fs calls hi

end Runs

/-! ## A new inode reads as zeros -/

theorem readAt_replicate (length size offset : Nat) :
    FileSpec.readAt (List.replicate length 0) size offset =
      List.replicate (min size (length - offset)) 0 := by
  simp [FileSpec.readAt, List.drop_replicate, List.take_replicate]

/-- `inode_create` writes zeros over every data sector of the new inode, so its content is
all zeros. -/
theorem fileBytes_inodeCreate {fs fs' : FS} {sector length : Nat}
    (h : fs.inodeCreate sector length = (fs', true)) :
    ∃ d, fs'.diskInodes sector = some d ∧ d.length = length ∧
      fileBytes fs'.disk d = List.replicate length 0 := by
  unfold FS.inodeCreate at h
  dsimp only at h
  split at h
  · next fs₁ start _ =>
      cases h
      refine ⟨⟨start, length⟩, by simp, rfl, ?_⟩
      -- the content is the first `length` bytes of the zeros written over the sectors
      have hzeros := readBytes_writeBytes_self fs₁.disk (start * BLOCK_SECTOR_SIZE)
        (List.replicate (bytesToSectors length * BLOCK_SECTOR_SIZE) 0)
      rw [List.length_replicate] at hzeros
      have hle : length ≤ bytesToSectors length * BLOCK_SECTOR_SIZE :=
        length_le_sectors ⟨start, length⟩
      have htake := take_readBytes
        (writeBytes fs₁.disk (start * BLOCK_SECTOR_SIZE)
          (List.replicate (bytesToSectors length * BLOCK_SECTOR_SIZE) 0))
        (start * BLOCK_SECTOR_SIZE) (bytesToSectors length * BLOCK_SECTOR_SIZE) length
      rw [Nat.min_eq_left hle, hzeros, List.take_replicate, Nat.min_eq_left hle] at htake
      exact htake.symm
  · cases h

/-- A new inode, opened, reads as zeros. -/
theorem inodeReadAt_inodeCreate {fs fs' : FS} {sector length : Nat}
    (h : fs.inodeCreate sector length = (fs', true))
    (hclosed : fs'.openInodes.find? (·.2.sector = sector) = none) (size offset : Nat) :
    (fs'.inodeOpen sector).1.inodeReadAt (fs'.inodeOpen sector).2 size offset =
      List.replicate (min size (length - offset)) 0 := by
  obtain ⟨d, hd, hlen, hzeros⟩ := fileBytes_inodeCreate h
  rw [inodeOpen_of_find_none hclosed]
  dsimp only
  have hi : FS.inodeAt { fs' with nextAddr := fs'.nextAddr + 1, openInodes :=
      (fs'.nextAddr, ⟨sector, 1, false, 0, (fs'.diskInodes sector).getD ⟨0, 0⟩⟩) ::
        fs'.openInodes } fs'.nextAddr = some ⟨sector, 1, false, 0, d⟩ := by
    simp [FS.inodeAt, hd]
  rw [inodeReadAt_eq _ hi, hzeros, readAt_replicate]

/-! ## The bytes of an open inode over every run -/

theorem inode_byte_semantics (fs : FS) (addr : Nat) (i : Inode) (hi : fs.inodeAt addr = some i)
    (calls : List InodeCall) (hvalid : ∀ c ∈ calls, c.Valid) :
    (fileBytes (fs.runInodeCalls addr calls).1.disk i.data, (fs.runInodeCalls addr calls).2) =
        runSpec (i.denyWriteCnt ≠ 0) (fileBytes fs.disk i.data) calls ∧
      (∀ d, SectorsApart i.data d →
        fileBytes (fs.runInodeCalls addr calls).1.disk d = fileBytes fs.disk d) ∧
      ∀ (fs₀ fs₁ : FS) (sector length size offset : Nat),
        fs₀.inodeCreate sector length = (fs₁, true) →
        fs₁.openInodes.find? (·.2.sector = sector) = none →
        (fs₁.inodeOpen sector).1.inodeReadAt (fs₁.inodeOpen sector).2 size offset =
          List.replicate (min size (length - offset)) 0 :=
  ⟨runInodeCalls_refines i fs calls hi hvalid,
    fun _ hapart => fileBytes_runInodeCalls_of_apart fs calls hi hapart,
    fun _ _ _ _ _ _ h hclosed => inodeReadAt_inodeCreate h hclosed _ _⟩

/-- One open inode, at address 1, whose three bytes start at sector 2 of a device of zeros. -/
def oneInodeFs : FS where
  freeMap := []
  diskInodes := fun _ => none
  disk := fun _ => 0
  dirEntries := fun _ => []
  openInodes := [(1, ⟨5, 1, false, 0, ⟨2, 3⟩⟩)]
  files := []
  dirs := []
  nextAddr := 2
  freeMapFile := none
  panicked := false

/-- Two bytes written at offset 1 of the three-byte file, then a read of five bytes from 0:
the write covers both bytes and the read stops at the end of the file. -/
theorem inode_byte_semantics_write_then_read :
    (oneInodeFs.runInodeCalls 1 [.write [7, 8] 2 1, .read 5 0]).2 = [.count 2, .bytes [0, 7, 8]] := by
  have h := (inode_byte_semantics oneInodeFs 1 ⟨5, 1, false, 0, ⟨2, 3⟩⟩ rfl
    [.write [7, 8] 2 1, .read 5 0] (by simp [InodeCall.Valid])).1
  rw [Prod.ext_iff] at h
  rw [h.2]
  decide

end Pintos.Filesys
