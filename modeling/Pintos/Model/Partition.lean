import Mathlib.Data.List.GetD

/-!
# Partition tables

`devices/partition.c`: `partition_scan` reads the partition table of a block device and
follows its extended partitions, registering every other non-empty partition that lies
within the device.

A block device is its `block_size` and the contents of its sectors. A partition table is
parsed from its sector as the packed `struct partition_table`: four 16-byte entries from
byte 446, each with its type at byte 4 and its little-endian `offset` and `size` at bytes
8 and 12, and the signature at byte 510. `block_sector_t` is `UInt32`, so `e->offset +
sector` wraps as in the compiled code.

`read_partition_table` recurses on extended partitions with no bound of its own; here a
`fuel` argument bounds the depth of the recursion, and `none` says it ran out. The
messages it prints and the names it gives partitions are left out.
-/

set_option autoImplicit false

namespace Pintos.Partition

/-- A block device: `block_size (block)` and what `block_read` reads from each sector. -/
structure Block where
  size : UInt32
  sectors : Nat → List UInt8

def byteAt (s : List UInt8) (i : Nat) : UInt8 := s.getD i 0

/-- A little-endian `uint16_t` at byte `i`. -/
def le16 (s : List UInt8) (i : Nat) : UInt16 :=
  (byteAt s i).toUInt16 ||| (byteAt s (i + 1)).toUInt16 <<< 8

/-- A little-endian `uint32_t` at byte `i`. -/
def le32 (s : List UInt8) (i : Nat) : UInt32 :=
  (byteAt s i).toUInt32 ||| (byteAt s (i + 1)).toUInt32 <<< 8 |||
    (byteAt s (i + 2)).toUInt32 <<< 16 ||| (byteAt s (i + 3)).toUInt32 <<< 24

/-- The fields of a `struct partition_table_entry` that `read_partition_table` reads. -/
structure Entry where
  type : UInt8
  offset : UInt32
  size : UInt32
  deriving DecidableEq, Repr

/-- `pt->partitions[i]`. -/
def entryAt (pt : List UInt8) (i : Nat) : Entry :=
  let b := 446 + 16 * i
  ⟨byteAt pt (b + 4), le32 pt (b + 8), le32 pt (b + 12)⟩

/-- `pt->signature`. -/
def signature (pt : List UInt8) : UInt16 := le16 pt 510

/-- The extended partition types (partition.c:109-112). -/
def isExtended (type : UInt8) : Bool :=
  type == 0x05 || type == 0x0f || type == 0x85 || type == 0xc5

/-- A partition that `found_partition` passes to `block_register`: its `part_nr`, type,
start and size. -/
structure Registered where
  partNr : Int
  type : UInt8
  start : UInt32
  size : UInt32
  deriving DecidableEq, Repr

/-- `found_partition` (partition.c:150-183): the partitions it registers. -/
def foundPartition (block : Block) (partType : UInt8) (start size : UInt32) (partNr : Int) :
    List Registered :=
  if start ≥ block.size then []
  else if start + size < start ∨ start + size > block.size then []
  else [⟨partNr, partType, start, size⟩]

/-- `read_partition_table (block, sector, primary_extended_sector, part_nr)`
(partition.c:49-143): the partitions registered and the final `*part_nr`. -/
def readPartitionTable : Nat → Block → UInt32 → UInt32 → Int → Option (List Registered × Int)
  | 0, _, _, _, _ => none
  | fuel + 1, block, sector, primaryExtendedSector, partNr =>
      if sector ≥ block.size then some ([], partNr)
      else
        -- `block_read (block, 0, pt)`: sector 0, whatever `sector` is
        let pt := block.sectors 0
        if signature pt ≠ 0xaa55 then some ([], partNr)
        else
          -- `for (i = 0; i < 4; i++)`, with `*part_nr` carried along
          List.foldlM (fun (acc : List Registered × Int) i =>
            let e := entryAt pt i
            if e.size = 0 ∨ e.type = 0 then some acc
            else if isExtended e.type then
              let next :=
                if sector = 0 then readPartitionTable fuel block e.offset e.offset acc.2
                else
                  readPartitionTable fuel block (e.offset + primaryExtendedSector)
                    primaryExtendedSector acc.2
              next.map fun r => (acc.1 ++ r.1, r.2)
            else
              let nr := acc.2 + 1
              some (acc.1 ++ foundPartition block e.type (e.offset + sector) e.size nr, nr))
            ([], partNr) (List.range 4)

/-- `partition_scan (block)` (partition.c:27-33): the partitions registered. -/
def partitionScan (fuel : Nat) (block : Block) : Option (List Registered) :=
  (readPartitionTable fuel block 0 0 0).map Prod.fst

end Pintos.Partition
