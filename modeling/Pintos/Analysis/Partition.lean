import Pintos.Model.Partition
import Mathlib.Tactic.SplitIfs

/-!
# Partition scanning

Two results about `partition_scan`.

* Every partition it registers lies within the device, on every device and at every depth
  of recursion (`within_of_readPartitionTable`): `found_partition` checks the start, the
  end and the overflow of `start + size`, and `read_partition_table` only collects what
  `found_partition` returns.
* It need not terminate. `read_partition_table` reads sector 0 whatever sector it was
  asked to read, so a master boot record holding an extended partition at sector 10 is
  read again at sector 10, which sends it on to sector `10 + 10` and from there back to
  sector 20 for good: the scan runs out of every amount of fuel
  (`extended_mbr_scan_never_ends`).
-/

set_option autoImplicit false

namespace Pintos.Partition

/-! ## What is registered lies within the device -/

/-- A registered partition lies within the device: it starts before its end, and
`start + size` does not go past it. -/
def Within (block : Block) (r : Registered) : Prop :=
  r.start < block.size ∧ r.start.toNat + r.size.toNat ≤ block.size.toNat

theorem within_foundPartition (block : Block) (partType : UInt8) (start size : UInt32)
    (partNr : Int) : ∀ r ∈ foundPartition block partType start size partNr, Within block r := by
  unfold foundPartition
  split_ifs with hstart hend
  · simp
  · simp
  · -- the checks passed: `start + size` did not wrap, and ends within the device
    simp only [List.mem_singleton, forall_eq]
    show start < block.size ∧ start.toNat + size.toNat ≤ block.size.toNat
    rw [UInt32.not_le] at hstart
    rw [not_or, UInt32.not_lt, UInt32.not_lt, UInt32.le_iff_toNat_le, UInt32.le_iff_toNat_le,
      UInt32.toNat_add] at hend
    refine ⟨hstart, ?_⟩
    have hs := size.toNat_lt
    omega

/-- A fold in `Option` keeps every property its step keeps. -/
theorem foldlM_option_inv {α β : Type} (P : β → Prop) (f : β → α → Option β)
    (hf : ∀ b a b', P b → f b a = some b' → P b') :
    ∀ (l : List α) (b b' : β), P b → l.foldlM f b = some b' → P b' := by
  intro l
  induction l with
  | nil =>
      intro b b' hb h
      simp only [List.foldlM_nil, pure, Option.some.injEq] at h
      exact h ▸ hb
  | cons a l ih =>
      intro b b' hb h
      rw [List.foldlM_cons] at h
      obtain ⟨c, hc, hrest⟩ := Option.bind_eq_some_iff.mp h
      exact ih c b' (hf b a c hb hc) hrest

/-- Every partition `read_partition_table` registers lies within the device; by induction
on the depth of recursion, with the fold over the four entries keeping it. -/
theorem within_of_readPartitionTable (block : Block) :
    ∀ (fuel : Nat) (sector pes : UInt32) (partNr : Int) (regs : List Registered) (nr : Int),
      readPartitionTable fuel block sector pes partNr = some (regs, nr) →
      ∀ r ∈ regs, Within block r := by
  intro fuel
  induction fuel with
  | zero => intro _ _ _ _ _ h; cases h
  | succ fuel ih =>
      intro sector pes partNr regs nr h
      unfold readPartitionTable at h
      by_cases hsector : sector ≥ block.size
      · rw [if_pos hsector] at h
        cases h
        simp
      rw [if_neg hsector] at h
      dsimp only at h
      by_cases hsig : signature (block.sectors 0) ≠ 0xaa55
      · rw [if_pos hsig] at h
        cases h
        simp
      rw [if_neg hsig] at h
      -- each of the four entries keeps every collected partition within the device
      refine foldlM_option_inv (fun acc : List Registered × Int => ∀ r ∈ acc.1, Within block r)
        _ ?_ _ _ _ (by simp) h
      intro acc i acc' hacc hstep
      by_cases hempty : (entryAt (block.sectors 0) i).size = 0 ∨
          (entryAt (block.sectors 0) i).type = 0
      · rw [if_pos hempty] at hstep
        cases hstep
        exact hacc
      rw [if_neg hempty] at hstep
      by_cases hext : isExtended (entryAt (block.sectors 0) i).type = true
      · -- an extended entry: what the recursive call registers
        rw [if_pos hext] at hstep
        obtain ⟨r, hr, rfl⟩ := Option.map_eq_some_iff.mp hstep
        have hnext : ∀ r' ∈ r.1, Within block r' := by
          by_cases hz : sector = 0
          · rw [if_pos hz] at hr
            exact ih _ _ _ _ _ hr
          · rw [if_neg hz] at hr
            exact ih _ _ _ _ _ hr
        intro r' hr'
        rcases List.mem_append.mp hr' with h1 | h2
        · exact hacc r' h1
        · exact hnext r' h2
      · -- any other entry: what `found_partition` registers
        rw [if_neg hext] at hstep
        cases hstep
        intro r' hr'
        rcases List.mem_append.mp hr' with h1 | h2
        · exact hacc r' h1
        · exact within_foundPartition _ _ _ _ _ r' h2

/-! ## A master boot record that is read for ever -/

/-- A master boot record whose first entry is an extended partition (type `0x05`) at
sector 10, one sector long, and whose other entries are empty. -/
def extendedMbr : List UInt8 :=
  List.replicate 450 0 ++ [5, 0, 0, 0, 10, 0, 0, 0, 1, 0, 0, 0] ++ List.replicate 48 0 ++
    [0x55, 0xaa]

/-- A device of 100 sectors with that record in sector 0 and zeros elsewhere. -/
def extendedDisk : Block :=
  ⟨100, fun s => if s = 0 then extendedMbr else List.replicate 512 0⟩

theorem signature_extendedMbr : signature extendedMbr = 0xaa55 := by
  decide +kernel

theorem entries_extendedMbr :
    entryAt extendedMbr 0 = ⟨5, 10, 1⟩ ∧ entryAt extendedMbr 1 = ⟨0, 0, 0⟩ ∧
      entryAt extendedMbr 2 = ⟨0, 0, 0⟩ ∧ entryAt extendedMbr 3 = ⟨0, 0, 0⟩ := by
  decide +kernel

/-- One level of `read_partition_table` on the device: whatever sector it was given, it
follows the extended entry of sector 0. -/
theorem readPartitionTable_extendedDisk (fuel : Nat) {sector : UInt32} (hs : sector < 100)
    (pes : UInt32) (partNr : Int) :
    readPartitionTable (fuel + 1) extendedDisk sector pes partNr =
      if sector = 0 then readPartitionTable fuel extendedDisk 10 10 partNr
      else readPartitionTable fuel extendedDisk (10 + pes) pes partNr := by
  obtain ⟨h0, h1, h2, h3⟩ := entries_extendedMbr
  have hge : ¬ sector ≥ extendedDisk.size := UInt32.not_le.mpr hs
  have hpt : extendedDisk.sectors 0 = extendedMbr := rfl
  have hsig : ¬ signature (extendedDisk.sectors 0) ≠ 0xaa55 := by
    rw [hpt, signature_extendedMbr]
    exact fun h => h rfl
  rw [readPartitionTable, if_neg hge]
  dsimp only
  rw [if_neg hsig, hpt]
  have hfull : ¬((1 : UInt32) = 0 ∨ (5 : UInt8) = 0) := by decide
  have hext : isExtended 5 = true := rfl
  simp only [show List.range 4 = [0, 1, 2, 3] from rfl, List.foldlM_cons, List.foldlM_nil, h0, h1,
    h2, h3, if_neg hfull, hext, if_true, true_or]
  -- the first entry is followed; the three empty ones leave its result as it is
  by_cases hz : sector = 0
  · rw [if_pos hz]
    cases readPartitionTable fuel extendedDisk 10 10 partNr <;> rfl
  · rw [if_neg hz]
    cases readPartitionTable fuel extendedDisk (10 + pes) pes partNr <;> rfl

/-- From sector 20 the scan only ever comes back to sector 20. -/
theorem readPartitionTable_extendedDisk_twenty (fuel : Nat) (partNr : Int) :
    readPartitionTable fuel extendedDisk 20 10 partNr = none := by
  induction fuel with
  | zero => rfl
  | succ fuel ih =>
      rw [readPartitionTable_extendedDisk fuel (by decide), if_neg (by decide)]
      exact ih

/-- `partition_scan` on the device runs out of every amount of fuel: sector 0 sends it to
sector 10, which is read as sector 0 again and sends it to sector 20, for good. -/
theorem extended_mbr_scan_never_ends (fuel : Nat) : partitionScan fuel extendedDisk = none := by
  unfold partitionScan
  match fuel with
  | 0 => rfl
  | 1 =>
      rw [readPartitionTable_extendedDisk 0 (by decide), if_pos rfl]
      rfl
  | fuel + 2 =>
      rw [readPartitionTable_extendedDisk (fuel + 1) (by decide), if_pos rfl,
        readPartitionTable_extendedDisk fuel (by decide), if_neg (by decide)]
      rw [show (10 + 10 : UInt32) = 20 from rfl, readPartitionTable_extendedDisk_twenty]
      rfl

end Pintos.Partition
