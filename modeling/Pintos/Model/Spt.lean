import Pintos.Model.Hash
import Pintos.Model.Frame

/-!
# The supplemental page table as a hash table (`vm/page.c`)

A thread's supplemental page table is a `struct hash` of `supplemental_page_table_entry`s
keyed by `upage`: `spt_hash_hash_func` hashes the key with `hash_int` and `spt_hash_less_func`
compares keys. An element is the pair of its `upage` and the rest of the entry (`Spte`);
`Proc.spt` of the VM model is the same table as an association list. This module has the
calls on the table that `vm/page.c` and `munmap` make, over the model of `lib/kernel/hash.c`.
The lock around each call is left out: the calls of one thread's table do not interleave here.
-/

set_option autoImplicit false

namespace Pintos.Vm

open HashTable

/-- A `struct supplemental_page_table_entry` in the table: its `upage` and the rest of it. -/
abbrev SptElem : Type := Σ _ : Nat, Spte

/-- `spt_hash_hash_func`: `hash_int` of the entry's `upage`. -/
def sptHashHashFunc (e : SptElem) : UInt32 := hashInt e.1.toUInt32

/-- `spt_hash_less_func`. -/
def sptHashLessFunc (a b : SptElem) : Bool := decide (a.1 < b.1)

namespace SptHash

/-- `spt_init`: `hash_init` with the two functions, `none` when its `malloc` fails (the source
does not look at the result of `hash_init`). -/
def sptInit (ok : Bool) : Option (Hash SptElem) := hashInit sptHashHashFunc sptHashLessFunc ok

/-- What stands in `hash_finder` besides `upage`: the source leaves these fields
uninitialised, and neither `spt_hash_hash_func` nor `spt_hash_less_func` reads them. -/
def finderFields : Spte := ⟨none, .notLoaded, none, 0, 0, 0, false, false, 0⟩

/-- `find_spte (t, vaddr)` on the thread's table. -/
def findSpte (spt : Hash SptElem) (vaddr : Nat) : Option Spte :=
  (hashFind spt ⟨vaddr, finderFields⟩).map Sigma.snd

/-- The table part of `insert_unmapped_spte`: `hash_insert` of the new entry, and `true` when it
returned `NULL`; otherwise the new entry is freed. `ok` is the outcome of the `malloc` of
`rehash`. -/
def insertUnmappedSpte (spt : Hash SptElem) (upage : Nat) (spte : Spte) (ok : Bool) :
    Hash SptElem × Bool :=
  let r := hashInsert spt ⟨upage, spte⟩ ok
  (r.1, r.2.isNone)

/-- A store through the pointer `find_spte` gave for `upage` (in `load_file_page` and on
eviction): the entry becomes `spte` where it stands in its bucket; `upage` is not written. -/
def writeSpte (spt : Hash SptElem) (upage : Nat) (spte : Spte) : Hash SptElem :=
  { spt with buckets := spt.buckets.map (List.map fun e => if e.1 = upage then ⟨upage, spte⟩ else e) }

/-- The table part of a round of `munmap`'s loop: `hash_delete` of the entry `find_spte` found
for `vaddr`, which is returned. `hash_delete` compares by `upage` alone, so the entry is given
by its key; where `find_spte` gave `NULL` the source passes a bad pointer, and here nothing is
found. -/
def deleteSpte (spt : Hash SptElem) (vaddr : Nat) (ok : Bool) : Hash SptElem × Option Spte :=
  let r := hashDelete spt ⟨vaddr, finderFields⟩ ok
  (r.1, r.2.map Sigma.snd)

/-- `hash_destroy_func`: the swap slot of an entry in swap is destroyed; the entry is freed. -/
def hashDestroyFunc (vm : State) (e : SptElem) : State :=
  if e.2.status = .inSwap then vm.destroySwapSlot e.2.swapIndex else vm

/-- `destroy_spt (spt)`: `hash_destroy` with `hash_destroy_func`, which `hash_clear` calls on
each entry; the bucket array is freed. -/
def destroySpt (vm : State) (spt : Hash SptElem) : State :=
  hashClearDestructor spt hashDestroyFunc vm

end SptHash

end Pintos.Vm
