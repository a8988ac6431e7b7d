import Mathlib

/-!
# Virtual addresses

The constants and predicates of `threads/vaddr.h` and `threads/loader.h` on 32-bit
virtual addresses, which are modelled by `Nat` below `2^32`. The `ASSERT`s of `ptov` and
`vtop` (the address is below, or at or above, `PHYS_BASE`) are checked by their callers
where a caller's argument can break them.
-/

set_option autoImplicit false

namespace Pintos

/-- `PGBITS`: number of offset bits in an address. -/
def PGBITS : Nat := 12

/-- `PGSIZE`: bytes in a page. -/
def PGSIZE : Nat := 2 ^ PGBITS

/-- `LOADER_PHYS_BASE`, `PHYS_BASE`: the base of kernel virtual memory (3 GB). -/
def PHYS_BASE : Nat := 0xc0000000

/-- `is_user_vaddr`: below `PHYS_BASE`. -/
def isUserVaddr (vaddr : Nat) : Bool :=
  decide (vaddr < PHYS_BASE)

/-- `pg_ofs`: the offset within the page. -/
def pgOfs (va : Nat) : Nat :=
  va % PGSIZE

/-- `pg_round_down`: the start of the page. -/
def pgRoundDown (va : Nat) : Nat :=
  va - va % PGSIZE

/-- `pg_no`: the virtual page number. -/
def pgNo (va : Nat) : Nat :=
  va >>> PGBITS

/-- `ptov`: the kernel virtual address at which physical address `paddr` is mapped. -/
def ptov (paddr : Nat) : Nat :=
  paddr + PHYS_BASE

/-- `vtop`: the physical address of kernel virtual address `vaddr`. -/
def vtop (vaddr : Nat) : Nat :=
  vaddr - PHYS_BASE

theorem pgOfs_lt (va : Nat) : pgOfs va < PGSIZE := Nat.mod_lt _ (by decide)

@[simp] theorem PGSIZE_eq : PGSIZE = 4096 := rfl

@[simp] theorem PHYS_BASE_eq : PHYS_BASE = 3221225472 := rfl

end Pintos
