import Pintos.Lib.ByteMemory
import Pintos.Lib.Runs
import Pintos.Model.Vaddr

/-!
# What a user program's `main` receives

The contract between argument passing and a C program (the 80x86 calling convention of
the Pintos documentation): on entry `esp` points at a return address, `esp + 4` holds
`argc` and `esp + 8` holds `argv`, an array of `argc` pointers to NUL-terminated strings
followed by a null pointer. `decodeMain` reads the arguments as
`main (int argc, char **argv)` does; it reads a string for at most a page, since the
command line it came from had to fit in one.

The arguments of a command line are its maximal runs of non-space characters,
`spaceRuns`: this is what the shell-like splitting at `' '` is meant to produce, stated
without `strtok_r`.
-/

set_option autoImplicit false

namespace Pintos.MainArgs

open ByteMemory

/-- The argument separator `' '`. -/
def isSpace (c : UInt8) : Bool :=
  c == 32

/-- The arguments of a command line: its maximal runs of non-space characters. -/
def spaceRuns (s : List UInt8) : List (List UInt8) :=
  Runs.runs isSpace s

/-- The NUL-terminated string at `p`, when its terminator comes within `fuel` bytes. -/
def readCStr (m : Memory) : Nat → Nat → Option (List UInt8)
  | _, 0 => none
  | p, fuel + 1 => if m p = 0 then some [] else (readCStr m (p + 1) fuel).map (m p :: ·)

/-- The strings `argv[0 .. argc)`, whose pointers are the words from `base` on. -/
def readArgs (m : Memory) (base : Nat) : Nat → Option (List (List UInt8))
  | 0 => some []
  | argc + 1 => do
      let w ← readCStr m (readWord m base) PGSIZE
      let ws ← readArgs m (base + 4) argc
      pure (w :: ws)

/-- The arguments `main` finds below the stack pointer `esp`: `argc = *(int *) (esp + 4)`
strings through `argv = *(char ***) (esp + 8)`. -/
def decodeMain (m : Memory) (esp : Nat) : Option (List (List UInt8)) :=
  readArgs m (readWord m (esp + 8)) (readWord m (esp + 4))

/-- A string whose bytes and terminator lie at `p` reads back, given room for it. -/
theorem readCStr_of_bytes (m : Memory) (w : List UInt8) (p fuel : Nat)
    (hbytes : ∀ j < w.length, m (p + j) = w.getD j 0) (hnul : (0 : UInt8) ∉ w)
    (hend : m (p + w.length) = 0) (hfuel : w.length < fuel) :
    readCStr m p fuel = some w := by
  induction w generalizing p fuel with
  | nil =>
      obtain ⟨f, rfl⟩ : ∃ f, fuel = f + 1 := ⟨fuel - 1, by simp at hfuel; omega⟩
      simpa [readCStr] using hend
  | cons c w ih =>
      obtain ⟨f, rfl⟩ : ∃ f, fuel = f + 1 := ⟨fuel - 1, by simp at hfuel; omega⟩
      have hc : m p = c := by simpa using hbytes 0 (by simp)
      have hc0 : c ≠ 0 := fun h => hnul (by simp [h])
      have hrest : readCStr m (p + 1) f = some w := by
        apply ih (p + 1) f
        · intro j hj
          simpa [Nat.add_assoc, Nat.add_comm 1 j] using hbytes (j + 1) (by simp; omega)
        · exact fun h => hnul (List.mem_cons_of_mem c h)
        · simpa [Nat.add_assoc, Nat.add_comm 1] using hend
        · simp at hfuel
          omega
      simp [readCStr, hc, hc0, hrest]

/-- `argv` decodes to `ws` when each of its words points at the matching string. -/
theorem readArgs_of_strings (m : Memory) (ws : List (List UInt8)) (base : Nat)
    (h : ∀ i < ws.length, readCStr m (readWord m (base + 4 * i)) PGSIZE = some (ws.getD i [])) :
    readArgs m base ws.length = some ws := by
  induction ws generalizing base with
  | nil => rfl
  | cons w ws ih =>
      have hhead : readCStr m (readWord m base) PGSIZE = some w := by
        simpa using h 0 (by simp)
      have htail : readArgs m (base + 4) ws.length = some ws := by
        apply ih (base + 4)
        intro i hi
        have hi' := h (i + 1) (by simp; omega)
        rwa [show base + 4 * (i + 1) = base + 4 + 4 * i by omega, List.getD_cons_succ] at hi'
      rw [List.length_cons, readArgs, hhead, htail]
      rfl

end Pintos.MainArgs
