import Pintos.Model.Memmove

/-!
# `memmove` copies overlapping regions, and returns the end of an upward copy

What `memmove (dst, src, n)` is for: the memory with the `n` bytes read at `src` written at
`dst`, `writeBytes m dst (readBytes m src n)`, every byte outside `dst .. dst + n` as it
was. Both loops compute it in the overlap they are chosen for: the upward loop writes
byte `i` of the destination before it reads byte `i + 1` of the source, which lies above
what was written when `dst ≤ src` (`copyUp_eq`); the downward loop reads and writes from
the top, and the bytes it has written lie above the source bytes still to read when
`src ≤ dst` (`copyDown_eq`). So `memmove` copies in every overlap and order
(`memmove_eq`).

The pointer it returns is its cursor, not `dst_`: the downward loop brings the cursor back
to `dst`, the upward loop leaves it at `dst + n`. `string.h` promises `dst`; the one
caller in the kernel, `vga.c`'s scroll, ignores the result.
-/

set_option autoImplicit false

namespace Pintos.Str

open ByteMemory

/-- The copy of the `n` bytes at `src` to `dst`, read byte by byte. -/
theorem writeBytes_readBytes_apply (m : Memory) (dst src n a : Nat) :
    writeBytes m dst (readBytes m src n) a =
      if dst ≤ a ∧ a < dst + n then m (src + (a - dst)) else m a := by
  unfold writeBytes
  rw [length_readBytes]
  split_ifs with h
  · rw [List.getD_eq_getElem _ _ (by rw [length_readBytes]; omega), getElem_readBytes]
  · rfl

/-- The upward loop, with the destination at or below the source, copies the region and
leaves the cursor at its end. By induction on the count: after the first byte the rest is
the same copy one byte up, and the first write lies below every source byte still to
read. -/
theorem copyUp_eq (m : Memory) (n : Nat) : ∀ (dst src : Nat), dst ≤ src →
    copyUp m n dst src = (writeBytes m dst (readBytes m src n), dst + n) := by
  induction n generalizing m with
  | zero =>
      intro dst src _
      simp [copyUp, readBytes]
  | succ n ih =>
      intro dst src hle
      rw [copyUp, ih _ (dst + 1) (src + 1) (by omega)]
      refine Prod.ext ?_ (by simp only; omega)
      funext a
      simp only [writeBytes_readBytes_apply, Function.update_apply]
      by_cases ha : a = dst
      · subst ha
        simp
      · -- the source byte read for `a` is not the byte written first
        by_cases hin : dst + 1 ≤ a ∧ a < dst + 1 + n
        · have hne : src + 1 + (a - (dst + 1)) ≠ dst := by omega
          have hin' : dst ≤ a ∧ a < dst + (n + 1) := by omega
          rw [if_pos hin, if_neg hne, if_pos hin']
          congr 1
          omega
        · have hout : ¬(dst ≤ a ∧ a < dst + (n + 1)) := by omega
          rw [if_neg hin, if_neg ha, if_neg hout]

/-- The downward loop, from cursors at the ends and with the source at or below the
destination, copies the region and brings the cursor back to `dst`. By induction on the
count: the top byte is written first, and every source byte still to read lies below
it. -/
theorem copyDown_eq (m : Memory) (n : Nat) : ∀ (dst src : Nat), src ≤ dst →
    copyDown m n (dst + n) (src + n) = (writeBytes m dst (readBytes m src n), dst) := by
  induction n generalizing m with
  | zero =>
      intro dst src _
      simp [copyDown, readBytes]
  | succ n ih =>
      intro dst src hle
      have hd : dst + (n + 1) - 1 = dst + n := by omega
      have hs : src + (n + 1) - 1 = src + n := by omega
      rw [copyDown, hd, hs, ih _ dst src hle]
      refine Prod.ext ?_ rfl
      funext a
      simp only [writeBytes_readBytes_apply, Function.update_apply]
      by_cases ha : a = dst + n
      · -- the top byte: written first, and never again
        subst ha
        have hout : ¬(dst ≤ dst + n ∧ dst + n < dst + n) := by omega
        have hin : dst ≤ dst + n ∧ dst + n < dst + (n + 1) := by omega
        rw [if_neg hout, if_pos rfl, if_pos hin]
        congr 1
        omega
      · by_cases hin : dst ≤ a ∧ a < dst + n
        · have hne : src + (a - dst) ≠ dst + n := by omega
          have hin' : dst ≤ a ∧ a < dst + (n + 1) := by omega
          rw [if_pos hin, if_neg hne, if_pos hin']
        · have hout : ¬(dst ≤ a ∧ a < dst + (n + 1)) := by omega
          rw [if_neg hin, if_neg ha, if_neg hout]

/-- `memmove` with pointers that are not `NULL` (or nothing to copy) copies the region, in
every overlap and order, and returns `dst + n` after an upward copy, `dst` after a
downward one. -/
theorem memmove_eq (m : Memory) (dst src n : Nat) (hdst : dst ≠ 0 ∨ n = 0)
    (hsrc : src ≠ 0 ∨ n = 0) :
    memmove m dst src n =
      some (writeBytes m dst (readBytes m src n), if dst < src then dst + n else dst) := by
  have hok : ¬((dst = 0 ∧ n ≠ 0) ∨ (src = 0 ∧ n ≠ 0)) := by omega
  unfold memmove
  rw [if_neg hok]
  split_ifs with hlt
  · rw [copyUp_eq m n dst src hlt.le]
  · rw [copyDown_eq m n dst src (by omega)]

/-- What `memmove` returns, when it returns: its `ASSERT`s held, so it is the copy. -/
theorem memmove_some {m m' : Memory} {dst src n r : Nat}
    (h : memmove m dst src n = some (m', r)) :
    m' = writeBytes m dst (readBytes m src n) ∧ r = if dst < src then dst + n else dst := by
  have hok : (dst ≠ 0 ∨ n = 0) ∧ (src ≠ 0 ∨ n = 0) := by
    unfold memmove at h
    split_ifs at h with hbad
    all_goals omega
  rw [memmove_eq m dst src n hok.1 hok.2] at h
  exact Prod.mk.inj (Option.some.inj h).symm

/-- After `memmove`, the `n` bytes at `dst` are the `n` bytes that were at `src`. -/
theorem readBytes_memmove {m m' : Memory} {dst src n r : Nat}
    (h : memmove m dst src n = some (m', r)) : readBytes m' dst n = readBytes m src n := by
  have hself := readBytes_writeBytes_self m dst (readBytes m src n)
  rw [length_readBytes] at hself
  rw [(memmove_some h).1, hself]

/-- `memmove` changes no byte outside `dst .. dst + n`. -/
theorem memmove_frame {m m' : Memory} {dst src n r : Nat}
    (h : memmove m dst src n = some (m', r)) (a : Nat) (ha : a < dst ∨ dst + n ≤ a) :
    m' a = m a := by
  rw [(memmove_some h).1, writeBytes_readBytes_apply, if_neg (by omega)]

/-- One byte moved down by one: `memmove (1, 2, 1)` copies the byte and returns 2, not
`dst`. -/
theorem memmove_down_one_returns_end (m : Memory) :
    memmove m 1 2 1 = some (Function.update m 1 (m 2), 2) := by
  rw [memmove_eq m 1 2 1 (by omega) (by omega), if_pos (by omega)]
  congr 2
  funext a
  rw [writeBytes_readBytes_apply, Function.update_apply]
  by_cases ha : a = 1
  · subst ha
    rfl
  · rw [if_neg (by omega), if_neg ha]

end Pintos.Str
