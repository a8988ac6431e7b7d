import Pintos.Model.CommandLine
import Mathlib

/-!
# `read_command_line` stores past the end of `argv`

`argv` has `LOADER_ARGS_LEN / 2 + 1` slots, room for as many words as the area holds if
every word takes two bytes, one byte and its terminator. The loop only checks the cursor
against the end of the area, and every word it stores takes at least one byte, so what
bounds the stores is the area, not `argv`: each iteration stores at the next index
(`readWords_indices`) a pointer inside the area (`readWords_lt`). An area of empty words,
all `'\0'`, lets the loop run once per byte (`readWords_empty`), so a count of up to
`LOADER_ARGS_LEN` passes the check and every count above `LOADER_ARGS_LEN / 2` stores past
the last slot (`readCommandLine_empty`). A count of `2^31` or more turns negative in the
`int`, the loop does not run, and `NULL` goes to a negative index.
-/

set_option autoImplicit false

namespace Pintos.Init

/-- Every iteration that does not panic stores at the next index. -/
theorem readWords_indices (args : List UInt8) (n : Nat) :
    ∀ (i p : Nat) (ws : List (Int × Option Nat)), readWords args n i p = some ws →
      ws.map Prod.fst = (List.range n).map fun k => ((i + k : Nat) : Int) := by
  induction n with
  | zero =>
      intro i p ws h
      simp only [readWords, Option.some.injEq] at h
      simp [← h]
  | succ n ih =>
      intro i p ws h
      simp only [readWords] at h
      split_ifs at h with hp
      obtain ⟨ws', hrest, rfl⟩ := Option.map_eq_some_iff.mp h
      rw [List.map_cons, ih _ _ ws' hrest, List.range_succ_eq_map, List.map_cons,
        List.map_map]
      congr 1
      apply List.map_congr_left
      intro k _
      simp only [Function.comp_apply]
      omega

/-- Every pointer stored lies inside the area: the loop panics before it stores one at the
end. -/
theorem readWords_lt (args : List UInt8) (n : Nat) :
    ∀ (i p : Nat) (ws : List (Int × Option Nat)), readWords args n i p = some ws →
      ∀ w ∈ ws, ∀ q, w.2 = some q → q < LOADER_ARGS_LEN := by
  induction n with
  | zero =>
      intro i p ws h w hw
      simp only [readWords, Option.some.injEq] at h
      simp [← h] at hw
  | succ n ih =>
      intro i p ws h w hw q hq
      simp only [readWords] at h
      split_ifs at h with hp
      obtain ⟨ws', hrest, rfl⟩ := Option.map_eq_some_iff.mp h
      rcases List.mem_cons.mp hw with rfl | hw
      · simp only [Option.some.injEq] at hq
        omega
      · exact ih _ _ ws' hrest w hw q hq

/-- In an area of `'\0'` bytes every word is empty: the loop stores the cursor and moves
it by one, as long as it is inside the area. -/
theorem readWords_empty (n : Nat) :
    ∀ (i p : Nat), p + n ≤ LOADER_ARGS_LEN →
      readWords (List.replicate LOADER_ARGS_LEN 0) n i p =
        some ((List.range n).map fun k => (((i + k : Nat) : Int), some (p + k))) := by
  induction n with
  | zero =>
      intro i p _
      rfl
  | succ n ih =>
      intro i p hp
      have hlt : ¬(p ≥ LOADER_ARGS_LEN) := by omega
      -- the byte at the cursor is the terminator of an empty word
      have hlen : strnlen ((List.replicate LOADER_ARGS_LEN (0 : UInt8)).drop p)
          (LOADER_ARGS_LEN - p) = 0 := by
        rw [List.drop_replicate]
        cases h : LOADER_ARGS_LEN - p with
        | zero => omega
        | succ m => simp [List.replicate_succ, strnlen]
      rw [readWords, if_neg hlt, hlen, ih (i + 1) (p + 0 + 1) (by omega)]
      simp only [Option.map_some, Option.some.injEq]
      rw [List.range_succ_eq_map, List.map_cons, List.map_map]
      congr 1
      apply List.map_congr_left
      intro k _
      simp only [Function.comp_apply, Prod.mk.injEq, Option.some.injEq]
      omega

/-- A count below `2^31` is the same `int`. -/
theorem argcOf_ofNat (c : Nat) (hc : c < 2 ^ 31) : argcOf (UInt32.ofNat c) = c := by
  have hnat : (UInt32.ofNat c).toNat = c := by
    simp only [UInt32.toNat_ofNat']
    omega
  rw [argcOf, Int32.toInt, UInt32.toInt32, BitVec.toInt]
  simp only [Int32.toBitVec, UInt32.toNat_toBitVec, hnat]
  omega

/-- From `2^31` on, the count is a negative `int`: the loop does not run, and `NULL` goes
to `argv[argc]`, below `argv`. -/
theorem readCommandLine_negative (argCnt : UInt32) (hneg : 2 ^ 31 ≤ argCnt.toNat)
    (args : List UInt8) :
    readCommandLine argCnt args = some [(argcOf argCnt, none)] ∧ argcOf argCnt < 0 := by
  have hlt : argcOf argCnt < 0 := by
    rw [argcOf, Int32.toInt, UInt32.toInt32, BitVec.toInt]
    simp only [Int32.toBitVec, UInt32.toNat_toBitVec]
    have := argCnt.toNat_lt
    omega
  refine ⟨?_, hlt⟩
  simp only [readCommandLine, Int.toNat_of_nonpos (Int.le_of_lt hlt), readWords, Option.map_some,
    List.nil_append]

/-- With every word empty, a count up to `LOADER_ARGS_LEN` passes: `argv[i]` gets the
`i`-th byte for every `i` below the count, and `argv[argc]` gets `NULL`. -/
theorem readCommandLine_empty (c : Nat) (hc : c ≤ LOADER_ARGS_LEN) :
    readCommandLine (UInt32.ofNat c) (List.replicate LOADER_ARGS_LEN 0) =
      some (((List.range c).map fun k : Nat => ((k : Int), some k)) ++ [((c : Int), none)]) := by
  have hargc := argcOf_ofNat c (by simp only [LOADER_ARGS_LEN] at hc; omega)
  simp only [readCommandLine, hargc, Int.toNat_natCast]
  rw [readWords_empty c 0 0 (by omega)]
  simp

/-- 66 empty words: `read_command_line` stores `argv[65]` and `argv[66]`, past the 65
slots of `argv`, and does not panic. -/
theorem read_command_line_stores_past_argv :
    readCommandLine 66 (List.replicate LOADER_ARGS_LEN 0) =
        some (((List.range 66).map fun k : Nat => ((k : Int), some k)) ++ [(66, none)]) ∧
      argvSlots = 65 :=
  ⟨readCommandLine_empty 66 (by decide), rfl⟩

end Pintos.Init
