import Pintos.Model.ArgPassing
import Pintos.Interface.MainArgs
import Pintos.Analysis.Strtok
import Mathlib.Algebra.Order.BigOperators.Group.List

/-!
# Argument passing delivers the command line's words to `main`

`start_process` runs `parse_line` on the command-line page and then `push_arguments` with
the stack pointer at `PHYS_BASE`. For a command line `s` (its bytes, no NUL among them)
whose frame fits in the stack page, the result is what `main` expects: reading the stack
as `main (int argc, char **argv)` does gives the maximal runs of non-space characters of
`s` (`MainArgs.spaceRuns`), `argv[argc]` is a null pointer, the stack pointer is
word-aligned and points at a slot that nothing wrote, and every write lies in the stack
page.

The proof has two halves. The first follows `strtok_r` through the line: each call skips
spaces, returns the next run and cuts it off with a NUL (`strtokR_some_of_agrees`), so the
tokens' strings in the final buffer are the runs (`parseLine_cstr`). The second follows
the two loops of `push_arguments` down the stack: each loop writes only below the stack
pointer it started from, so what lies above stays readable (`applyWrites_append_of_le`).
-/

set_option autoImplicit false

namespace Pintos.ArgPassing.Analysis

open Pintos.Str Pintos.MainArgs ByteMemory

/-! ## Tokenising -/

section Tokens

variable (s : List UInt8)

/-- From `pos` up to the terminator, the buffer holds the command line `s`. -/
def Agrees (buf : List UInt8) (pos : Nat) : Prop :=
  ∀ i, pos ≤ i → i ≤ s.length → byteAt buf i = s.getD i 0

/-- The test of `strtok_r`'s token loop: neither a delimiter nor the terminator. -/
def inToken (c : UInt8) : Bool :=
  !isSpace c && c != 0

/-- `parse_line` cuts at `' '` alone. -/
theorem isDelim_spaceDelims : isDelim spaceDelims = isSpace := by
  funext c
  simp only [isDelim, spaceDelims, isSpace, List.contains_cons, List.contains_nil, Bool.or_false]

theorem zero_not_mem_spaceDelims : (0 : UInt8) ∉ spaceDelims := by
  decide

/-- The loop of `parse_line` from a position where the buffer agrees with the line: the
strings at the tokens it returns, in the buffer it leaves, are the runs from there on.
The loop keeps the buffer's length and changes no byte before `pos` and no NUL. -/
theorem parseLineFrom_spec (hnul : (0 : UInt8) ∉ s) (buf : List UInt8) (pos : Nat) :
    Agrees s buf pos → pos ≤ s.length →
      (parseLineFrom buf pos).1.map (cstr (parseLineFrom buf pos).2) = spaceRuns (s.drop pos) ∧
      (parseLineFrom buf pos).2.length = buf.length ∧
      ∀ i, (i < pos ∨ byteAt buf i = 0) → byteAt (parseLineFrom buf pos).2 i = byteAt buf i := by
  induction buf, pos using parseLineFrom.induct with
  | case1 buf pos buf' save h =>
      intro hag hpos
      obtain ⟨hruns, rfl⟩ :=
        strtokR_none_of_holds spaceDelims s zero_not_mem_spaceDelims hnul buf pos buf' save hag
          hpos h
      rw [isDelim_spaceDelims] at hruns
      rw [parseLineFrom_of_none h, spaceRuns, hruns]
      exact ⟨rfl, rfl, fun i _ => rfl⟩
  | case2 buf pos tok buf' save h ih =>
      intro hag hpos
      obtain ⟨t, hruns, ht0, hpt, htok, hsave, hag', hbytes, hend, hwrite⟩ :=
        strtokR_some_of_holds spaceDelims s zero_not_mem_spaceDelims hnul buf pos tok buf' save
          hag hpos h
      rw [isDelim_spaceDelims] at hruns
      -- the call writes one NUL, after the token
      have hframe : ∀ i, (i < pos ∨ byteAt buf i = 0) → byteAt buf' i = byteAt buf i :=
        byteAt_frame fun i hi => by
          obtain ⟨rfl, -, -, h0⟩ := hwrite i hi
          exact ⟨by omega, h0⟩
      obtain ⟨hlen, hpos_lt, -⟩ := strtokR_some spaceDelims buf pos tok buf' save h
      obtain ⟨ihmap, ihlen, ihframe⟩ := ih hag' hsave
      rw [parseLineFrom_of_some h]
      dsimp only
      refine ⟨?_, ihlen.trans hlen, ?_⟩
      · rw [List.map_cons, ihmap, spaceRuns, spaceRuns, hruns]
        congr 1
        -- the token lies before the save position and ends at a NUL: later calls keep both
        refine cstr_eq_of_bytes _ tok t ?_ ht0 ?_
        · intro j hj
          rw [ihframe _ (Or.inl (by omega)), hbytes j hj]
        · rw [ihframe _ (Or.inr hend), hend]
      · intro i hi
        have hi' : i < save ∨ byteAt buf' i = 0 := by
          rcases hi with hi | hi
          · exact Or.inl (by omega)
          · exact Or.inr (by rw [hframe i (Or.inr hi), hi])
        rw [ihframe i hi', hframe i hi]

/-- `parse_line` cuts the command line into its maximal runs of non-spaces: the strings
at the tokens, in the page it leaves, are the runs. -/
theorem parseLine_cstr (hnul : (0 : UInt8) ∉ s) (rest : List UInt8) :
    (parseLine (s ++ 0 :: rest)).1.map (cstr (parseLine (s ++ 0 :: rest)).2) = spaceRuns s :=
  (parseLineFrom_spec s hnul _ 0 (holds_append s rest) (Nat.zero_le _)).1

end Tokens

/-! ## The stack frame -/

section Stack

/-- The bytes that the strings `ws` take with their terminators. -/
def strBytes (ws : List (List UInt8)) : Nat :=
  (ws.map (fun w => w.length + 1)).sum

/-- The bytes `push_arguments` takes below `PHYS_BASE` for the arguments `ws`: their
strings rounded up to a word, the null pointer and one pointer per argument, `argv`,
`argc` and the return address. -/
def frameSize (ws : List (List UInt8)) : Nat :=
  (strBytes ws + 3) / 4 * 4 + 4 * (ws.length + 1) + 12

@[simp] theorem strBytes_nil : strBytes [] = 0 := rfl

@[simp] theorem strBytes_cons (w : List UInt8) (ws : List (List UInt8)) :
    strBytes (w :: ws) = w.length + 1 + strBytes ws := rfl

variable (buf : List UInt8)

/-- `push_arguments`' first loop from `top`: it moves the stack pointer down over the
strings and their terminators, writes only between its final and its initial value, and
leaves argument `i`'s string, terminator included, at `addr[i]`. -/
theorem pushArgStrings_spec (argv : List Nat) (top : Nat) (m : Memory)
    (hfit : strBytes (argv.map (cstr buf)) ≤ top) :
    (pushArgStrings buf argv top).1 = top - strBytes (argv.map (cstr buf)) ∧
      (pushArgStrings buf argv top).2.2.length = argv.length ∧
      (∀ w ∈ (pushArgStrings buf argv top).2.1,
        (pushArgStrings buf argv top).1 ≤ w.1 ∧ w.1 + w.2.length ≤ top) ∧
      ∀ i < argv.length,
        (pushArgStrings buf argv top).1 ≤ (pushArgStrings buf argv top).2.2.getD i 0 ∧
        (pushArgStrings buf argv top).2.2.getD i 0 < top ∧
        ∀ j ≤ (cstr buf (argv.getD i 0)).length,
          applyWrites m (pushArgStrings buf argv top).2.1
              ((pushArgStrings buf argv top).2.2.getD i 0 + j) =
            (cstr buf (argv.getD i 0)).getD j 0 := by
  induction argv with
  | nil => simp
  | cons a argv ih =>
      simp only [List.map_cons, strBytes_cons] at hfit
      obtain ⟨hesp, hlen, hwrites, hstrs⟩ := ih (by omega)
      rw [pushArgStrings_cons]
      generalize pushArgStrings buf argv top = r at hesp hlen hwrites hstrs
      obtain ⟨esp, ws, addr⟩ := r
      dsimp only at hesp hlen hwrites hstrs
      simp only [pushArgString, strlcpy_strlen_succ]
      simp only [strlen, List.map_cons, strBytes_cons, List.length_cons]
      refine ⟨by omega, by rw [hlen], ?_, ?_⟩
      · intro w hw
        simp only [List.mem_append, List.mem_cons, List.not_mem_nil, or_false] at hw
        rcases hw with hw | rfl | rfl
        · have := hwrites w hw
          omega
        · dsimp only
          omega
        · simp only [List.length_singleton]
          omega
      · intro i hi
        cases i with
        | zero =>
            -- the string pushed last is the first argument's
            refine ⟨le_rfl, by simp only [List.getD_cons_zero]; omega, fun j hj => ?_⟩
            simp only [List.getD_cons_zero] at hj ⊢
            exact applyWrites_string m ws _ _ j hj
        | succ i =>
            -- the other strings lie above this one, which is written below `esp`
            obtain ⟨haddr, htop, hbytes⟩ := hstrs i (by simpa using hi)
            simp only [List.getD_cons_succ]
            refine ⟨by omega, htop, fun j hj => ?_⟩
            rw [applyWrites_append_of_le _ _ _ _ ?_, hbytes j hj]
            intro w hw
            simp only [List.mem_cons, List.not_mem_nil, or_false] at hw
            rcases hw with rfl | rfl
            · dsimp only
              omega
            · simp only [List.length_singleton]
              omega

/-- `push_arguments`' second loop from `e0`, after the writes `W0`: it moves the stack
pointer down one word per address, writes only between its final and its initial value,
and leaves `addr[i]` in the `i`-th word from the final stack pointer. -/
theorem pushArgAddrs_spec (addr : List Nat) (e0 : Nat) (W0 : List (Nat × List UInt8))
    (m : Memory) (hfit : 4 * addr.length ≤ e0)
    (hsmall : ∀ i < addr.length, addr.getD i 0 < 2 ^ 32) :
    (pushArgAddrs addr e0 W0).1 = e0 - 4 * addr.length ∧
      (∃ P, (pushArgAddrs addr e0 W0).2 = W0 ++ P ∧
        ∀ w ∈ P, (pushArgAddrs addr e0 W0).1 ≤ w.1 ∧ w.1 + w.2.length ≤ e0) ∧
      ∀ i < addr.length,
        readWord (applyWrites m (pushArgAddrs addr e0 W0).2)
          ((pushArgAddrs addr e0 W0).1 + 4 * i) = addr.getD i 0 := by
  induction addr with
  | nil => exact ⟨rfl, ⟨[], by simp, by simp⟩, by simp⟩
  | cons a addr ih =>
      simp only [List.length_cons] at hfit hsmall
      obtain ⟨hesp, ⟨P, hP, hPr⟩, hreads⟩ :=
        ih (by omega) (fun i hi => by simpa using hsmall (i + 1) (by omega))
      rw [pushArgAddrs_cons]
      generalize pushArgAddrs addr e0 W0 = r at hesp hP hPr hreads
      obtain ⟨esp, ws⟩ := r
      dsimp only at hesp hP hPr hreads
      simp only [pushArgAddr, List.length_cons]
      refine ⟨by omega, ⟨P ++ [(esp - 4, le32 a)], by rw [hP, List.append_assoc], ?_⟩, ?_⟩
      · intro w hw
        simp only [List.mem_append, List.mem_singleton] at hw
        rcases hw with hw | rfl
        · have := hPr w hw
          omega
        · simp only [length_le32]
          omega
      · intro i hi
        cases i with
        | zero =>
            have ha := hsmall 0 (by omega)
            simp only [List.getD_cons_zero] at ha ⊢
            rw [Nat.mul_zero, Nat.add_zero, readWord_append_le32, Nat.mod_eq_of_lt ha]
        | succ i =>
            -- the new word lies just below the words of the earlier iterations
            have hbelow : ∀ w ∈ [(esp - 4, le32 a)], w.1 + w.2.length ≤ esp - 4 + 4 * (i + 1) := by
              simp only [List.mem_singleton, forall_eq, length_le32]
              omega
            rw [readWord_append_of_le _ _ _ _ hbelow,
              show esp - 4 + 4 * (i + 1) = esp + 4 * i by omega, hreads i (by omega),
              List.getD_cons_succ]

/-- The frame `push_arguments` builds from `PHYS_BASE` for arguments whose frame fits in
the stack page: `argc` at `esp + 4`, `argv = esp + 12` at `esp + 8`, then the pointers to
the strings and a null pointer, and the strings with their terminators above them. The
stack pointer is word-aligned and in the page, and every write lies above the return
address slot at `esp` and below `PHYS_BASE`. -/
theorem pushArguments_layout (argv : List Nat) (m : Memory) (esp : Nat)
    (ws : List (Nat × List UInt8)) (hfit : frameSize (argv.map (cstr buf)) ≤ PGSIZE)
    (h : pushArguments buf argv PHYS_BASE = (esp, ws)) :
    readWord (applyWrites m ws) (esp + 4) = argv.length ∧
      readWord (applyWrites m ws) (esp + 8) = esp + 12 ∧
      (∀ i < argv.length, ∀ j ≤ (cstr buf (argv.getD i 0)).length,
        applyWrites m ws (readWord (applyWrites m ws) (esp + 12 + 4 * i) + j) =
          (cstr buf (argv.getD i 0)).getD j 0) ∧
      readWord (applyWrites m ws) (esp + 12 + 4 * argv.length) = 0 ∧
      esp % 4 = 0 ∧ PHYS_BASE - PGSIZE ≤ esp ∧
      ∀ w ∈ ws, esp + 4 ≤ w.1 ∧ w.1 + w.2.length ≤ PHYS_BASE := by
  have hfit' : (strBytes (argv.map (cstr buf)) + 3) / 4 * 4 + 4 * (argv.length + 1) + 12 ≤
      4096 := by simpa [frameSize] using hfit
  obtain ⟨hs1, hs2, hs3, hs4⟩ :=
    pushArgStrings_spec buf argv PHYS_BASE m (by simp only [PHYS_BASE_eq]; omega)
  unfold pushArguments at h
  generalize pushArgStrings buf argv PHYS_BASE = strs at h hs1 hs2 hs3 hs4
  obtain ⟨e1, W1, addr⟩ := strs
  dsimp only at h hs1 hs2 hs3 hs4
  simp only [PHYS_BASE_eq] at hs1 hs3 hs4
  have hsmall : ∀ i < addr.length, addr.getD i 0 < 2 ^ 32 := fun i hi => by
    have := (hs4 i (by omega)).2.1
    omega
  obtain ⟨hp1, ⟨P, hP, hPr⟩, hp3⟩ :=
    pushArgAddrs_spec addr (e1 / 4 * 4 - 4) (W1 ++ [(e1 / 4 * 4 - 4, le32 0)]) m
      (by omega) hsmall
  generalize pushArgAddrs addr (e1 / 4 * 4 - 4) (W1 ++ [(e1 / 4 * 4 - 4, le32 0)]) = ptrs
    at h hp1 hP hPr hp3
  obtain ⟨e2, W2⟩ := ptrs
  dsimp only at h hp1 hP hPr hp3
  simp only [Prod.mk.injEq] at h
  obtain ⟨rfl, rfl⟩ := h
  subst hP
  -- the frame from the top: strings down to `e1`, the null pointer at `e1 / 4 * 4 - 4`,
  -- the pointers down to `e2`, then `argv` and `argc`
  have he2 : e2 = e1 / 4 * 4 - 4 - 4 * argv.length := by rw [hp1, hs2]
  have hn : argv.length < 2 ^ 32 := by omega
  have hlast : ∀ x, e2 ≤ x → ∀ w ∈ [(e2 - 4, le32 (e2 - 4 + 4)), (e2 - 4 - 4, le32 argv.length)],
      w.1 + w.2.length ≤ x := by
    intro x hx w hw
    simp only [List.mem_cons, List.not_mem_nil, or_false] at hw
    rcases hw with rfl | rfl <;> simp only [length_le32] <;> omega
  have hsplit : W1 ++ [(e1 / 4 * 4 - 4, le32 0)] ++ P ++
      [(e2 - 4, le32 (e2 - 4 + 4)), (e2 - 4 - 4, le32 argv.length)] =
      (W1 ++ [(e1 / 4 * 4 - 4, le32 0)] ++ P ++ [(e2 - 4, le32 (e2 - 4 + 4))]) ++
        [(e2 - 4 - 4, le32 argv.length)] := by simp
  refine ⟨?_, ?_, ?_, ?_, by omega, by simp only [PHYS_BASE_eq, PGSIZE_eq]; omega, ?_⟩
  · rw [hsplit, show e2 - 4 - 4 - 4 + 4 = e2 - 4 - 4 by omega, readWord_append_le32,
      Nat.mod_eq_of_lt hn]
  · rw [hsplit, show e2 - 4 - 4 - 4 + 8 = e2 - 4 by omega, readWord_append_of_le _ _ _ _
      (by simp only [List.mem_singleton, forall_eq, length_le32]
          omega),
      readWord_append_le32, Nat.mod_eq_of_lt (by omega)]
    omega
  · intro i hi j hj
    obtain ⟨haddr, -, hbytes⟩ := hs4 i hi
    -- the pointer, then the string it points at, lie above everything pushed later
    rw [show e2 - 4 - 4 - 4 + 12 + 4 * i = e2 + 4 * i by omega,
      readWord_append_of_le _ _ _ _ (hlast _ (by omega)), hp3 i (by omega),
      applyWrites_append_of_le _ _ _ _ (hlast _ (by omega)),
      applyWrites_append_of_le _ _ _ _ (fun w hw => by have := hPr w hw; omega),
      applyWrites_append_of_le _ _ _ _ (by
        simp only [List.mem_singleton, forall_eq, length_le32]
        omega)]
    exact hbytes j hj
  · rw [show e2 - 4 - 4 - 4 + 12 + 4 * argv.length = e1 / 4 * 4 - 4 by omega,
      readWord_append_of_le _ _ _ _ (hlast _ (by omega)),
      readWord_append_of_le _ _ _ _ (fun w hw => hPr w hw |>.2), readWord_append_le32,
      Nat.zero_mod]
  · intro w hw
    simp only [List.mem_append, List.mem_cons, List.not_mem_nil, or_false, PHYS_BASE_eq] at hw ⊢
    rcases hw with ((hw | rfl) | hw) | rfl | rfl
    · have := hs3 w hw
      omega
    · simp only [length_le32]
      omega
    · have := hPr w hw
      omega
    · simp only [length_le32]
      omega
    · simp only [length_le32]
      omega

theorem length_lt_of_frameSize_le (ws : List (List UInt8)) (w : List UInt8) (hw : w ∈ ws)
    (hfit : frameSize ws ≤ PGSIZE) : w.length < PGSIZE := by
  have hle : w.length + 1 ≤ strBytes ws :=
    List.le_sum_of_mem (List.mem_map_of_mem (f := fun w : List UInt8 => w.length + 1) hw)
  simp only [frameSize, PGSIZE_eq] at hfit ⊢
  omega

end Stack

/-! ## The round trip -/

-- The bounds on the line's length and on `argc` are those under which the command-line
-- page and the arrays `argv` and `addr` of `MAX_ARGS` entries hold the line: the model's
-- lists need neither, so the proof does not use them.
set_option linter.unusedVariables false in
/-- Argument passing from `start_process`: for a command line `s` without NUL bytes, at
most `PGSIZE - 1` long and with at most `MAX_ARGS` arguments,
whose frame fits in the stack page, `parse_line` on the page `s ++ '\0' :: rest` and
then `push_arguments` from `PHYS_BASE` give `main` exactly the maximal runs of non-spaces
of `s`, `argc` of them, with `argv[argc]` null; the stack pointer is word-aligned in the
page, and every write lies above its return-address slot and below `PHYS_BASE`. -/
theorem arg_passing_round_trip (s rest : List UInt8) (m : Memory) (argv : List Nat)
    (page : List UInt8) (esp : Nat) (ws : List (Nat × List UInt8))
    (hnul : (0 : UInt8) ∉ s) (hlen : s.length < PGSIZE)
    (hargc : (spaceRuns s).length ≤ MAX_ARGS) (hfit : frameSize (spaceRuns s) ≤ PGSIZE)
    (hparse : parseLine (s ++ 0 :: rest) = (argv, page))
    (hpush : pushArguments page argv PHYS_BASE = (esp, ws)) :
    readWord (applyWrites m ws) (esp + 4) = (spaceRuns s).length ∧
      decodeMain (applyWrites m ws) esp = some (spaceRuns s) ∧
      readWord (applyWrites m ws)
          (readWord (applyWrites m ws) (esp + 8) + 4 * readWord (applyWrites m ws) (esp + 4)) =
        0 ∧
      esp % 4 = 0 ∧ PHYS_BASE - PGSIZE ≤ esp ∧
      ∀ w ∈ ws, esp + 4 ≤ w.1 ∧ w.1 + w.2.length ≤ PHYS_BASE := by
  have hcstr : argv.map (cstr page) = spaceRuns s := by
    simpa [hparse] using parseLine_cstr s hnul rest
  rw [← hcstr] at hfit ⊢
  obtain ⟨hargc', hargv, hbytes, hnull, halign, hpage, hwrites⟩ :=
    pushArguments_layout page argv m esp ws hfit hpush
  refine ⟨by rw [hargc', List.length_map], ?_, by rw [hargv, hargc']; exact hnull, halign,
    hpage, hwrites⟩
  -- `main` reads `argc` strings through the pointers from `esp + 12`
  rw [decodeMain, hargv, hargc', ← List.length_map (cstr page)]
  apply readArgs_of_strings
  intro i hi
  rw [List.length_map] at hi
  have hw : (argv.map (cstr page)).getD i [] = cstr page (argv.getD i 0) := by
    rw [List.getD_eq_getElem _ _ (by simpa using hi), List.getElem_map,
      List.getD_eq_getElem _ _ hi]
  rw [hw]
  apply readCStr_of_bytes _ _ _ _ (fun j hj => hbytes i hi j hj.le) (zero_not_mem_cstr _ _)
  · rw [hbytes i hi _ le_rfl, List.getD_eq_default _ _ le_rfl]
  · have hmem : cstr page (argv.getD i 0) ∈ argv.map (cstr page) := by
      rw [List.getD_eq_getElem _ _ hi]
      exact List.mem_map_of_mem (List.getElem_mem hi)
    exact length_lt_of_frameSize_le _ _ hmem hfit

/-- The line `"ab  c"` in a page with stale bytes after its terminator: `main` gets `"ab"`
and `"c"`. -/
theorem arg_passing_round_trip_ab_c :
    let s : List UInt8 := [97, 98, 32, 32, 99]
    let line := parseLine (s ++ 0 :: [204, 204])
    let frame := pushArguments line.2 line.1 PHYS_BASE
    let mem := applyWrites (fun _ => 0) frame.2
    spaceRuns s = [[97, 98], [99]] ∧
      (0 : UInt8) ∉ s ∧ s.length < PGSIZE ∧ (spaceRuns s).length ≤ MAX_ARGS ∧
      frameSize (spaceRuns s) ≤ PGSIZE ∧
      readWord mem (frame.1 + 4) = (spaceRuns s).length ∧
      decodeMain mem frame.1 = some (spaceRuns s) ∧
      readWord mem (readWord mem (frame.1 + 8) + 4 * readWord mem (frame.1 + 4)) = 0 ∧
      frame.1 % 4 = 0 ∧ PHYS_BASE - PGSIZE ≤ frame.1 ∧
      ∀ w ∈ frame.2, frame.1 + 4 ≤ w.1 ∧ w.1 + w.2.length ≤ PHYS_BASE := by
  intro s line frame mem
  have hnul : (0 : UInt8) ∉ s := by decide
  have hlen : s.length < PGSIZE := by decide
  have hargc : (spaceRuns s).length ≤ MAX_ARGS := by decide
  have hfit : frameSize (spaceRuns s) ≤ PGSIZE := by decide
  exact ⟨by decide, hnul, hlen, hargc, hfit,
    arg_passing_round_trip s [204, 204] (fun _ => 0) line.1 line.2 frame.1 frame.2
      hnul hlen hargc hfit rfl rfl⟩

end Pintos.ArgPassing.Analysis
