import Pintos.Model.StringLib
import Pintos.Lib.Runs
import Mathlib.Data.List.TakeWhile

/-!
# `strtok_r` cuts a string into its runs of non-delimiters

A caller calls `strtok_r (s, delimiters, &save_ptr)` once and then
`strtok_r (NULL, delimiters, &save_ptr)`, each call resuming at `*save_ptr`;
`strtokCalls` makes `k` such calls. For a string `s` with no NUL byte, held with its
terminator from the start of a buffer, and a delimiter string with no NUL byte, the calls
return the starts of the maximal runs of bytes of `s` that are not delimiters, in order, and
`NULL` at every call after the last of them (`Tokenises`). Each token lies in `s` and is
NUL-terminated in place, and the only bytes written are the delimiters right after tokens.

One call is followed against `Runs.runs`: the first loop skips delimiters in front of the
next run (`skipDelimiters_spec`), the second scans that run up to a delimiter or the
terminator (`skipToken_spec`), and the call returns the run and saves the position past it
(`strtokR_some_of_holds`), or returns `NULL` with no run left (`strtokR_none_of_holds`).
The whole sequence then goes by induction on the number of runs left
(`tokenises_of_holds`).
-/

set_option autoImplicit false

namespace Pintos.Str

/-- A byte of the delimiter string. -/
def isDelim (delims : List UInt8) (c : UInt8) : Bool :=
  delims.contains c

/-- The test of `strtok_r`'s token loop: neither a delimiter nor the terminator. -/
def tokenByte (delims : List UInt8) (c : UInt8) : Bool :=
  !isDelim delims c && c != 0

/-- From `pos` up to its terminator, the buffer holds the string `s`. -/
def Holds (s buf : List UInt8) (pos : Nat) : Prop :=
  ∀ i, pos ≤ i → i ≤ s.length → byteAt buf i = s.getD i 0

/-- `k` calls of `strtok_r` from the save position `save`: their results, and the buffer
after the last. -/
def strtokCalls (delims buf : List UInt8) (save : Nat) : Nat → List (Option Nat) × List UInt8
  | 0 => ([], buf)
  | k + 1 =>
      let r := strtokR delims buf save
      let rest := strtokCalls delims r.2.1 r.2.2 k
      (r.1 :: rest.1, rest.2)

/-- A call that writes only NULs, at or after `pos`, keeps the bytes before `pos` and the
NULs. -/
theorem byteAt_frame {buf buf' : List UInt8} {pos : Nat}
    (hw : ∀ i, byteAt buf' i ≠ byteAt buf i → pos ≤ i ∧ byteAt buf' i = 0) (i : Nat)
    (hi : i < pos ∨ byteAt buf i = 0) : byteAt buf' i = byteAt buf i := by
  by_contra hne
  obtain ⟨hle, h0⟩ := hw i hne
  rcases hi with hi | hi
  · omega
  · exact hne (h0.trans hi.symm)

/-! ## One call -/

section Call

variable (delims s : List UInt8)

theorem isDelim_zero (hd : (0 : UInt8) ∉ delims) : isDelim delims 0 = false := by
  simpa [isDelim] using hd

theorem strchr_isSome_iff_isDelim (hd : (0 : UInt8) ∉ delims) (c : UInt8) :
    (strchr delims c).isSome ↔ c = 0 ∨ isDelim delims c := by
  rw [strchr_isSome_iff _ _ hd]
  simp [isDelim]

/-- A scan that moves on while its test holds of the byte of `s ++ [0]` it looks at stops
after the longest prefix of `s.drop pos` that passes the test. -/
theorem scan_eq_takeWhile (Q : UInt8 → Bool) (hQ : Q 0 = false) (f : Nat → Nat) (pos : Nat)
    (hpos : pos ≤ s.length)
    (hstep : ∀ i, pos ≤ i → i ≤ s.length → f i = if Q (s.getD i 0) then f (i + 1) else i) :
    f pos = pos + ((s.drop pos).takeWhile Q).length := by
  obtain ⟨k, hk⟩ : ∃ k, s.length - pos = k := ⟨_, rfl⟩
  -- induction on the bytes left before the terminator
  induction k generalizing pos with
  | zero =>
      have hend : pos = s.length := by omega
      subst hend
      rw [hstep s.length le_rfl le_rfl, List.getD_eq_default _ _ le_rfl, hQ, if_neg (by simp)]
      simp
  | succ k ih =>
      have hlt : pos < s.length := by omega
      rw [hstep pos le_rfl hpos, List.drop_eq_getElem_cons hlt, List.getD_eq_getElem _ _ hlt]
      by_cases hq : Q s[pos]
      · rw [if_pos hq, List.takeWhile_cons_of_pos hq, List.length_cons,
          ih (pos + 1) hlt (fun i hi hi' => hstep i (by omega) hi') (by omega)]
        omega
      · rw [if_neg hq, List.takeWhile_cons_of_neg hq]
        simp

variable (hd : (0 : UInt8) ∉ delims)
include hd

theorem skipDelimiters_eq_of_holds (buf : List UInt8) (pos : Nat) (hag : Holds s buf pos)
    (hpos : pos ≤ s.length) :
    skipDelimiters delims buf pos =
      pos + ((s.drop pos).takeWhile (isDelim delims)).length := by
  apply scan_eq_takeWhile s (isDelim delims) (isDelim_zero delims hd) _ pos hpos
  intro i hi hi'
  rw [skipDelimiters, dite_eq_ite]
  apply if_congr _ rfl rfl
  rw [hag i hi hi', strchr_isSome_iff_isDelim delims hd]
  generalize s.getD i 0 = c
  by_cases hc : c = 0
  · simp [hc, isDelim_zero delims hd]
  · simp [hc]

theorem skipToken_eq_of_holds (buf : List UInt8) (pos : Nat) (hag : Holds s buf pos)
    (hpos : pos ≤ s.length) :
    skipToken delims buf pos = pos + ((s.drop pos).takeWhile (tokenByte delims)).length := by
  apply scan_eq_takeWhile s (tokenByte delims) (by simp [tokenByte]) _ pos hpos
  intro i hi hi'
  rw [skipToken, dite_eq_ite]
  apply if_congr _ rfl rfl
  rw [hag i hi hi', ← Option.not_isSome, Bool.not_eq_true', Bool.eq_false_iff, ne_eq,
    strchr_isSome_iff_isDelim delims hd]
  generalize s.getD i 0 = c
  by_cases hc : c = 0 <;> simp [tokenByte, hc]

omit hd in
theorem byteAt_of_holds (buf : List UInt8) (pos : Nat) (hag : Holds s buf pos) (i : Nat)
    (hi : pos ≤ i) (hlt : i < s.length) : byteAt buf i = s[i] := by
  rw [hag i hi hlt.le, List.getD_eq_getElem _ _ hlt]

omit hd in
theorem byteAt_length_of_holds (buf : List UInt8) (pos : Nat) (hag : Holds s buf pos)
    (hpos : pos ≤ s.length) : byteAt buf s.length = 0 := by
  rw [hag s.length hpos le_rfl, List.getD_eq_default _ _ le_rfl]

omit hd in
theorem getD_add_of_drop_eq (t r : List UInt8) (a j : Nat) (h : s.drop a = t ++ r)
    (hj : j < t.length) : s.getD (a + j) 0 = t.getD j 0 := by
  rw [List.getD_eq_getElem?_getD, List.getD_eq_getElem?_getD, ← List.getElem?_drop, h,
    List.getElem?_append_left hj]

/-- `strtok_r`'s first loop: the runs from where it starts are the runs from where it
stops, which is no further than the terminator. -/
theorem skipDelimiters_spec (buf : List UInt8) (pos : Nat) (hag : Holds s buf pos)
    (hpos : pos ≤ s.length) :
    skipDelimiters delims buf pos ≤ s.length ∧
      Runs.runs (isDelim delims) (s.drop pos) =
        Runs.runs (isDelim delims) (s.drop (skipDelimiters delims buf pos)) := by
  rw [skipDelimiters_eq_of_holds delims s hd buf pos hag hpos]
  have hsplit := Runs.takeWhile_append_drop (isDelim delims) (s.drop pos)
  rw [List.drop_drop] at hsplit
  refine ⟨?_, ?_⟩
  · have hlen := congrArg List.length hsplit
    simp only [List.length_append, List.length_drop] at hlen
    omega
  · conv_lhs => rw [← hsplit]
    exact Runs.runs_append_of_all_isDelim _ _ _ (fun c hc => List.mem_takeWhile_imp hc)

/-- `strtok_r`'s second loop: from a byte that is not a delimiter it scans a non-empty run
`t` of the string, and stops at the terminator or at a delimiter. -/
theorem skipToken_spec (hnul : (0 : UInt8) ∉ s) (buf : List UInt8) (a : Nat)
    (hag : Holds s buf a) (ha : a < s.length) (hna : isDelim delims (s.getD a 0) = false) :
    ∃ t, t ≠ [] ∧ skipToken delims buf a = a + t.length ∧
      s.drop a = t ++ s.drop (a + t.length) ∧ (∀ c ∈ t, tokenByte delims c) ∧
      (a + t.length = s.length ∨
        (a + t.length < s.length ∧ isDelim delims (s.getD (a + t.length) 0))) := by
  set t := (s.drop a).takeWhile (tokenByte delims) with ht
  have he : skipToken delims buf a = a + t.length :=
    skipToken_eq_of_holds delims s hd buf a hag ha.le
  have hsplit : s.drop a = t ++ s.drop (a + t.length) := by
    have h := Runs.takeWhile_append_drop (tokenByte delims) (s.drop a)
    rw [List.drop_drop] at h
    exact h.symm
  have hle : a + t.length ≤ s.length := by
    have hlen := congrArg List.length hsplit
    simp only [List.length_append, List.length_drop] at hlen
    omega
  refine ⟨t, ?_, he, hsplit, fun c hc => List.mem_takeWhile_imp hc, ?_⟩
  · have h0 : s[a] ≠ 0 := fun h => hnul (h ▸ List.getElem_mem ha)
    rw [List.getD_eq_getElem _ _ ha] at hna
    rw [ht, List.drop_eq_getElem_cons ha,
      List.takeWhile_cons_of_pos (by simp [tokenByte, hna, h0])]
    simp
  · rcases Nat.lt_or_ge (a + t.length) s.length with hlt | hge
    · -- the loop stopped inside the string, so at a delimiter: the byte there is no NUL
      have hsome : (strchr delims (s.getD (a + t.length) 0)).isSome := by
        have hstop := skipToken_stops delims buf a
        rw [he, hag _ (by omega) hlt.le] at hstop
        simpa [Option.isSome_iff_ne_none] using hstop
      have h0 : s[a + t.length] ≠ 0 := fun h => hnul (h ▸ List.getElem_mem hlt)
      rw [strchr_isSome_iff_isDelim delims hd, List.getD_eq_getElem _ _ hlt] at hsome
      rw [List.getD_eq_getElem _ _ hlt]
      exact Or.inr ⟨hlt, hsome.resolve_left h0⟩
    · exact Or.inl (by omega)

/-- `strtok_r` returns `NULL` only when no run is left, and then writes nothing. -/
theorem strtokR_none_of_holds (hnul : (0 : UInt8) ∉ s) (buf : List UInt8) (pos : Nat)
    (buf' : List UInt8) (save : Nat) (hag : Holds s buf pos) (hpos : pos ≤ s.length)
    (h : strtokR delims buf pos = (none, buf', save)) :
    Runs.runs (isDelim delims) (s.drop pos) = [] ∧ buf' = buf := by
  obtain ⟨ha_le, hruns⟩ := skipDelimiters_spec delims s hd buf pos hag hpos
  have hpa := le_skipDelimiters delims buf pos
  unfold strtokR at h
  split at h
  · rename_i hz
    simp only [Prod.mk.injEq] at h
    refine ⟨?_, h.2.1.symm⟩
    -- the first loop stopped at a NUL, which inside the string is only the terminator
    have hend : skipDelimiters delims buf pos = s.length := by
      by_contra hne
      have hlt := lt_of_le_of_ne ha_le hne
      rw [byteAt_of_holds s buf pos hag _ hpa hlt] at hz
      exact hnul (hz ▸ List.getElem_mem hlt)
    rw [hruns, hend, List.drop_length]
    rfl
  · split at h <;> simp at h

/-- Where `strtok_r`'s first loop stops at a byte other than NUL, it stops inside the
string at a byte that is not a delimiter: the first byte of the next run. -/
theorem skipDelimiters_inside (buf : List UInt8) (pos : Nat) (hag : Holds s buf pos)
    (hpos : pos ≤ s.length) (hz : ¬ byteAt buf (skipDelimiters delims buf pos) = 0) :
    skipDelimiters delims buf pos < s.length ∧
      isDelim delims (s.getD (skipDelimiters delims buf pos) 0) = false := by
  obtain ⟨ha_le, -⟩ := skipDelimiters_spec delims s hd buf pos hag hpos
  have hpa := le_skipDelimiters delims buf pos
  have hstop := skipDelimiters_stops delims buf pos
  set a := skipDelimiters delims buf pos
  have hlt : a < s.length := by
    by_contra hge
    exact hz (by rw [show a = s.length by omega]; exact byteAt_length_of_holds s buf pos hag hpos)
  refine ⟨hlt, ?_⟩
  -- the loop stopped at a byte that is neither NUL nor a delimiter
  rw [hag a hpa hlt.le] at hz hstop
  rw [strchr_isSome_iff_isDelim delims hd] at hstop
  cases hdc : isDelim delims (s.getD a 0)
  · rfl
  · exact absurd ⟨Or.inr hdc, hz⟩ hstop

omit hd in
/-- The run `t` that `strtok_r`'s second loop scans is the first run from where it starts;
the others follow from the byte after it. -/
theorem runs_drop_token {a : Nat} {t : List UInt8} (htne : t ≠ [])
    (hsplit : s.drop a = t ++ s.drop (a + t.length)) (htok : ∀ c ∈ t, tokenByte delims c)
    (hend : a + t.length = s.length ∨
      (a + t.length < s.length ∧ isDelim delims (s.getD (a + t.length) 0))) :
    Runs.runs (isDelim delims) (s.drop a) =
      t :: Runs.runs (isDelim delims) ((s.drop (a + t.length)).drop 1) := by
  have htd : ∀ c ∈ t, isDelim delims c = false := fun c hc => by
    have hc' := htok c hc
    simp only [tokenByte, Bool.and_eq_true, Bool.not_eq_true'] at hc'
    exact hc'.1
  rw [hsplit]
  apply Runs.runs_token_append _ t _ htne htd
  rcases hend with hend | ⟨hlt', hsp⟩
  · left
    simp [hend]
  · right
    rw [List.getD_eq_getElem _ _ hlt'] at hsp
    exact ⟨_, _, List.drop_eq_getElem_cons hlt', hsp⟩

/-- One call of `strtok_r` on the string: it returns the first run `t` left, at or after
`pos`, writes a NUL after it unless the terminator is there already, and saves a position
from which the rest of the runs follow. The one byte it may write is the delimiter right
after the token. -/
theorem strtokR_some_of_holds (hnul : (0 : UInt8) ∉ s) (buf : List UInt8) (pos tok : Nat)
    (buf' : List UInt8) (save : Nat) (hag : Holds s buf pos) (hpos : pos ≤ s.length)
    (h : strtokR delims buf pos = (some tok, buf', save)) :
    ∃ t, Runs.runs (isDelim delims) (s.drop pos) =
        t :: Runs.runs (isDelim delims) (s.drop save) ∧ (0 : UInt8) ∉ t ∧
      pos ≤ tok ∧ tok + t.length ≤ save ∧ save ≤ s.length ∧ Holds s buf' save ∧
      (∀ j < t.length, byteAt buf' (tok + j) = t.getD j 0) ∧
      byteAt buf' (tok + t.length) = 0 ∧
      ∀ i, byteAt buf' i ≠ byteAt buf i →
        i = tok + t.length ∧ i < s.length ∧ isDelim delims (s.getD i 0) ∧ byteAt buf' i = 0 := by
  obtain ⟨ha_le, hruns⟩ := skipDelimiters_spec delims s hd buf pos hag hpos
  have hpa := le_skipDelimiters delims buf pos
  set a := skipDelimiters delims buf pos with ha
  have hagA : Holds s buf a := fun i hi hi' => hag i (by omega) hi'
  unfold strtokR at h
  rw [← ha] at h
  split at h
  · simp at h
  rename_i hz
  obtain ⟨hlt, hna⟩ := skipDelimiters_inside delims s hd buf pos hag hpos hz
  rw [← ha] at hlt hna
  obtain ⟨t, htne, he, hsplit, htok, hend⟩ := skipToken_spec delims s hd hnul buf a hagA hlt hna
  rw [he] at h
  have hbytes : ∀ j < t.length, s.getD (a + j) 0 = t.getD j 0 :=
    fun j hj => getD_add_of_drop_eq s t _ a j hsplit hj
  have ht0 : (0 : UInt8) ∉ t := fun h0 => by simpa [tokenByte] using htok 0 h0
  have hruns' := runs_drop_token delims s htne hsplit htok hend
  split at h
  · -- a delimiter ends the token: it becomes the token's NUL, and the save pointer passes it
    rename_i hne
    simp only [Prod.mk.injEq, Option.some.injEq] at h
    obtain ⟨rfl, rfl, rfl⟩ := h
    have he_lt : a + t.length < s.length ∧ isDelim delims (s.getD (a + t.length) 0) := by
      rcases hend with hend | hlt'
      · exact absurd (hend ▸ byteAt_length_of_holds s buf pos hag hpos) hne
      · exact hlt'
    have hbuf : a + t.length < buf.length := lt_length_of_byteAt_ne_zero _ _ hne
    refine ⟨t, ?_, ht0, hpa, by omega, by omega, ?_, ?_, byteAt_set_self _ _ _ hbuf, ?_⟩
    · rw [hruns, hruns', List.drop_drop]
    · intro i hi hi'
      rw [byteAt_set_ne _ _ _ _ (by omega)]
      exact hag i (by omega) hi'
    · intro j hj
      rw [byteAt_set_ne _ _ _ _ (by omega), hag _ (by omega) (by omega)]
      exact hbytes j hj
    · intro i hi
      -- only the byte that was set differs
      by_cases hie : a + t.length = i
      · subst hie
        exact ⟨rfl, he_lt.1, he_lt.2, byteAt_set_self _ _ _ hbuf⟩
      · exact absurd (byteAt_set_ne _ _ _ _ hie) hi
  · -- the terminator ends the token: nothing is written
    rename_i hz'
    simp only [Prod.mk.injEq, Option.some.injEq] at h
    obtain ⟨rfl, rfl, rfl⟩ := h
    have hend' : a + t.length = s.length := by
      rcases hend with hend | ⟨hlt', -⟩
      · exact hend
      · rw [not_not, byteAt_of_holds s buf pos hag _ (by omega) hlt'] at hz'
        exact absurd (hz' ▸ List.getElem_mem hlt') hnul
    refine ⟨t, ?_, ht0, hpa, le_rfl, by omega, fun i hi hi' => hag i (by omega) hi', ?_,
      not_not.mp hz', fun i hi => absurd rfl hi⟩
    · rw [hruns, hruns', hend', List.drop_length]
      rfl
    · intro j hj
      rw [hag _ (by omega) (by omega)]
      exact hbytes j hj

omit hd in
/-- After a `NULL` the save position is at a NUL, so every later call returns `NULL` there
and writes nothing. -/
theorem strtokR_of_none {buf buf' : List UInt8} {pos save : Nat}
    (h : strtokR delims buf pos = (none, buf', save)) :
    buf' = buf ∧ strtokR delims buf save = (none, buf, save) := by
  unfold strtokR at h
  split at h
  · rename_i hz
    simp only [Prod.mk.injEq] at h
    obtain ⟨-, rfl, rfl⟩ := h
    -- the first loop does not move from a NUL
    have hstay : skipDelimiters delims buf (skipDelimiters delims buf pos) =
        skipDelimiters delims buf pos := by
      rw [skipDelimiters, dif_neg (fun h => h.2 hz)]
    refine ⟨rfl, ?_⟩
    unfold strtokR
    rw [hstay, if_pos hz]
  · split at h <;> simp at h

omit hd in
/-- A string stored with its terminator at the start of a buffer. -/
theorem holds_append (rest : List UInt8) : Holds s (s ++ 0 :: rest) 0 := by
  intro i _ hi
  rcases Nat.lt_or_ge i s.length with hlt | hge
  · rw [byteAt, List.getD_append _ _ _ _ hlt]
  · have hi : i = s.length := by omega
    subst hi
    simp [byteAt, List.getD_eq_getElem?_getD]

end Call

/-! ## The sequence of calls -/

section Calls

variable {delims : List UInt8}

@[simp] theorem strtokCalls_zero (buf : List UInt8) (save : Nat) :
    strtokCalls delims buf save 0 = ([], buf) := rfl

theorem strtokCalls_succ_of_eq {buf buf' : List UInt8} {save save' : Nat} {r : Option Nat}
    (h : strtokR delims buf save = (r, buf', save')) (k : Nat) :
    strtokCalls delims buf save (k + 1) =
      (r :: (strtokCalls delims buf' save' k).1, (strtokCalls delims buf' save' k).2) := by
  simp [strtokCalls, h]

/-- Calls from a save position where `strtok_r` returns `NULL` all return `NULL`. -/
theorem strtokCalls_of_none {buf : List UInt8} {save : Nat}
    (h : strtokR delims buf save = (none, buf, save)) (k : Nat) :
    strtokCalls delims buf save k = (List.replicate k none, buf) := by
  induction k with
  | zero => rfl
  | succ k ih => rw [strtokCalls_succ_of_eq h, ih, List.replicate_succ]

end Calls

/-- What the calls of `strtok_r` from `pos` do to the string `s` held in `buf`: the tokens
`toks` start the runs of `s` from `pos`, and `final` is the buffer after the last of them. -/
structure Tokenises (delims s buf : List UInt8) (pos : Nat) (toks : List Nat)
    (final : List UInt8) : Prop where
  /-- One token per run. -/
  length_eq : toks.length = (Runs.runs (isDelim delims) (s.drop pos)).length
  /-- The strings at the tokens, in the final buffer, are the runs. -/
  cstr_eq : toks.map (cstr final) = Runs.runs (isDelim delims) (s.drop pos)
  /-- Call `i` returns token `i`, and `NULL` once the tokens are used up. -/
  results : ∀ k, (strtokCalls delims buf pos k).1 = (List.range k).map (toks[·]?)
  /-- After the last token the buffer no longer changes. -/
  final_eq : ∀ k, toks.length ≤ k → (strtokCalls delims buf pos k).2 = final
  /-- Each token lies in the string, at or after `pos`. -/
  inside : ∀ j < toks.length, pos ≤ toks.getD j 0 ∧
    toks.getD j 0 + ((Runs.runs (isDelim delims) (s.drop pos)).getD j []).length ≤ s.length
  /-- The only bytes written are delimiters right after tokens, and they become NULs. -/
  writes : ∀ i, byteAt final i ≠ byteAt buf i →
    byteAt final i = 0 ∧ i < s.length ∧ isDelim delims (s.getD i 0) ∧
      ∃ j < toks.length,
        i = toks.getD j 0 + ((Runs.runs (isDelim delims) (s.drop pos)).getD j []).length

section Run

variable {delims s buf final : List UInt8} {pos : Nat} {toks : List Nat}

/-- Bytes before `pos` and NULs are never written. -/
theorem Tokenises.frame (ht : Tokenises delims s buf pos toks final) (i : Nat)
    (hi : i < pos ∨ byteAt buf i = 0) : byteAt final i = byteAt buf i := by
  refine byteAt_frame (fun i hne => ?_) i hi
  obtain ⟨h0, -, -, j, hj, rfl⟩ := ht.writes i hne
  exact ⟨(ht.inside j hj).1.trans (Nat.le_add_right _ _), h0⟩

/-- With no run left, the calls return `NULL` and write nothing. -/
theorem tokenises_nil (hd : (0 : UInt8) ∉ delims) (hnul : (0 : UInt8) ∉ s)
    (hag : Holds s buf pos) (hpos : pos ≤ s.length)
    (hn : Runs.runs (isDelim delims) (s.drop pos) = []) :
    Tokenises delims s buf pos [] buf := by
  obtain ⟨r, buf', save, hr⟩ : ∃ r buf' save, strtokR delims buf pos = (r, buf', save) :=
    ⟨_, _, _, rfl⟩
  cases r with
  | some tok =>
      obtain ⟨t, hruns, -⟩ := strtokR_some_of_holds delims s hd hnul buf pos tok buf' save hag hpos hr
      simp [hn] at hruns
  | none =>
      obtain ⟨hb, hagain⟩ := strtokR_of_none delims hr
      rw [hb] at hr
      have hcalls : ∀ k, strtokCalls delims buf pos k = (List.replicate k none, buf) := by
        intro k
        cases k with
        | zero => rfl
        | succ k => rw [strtokCalls_succ_of_eq hr, strtokCalls_of_none hagain, List.replicate_succ]
      refine ⟨by simp [hn], by simp [hn], fun k => ?_, fun k _ => by rw [hcalls], fun j hj => ?_,
        fun i hi => absurd rfl hi⟩
      · rw [hcalls]
        simp
      · simp at hj

/-- One call more: it returns the start of the first run, and the tokens of the calls
after it follow. -/
theorem tokenises_cons (hd : (0 : UInt8) ∉ delims) (hnul : (0 : UInt8) ∉ s)
    (hag : Holds s buf pos) (hpos : pos ≤ s.length) {tok save : Nat} {buf' : List UInt8}
    (hr : strtokR delims buf pos = (some tok, buf', save)) {toks' : List Nat}
    (ht : Tokenises delims s buf' save toks' final) :
    Tokenises delims s buf pos (tok :: toks') final := by
  obtain ⟨t, hruns, ht0, hpt, htok, hsave, -, hbytes, hend, hwrite⟩ :=
    strtokR_some_of_holds delims s hd hnul buf pos tok buf' save hag hpos hr
  constructor
  · simp [hruns, ht.length_eq]
  · -- the token lies before `save` and ends at a NUL: the later calls keep both
    rw [List.map_cons, ht.cstr_eq, hruns]
    congr 1
    refine cstr_eq_of_bytes _ tok t ?_ ht0 ?_
    · intro j hj
      rw [ht.frame _ (Or.inl (by omega)), hbytes j hj]
    · rw [ht.frame _ (Or.inr hend), hend]
  · intro k
    cases k with
    | zero => rfl
    | succ k =>
        rw [strtokCalls_succ_of_eq hr, ht.results k, List.range_succ_eq_map]
        simp [Function.comp_def]
  · intro k hk
    obtain ⟨k, rfl⟩ : ∃ k', k = k' + 1 := ⟨k - 1, by simp at hk; omega⟩
    rw [strtokCalls_succ_of_eq hr]
    exact ht.final_eq k (by simpa using hk)
  · intro j hj
    cases j with
    | zero =>
        simp only [List.getD_cons_zero, hruns]
        omega
    | succ j =>
        have := ht.inside j (by simpa using hj)
        simp only [List.getD_cons_succ, hruns]
        omega
  · intro i hi
    -- a byte written by this call, or by a later one
    by_cases hlater : byteAt final i = byteAt buf' i
    · obtain ⟨rfl, hlt, hdel, h0⟩ := hwrite i (hlater ▸ hi)
      exact ⟨hlater.trans h0, hlt, hdel, 0, by simp, by simp [hruns]⟩
    · obtain ⟨h0, hlt, hdel, j, hj, rfl⟩ := ht.writes i hlater
      exact ⟨h0, hlt, hdel, j + 1, by simpa using hj, by simp [hruns]⟩

/-- From any position where the buffer holds the string, the calls tokenise it; by
induction on the number of runs left. -/
theorem tokenises_of_holds (hd : (0 : UInt8) ∉ delims) (hnul : (0 : UInt8) ∉ s) (n : Nat) :
    ∀ (buf : List UInt8) (pos : Nat), Holds s buf pos → pos ≤ s.length →
      (Runs.runs (isDelim delims) (s.drop pos)).length = n →
      ∃ toks final, Tokenises delims s buf pos toks final := by
  induction n with
  | zero =>
      intro buf pos hag hpos hn
      exact ⟨[], buf, tokenises_nil hd hnul hag hpos (List.eq_nil_of_length_eq_zero hn)⟩
  | succ n ih =>
      intro buf pos hag hpos hn
      obtain ⟨r, buf', save, hr⟩ : ∃ r buf' save, strtokR delims buf pos = (r, buf', save) :=
        ⟨_, _, _, rfl⟩
      cases r with
      | none =>
          have hnil := (strtokR_none_of_holds delims s hd hnul buf pos buf' save hag hpos hr).1
          simp [hnil] at hn
      | some tok =>
          obtain ⟨t, hruns, -, -, -, hsave, hag', -⟩ :=
            strtokR_some_of_holds delims s hd hnul buf pos tok buf' save hag hpos hr
          obtain ⟨toks', final', ht⟩ := ih buf' save hag' hsave (by simpa [hruns] using hn)
          exact ⟨tok :: toks', final', tokenises_cons hd hnul hag hpos hr ht⟩

end Run

/-- For a string with no NUL byte, stored with its terminator at the start of a buffer, and
a delimiter string with no NUL byte, the calls of `strtok_r` tokenise the string. -/
theorem strtok_r_tokenises (delims s rest : List UInt8) (hd : (0 : UInt8) ∉ delims)
    (hnul : (0 : UInt8) ∉ s) : ∃ toks final, Tokenises delims s (s ++ 0 :: rest) 0 toks final :=
  tokenises_of_holds hd hnul _ _ 0 (holds_append s rest) (Nat.zero_le _) rfl

/-- `",a,,bc "` cut at commas and spaces. -/
theorem strtok_r_tokenises_commas :
    (0 : UInt8) ∉ [44, 32] ∧ (0 : UInt8) ∉ [44, 97, 44, 44, 98, 99, 32] ∧
      ∃ toks final, Tokenises [44, 32] [44, 97, 44, 44, 98, 99, 32]
        ([44, 97, 44, 44, 98, 99, 32] ++ 0 :: []) 0 toks final :=
  ⟨by decide, by decide, strtok_r_tokenises _ _ _ (by decide) (by decide)⟩

end Pintos.Str
