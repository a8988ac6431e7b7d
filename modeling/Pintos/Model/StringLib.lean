import Pintos.Lib.ByteMemory
import Mathlib.Data.List.GetD
import Mathlib.Data.List.TakeWhile

/-!
# The string functions of `lib/string.c` that argument passing uses

A kernel buffer (`char[PGSIZE]` from `palloc_get_page`) is a list of bytes and a pointer
into it a position; `byteAt` reads past the end as `'\0'`, which no scan of a
NUL-terminated string inside the buffer reaches. User memory is `ByteMemory.Memory`, and a
function that writes it returns its writes.

* `strchr` (string.c:112-125) scans a NUL-terminated string; the terminator itself is a
  match, so `strchr (d, '\0')` is never `NULL` (`strchr_isSome_iff`).
* `strlen` (string.c:295-304) counts the bytes up to the terminator; `cstr` is the string
  itself.
* `strlcpy` (string.c:328-345) copies at most `size - 1` bytes with `memcpy` and then
  writes the terminator.
* `strtok_r` (string.c:233-274) skips delimiters, returns `NULL` at the terminator, else
  scans the token, overwrites the delimiter after it with `'\0'` and saves the position
  after that; at the end of the string it saves the terminator's position.
-/

set_option autoImplicit false

namespace Pintos.Str

/-- The byte at position `i` of a kernel buffer; `'\0'` past its end. -/
def byteAt (buf : List UInt8) (i : Nat) : UInt8 :=
  buf.getD i 0

theorem lt_length_of_byteAt_ne_zero (buf : List UInt8) (i : Nat) (h : byteAt buf i ≠ 0) :
    i < buf.length := by
  by_contra hge
  exact h (List.getD_eq_default buf 0 (Nat.le_of_not_lt hge))

theorem byteAt_set_ne (buf : List UInt8) (e i : Nat) (v : UInt8) (h : e ≠ i) :
    byteAt (buf.set e v) i = byteAt buf i := by
  simp [byteAt, List.getD_eq_getElem?_getD, List.getElem?_set_ne h]

theorem byteAt_set_self (buf : List UInt8) (e : Nat) (v : UInt8) (h : e < buf.length) :
    byteAt (buf.set e v) e = v := by
  simp [byteAt, List.getD_eq_getElem?_getD, h]

/-- `strchr (string, c)`: the position of the first `c` in the string `string` (its bytes
without the terminator), where the terminator counts as a byte of the string. -/
def strchr : List UInt8 → UInt8 → Option Nat
  | [], c => if c = 0 then some 0 else none
  | x :: l, c => if x = c then some 0 else (strchr l c).map (· + 1)

/-- `strchr` finds the terminator: it is never `NULL` for `'\0'`. -/
theorem strchr_zero_isSome (d : List UInt8) : (strchr d 0).isSome := by
  induction d with
  | nil => simp [strchr]
  | cons x l ih =>
      simp only [strchr]
      split
      · rfl
      · simpa using ih

/-- For a string without NUL bytes, `strchr` finds exactly its bytes and the terminator. -/
theorem strchr_isSome_iff (d : List UInt8) (c : UInt8) (hd : (0 : UInt8) ∉ d) :
    (strchr d c).isSome ↔ c = 0 ∨ c ∈ d := by
  induction d with
  | nil => by_cases hc : c = 0 <;> simp [strchr, hc]
  | cons x l ih =>
      have hl : (0 : UInt8) ∉ l := fun h => hd (by simp [h])
      simp only [strchr]
      by_cases hx : x = c
      · subst hx
        simp
      · simp only [hx, if_false, Option.isSome_map, ih hl, List.mem_cons]
        constructor
        · rintro (h | h)
          · exact Or.inl h
          · exact Or.inr (Or.inr h)
        · rintro (h | h | h)
          · exact Or.inl h
          · exact absurd h.symm hx
          · exact Or.inr h

/-- The NUL-terminated string at position `p` of a buffer, without its terminator. -/
def cstr (buf : List UInt8) (p : Nat) : List UInt8 :=
  (buf.drop p).takeWhile (· != 0)

theorem zero_not_mem_cstr (buf : List UInt8) (p : Nat) : (0 : UInt8) ∉ cstr buf p :=
  fun h => by simpa using List.mem_takeWhile_imp h

/-- `strlen`: the number of bytes before the terminator. -/
def strlen (buf : List UInt8) (p : Nat) : Nat :=
  (cstr buf p).length

/-- `strlcpy (dst, src, size)` from a kernel buffer into user memory: `memcpy` of
`min (size - 1) (strlen src)` bytes, then the terminator. Returns the writes. -/
def strlcpy (dst : Nat) (buf : List UInt8) (src size : Nat) : List (Nat × List UInt8) :=
  if size > 0 then
    [(dst, (buf.drop src).take (min (size - 1) (strlen buf src))),
      (dst + min (size - 1) (strlen buf src), [0])]
  else []

theorem cstr_of_byteAt_eq_zero (buf : List UInt8) (p : Nat) (h : byteAt buf p = 0) :
    cstr buf p = [] := by
  by_cases hp : p < buf.length
  · rw [byteAt, List.getD_eq_getElem _ _ hp] at h
    simp [cstr, List.drop_eq_getElem_cons hp, h]
  · simp [cstr, List.drop_eq_nil_of_le (Nat.le_of_not_lt hp)]

theorem cstr_of_byteAt_ne_zero (buf : List UInt8) (p : Nat) (h : byteAt buf p ≠ 0) :
    cstr buf p = byteAt buf p :: cstr buf (p + 1) := by
  have hp := lt_length_of_byteAt_ne_zero buf p h
  rw [byteAt, List.getD_eq_getElem _ _ hp] at h ⊢
  unfold cstr
  rw [List.drop_eq_getElem_cons hp, List.takeWhile_cons_of_pos (by simpa using h)]

/-- The string at `p` is `t` when the buffer holds `t`'s bytes there, none of them NUL, and
then a NUL. -/
theorem cstr_eq_of_bytes (buf : List UInt8) (p : Nat) (t : List UInt8)
    (hbytes : ∀ j < t.length, byteAt buf (p + j) = t.getD j 0) (hnul : (0 : UInt8) ∉ t)
    (hend : byteAt buf (p + t.length) = 0) : cstr buf p = t := by
  induction t generalizing p with
  | nil => exact cstr_of_byteAt_eq_zero buf p hend
  | cons c t ih =>
      have hc : byteAt buf p = c := by simpa using hbytes 0 (by simp)
      have hc0 : c ≠ 0 := fun h => hnul (by simp [h])
      rw [cstr_of_byteAt_ne_zero buf p (hc ▸ hc0), hc]
      congr 1
      apply ih (p + 1)
      · intro j hj
        simpa [Nat.add_assoc, Nat.add_comm 1 j] using hbytes (j + 1) (by simp; omega)
      · exact fun h => hnul (List.mem_cons_of_mem c h)
      · simpa [Nat.add_assoc, Nat.add_comm 1] using hend

/-- A string stored with its terminator at the start of a buffer. -/
theorem cstr_append_zero (t : List UInt8) (ht : (0 : UInt8) ∉ t) : cstr (t ++ [0]) 0 = t := by
  have hpos : ∀ a ∈ t, (a != 0) = true := fun a ha => by
    simpa using fun h : a = 0 => ht (h ▸ ha)
  rw [cstr, List.drop_zero, List.takeWhile_append_of_pos hpos]
  simp

/-- A copy of a string shorter than the room writes the string and its terminator. -/
theorem strlcpy_append_zero (dst : Nat) (t : List UInt8) (size : Nat) (ht : (0 : UInt8) ∉ t)
    (hsize : t.length < size) :
    strlcpy dst (t ++ [0]) 0 size = [(dst, t), (dst + t.length, [0])] := by
  have hlen : strlen (t ++ [0]) 0 = t.length := by rw [strlen, cstr_append_zero t ht]
  rw [strlcpy, if_pos (by omega), hlen, Nat.min_eq_right (by omega), List.drop_zero,
    List.take_left' rfl]

/-- The bytes `memcpy` takes for `strlen` bytes are the string itself. -/
theorem take_strlen (buf : List UInt8) (p : Nat) :
    (buf.drop p).take (strlen buf p) = cstr buf p := by
  unfold strlen cstr
  generalize buf.drop p = l
  induction l with
  | nil => rfl
  | cons c l ih => by_cases hc : c = 0 <;> simp [hc, ih]

/-- A copy with room for the string and its terminator writes both. -/
theorem strlcpy_strlen_succ (dst : Nat) (buf : List UInt8) (p : Nat) :
    strlcpy dst buf p (strlen buf p + 1) =
      [(dst, cstr buf p), (dst + strlen buf p, [0])] := by
  simp [strlcpy, take_strlen]

/-- The first loop of `strtok_r`: skip delimiters, stopping at the terminator or at the
first byte that is not a delimiter. -/
def skipDelimiters (delims buf : List UInt8) (s : Nat) : Nat :=
  if h : (strchr delims (byteAt buf s)).isSome ∧ byteAt buf s ≠ 0 then
    skipDelimiters delims buf (s + 1)
  else s
termination_by buf.length - s
decreasing_by
  have := lt_length_of_byteAt_ne_zero buf s h.2
  omega

/-- The second loop of `strtok_r`: scan the token up to the next delimiter or the
terminator. -/
def skipToken (delims buf : List UInt8) (s : Nat) : Nat :=
  if h : (strchr delims (byteAt buf s)).isNone then skipToken delims buf (s + 1) else s
termination_by buf.length - s
decreasing_by
  have hne : byteAt buf s ≠ 0 := by
    intro h0
    rw [h0] at h
    have := strchr_zero_isSome delims
    simp_all
  have := lt_length_of_byteAt_ne_zero buf s hne
  omega

/-- `strtok_r (s, delimiters, save_ptr)` started at position `s` (the argument, or
`*save_ptr` for a `NULL` argument): the token's position or `NULL`, the buffer, and the new
`*save_ptr`. -/
def strtokR (delims buf : List UInt8) (s : Nat) : Option Nat × List UInt8 × Nat :=
  if byteAt buf (skipDelimiters delims buf s) = 0 then
    (none, buf, skipDelimiters delims buf s)
  else if byteAt buf (skipToken delims buf (skipDelimiters delims buf s)) ≠ 0 then
    (some (skipDelimiters delims buf s),
      buf.set (skipToken delims buf (skipDelimiters delims buf s)) 0,
      skipToken delims buf (skipDelimiters delims buf s) + 1)
  else
    (some (skipDelimiters delims buf s), buf,
      skipToken delims buf (skipDelimiters delims buf s))

/-! ## How far the scans go -/

theorem le_skipDelimiters (delims buf : List UInt8) (s : Nat) :
    s ≤ skipDelimiters delims buf s := by
  induction s using skipDelimiters.induct delims buf with
  | case1 s h ih =>
      rw [skipDelimiters, dif_pos h]
      omega
  | case2 s h =>
      rw [skipDelimiters, dif_neg h]

/-- The first loop of `strtok_r` stops at the terminator or at a non-delimiter. -/
theorem skipDelimiters_stops (delims buf : List UInt8) (s : Nat) :
    ¬ ((strchr delims (byteAt buf (skipDelimiters delims buf s))).isSome ∧
      byteAt buf (skipDelimiters delims buf s) ≠ 0) := by
  induction s using skipDelimiters.induct delims buf with
  | case1 s h ih =>
      rw [skipDelimiters, dif_pos h]
      exact ih
  | case2 s h =>
      rw [skipDelimiters, dif_neg h]
      exact h

/-- The second loop of `strtok_r` stops at a delimiter or at the terminator. -/
theorem skipToken_stops (delims buf : List UInt8) (s : Nat) :
    ¬ (strchr delims (byteAt buf (skipToken delims buf s))).isNone := by
  induction s using skipToken.induct delims buf with
  | case1 s h ih =>
      rw [skipToken, dif_pos h]
      exact ih
  | case2 s h =>
      rw [skipToken, dif_neg h]
      exact h

theorem lt_skipToken (delims buf : List UInt8) (s : Nat)
    (h : (strchr delims (byteAt buf s)).isNone) : s < skipToken delims buf s := by
  rw [skipToken, dif_pos h]
  have key : ∀ t, t ≤ skipToken delims buf t := by
    intro t
    induction t using skipToken.induct delims buf with
    | case1 t h ih =>
        rw [skipToken, dif_pos h]
        omega
    | case2 t h =>
        rw [skipToken, dif_neg h]
  have := key (s + 1)
  omega

/-- A token that `strtok_r` returns lies in the buffer, after the start, and the saved
position is past it; the buffer keeps its length. -/
theorem strtokR_some (delims buf : List UInt8) (s tok : Nat) (buf' : List UInt8) (save : Nat)
    (h : strtokR delims buf s = (some tok, buf', save)) :
    buf'.length = buf.length ∧ s < save ∧ s < buf.length := by
  unfold strtokR at h
  have hs := le_skipDelimiters delims buf s
  split at h
  · simp at h
  · rename_i hz
    have hlt := lt_length_of_byteAt_ne_zero buf _ hz
    -- the byte at the token's start is no delimiter: the first loop stopped there
    have hnone : (strchr delims (byteAt buf (skipDelimiters delims buf s))).isNone := by
      simpa [hz] using skipDelimiters_stops delims buf s
    have htok := lt_skipToken delims buf _ hnone
    split at h
    · simp only [Prod.mk.injEq, Option.some.injEq] at h
      obtain ⟨-, rfl, rfl⟩ := h
      exact ⟨by simp, by omega, by omega⟩
    · simp only [Prod.mk.injEq, Option.some.injEq] at h
      obtain ⟨-, rfl, rfl⟩ := h
      exact ⟨rfl, by omega, by omega⟩

end Pintos.Str
