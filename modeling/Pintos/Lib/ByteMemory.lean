import Mathlib.Data.List.GetD
import Mathlib.Tactic.Ring

/-!
# Byte-addressed memory with block writes

A memory is a function from addresses to bytes. A program's effect on it is recorded as
the list of blocks it writes, in order: `(a, bs)` stores the bytes `bs` at `a`,
`a + 1`, ... The memory after the writes is `applyWrites`; the addresses they touch are
the union of the blocks, so "every written byte lies in a range" is a statement about
the list of writes alone.

Reading back follows two rules: a byte inside the last block written over it has that
block's value (`applyWrites_append_writeBytes`, `writeBytes_self`), and a byte no block
touches keeps its old value (`applyWrites_of_not_mem`). When no two blocks of a list
overlap (`Apart`), every byte inside a block has that block's value, wherever in the list
the block stands (`applyWrites_of_mem`), and so the `n` bytes a block covers read back as
the block (`readBytes_applyWrites_of_mem`). Words are 32-bit little-endian: `readWord`
after `le32 v` gives `v mod 2^32` (`readWord_writeBytes_le32`).

A block written where the previous one ended extends it (`writeBytes_append`,
`writeBytes_take_drop`), so a loop that writes a buffer chunk by chunk writes it as one
block; a range read over a block written inside it is the block, with the range's own bytes
on either side (`readBytes_writeBytes_inside`).
-/

set_option autoImplicit false

namespace ByteMemory

/-- Byte-addressed memory. -/
abbrev Memory := Nat → UInt8

/-- Store `bs` at `a`, `a + 1`, ... -/
def writeBytes (m : Memory) (a : Nat) (bs : List UInt8) : Memory :=
  fun x => if a ≤ x ∧ x < a + bs.length then bs.getD (x - a) 0 else m x

/-- The memory after a list of block writes, applied in order. -/
def applyWrites (m : Memory) (ws : List (Nat × List UInt8)) : Memory :=
  ws.foldl (fun m w => writeBytes m w.1 w.2) m

/-- Whether address `x` lies in the block of the write `w`. -/
def InWrite (x : Nat) (w : Nat × List UInt8) : Prop :=
  w.1 ≤ x ∧ x < w.1 + w.2.length

/-- Two blocks that share no address. -/
def Apart (w w' : Nat × List UInt8) : Prop :=
  w.1 + w.2.length ≤ w'.1 ∨ w'.1 + w'.2.length ≤ w.1

instance (w w' : Nat × List UInt8) : Decidable (Apart w w') :=
  inferInstanceAs (Decidable (_ ∨ _))

/-- The `n` bytes at `a`. -/
def readBytes (m : Memory) (a n : Nat) : List UInt8 :=
  (List.range n).map fun i => m (a + i)

/-- The four little-endian bytes of a 32-bit word. -/
def le32 (v : Nat) : List UInt8 :=
  [UInt8.ofNat v, UInt8.ofNat (v / 2 ^ 8), UInt8.ofNat (v / 2 ^ 16), UInt8.ofNat (v / 2 ^ 24)]

@[simp] theorem length_le32 (v : Nat) : (le32 v).length = 4 := rfl

/-- The 32-bit little-endian word at `a`. -/
def readWord (m : Memory) (a : Nat) : Nat :=
  (m a).toNat + 2 ^ 8 * (m (a + 1)).toNat + 2 ^ 16 * (m (a + 2)).toNat +
    2 ^ 24 * (m (a + 3)).toNat

theorem writeBytes_self (m : Memory) (a : Nat) (bs : List UInt8) (j : Nat)
    (hj : j < bs.length) : writeBytes m a bs (a + j) = bs[j] := by
  simp [writeBytes, hj, List.getD_eq_getElem?_getD]

theorem writeBytes_of_lt (m : Memory) (a : Nat) (bs : List UInt8) (x : Nat) (hx : x < a) :
    writeBytes m a bs x = m x := by
  simp [writeBytes, Nat.not_le.mpr hx]

theorem writeBytes_of_ge (m : Memory) (a : Nat) (bs : List UInt8) (x : Nat)
    (hx : a + bs.length ≤ x) : writeBytes m a bs x = m x := by
  simp [writeBytes, Nat.not_lt.mpr hx]

@[simp] theorem applyWrites_nil (m : Memory) : applyWrites m [] = m := rfl

theorem applyWrites_cons (m : Memory) (w : Nat × List UInt8) (ws : List (Nat × List UInt8)) :
    applyWrites m (w :: ws) = applyWrites (writeBytes m w.1 w.2) ws := rfl

theorem applyWrites_append (m : Memory) (ws ws' : List (Nat × List UInt8)) :
    applyWrites m (ws ++ ws') = applyWrites (applyWrites m ws) ws' := by
  simp [applyWrites, List.foldl_append]

theorem applyWrites_append_writeBytes (m : Memory) (ws : List (Nat × List UInt8))
    (a : Nat) (bs : List UInt8) :
    applyWrites m (ws ++ [(a, bs)]) = writeBytes (applyWrites m ws) a bs := by
  simp [applyWrites]

/-- A byte no block touches keeps its value. -/
theorem applyWrites_of_not_mem (m : Memory) (ws : List (Nat × List UInt8)) (x : Nat)
    (hx : ∀ w ∈ ws, ¬ InWrite x w) : applyWrites m ws x = m x := by
  induction ws generalizing m with
  | nil => rfl
  | cons w ws ih =>
      have hw := hx w (by simp)
      simp only [applyWrites, List.foldl_cons] at ih ⊢
      rw [ih _ (fun w' hw' => hx w' (by simp [hw']))]
      simp only [InWrite, not_and, Nat.not_lt] at hw
      by_cases h : w.1 ≤ x
      · exact writeBytes_of_ge m w.1 w.2 x (hw h)
      · exact writeBytes_of_lt m w.1 w.2 x (Nat.not_le.mp h)

/-- Writes that all end at or below `x` leave the byte at `x` as it was. -/
theorem applyWrites_append_of_le (m : Memory) (ws ws' : List (Nat × List UInt8)) (x : Nat)
    (h : ∀ w ∈ ws', w.1 + w.2.length ≤ x) : applyWrites m (ws ++ ws') x = applyWrites m ws x := by
  rw [applyWrites_append]
  apply applyWrites_of_not_mem
  intro w hw hin
  have := h w hw
  simp only [InWrite] at hin
  omega

/-- A string written with its terminator reads back, terminator included, as the string
padded with zeros. -/
theorem applyWrites_string (m : Memory) (ws : List (Nat × List UInt8)) (dst : Nat)
    (c : List UInt8) (j : Nat) (hj : j ≤ c.length) :
    applyWrites m (ws ++ [(dst, c), (dst + c.length, [0])]) (dst + j) = c.getD j 0 := by
  rw [show ws ++ [(dst, c), (dst + c.length, [0])] = (ws ++ [(dst, c)]) ++
      [(dst + c.length, [0])] by simp, applyWrites_append_writeBytes,
    applyWrites_append_writeBytes]
  rcases Nat.lt_or_eq_of_le hj with hlt | rfl
  · rw [writeBytes_of_lt _ _ _ _ (by omega), writeBytes_self _ _ _ _ hlt,
      List.getD_eq_getElem _ _ hlt]
  · have hw := writeBytes_self (writeBytes (applyWrites m ws) dst c) (dst + c.length) [0] 0
      (by simp)
    rw [Nat.add_zero] at hw
    rw [hw, List.getD_eq_default _ _ le_rfl]
    rfl

theorem not_inWrite_of_apart {x : Nat} {w w' : Nat × List UInt8} (hx : InWrite x w)
    (h : Apart w w') : ¬ InWrite x w' := by
  unfold InWrite at hx ⊢
  unfold Apart at h
  omega

/-- In a list of blocks no two of which overlap, a byte of one block has that block's value. -/
theorem applyWrites_of_mem (m : Memory) {ws : List (Nat × List UInt8)} (hws : ws.Pairwise Apart)
    {a : Nat} {bs : List UInt8} (hw : (a, bs) ∈ ws) {x : Nat} (hx : InWrite x (a, bs)) :
    applyWrites m ws x = bs.getD (x - a) 0 := by
  induction ws generalizing m with
  | nil => cases hw
  | cons w₀ ws ih =>
      rw [List.pairwise_cons] at hws
      rw [applyWrites_cons]
      rcases List.mem_cons.mp hw with rfl | hw
      · -- the blocks after this one all miss `x`
        rw [applyWrites_of_not_mem _ ws x fun w' hw' => not_inWrite_of_apart hx (hws.1 w' hw')]
        simp [writeBytes, hx.1, hx.2]
      · exact ih _ hws.2 hw

/-- Whether blocks overlap depends only on where they start and how long they are. -/
theorem pairwise_apart_iff (ws : List (Nat × List UInt8)) :
    ws.Pairwise Apart ↔
      (ws.map fun w => (w.1, w.2.length)).Pairwise fun p q => p.1 + p.2 ≤ q.1 ∨ q.1 + q.2 ≤ p.1 := by
  rw [List.pairwise_map]
  rfl

@[simp] theorem length_readBytes (m : Memory) (a n : Nat) : (readBytes m a n).length = n := by
  simp [readBytes]

theorem readBytes_add (m : Memory) (a n k : Nat) :
    readBytes m a (n + k) = readBytes m a n ++ readBytes m (a + n) k := by
  simp [readBytes, List.range_add, Nat.add_assoc]

theorem readBytes_one (m : Memory) (a : Nat) : readBytes m a 1 = [m a] := rfl

theorem getElem_readBytes (m : Memory) (a n i : Nat) (hi : i < (readBytes m a n).length) :
    (readBytes m a n)[i] = m (a + i) := by
  simp [readBytes]

/-- Two memories that agree on `n` bytes read them the same. -/
theorem readBytes_congr {m m' : Memory} {a n : Nat} (h : ∀ i < n, m (a + i) = m' (a + i)) :
    readBytes m a n = readBytes m' a n := by
  apply List.ext_getElem (by simp)
  intro i hi _
  rw [getElem_readBytes, getElem_readBytes, h i (by simpa using hi)]

/-- A block of a list of blocks no two of which overlap reads back. -/
theorem readBytes_applyWrites_of_mem (m : Memory) {ws : List (Nat × List UInt8)}
    (hws : ws.Pairwise Apart) {a : Nat} {bs : List UInt8} (hw : (a, bs) ∈ ws) :
    readBytes (applyWrites m ws) a bs.length = bs := by
  apply List.ext_getElem (by simp)
  intro i hi hi'
  rw [getElem_readBytes, applyWrites_of_mem m hws hw ⟨by simp, by simp at hi; simp; omega⟩,
    Nat.add_sub_cancel_left, List.getD_eq_getElem]

/-- Two memories that agree on a word read the same word. -/
theorem readWord_congr (m m' : Memory) (a : Nat)
    (h : ∀ k < 4, m (a + k) = m' (a + k)) : readWord m a = readWord m' a := by
  have h0 := h 0 (by omega)
  have h1 := h 1 (by omega)
  have h2 := h 2 (by omega)
  have h3 := h 3 (by omega)
  simp only [Nat.add_zero] at h0
  simp only [readWord, h0, h1, h2, h3]

/-- The little-endian bytes of `v` read back as `v mod 2^32`. -/
theorem readWord_writeBytes_le32 (m : Memory) (a v : Nat) :
    readWord (writeBytes m a (le32 v)) a = v % 2 ^ 32 := by
  simp only [readWord, writeBytes, le32, List.length_cons, List.length_nil]
  simp only [Nat.le_add_right, Nat.le_refl, Nat.add_sub_cancel_left, Nat.sub_self, true_and,
    show a < a + 4 by omega, show a + 1 < a + 4 by omega, show a + 2 < a + 4 by omega,
    show a + 3 < a + 4 by omega, if_true, List.getD_cons_zero, List.getD_cons_succ,
    UInt8.toNat_ofNat']
  omega

/-- Writes that all end at or below `a` leave the word at `a` as it was. -/
theorem readWord_append_of_le (m : Memory) (ws ws' : List (Nat × List UInt8)) (a : Nat)
    (h : ∀ w ∈ ws', w.1 + w.2.length ≤ a) :
    readWord (applyWrites m (ws ++ ws')) a = readWord (applyWrites m ws) a := by
  apply readWord_congr
  intro k _
  exact applyWrites_append_of_le m ws ws' (a + k) (fun w hw => by have := h w hw; omega)

/-- The word written last at `a` reads back. -/
theorem readWord_append_le32 (m : Memory) (ws : List (Nat × List UInt8)) (a v : Nat) :
    readWord (applyWrites m (ws ++ [(a, le32 v)])) a = v % 2 ^ 32 := by
  rw [applyWrites_append_writeBytes, readWord_writeBytes_le32]

@[simp] theorem writeBytes_nil (m : Memory) (a : Nat) : writeBytes m a [] = m := by
  funext x
  simp [writeBytes]

/-- A block written where the previous one ends extends it. -/
theorem writeBytes_append (m : Memory) (a : Nat) (bs cs : List UInt8) :
    writeBytes (writeBytes m a bs) (a + bs.length) cs = writeBytes m a (bs ++ cs) := by
  funext x
  simp only [writeBytes, List.length_append]
  by_cases hc : a + bs.length ≤ x ∧ x < a + bs.length + cs.length
  · rw [if_pos hc, if_pos ⟨by omega, by omega⟩, List.getD_append_right _ _ _ _ (by omega),
      Nat.sub_sub]
  · rw [if_neg hc]
    by_cases hb : a ≤ x ∧ x < a + bs.length
    · rw [if_pos hb, if_pos ⟨hb.1, by omega⟩, List.getD_append _ _ _ _ (by omega)]
    · rw [if_neg hb, if_neg (by omega)]

/-- The first `c` bytes of `l`, then the next `k` where they end, write its first `c + k`
bytes; also when `l` is shorter, since what is past its end writes nothing. -/
theorem writeBytes_take_drop (m : Memory) (a : Nat) (l : List UInt8) (c k : Nat) :
    writeBytes (writeBytes m a (l.take c)) (a + c) ((l.drop c).take k) =
      writeBytes m a (l.take (c + k)) := by
  by_cases hc : c ≤ l.length
  · have hlen : (l.take c).length = c := by simp [hc]
    have happ := writeBytes_append m a (l.take c) ((l.drop c).take k)
    rw [hlen] at happ
    rw [happ, List.take_add]
  · rw [List.drop_eq_nil_of_le (by omega), List.take_nil, writeBytes_nil,
      List.take_of_length_le (by omega), List.take_of_length_le (by omega)]

/-- A written block reads back. -/
theorem readBytes_writeBytes_self (m : Memory) (a : Nat) (bs : List UInt8) :
    readBytes (writeBytes m a bs) a bs.length = bs := by
  apply List.ext_getElem (by simp)
  intro i hi _
  rw [getElem_readBytes, writeBytes_self _ _ _ _ (by simpa using hi)]

/-- A range beside a written block reads as before. -/
theorem readBytes_writeBytes_of_apart (m : Memory) (a : Nat) (bs : List UInt8) (b n : Nat)
    (h : b + n ≤ a ∨ a + bs.length ≤ b) : readBytes (writeBytes m a bs) b n = readBytes m b n := by
  apply readBytes_congr
  intro i hi
  rcases h with h | h
  · exact writeBytes_of_lt _ _ _ _ (by omega)
  · exact writeBytes_of_ge _ _ _ _ (by omega)

theorem take_readBytes (m : Memory) (a n k : Nat) :
    (readBytes m a n).take k = readBytes m a (min k n) := by
  simp only [readBytes, ← List.map_take, List.take_range]

theorem drop_readBytes (m : Memory) (a n k : Nat) :
    (readBytes m a n).drop k = readBytes m (a + k) (n - k) := by
  apply List.ext_getElem (by simp)
  intro i _ _
  simp only [List.getElem_drop, getElem_readBytes, Nat.add_assoc]

/-- A range read over a block written inside it: the block, with the range's own bytes on
either side. -/
theorem readBytes_writeBytes_inside (m : Memory) (a k n : Nat) (bs : List UInt8)
    (h : k + bs.length ≤ n) :
    readBytes (writeBytes m (a + k) bs) a n =
      (readBytes m a n).take k ++ bs ++ (readBytes m a n).drop (k + bs.length) := by
  obtain ⟨t, rfl⟩ : ∃ t, n = k + bs.length + t := ⟨n - (k + bs.length), by omega⟩
  rw [take_readBytes, drop_readBytes, Nat.min_eq_left (by omega), Nat.add_sub_cancel_left,
    readBytes_add, readBytes_add, readBytes_writeBytes_of_apart _ _ _ _ _ (Or.inl le_rfl),
    readBytes_writeBytes_self, readBytes_writeBytes_of_apart _ _ _ _ _ (Or.inr (by omega))]

end ByteMemory
