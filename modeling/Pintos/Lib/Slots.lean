import Mathlib.Data.List.Perm.Basic

/-!
# Tables of slots

A table is a list of slots, some of them free; `f` reads the value a slot holds, `none` for a
free one, and the table holds `l.filterMap f`. Filling a free slot adds one value, up to the
order of the values (`filterMap_set_perm`); read the other way round, freeing a slot takes
its value out (`filterMap_set_free_perm`). A free slot exists exactly when the table holds fewer values than it has
slots (`length_filterMap_lt_iff`).

A list of pairs whose keys are distinct is a map: a key finds exactly the pairs in the list
(`lookup_eq_some_iff_mem`), so `lookup` does not depend on the order of the pairs
(`lookup_eq_of_perm`), and taking a pair off leaves the map without its key
(`perm_filter_of_cons_perm`). Searching the slots with their indices finds what searching the slots
finds, at its index (`find?_zipIdx_eq_some`).
-/

set_option autoImplicit false

namespace Slots

variable {α β κ : Type}

/-- Filling the free slot `i` with a slot that holds `y` adds `y` to what the table holds. -/
theorem filterMap_set_perm (f : α → Option β) (l : List α) {i : Nat} (hi : i < l.length)
    {x : α} {y : β} (hfree : f l[i] = none) (hx : f x = some y) :
    ((l.set i x).filterMap f).Perm (y :: l.filterMap f) := by
  have hl : l.filterMap f = (l.take i).filterMap f ++ (l.drop (i + 1)).filterMap f := by
    conv_lhs => rw [← List.take_append_drop i l, List.drop_eq_getElem_cons hi]
    simp only [List.filterMap_append, List.filterMap_cons, hfree]
  rw [List.set_eq_take_append_cons_drop, if_pos hi, hl]
  simp only [List.filterMap_append, List.filterMap_cons, hx]
  exact List.perm_middle

/-- Freeing slot `i`, which holds `y`, takes `y` out of what the table holds. -/
theorem filterMap_set_free_perm (f : α → Option β) (l : List α) {i : Nat} (hi : i < l.length)
    {x : α} {y : β} (hy : f l[i] = some y) (hx : f x = none) :
    (y :: (l.set i x).filterMap f).Perm (l.filterMap f) := by
  have hi' : i < (l.set i x).length := by rw [List.length_set]; exact hi
  have hperm := filterMap_set_perm f (l.set i x) hi' (x := l[i]) (by simpa using hx) hy
  rw [List.set_set, List.set_getElem_self hi] at hperm
  exact hperm.symm

/-- A free slot exists exactly when the table holds fewer values than it has slots. -/
theorem length_filterMap_lt_iff (f : α → Option β) (l : List α) :
    (l.filterMap f).length < l.length ↔ ∃ x ∈ l, f x = none := by
  induction l with
  | nil => simp
  | cons a l ih =>
      have hle := List.length_filterMap_le f l
      cases ha : f a with
      | none =>
          simp only [List.filterMap_cons, ha, List.length_cons, List.mem_cons]
          exact ⟨fun _ => ⟨a, Or.inl rfl, ha⟩, fun _ => by omega⟩
      | some b =>
          simp only [List.filterMap_cons, ha, List.length_cons, List.mem_cons,
            Nat.add_lt_add_iff_right, ih]
          constructor
          · rintro ⟨x, hx, hfx⟩
            exact ⟨x, Or.inr hx, hfx⟩
          · rintro ⟨x, rfl | hx, hfx⟩
            · rw [ha] at hfx
              cases hfx
            · exact ⟨x, hx, hfx⟩

section Lookup

variable [BEq κ] [LawfulBEq κ]

/-- With distinct keys, a key finds exactly the pair of the list that has it. -/
theorem lookup_eq_some_iff_mem {l : List (κ × β)} (hnd : (l.map Prod.fst).Nodup) (k : κ)
    (b : β) : l.lookup k = some b ↔ (k, b) ∈ l := by
  induction l with
  | nil => simp
  | cons p l ih =>
      obtain ⟨k', b'⟩ := p
      rw [List.map_cons, List.nodup_cons] at hnd
      by_cases hk : k = k'
      · subst hk
        -- the key is the head's, and no later pair has it
        have hnot : (k, b) ∉ l := fun h => hnd.1 (List.mem_map.mpr ⟨(k, b), h, rfl⟩)
        simp [hnot, eq_comm]
      · have hb : (k == k') = false := beq_eq_false_iff_ne.mpr hk
        simp [List.lookup_cons, hb, hk, ih hnd.2]

/-- A key finds nothing exactly when no pair has it. -/
theorem lookup_eq_none_iff_not_mem (l : List (κ × β)) (k : κ) :
    l.lookup k = none ↔ k ∉ l.map Prod.fst := by
  rw [List.lookup_eq_none_iff]
  simp only [bne_iff_ne, ne_eq, List.mem_map, not_exists, not_and]
  exact ⟨fun h p hp hpk => h p hp hpk.symm, fun h p hp hpk => h p hp hpk.symm⟩

/-- With distinct keys, `lookup` does not depend on the order of the pairs. -/
theorem lookup_eq_of_perm {l₁ l₂ : List (κ × β)} (h : l₁.Perm l₂)
    (hnd : (l₁.map Prod.fst).Nodup) (k : κ) : l₁.lookup k = l₂.lookup k := by
  have hnd₂ : (l₂.map Prod.fst).Nodup := (h.map Prod.fst).nodup_iff.mp hnd
  apply Option.ext
  intro b
  rw [lookup_eq_some_iff_mem hnd, lookup_eq_some_iff_mem hnd₂]
  exact h.mem_iff

/-- Dropping the pairs of one key: the key finds nothing, and every other key what it found. -/
theorem lookup_filter_ne_self (k : κ) (l : List (κ × β)) :
    (l.filter fun p => p.1 != k).lookup k = none := by
  induction l with
  | nil => rfl
  | cons p l ih =>
      by_cases hk : p.1 = k
      · have hpk : ¬(p.1 != k) = true := by simp [hk]
        rw [List.filter_cons, if_neg hpk]
        exact ih
      · rw [List.filter_cons, if_pos (bne_iff_ne.mpr hk), List.lookup_cons,
          beq_eq_false_iff_ne.mpr (Ne.symm hk)]
        exact ih

theorem lookup_filter_ne_of_ne {k q : κ} (hq : q ≠ k) (l : List (κ × β)) :
    (l.filter fun p => p.1 != k).lookup q = l.lookup q := by
  induction l with
  | nil => rfl
  | cons p l ih =>
      by_cases hk : p.1 = k
      · have hpk : ¬(p.1 != k) = true := by simp [hk]
        have hqp : (q == p.1) = false := beq_eq_false_iff_ne.mpr (hk ▸ hq)
        rw [List.filter_cons, if_neg hpk, ih, List.lookup_cons, hqp]
      · rw [List.filter_cons, if_pos (bne_iff_ne.mpr hk), List.lookup_cons, List.lookup_cons, ih]

/-- A pair taken off the front of a map: what is left is the map without the pair's key. -/
theorem perm_filter_of_cons_perm {k : κ} {v : β} {l m : List (κ × β)} (h : ((k, v) :: l).Perm m)
    (hnd : (m.map Prod.fst).Nodup) : l.Perm (m.filter fun p => p.1 != k) := by
  have hnd' := (h.map Prod.fst).nodup_iff.mpr hnd
  rw [List.map_cons, List.nodup_cons] at hnd'
  have hl : l.filter (fun p => p.1 != k) = l := by
    refine List.filter_eq_self.mpr fun p hp => bne_iff_ne.mpr fun hpk => hnd'.1 ?_
    exact hpk ▸ List.mem_map.mpr ⟨p, hp, rfl⟩
  have hf := h.filter (fun p => p.1 != k)
  rw [List.filter_cons, if_neg (by simp), hl] at hf
  exact hf

end Lookup

/-- Searching the slots with their indices finds what searching the slots finds. -/
theorem map_find?_zipIdx (p : α → Bool) (l : List α) (k : Nat) :
    ((l.zipIdx k).find? fun q => p q.1).map Prod.fst = l.find? p := by
  induction l generalizing k with
  | nil => rfl
  | cons a l ih =>
      rw [List.zipIdx_cons, List.find?_cons, List.find?_cons]
      cases p a
      · exact ih (k + 1)
      · rfl

/-- What the indexed search finds is at its index. -/
theorem find?_zipIdx_eq_some {p : α → Bool} {l : List α} {x : α} {i : Nat}
    (h : (l.zipIdx.find? fun q => p q.1) = some (x, i)) :
    ∃ hi : i < l.length, l[i] = x ∧ l.find? p = some x := by
  have hmem := List.mem_zipIdx (List.mem_of_find?_eq_some h)
  have hfind := map_find?_zipIdx p l 0
  rw [h] at hfind
  refine ⟨by omega, ?_, hfind.symm⟩
  simp only [Nat.sub_zero] at hmem
  exact hmem.2.2.symm

end Slots
