import Mathlib.Data.List.Basic

/-!
# Tables indexed by number, and loops over them

A table is a list read with a default past its end (`List.getD`) and updated in place
(`List.set`), which does nothing past the end. Updating entry `t` by a function of its old
value changes entry `t` only, and only when `t` is in the table (`getD_set_getD`).

In a table whose keys are distinct, removing the first entry with a key removes every
entry with that key (`eraseP_key_eq_filter`).

A loop over a list whose every round keeps some part of the state keeps it
(`foldl_eq_of_step`).
-/

set_option autoImplicit false

namespace Table

variable {α : Type} (l : List α) (d : α)

theorem getD_of_length_le {t : Nat} (h : l.length ≤ t) : l.getD t d = d := by
  simp [List.getD_eq_getElem?_getD, List.getElem?_eq_none h]

theorem getD_set_ne {t u : Nat} (h : t ≠ u) (a : α) : (l.set t a).getD u d = l.getD u d := by
  simp [List.getD_eq_getElem?_getD, List.getElem?_set_ne h]

theorem getD_set_self {t : Nat} (h : t < l.length) (a : α) : (l.set t a).getD t d = a := by
  simp [h]

/-- Entry `u` after entry `t` is updated by `g`. -/
theorem getD_set_getD (t u : Nat) (g : α → α) :
    (l.set t (g (l.getD t d))).getD u d = if t = u ∧ u < l.length then g (l.getD u d) else l.getD u d := by
  by_cases htu : t = u
  · subst htu
    by_cases ht : t < l.length
    · rw [getD_set_self l d ht, if_pos ⟨rfl, ht⟩]
    · rw [if_neg (fun h => ht h.2), getD_of_length_le _ d (by simpa using Nat.le_of_not_lt ht),
        getD_of_length_le l d (Nat.le_of_not_lt ht)]
  · rw [getD_set_ne l d htu, if_neg (fun h => htu h.1)]

/-- An entry after an update is the new value or the old one. -/
theorem getD_set_eq_or (i j : Nat) (a : α) : (l.set i a).getD j d = a ∨ (l.set i a).getD j d = l.getD j d := by
  by_cases hij : i = j
  · subst hij
    by_cases hi : i < l.length
    · exact Or.inl (getD_set_self l d hi a)
    · exact Or.inr (by rw [getD_of_length_le _ d (by simpa using Nat.le_of_not_lt hi),
        getD_of_length_le l d (Nat.le_of_not_lt hi)])
  · exact Or.inr (getD_set_ne l d hij a)

/-- Removing the first entry with key `b` from a table with distinct keys keeps exactly the
entries with other keys. -/
theorem eraseP_key_eq_filter {β : Type} [DecidableEq β] (key : α → β) (b : β) (l : List α)
    (h : (l.map key).Nodup) : l.eraseP (fun a => key a = b) = l.filter (fun a => key a ≠ b) := by
  induction l with
  | nil => rfl
  | cons a l ih =>
      rw [List.map_cons, List.nodup_cons] at h
      by_cases ha : key a = b
      · rw [List.eraseP_cons_of_pos (by simpa using ha), List.filter_cons_of_neg (by simpa using ha)]
        -- no later entry has the key `b = key a`
        refine (List.filter_eq_self.mpr fun x hx => ?_).symm
        have hx' : key x ≠ b := fun hxb => h.1 (ha ▸ hxb ▸ List.mem_map_of_mem hx)
        simpa using hx'
      · rw [List.eraseP_cons_of_neg (by simpa using ha), List.filter_cons_of_pos (by simpa using ha),
          ih h.2]

/-- The keys of the entries a filter keeps are still distinct. -/
theorem nodup_map_filter {β : Type} (key : α → β) (p : α → Bool) (l : List α)
    (h : (l.map key).Nodup) : ((l.filter p).map key).Nodup :=
  h.sublist ((List.filter_sublist).map key)

/-- A part `π` of the state that every round of a loop keeps is kept by the loop. -/
theorem foldl_eq_of_step {σ β γ : Type} (π : σ → γ) (g : σ → β → σ) (hg : ∀ s b, π (g s b) = π s)
    (bs : List β) (s : σ) : π (bs.foldl g s) = π s := by
  induction bs generalizing s with
  | nil => rfl
  | cons b bs ih => rw [List.foldl_cons, ih, hg]

end Table
