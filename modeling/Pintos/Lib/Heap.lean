import Mathlib.Data.List.Basic

/-!
# Objects at addresses

A heap of objects is a list of entries, an address and the object there; `List.lookup`
finds an object, `modify` changes the object at an address in place, `free` removes the
entry. When no two entries share an address (`(keys h).Nodup`), an entry is exactly what
`lookup` finds (`lookup_of_mem`, `mem_of_lookup`), and counting the entries that satisfy a
predicate changes under `modify` and `free` by what the one entry at the address
contributes (`countP_modify`, `countP_free`).
-/

set_option autoImplicit false

namespace Heap

variable {β : Type} (h : List (Nat × β))

def keys : List Nat := h.map (·.1)

/-- The object at `a` replaced by `f` of it. -/
def modify (a : Nat) (f : β → β) : List (Nat × β) :=
  h.map fun p => if p.1 = a then (p.1, f p.2) else p

/-- The entry at `a` removed. -/
def free (a : Nat) : List (Nat × β) := h.eraseP (·.1 = a)

@[simp] theorem keys_nil : keys ([] : List (Nat × β)) = [] := rfl

@[simp] theorem keys_cons (p : Nat × β) : keys (p :: h) = p.1 :: keys h := rfl

/-- What `modify` keeps of every entry, it keeps of the heap. -/
theorem map_modify_of {γ : Type} (a : Nat) (f : β → β) (g : Nat × β → γ)
    (hg : ∀ b, g (a, f b) = g (a, b)) : (modify h a f).map g = h.map g := by
  unfold modify
  rw [List.map_map]
  apply List.map_congr_left
  intro p _
  by_cases hp : p.1 = a
  · obtain ⟨k, v⟩ := p
    simp only at hp
    subst hp
    simp [hg]
  · simp [hp]

@[simp] theorem keys_modify (a : Nat) (f : β → β) : keys (modify h a f) = keys h :=
  map_modify_of h a f _ fun _ => rfl

theorem mem_modify {a : Nat} {f : β → β} {p : Nat × β} :
    p ∈ modify h a f ↔ ∃ q ∈ h, p = if q.1 = a then (q.1, f q.2) else q := by
  unfold modify
  rw [List.mem_map]
  exact ⟨fun ⟨q, hq, hp⟩ => ⟨q, hq, hp.symm⟩, fun ⟨q, hq, hp⟩ => ⟨q, hq, hp.symm⟩⟩

/-- Counting what `modify` does not change. -/
theorem countP_modify_of (a : Nat) (f : β → β) (P : Nat × β → Bool)
    (hP : ∀ b, P (a, f b) = P (a, b)) : (modify h a f).countP P = h.countP P := by
  unfold modify
  rw [List.countP_map]
  apply List.countP_congr
  intro p _
  by_cases hp : p.1 = a
  · obtain ⟨k, v⟩ := p
    simp only at hp
    subst hp
    simp [hP]
  · simp [hp]

theorem mem_keys {a : Nat} : a ∈ keys h ↔ ∃ b, (a, b) ∈ h := by
  simp [keys]

theorem lookup_cons_eq (k : Nat) (b : β) (a : Nat) :
    ((k, b) :: h).lookup a = if a = k then some b else h.lookup a := by
  rw [List.lookup_cons]
  by_cases hak : a = k
  · subst hak
    simp
  · have hbeq : (a == k) = false := beq_eq_false_iff_ne.mpr hak
    simp only [hbeq, hak, if_false]

theorem lookup_modify_self (a : Nat) (f : β → β) :
    (modify h a f).lookup a = (h.lookup a).map f := by
  induction h with
  | nil => rfl
  | cons p h ih =>
      obtain ⟨k, v⟩ := p
      by_cases hk : k = a
      · subst hk
        simp [modify]
      · have hmod : modify ((k, v) :: h) a f = (k, v) :: modify h a f := by simp [modify, hk]
        rw [hmod, lookup_cons_eq, lookup_cons_eq, if_neg (Ne.symm hk), if_neg (Ne.symm hk), ih]

theorem lookup_modify_ne {a b : Nat} (hb : b ≠ a) (f : β → β) :
    (modify h a f).lookup b = h.lookup b := by
  induction h with
  | nil => rfl
  | cons p h ih =>
      obtain ⟨k, v⟩ := p
      have hmod : modify ((k, v) :: h) a f = (k, if k = a then f v else v) :: modify h a f := by
        by_cases hk : k = a <;> simp [modify, hk]
      rw [hmod, lookup_cons_eq, lookup_cons_eq, ih]
      by_cases hbk : b = k
      · subst hbk
        simp [hb]
      · simp [hbk]

theorem mem_of_lookup {a : Nat} {b : β} (hl : h.lookup a = some b) : (a, b) ∈ h := by
  obtain ⟨l₁, l₂, rfl, -⟩ := List.lookup_eq_some_iff.mp hl
  simp

theorem lookup_of_mem (hnd : (keys h).Nodup) {a : Nat} {b : β} (hm : (a, b) ∈ h) :
    h.lookup a = some b := by
  induction h with
  | nil => cases hm
  | cons p h ih =>
      obtain ⟨k, v⟩ := p
      rw [keys_cons, List.nodup_cons] at hnd
      rw [lookup_cons_eq]
      rcases List.mem_cons.mp hm with hkv | hm
      · obtain ⟨rfl, rfl⟩ := Prod.mk.inj hkv
        simp
      · have hne : a ≠ k := fun hak => hnd.1 (hak ▸ (mem_keys h).mpr ⟨b, hm⟩)
        rw [if_neg hne]
        exact ih hnd.2 hm

theorem mem_keys_iff_lookup {a : Nat} : a ∈ keys h ↔ (h.lookup a).isSome := by
  induction h with
  | nil => simp
  | cons p h ih =>
      obtain ⟨k, v⟩ := p
      rw [keys_cons, List.mem_cons, ih, lookup_cons_eq]
      by_cases hak : a = k
      · simp [hak]
      · simp [hak]

theorem lookup_free_ne {a b : Nat} (hb : b ≠ a) : (free h a).lookup b = h.lookup b := by
  induction h with
  | nil => rfl
  | cons p h ih =>
      obtain ⟨k, v⟩ := p
      by_cases hk : k = a
      · subst hk
        rw [free, List.eraseP_cons_of_pos (by simp), lookup_cons_eq, if_neg hb]
      · rw [free, List.eraseP_cons_of_neg (by simpa using hk), lookup_cons_eq, lookup_cons_eq]
        rw [free] at ih
        rw [ih]

theorem keys_free (hnd : (keys h).Nodup) (a : Nat) :
    keys (free h a) = (keys h).erase a := by
  induction h with
  | nil => rfl
  | cons p h ih =>
      rw [keys_cons, List.nodup_cons] at hnd
      by_cases hp : p.1 = a
      · rw [free, List.eraseP_cons_of_pos (by simpa using hp), keys_cons, hp, List.erase_cons_head]
      · rw [free, List.eraseP_cons_of_neg (by simpa using hp), keys_cons, keys_cons,
          List.erase_cons_tail (by simpa using hp)]
        exact congrArg (p.1 :: ·) (ih hnd.2)

theorem free_sublist (a : Nat) : (free h a).Sublist h := List.eraseP_sublist

theorem mem_free (hnd : (keys h).Nodup) {a : Nat} {p : Nat × β} :
    p ∈ free h a ↔ p ∈ h ∧ p.1 ≠ a := by
  induction h with
  | nil => simp [free]
  | cons q h ih =>
      rw [keys_cons, List.nodup_cons] at hnd
      by_cases hq : q.1 = a
      · rw [free, List.eraseP_cons_of_pos (by simpa using hq)]
        constructor
        · intro hp
          refine ⟨List.mem_cons_of_mem q hp, fun hpa => hnd.1 ?_⟩
          rw [hq, ← hpa]
          exact (mem_keys h).mpr ⟨p.2, by simpa using hp⟩
        · rintro ⟨hp, hpa⟩
          rcases List.mem_cons.mp hp with rfl | hp
          · exact absurd hq hpa
          · exact hp
      · rw [free, List.eraseP_cons_of_neg (by simpa using hq), List.mem_cons, List.mem_cons]
        rw [free] at ih
        rw [ih hnd.2]
        constructor
        · rintro (rfl | ⟨hp, hpa⟩)
          · exact ⟨Or.inl rfl, hq⟩
          · exact ⟨Or.inr hp, hpa⟩
        · rintro ⟨rfl | hp, hpa⟩
          · exact Or.inl rfl
          · exact Or.inr ⟨hp, hpa⟩

theorem lookup_free_self (hnd : (keys h).Nodup) (a : Nat) : (free h a).lookup a = none := by
  cases hl : (free h a).lookup a with
  | none => rfl
  | some b => exact absurd rfl ((mem_free h hnd).mp (mem_of_lookup _ hl)).2

theorem keys_free_nodup (hnd : (keys h).Nodup) (a : Nat) : (keys (free h a)).Nodup :=
  hnd.sublist ((free_sublist h a).map _)

/-- Counting under `modify`: the entry at `a` counts with its new object instead of its old
one. -/
theorem countP_modify (hnd : (keys h).Nodup) {a : Nat} {b : β} (hl : h.lookup a = some b)
    (f : β → β) (P : Nat × β → Bool) :
    (modify h a f).countP P + (if P (a, b) then 1 else 0) =
      h.countP P + (if P (a, f b) then 1 else 0) := by
  induction h with
  | nil => cases hl
  | cons p h ih =>
      obtain ⟨k, v⟩ := p
      rw [keys_cons, List.nodup_cons] at hnd
      rw [lookup_cons_eq] at hl
      by_cases hk : a = k
      · -- the entry is the head; no later entry has the address
        subst hk
        simp only [if_true, Option.some.injEq] at hl
        subst hl
        have hrest : modify h a f = h := by
          unfold modify
          conv_rhs => rw [← List.map_id h]
          apply List.map_congr_left
          intro q hq
          have : q.1 ≠ a := fun hq' => hnd.1 (hq' ▸ (mem_keys h).mpr ⟨q.2, by simpa using hq⟩)
          simp [this]
        have hmod : modify ((a, v) :: h) a f = (a, f v) :: modify h a f := by simp [modify]
        rw [hmod, hrest, List.countP_cons, List.countP_cons]
        split <;> split <;> omega
      · rw [if_neg hk] at hl
        have := ih hnd.2 hl
        have hmod : modify ((k, v) :: h) a f = (k, v) :: modify h a f := by
          simp [modify, Ne.symm hk]
        rw [hmod, List.countP_cons, List.countP_cons]
        omega

/-- Counting under `free`: the entry at `a` no longer counts. -/
theorem countP_free (hnd : (keys h).Nodup) {a : Nat} {b : β} (hl : h.lookup a = some b)
    (P : Nat × β → Bool) :
    (free h a).countP P + (if P (a, b) then 1 else 0) = h.countP P := by
  induction h with
  | nil => cases hl
  | cons p h ih =>
      obtain ⟨k, v⟩ := p
      rw [keys_cons, List.nodup_cons] at hnd
      rw [lookup_cons_eq] at hl
      by_cases hk : a = k
      · subst hk
        simp only [if_true, Option.some.injEq] at hl
        subst hl
        rw [free, List.eraseP_cons_of_pos (by simp), List.countP_cons]
      · rw [if_neg hk] at hl
        have := ih hnd.2 hl
        rw [free, List.eraseP_cons_of_neg (by simpa using Ne.symm hk), List.countP_cons,
          List.countP_cons]
        rw [free] at this
        omega

end Heap
