import Mathlib

/-!
# Finite sets up to an equivalence

A finite set of elements of which no two are equivalent, kept as a list: the abstract state
of a table that stores at most one element of each class of an equivalence given as a Boolean
test `eqv`, and finds, inserts, replaces and erases by class. The order of the list means
nothing: the operations are compared up to `List.Perm`, and `find` gives the same answer on
lists that are permutations of each other (`find_perm`).
-/

set_option autoImplicit false

namespace ClassSet

variable {α : Type} (eqv : α → α → Bool)

/-- No two elements are equivalent. -/
def Distinct (s : List α) : Prop := s.Pairwise fun a b => eqv a b = false

/-- The element of the class of `e`, if there is one. -/
def find (s : List α) (e : α) : Option α := s.find? (eqv · e)

/-- `e` added unless its class is there. -/
def insert (s : List α) (e : α) : List α :=
  match find eqv s e with
  | none => e :: s
  | some _ => s

/-- `e` in place of the element of its class. -/
def replace (s : List α) (e : α) : List α := e :: s.filter (fun x => !eqv x e)

/-- The element of the class of `e` taken out. -/
def erase (s : List α) (e : α) : List α := s.filter (fun x => !eqv x e)

/-- What makes `eqv` an equivalence. -/
structure IsEquiv : Prop where
  refl : ∀ a, eqv a a = true
  symm : ∀ a b, eqv a b = true → eqv b a = true
  trans : ∀ a b c, eqv a b = true → eqv b c = true → eqv a c = true

section Lemmas

variable {eqv}

theorem find_eq_none_iff (s : List α) (e : α) :
    find eqv s e = none ↔ ∀ x ∈ s, eqv x e = false := by
  simp [find, List.find?_eq_none]

theorem Distinct.erase {s : List α} (hs : Distinct eqv s) (e : α) :
    Distinct eqv (erase eqv s e) :=
  hs.filter _

theorem erase_eq_self {s : List α} {e : α} (hnone : ∀ x ∈ s, eqv x e = false) :
    erase eqv s e = s :=
  List.filter_eq_self.mpr fun x hx => by simp [hnone x hx]

theorem Perm.erase {s t : List α} (hst : s.Perm t) (e : α) :
    (erase eqv s e).Perm (erase eqv t e) :=
  hst.filter _

theorem Perm.replace {s t : List α} (hst : s.Perm t) (e : α) :
    (replace eqv s e).Perm (replace eqv t e) :=
  (hst.filter _).cons e

variable (he : IsEquiv eqv)
include he

theorem IsEquiv.false_symm {a b : α} (h : eqv a b = false) : eqv b a = false := by
  cases hba : eqv b a with
  | false => rfl
  | true => rw [he.symm b a hba] at h; cases h

theorem find_eq_some_iff {s : List α} (hs : Distinct eqv s) {e x : α} :
    find eqv s e = some x ↔ x ∈ s ∧ eqv x e = true := by
  constructor
  · intro h
    exact ⟨List.mem_of_find?_eq_some h, by simpa using List.find?_some h⟩
  · rintro ⟨hx, hxe⟩
    unfold find
    induction s with
    | nil => cases hx
    | cons y s ih =>
      have hys := List.pairwise_cons.mp hs
      rw [List.find?_cons]
      rcases List.mem_cons.mp hx with rfl | hx
      · simp [hxe]
      · -- `y` is not of the class of `e`, or it would be of the class of `x`
        have hy : eqv y e = false := by
          by_contra hye
          have := hys.1 x hx
          rw [he.trans y e x (by simpa using hye) (he.symm x e hxe)] at this
          cases this
        rw [hy]
        exact ih hys.2 hx

/-- `find` sees a set, not a list. -/
theorem find_perm {s t : List α} (hst : s.Perm t) (hs : Distinct eqv s) (e : α) :
    find eqv s e = find eqv t e := by
  have ht : Distinct eqv t := hst.pairwise hs he.false_symm
  cases hfs : find eqv s e with
  | none =>
    rw [eq_comm, find_eq_none_iff]
    intro x hx
    exact (find_eq_none_iff s e).mp hfs x (hst.symm.mem_iff.mp hx)
  | some x =>
    obtain ⟨hx, hxe⟩ := (find_eq_some_iff he hs).mp hfs
    exact ((find_eq_some_iff he ht).mpr ⟨hst.mem_iff.mp hx, hxe⟩).symm

theorem Distinct.cons {s : List α} (hs : Distinct eqv s) {e : α}
    (hnone : ∀ x ∈ s, eqv x e = false) : Distinct eqv (e :: s) :=
  List.pairwise_cons.mpr ⟨fun x hx => he.false_symm (hnone x hx), hs⟩

theorem Distinct.insert {s : List α} (hs : Distinct eqv s) (e : α) :
    Distinct eqv (insert eqv s e) := by
  unfold ClassSet.insert
  cases hf : find eqv s e with
  | none => exact hs.cons he ((find_eq_none_iff s e).mp hf)
  | some _ => exact hs

theorem Distinct.replace {s : List α} (hs : Distinct eqv s) (e : α) :
    Distinct eqv (replace eqv s e) :=
  (hs.erase e).cons he fun x hx => by simpa using (List.mem_filter.mp hx).2

theorem Perm.insert {s t : List α} (hst : s.Perm t) (hs : Distinct eqv s) (e : α) :
    (insert eqv s e).Perm (insert eqv t e) := by
  unfold ClassSet.insert
  rw [← find_perm he hst hs e]
  cases find eqv s e with
  | none => exact hst.cons e
  | some _ => exact hst

/-- In a distinct set, no element but `x` is of the class of an element `x` is of. -/
theorem Distinct.others {x e : α} {r : List α} (hxr : Distinct eqv (x :: r))
    (hxe : eqv x e = true) : ∀ y ∈ r, eqv y e = false := fun y hy => by
  cases hye : eqv y e with
  | false => rfl
  | true =>
    have hxy := he.trans x e y hxe (he.symm y e hye)
    rw [(List.pairwise_cons.mp hxr).1 y hy] at hxy
    cases hxy

/-- Erasing the class of an element takes out exactly that element. -/
theorem erase_perm_of_perm_cons {s r : List α} {x e : α} (hs : Distinct eqv s)
    (hsx : s.Perm (x :: r)) (hxe : eqv x e = true) : (erase eqv s e).Perm r := by
  have hnone := Distinct.others he (hsx.pairwise hs he.false_symm) hxe
  refine (Perm.erase hsx e).trans ?_
  rw [ClassSet.erase, List.filter_cons_of_neg (by simp [hxe])]
  exact .of_eq (erase_eq_self hnone)

/-- Putting `e` in place of the element of its class, where that element stands, is
`replace` up to order. -/
theorem map_perm_replace {s : List α} (hs : Distinct eqv s) {x e : α} (hx : x ∈ s)
    (hxe : eqv x e = true) : (s.map fun y => if eqv y e then e else y).Perm (replace eqv s e) := by
  obtain ⟨l₁, l₂, rfl⟩ := List.append_of_mem hx
  have hsx : (l₁ ++ x :: l₂).Perm (x :: (l₁ ++ l₂)) := List.perm_middle
  have hnone := Distinct.others he (hsx.pairwise hs he.false_symm) hxe
  -- the change leaves every element but `x` as it is
  have hmap : ∀ l : List α, (∀ y ∈ l, eqv y e = false) →
      (l.map fun y => if eqv y e then e else y) = l := fun l hl => by
    conv_rhs => rw [← List.map_id l]
    exact List.map_congr_left fun y hy => by simp [hl y hy]
  rw [List.map_append, List.map_cons, if_pos hxe,
    hmap l₁ fun y hy => hnone y (List.mem_append_left l₂ hy),
    hmap l₂ fun y hy => hnone y (List.mem_append_right l₁ hy), replace]
  exact List.perm_middle.trans ((erase_perm_of_perm_cons he hs hsx hxe).symm.cons e)

end Lemmas

/-! ## Entries with keys

An association list is a set of this kind, two entries being equivalent when their keys are
equal: `find` is `dlookup`, `erase` is `kerase`, and `Distinct` is `NodupKeys`. -/

section Keys

variable {κ β : Type} [DecidableEq κ]

/-- Entries are equivalent when their keys are equal. -/
def keyEq (a b : Σ _ : κ, β) : Bool := decide (a.1 = b.1)

theorem keyEq_isEquiv : IsEquiv (keyEq (κ := κ) (β := β)) where
  refl a := by simp [keyEq]
  symm a b hab := by simp only [keyEq, decide_eq_true_eq] at hab ⊢; exact hab.symm
  trans a b c hab hbc := by simp only [keyEq, decide_eq_true_eq] at hab hbc ⊢; exact hab.trans hbc

theorem distinct_keyEq_iff {s : List (Σ _ : κ, β)} : Distinct keyEq s ↔ s.NodupKeys := by
  rw [List.nodupKeys_iff_pairwise, Distinct]
  simp [keyEq]

theorem find_keyEq (s : List (Σ _ : κ, β)) (k : κ) (b : β) :
    (find keyEq s ⟨k, b⟩).map Sigma.snd = s.dlookup k := by
  induction s with
  | nil => rfl
  | cons y s ih =>
    obtain ⟨k', b'⟩ := y
    by_cases hk : k' = k
    · subst hk
      simp [find, keyEq, List.dlookup_cons_eq]
    · rw [List.dlookup_cons_ne _ _ (Ne.symm hk), ← ih]
      simp [find, keyEq, hk]

theorem erase_keyEq {s : List (Σ _ : κ, β)} (hs : s.NodupKeys) (k : κ) (b : β) :
    erase keyEq s ⟨k, b⟩ = s.kerase k := by
  induction s with
  | nil => rfl
  | cons y s ih =>
    have hys := List.nodupKeys_cons.mp hs
    by_cases hk : k = y.1
    · -- `y` is the one entry of key `k`
      rw [List.kerase_cons_eq hk, ClassSet.erase, List.filter_cons_of_neg (by simp [keyEq, hk])]
      refine erase_eq_self fun x hx => ?_
      have hxk : x.1 ≠ k := fun hxk => hys.1 (hk ▸ hxk ▸ List.mem_keys_of_mem hx)
      simp [keyEq, hxk]
    · rw [List.kerase_cons_ne hk, ClassSet.erase, List.filter_cons_of_pos (by simp [keyEq, Ne.symm hk])]
      exact congrArg (y :: ·) (ih hys.2)

end Keys

end ClassSet
