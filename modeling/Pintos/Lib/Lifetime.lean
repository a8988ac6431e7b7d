import Mathlib.Data.List.Basic

/-!
# Object lifetimes in a trace

A trace of events, some of which allocate, use or free an object. An object is used
after it is freed when some event uses or frees it after an event that freed it: a read
or write of freed memory, or a second free. `UsedAfterFree` says so by positions in the
trace; `usedAfterFree` decides it in one pass, from the first free of the object on, and
`usedAfterFree_iff` shows the two agree. `frees` counts the frees of an object, so that
"freed exactly once" is `frees tr o = 1`.

Traces grow at the end. A use after free, once in a trace, stays in every extension of
it (`UsedAfterFree.append`), and a trace without a free of the object has none
(`not_usedAfterFree_of_frees_eq_zero`).
-/

set_option autoImplicit false

namespace Lifetime

/-- What an event does to an object. -/
inductive Use (ω : Type) where
  | alloc (o : ω)
  | access (o : ω)
  | free (o : ω)
  | other
  deriving DecidableEq, Repr

variable {ω ε : Type} [DecidableEq ω] (use : ε → Use ω)

/-- The event frees `o`. -/
def isFree (o : ω) (e : ε) : Bool :=
  use e = .free o

/-- The event reads, writes or frees `o`. -/
def touches (o : ω) (e : ε) : Bool :=
  use e = .access o || use e = .free o

/-- Some event touches `o` after an event that freed it. -/
def UsedAfterFree (tr : List ε) (o : ω) : Prop :=
  ∃ i j : Nat, i < j ∧ ∃ e e', tr[i]? = some e ∧ tr[j]? = some e' ∧ isFree use o e ∧ touches use o e'

/-- From the first free of `o` on, some later event touches `o`. -/
def usedAfterFree (tr : List ε) (o : ω) : Bool :=
  ((tr.dropWhile fun e => !isFree use o e).drop 1).any (touches use o)

/-- How many times the trace frees `o`. -/
def frees (tr : List ε) (o : ω) : Nat :=
  tr.countP (isFree use o)

variable {use}

theorem touches_of_isFree {o : ω} {e : ε} (h : isFree use o e) : touches use o e := by
  simp_all [isFree, touches]

theorem usedAfterFree_cons_of_isFree {o : ω} {e : ε} (tr : List ε) (h : isFree use o e) :
    usedAfterFree use (e :: tr) o = tr.any (touches use o) := by
  simp [usedAfterFree, h]

theorem usedAfterFree_cons_of_not_isFree {o : ω} {e : ε} (tr : List ε) (h : ¬ isFree use o e) :
    usedAfterFree use (e :: tr) o = usedAfterFree use tr o := by
  simp [usedAfterFree, h]

theorem usedAfterFree_nil (o : ω) : usedAfterFree use ([] : List ε) o = false := rfl

theorem UsedAfterFree.cons {o : ω} {tr : List ε} (e : ε) (h : UsedAfterFree use tr o) :
    UsedAfterFree use (e :: tr) o := by
  obtain ⟨i, j, hij, e₁, e₂, h₁, h₂, hf, ht⟩ := h
  exact ⟨i + 1, j + 1, by omega, e₁, e₂, by simpa using h₁, by simpa using h₂, hf, ht⟩

theorem usedAfterFree_cons_iff {o : ω} {e : ε} {tr : List ε} :
    UsedAfterFree use (e :: tr) o ↔
      (isFree use o e ∧ ∃ e' ∈ tr, touches use o e') ∨ UsedAfterFree use tr o := by
  constructor
  · rintro ⟨i, j, hij, e₁, e₂, h₁, h₂, hf, ht⟩
    cases i with
    | zero =>
        -- the free is the head: the use is somewhere in the tail
        obtain ⟨j, rfl⟩ : ∃ j', j = j' + 1 := ⟨j - 1, by omega⟩
        simp only [List.getElem?_cons_zero, Option.some.injEq] at h₁
        subst h₁
        exact Or.inl ⟨hf, e₂, List.mem_of_getElem? (by simpa using h₂), ht⟩
    | succ i =>
        obtain ⟨j, rfl⟩ : ∃ j', j = j' + 1 := ⟨j - 1, by omega⟩
        exact Or.inr ⟨i, j, by omega, e₁, e₂, by simpa using h₁, by simpa using h₂, hf, ht⟩
  · rintro (⟨hf, e', he', ht⟩ | h)
    · obtain ⟨j, hj⟩ := List.mem_iff_getElem?.mp he'
      exact ⟨0, j + 1, by omega, e, e', rfl, by simpa using hj, hf, ht⟩
    · exact h.cons e

/-- The one-pass check decides the property. -/
theorem usedAfterFree_iff {tr : List ε} {o : ω} :
    usedAfterFree use tr o = true ↔ UsedAfterFree use tr o := by
  induction tr with
  | nil => simp [usedAfterFree_nil, UsedAfterFree]
  | cons e tr ih =>
      rw [usedAfterFree_cons_iff]
      by_cases hf : isFree use o e
      · -- from this free on, any use of the tail counts; a later one is among them
        rw [usedAfterFree_cons_of_isFree tr hf, List.any_eq_true]
        constructor
        · rintro ⟨e', he', ht⟩
          exact Or.inl ⟨hf, e', he', ht⟩
        · rintro (⟨-, h⟩ | ⟨i, j, hij, e₁, e₂, -, h₂, -, ht⟩)
          · exact h
          · exact ⟨e₂, List.mem_of_getElem? h₂, ht⟩
      · rw [usedAfterFree_cons_of_not_isFree tr hf, ih]
        simp [hf]

theorem UsedAfterFree.append {o : ω} {tr : List ε} (h : UsedAfterFree use tr o) (tr' : List ε) :
    UsedAfterFree use (tr ++ tr') o := by
  have hleft : ∀ {k : Nat} {e : ε}, tr[k]? = some e → (tr ++ tr')[k]? = some e := fun hk => by
    rw [List.getElem?_append_left (List.getElem?_eq_some_iff.mp hk).1, hk]
  obtain ⟨i, j, hij, e₁, e₂, h₁, h₂, hf, ht⟩ := h
  exact ⟨i, j, hij, e₁, e₂, hleft h₁, hleft h₂, hf, ht⟩

theorem UsedAfterFree.prepend {o : ω} {tr : List ε} (pre : List ε) (h : UsedAfterFree use tr o) :
    UsedAfterFree use (pre ++ tr) o := by
  induction pre with
  | nil => exact h
  | cons e pre ih => exact ih.cons e

/-- A free, and later an event that touches the object. -/
theorem usedAfterFree_of_split {o : ω} {e e' : ε} (pre post : List ε) (hf : isFree use o e)
    (he' : e' ∈ post) (ht : touches use o e') : UsedAfterFree use (pre ++ e :: post) o :=
  (usedAfterFree_cons_iff.mpr (Or.inl ⟨hf, e', he', ht⟩)).prepend pre

theorem not_usedAfterFree_of_frees_eq_zero {o : ω} {tr : List ε} (h : frees use tr o = 0) :
    ¬ UsedAfterFree use tr o := by
  rintro ⟨i, j, -, e₁, -, h₁, -, hf, -⟩
  rw [frees, List.countP_eq_zero] at h
  exact absurd hf (by simpa using h e₁ (List.mem_of_getElem? h₁))

theorem frees_append (tr tr' : List ε) (o : ω) :
    frees use (tr ++ tr') o = frees use tr o + frees use tr' o :=
  List.countP_append

end Lifetime
