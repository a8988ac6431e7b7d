import Mathlib

/-!
# Checked accesses in a trace

A program that validates addresses before it uses them leaves a trace in which every
access lies between two addresses it checked earlier, and in which a failed check is
followed by a fixed ending. `Disciplined` states this of a trace, given how to read each
event as a check that passed, a check that failed, an access, or something else.

The discipline is built up event by event: a check adds its address to the checked ones
(`disciplined_check`), an access needs to be `Covered` by them (`disciplined_access`), a
run of accesses at once by `disciplined_append_accesses`. Read back, it says what it is
meant to: each access is covered by the checks before it (`Disciplined.covered_of_access`),
every check passed (`Disciplined.valid_of_check`), and if validity is convex each access is
valid (`Disciplined.valid_of_access`); a failed check is followed by the ending
(`Disciplined.stop_of_reject`).
-/

set_option autoImplicit false

namespace CheckedAccess

/-- What an event of a trace is for the discipline. -/
inductive Kind (α : Type) where
  | check (a : α)
  | reject (a : α)
  | access (a : α)
  | other

variable {α ε : Type} [LinearOrder α]

/-- `x` lies between two of the checked addresses `cs`. -/
def Covered (cs : List α) (x : α) : Prop :=
  ∃ lo ∈ cs, ∃ hi ∈ cs, lo ≤ x ∧ x ≤ hi

theorem covered_of_mem {cs : List α} {x : α} (h : x ∈ cs) : Covered cs x :=
  ⟨x, h, x, h, le_rfl, le_rfl⟩

theorem Covered.mono {cs cs' : List α} {x : α} (h : Covered cs x) (hsub : cs ⊆ cs') :
    Covered cs' x := by
  obtain ⟨lo, hlo, hi, hhi, h1, h2⟩ := h
  exact ⟨lo, hsub hlo, hi, hsub hhi, h1, h2⟩

/-- A predicate that holds at both ends of an interval holds inside it. -/
def Convex (valid : α → Prop) : Prop :=
  ∀ lo hi x, valid lo → valid hi → lo ≤ x → x ≤ hi → valid x

theorem Covered.valid {valid : α → Prop} (hconv : Convex valid) {cs : List α} {x : α}
    (h : Covered cs x) (hcs : ∀ c ∈ cs, valid c) : valid x := by
  obtain ⟨lo, hlo, hi, hhi, h1, h2⟩ := h
  exact hconv lo hi x (hcs lo hlo) (hcs hi hhi) h1 h2

section Discipline

variable (kind : ε → Kind α) (valid : α → Prop) (stop : List ε → Prop)

/-- From the checked addresses `cs` on, every check in the trace passes, every access lies
between checked addresses, and a failed check is followed by an ending that `stop` accepts. -/
def Disciplined : List α → List ε → Prop
  | _, [] => True
  | cs, e :: es =>
      match kind e with
      | .check a => valid a ∧ Disciplined (a :: cs) es
      | .reject a => ¬ valid a ∧ stop es
      | .access x => Covered cs x ∧ Disciplined cs es
      | .other => Disciplined cs es

/-- The addresses that the checks of a trace checked. -/
def checked : List ε → List α
  | [] => []
  | e :: es =>
      match kind e with
      | .check a => a :: checked es
      | _ => checked es

variable {kind valid stop}

@[simp] theorem disciplined_nil (cs : List α) : Disciplined kind valid stop cs [] := trivial

theorem disciplined_check {cs : List α} {e : ε} {es : List ε} {a : α} (h : kind e = .check a) :
    Disciplined kind valid stop cs (e :: es) ↔ valid a ∧ Disciplined kind valid stop (a :: cs) es := by
  simp [Disciplined, h]

theorem disciplined_reject {cs : List α} {e : ε} {es : List ε} {a : α} (h : kind e = .reject a) :
    Disciplined kind valid stop cs (e :: es) ↔ ¬ valid a ∧ stop es := by
  simp [Disciplined, h]

theorem disciplined_access {cs : List α} {e : ε} {es : List ε} {x : α} (h : kind e = .access x) :
    Disciplined kind valid stop cs (e :: es) ↔ Covered cs x ∧ Disciplined kind valid stop cs es := by
  simp [Disciplined, h]

theorem disciplined_other {cs : List α} {e : ε} {es : List ε} (h : kind e = .other) :
    Disciplined kind valid stop cs (e :: es) ↔ Disciplined kind valid stop cs es := by
  simp [Disciplined, h]

/-- More checked addresses cover more. -/
theorem Disciplined.mono {cs cs' : List α} {es : List ε}
    (h : Disciplined kind valid stop cs es) (hsub : cs ⊆ cs') :
    Disciplined kind valid stop cs' es := by
  induction es generalizing cs cs' with
  | nil => trivial
  | cons e es ih =>
      cases hk : kind e with
      | check a =>
          rw [disciplined_check hk] at h ⊢
          exact ⟨h.1, ih h.2 (List.cons_subset_cons a hsub)⟩
      | reject a => rwa [disciplined_reject hk] at h ⊢
      | access x =>
          rw [disciplined_access hk] at h ⊢
          exact ⟨h.1.mono hsub, ih h.2 hsub⟩
      | other =>
          rw [disciplined_other hk] at h ⊢
          exact ih h hsub

/-- A run of covered accesses in front of a disciplined trace. -/
theorem disciplined_append_accesses {cs : List α} {pre es : List ε}
    (hpre : ∀ e ∈ pre, ∃ x, kind e = .access x ∧ Covered cs x)
    (h : Disciplined kind valid stop cs es) :
    Disciplined kind valid stop cs (pre ++ es) := by
  induction pre with
  | nil => exact h
  | cons e pre ih =>
      obtain ⟨x, hk, hx⟩ := hpre e (by simp)
      rw [List.cons_append, disciplined_access hk]
      exact ⟨hx, ih (fun e' he' => hpre e' (by simp [he']))⟩

omit [LinearOrder α] in
theorem mem_checked {c : α} {es : List ε} :
    c ∈ checked kind es ↔ ∃ e ∈ es, kind e = .check c := by
  induction es with
  | nil => simp [checked]
  | cons e es ih =>
      cases hk : kind e <;> simp [checked, hk, ih, eq_comm]

/-- From any position on, a disciplined trace is disciplined with the checks before that
position added, unless a failed check came before it and only the ending is left. -/
theorem Disciplined.drop (hstop : ∀ es, stop es → ∀ e ∈ es, kind e = .other)
    {cs : List α} {es : List ε} (h : Disciplined kind valid stop cs es) (i : Nat) :
    Disciplined kind valid stop (checked kind (es.take i) ++ cs) (es.drop i) ∨
      ∀ e ∈ es.drop i, kind e = .other := by
  induction es generalizing cs i with
  | nil => simp
  | cons e es ih =>
      cases i with
      | zero => simpa [checked] using Or.inl h
      | succ i =>
          simp only [List.take_succ_cons, List.drop_succ_cons]
          cases hk : kind e with
          | check a =>
              rw [disciplined_check hk] at h
              refine (ih h.2 i).imp (fun h' => h'.mono ?_) id
              intro c hc
              simp only [checked, hk, List.mem_cons, List.mem_append] at hc ⊢
              tauto
          | reject a =>
              rw [disciplined_reject hk] at h
              exact Or.inr (fun e' he' => hstop es h.2 e' (List.mem_of_mem_drop he'))
          | access x =>
              rw [disciplined_access hk] at h
              simpa [checked, hk] using ih h.2 i
          | other =>
              rw [disciplined_other hk] at h
              simpa [checked, hk] using ih h i

section Readback

variable (hstop : ∀ es, stop es → ∀ e ∈ es, kind e = .other)
variable {cs : List α} {es : List ε} (h : Disciplined kind valid stop cs es)
include hstop h

/-- The trace from the event at `i` on is disciplined with the checks before `i`. -/
theorem Disciplined.at_of_ne_other {i : Nat} {e : ε} (he : es[i]? = some e)
    (hk : kind e ≠ .other) :
    ∃ rest, es.drop i = e :: rest ∧
      Disciplined kind valid stop (checked kind (es.take i) ++ cs) (e :: rest) := by
  obtain ⟨hi, rfl⟩ := List.getElem?_eq_some_iff.mp he
  have hdrop := List.drop_eq_getElem_cons hi
  rcases h.drop hstop i with h' | h'
  · exact ⟨_, hdrop, hdrop ▸ h'⟩
  · exact absurd (h' _ (hdrop ▸ List.mem_cons_self)) hk

/-- Each access is covered by the checks before it. -/
theorem Disciplined.covered_of_access {i : Nat} {e : ε} {x : α} (he : es[i]? = some e)
    (hk : kind e = .access x) : Covered (checked kind (es.take i) ++ cs) x := by
  obtain ⟨rest, -, h'⟩ := h.at_of_ne_other hstop he (by simp [hk])
  exact ((disciplined_access hk).mp h').1

/-- Every check in the trace passed. -/
theorem Disciplined.valid_of_check {e : ε} {a : α} (he : e ∈ es) (hk : kind e = .check a) :
    valid a := by
  obtain ⟨i, hi⟩ := List.mem_iff_getElem?.mp he
  obtain ⟨rest, -, h'⟩ := h.at_of_ne_other hstop hi (by simp [hk])
  exact ((disciplined_check hk).mp h').1

/-- A failed check is followed by the ending. -/
theorem Disciplined.stop_of_reject {i : Nat} {e : ε} {a : α} (he : es[i]? = some e)
    (hk : kind e = .reject a) : ¬ valid a ∧ stop (es.drop (i + 1)) := by
  obtain ⟨rest, hdrop, h'⟩ := h.at_of_ne_other hstop he (by simp [hk])
  rw [← List.drop_drop, hdrop]
  exact (disciplined_reject hk).mp h'

/-- With validity convex and the first checked addresses valid, every access is valid. -/
theorem Disciplined.valid_of_access (hconv : Convex valid) (hcs : ∀ c ∈ cs, valid c)
    {i : Nat} {e : ε} {x : α} (he : es[i]? = some e) (hk : kind e = .access x) : valid x := by
  apply (h.covered_of_access hstop he hk).valid hconv
  intro c hc
  rcases List.mem_append.mp hc with hc | hc
  · obtain ⟨e', he', hk'⟩ := mem_checked.mp hc
    exact h.valid_of_check hstop (List.mem_of_mem_take he') hk'
  · exact hcs c hc

end Readback

end Discipline

end CheckedAccess
