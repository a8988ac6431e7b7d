import Mathlib

/-!
# Counted loops that may fail

A `for (i = 0; i < n; i++)` loop whose body may stop the machine is a `foldlM` in `Option`
over `List.range n`. `foldlM_range_some` is its rule of total correctness: an invariant
indexed by the number of iterations done, that each iteration keeps and which lets it
return, holds at the end, and the loop returns.
-/

set_option autoImplicit false

namespace Loops

variable {β : Type} {f : β → Nat → Option β}

/-- The iterations `s, ..., s + k - 1`. -/
theorem foldlM_range'_some (I : Nat → β → Prop) (k : Nat) :
    ∀ s, (∀ i, s ≤ i → i < s + k → ∀ b, I i b → ∃ b', f b i = some b' ∧ I (i + 1) b') →
      ∀ b, I s b → ∃ r, (List.range' s k).foldlM f b = some r ∧ I (s + k) r := by
  induction k with
  | zero => intro s _ b hb; exact ⟨b, rfl, hb⟩
  | succ k ih =>
    intro s step b hb
    obtain ⟨b', hf, hb'⟩ := step s (Nat.le_refl s) (by omega) b hb
    obtain ⟨r, hr, hI⟩ := ih (s + 1) (fun i hs hi => step i (by omega) (by omega)) b' hb'
    refine ⟨r, ?_, by rwa [Nat.add_right_comm, Nat.add_assoc] at hI⟩
    rw [List.range'_succ, List.foldlM_cons, hf]
    exact hr

/-- The loop `for (i = 0; i < n; i++)`: each iteration `i < n` returns and keeps `I`. -/
theorem foldlM_range_some (n : Nat) (I : Nat → β → Prop)
    (step : ∀ i < n, ∀ b, I i b → ∃ b', f b i = some b' ∧ I (i + 1) b') {b : β} (h0 : I 0 b) :
    ∃ r, (List.range n).foldlM f b = some r ∧ I n r := by
  obtain ⟨r, hr, hI⟩ := foldlM_range'_some I n 0 (fun i _ hi => step i (by omega)) b h0
  refine ⟨r, ?_, by simpa using hI⟩
  rw [List.range_eq_range']
  exact hr

end Loops
