import Mathlib

/-!
# Tables of buckets

A table of buckets is a list of lists, and each element belongs in the bucket that a key
function names. This module has what placing, moving and removing elements does to the
whole table: read as one list (`List.flatten`), an insertion at the front of a bucket is a
`cons` and a removal is an erasure, both up to permutation; and moving every element of a
table, bucket by bucket, to the front of the bucket its key names (`scatter`) keeps the
elements and places each of them.
-/

set_option autoImplicit false

namespace Buckets

variable {α : Type}

/-- `e` put at the front of bucket `b`. -/
def pushFront (l : List (List α)) (b : Nat) (e : α) : List (List α) :=
  l.modify b (e :: ·)

/-- Every element of bucket `b` has key `b`. -/
def Placed (key : α → Nat) (l : List (List α)) : Prop :=
  ∀ b e, e ∈ l.getD b [] → key e = b

/-- Every element of `src` moved, bucket by bucket and each bucket from its front, to the
front of the bucket of `dst` its key names. -/
def scatter (key : α → Nat) (dst src : List (List α)) : List (List α) :=
  src.foldl (fun dst bucket => bucket.foldl (fun dst e => pushFront dst (key e) e) dst) dst

section Lemmas

variable {l : List (List α)} {key : α → Nat}

@[simp] theorem length_pushFront (l : List (List α)) (b : Nat) (e : α) :
    (pushFront l b e).length = l.length := by
  simp [pushFront]

theorem perm_cons_eraseIdx {xs : List α} {i : Nat} (hi : i < xs.length) :
    xs.Perm (xs[i] :: xs.eraseIdx i) := by
  have hsplit : xs = xs.take i ++ xs[i] :: xs.drop (i + 1) := by
    rw [List.getElem_cons_drop, List.take_append_drop]
  rw [List.eraseIdx_eq_take_drop_succ]
  conv_lhs => rw [hsplit]
  exact List.perm_middle

/-- Changing one bucket changes the table by what it takes out of the bucket and puts in. -/
theorem flatten_modify_perm (f : List α → List α) {b : Nat} (hb : b < l.length) :
    ((l.modify b f).flatten ++ l[b]).Perm (l.flatten ++ f l[b]) := by
  obtain ⟨l₁, a, l₂, hl, hlen, hmod⟩ := List.exists_of_modify f hb
  have ha : l[b] = a := by
    simp only [hl, ← hlen, List.getElem_append_right (Nat.le_refl _), Nat.sub_self,
      List.getElem_cons_zero]
  classical
  rw [hmod, ha, hl, List.perm_iff_count]
  intro x
  simp only [List.flatten_append, List.flatten_cons, List.count_append]
  omega

theorem flatten_pushFront_perm {b : Nat} (hb : b < l.length) (e : α) :
    (pushFront l b e).flatten.Perm (e :: l.flatten) := by
  have h := flatten_modify_perm (e :: ·) hb
  rw [← List.perm_append_right_iff l[b]]
  exact h.trans List.perm_middle

/-- Erasing the element at `i` of bucket `b` takes exactly that element out of the table. -/
theorem flatten_eraseIdx_perm {b i : Nat} (hb : b < l.length) (hi : i < l[b].length) :
    l.flatten.Perm (l[b][i] :: (l.modify b (·.eraseIdx i)).flatten) := by
  classical
  have h := flatten_modify_perm (·.eraseIdx i) hb
  have hbucket := perm_cons_eraseIdx hi
  rw [List.perm_iff_count] at h hbucket ⊢
  intro x
  have h1 := h x
  have h2 := hbucket x
  simp only [List.count_append, List.count_cons] at h1 h2 ⊢
  omega

theorem getD_pushFront (l : List (List α)) (b c : Nat) (e : α) :
    (pushFront l b e).getD c [] = if c = b ∧ b < l.length then e :: l.getD c [] else l.getD c [] := by
  simp only [pushFront, List.getD_eq_getElem?_getD]
  by_cases hc : c = b
  · subst hc
    by_cases hb : c < l.length
    · simp [hb]
    · simp [hb]
  · simp [List.getElem?_modify_ne _ _ (Ne.symm hc), hc]

theorem Placed.pushFront (h : Placed key l) (e : α) : Placed key (pushFront l (key e) e) := by
  intro c x hx
  rw [getD_pushFront] at hx
  split_ifs at hx with hc
  · rcases List.mem_cons.mp hx with rfl | hx
    · exact hc.1.symm
    · exact h c x hx
  · exact h c x hx

/-- A change of one bucket that only keeps elements of it keeps every element placed. -/
theorem Placed.modify (h : Placed key l) (f : List α → List α) (hf : ∀ xs, ∀ x ∈ f xs, x ∈ xs)
    (b : Nat) : Placed key (l.modify b f) := by
  intro c x hx
  simp only [List.getD_eq_getElem?_getD, List.getElem?_modify] at hx
  split_ifs at hx with hbc
  · cases hc : l[c]? with
    | none => simp [hc] at hx
    | some xs =>
      rw [hc] at hx
      exact h c x (by simpa [List.getD_eq_getElem?_getD, hc] using hf xs x hx)
  · exact h c x (by simpa [List.getD_eq_getElem?_getD] using hx)

theorem placed_replicate (n : Nat) : Placed key (List.replicate n ([] : List α)) := by
  intro c x hx
  simp only [List.getD_eq_getElem?_getD, List.getElem?_replicate] at hx
  split_ifs at hx <;> simp at hx

/-- The inner loop of `scatter`: one bucket moved into `dst`. -/
theorem foldl_pushFront_spec (bucket : List α) (hkey : ∀ e ∈ bucket, key e < l.length) :
    (bucket.foldl (fun d e => pushFront d (key e) e) l).length = l.length ∧
      (bucket.foldl (fun d e => pushFront d (key e) e) l).flatten.Perm (bucket.reverse ++ l.flatten) ∧
      (Placed key l → Placed key (bucket.foldl (fun d e => pushFront d (key e) e) l)) := by
  induction bucket generalizing l with
  | nil => exact ⟨rfl, List.Perm.refl _, id⟩
  | cons e bucket ih =>
    have he : key e < l.length := hkey e List.mem_cons_self
    obtain ⟨hlen, hperm, hplaced⟩ := ih (l := pushFront l (key e) e)
      (fun x hx => by rw [length_pushFront]; exact hkey x (List.mem_cons_of_mem e hx))
    refine ⟨by rw [List.foldl_cons, hlen, length_pushFront], ?_, fun h => hplaced (h.pushFront e)⟩
    rw [List.foldl_cons, List.reverse_cons, List.append_assoc, List.singleton_append]
    exact hperm.trans ((flatten_pushFront_perm he e).append_left _)

/-- `scatter` keeps the length of `dst`, moves every element of `src` into it and places each
of them, provided every key names a bucket of `dst`. -/
theorem scatter_spec (dst src : List (List α)) (hkey : ∀ e, key e < dst.length) :
    (scatter key dst src).length = dst.length ∧
      (scatter key dst src).flatten.Perm (src.flatten.reverse ++ dst.flatten) ∧
      (Placed key dst → Placed key (scatter key dst src)) := by
  induction src generalizing dst with
  | nil => exact ⟨rfl, List.Perm.refl _, id⟩
  | cons bucket src ih =>
    obtain ⟨hlen₁, hperm₁, hplaced₁⟩ := foldl_pushFront_spec bucket (fun e _ => hkey e)
    obtain ⟨hlen, hperm, hplaced⟩ :=
      ih (bucket.foldl (fun d e => pushFront d (key e) e) dst) (fun e => hlen₁ ▸ hkey e)
    refine ⟨hlen.trans hlen₁, ?_, fun h => hplaced (hplaced₁ h)⟩
    unfold scatter at hperm ⊢
    rw [List.foldl_cons]
    refine hperm.trans ?_
    rw [List.flatten_cons, List.reverse_append, List.append_assoc]
    exact hperm₁.append_left _

end Lemmas

end Buckets
