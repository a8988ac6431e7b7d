import Mathlib

/-!
# Natural merge sort

A natural merge sort cuts its list into runs, the longest pieces from the front in which each
element is `le`-after the one before it (`splitRun`), and merges them two by two in one pass
over the list (`mergePass`). It makes passes until one outputs at most one run, and then
checks that the list is sorted (`sortPasses`). With `le` transitive and total:

* a pass permutes the list (`perm_mergePass`) and keeps every sorted sublist of it
  (`sublist_mergePass`): elements that `le` does not order keep their order, which is
  stability;
* a pass that outputs at most one run outputs a sorted list (`isChain_mergePass`);
* a pass that outputs more than one run leaves a list whose next pass outputs fewer
  (`count_mergePass_lt`), so a list of `n` elements is sorted within `n + 1` passes
  (`sortPasses_spec`).

Runs are counted through `descents`, the number of neighbours out of order: a pass outputs
at most half of two more than the descents of its input (`count_mergePass_le`), and its output
has fewer descents than the runs it output (`descents_mergePass_lt`).
-/

set_option autoImplicit false

namespace NaturalMergeSort

variable {α : Type} (le : α → α → Bool)

/-! ## Runs -/

/-- The run from `a`: the longest prefix of `a :: l` in which each element is `le`-after the
one before it, and the rest of the list. -/
def splitRun (a : α) : List α → List α × List α
  | [] => ([a], [])
  | b :: l => if le a b then (a :: (splitRun b l).1, (splitRun b l).2) else ([a], b :: l)

theorem splitRun_append (a : α) (l : List α) :
    (splitRun le a l).1 ++ (splitRun le a l).2 = a :: l := by
  induction l generalizing a with
  | nil => rfl
  | cons b l ih =>
    by_cases h : le a b
    · simp [splitRun, h, ih]
    · simp [splitRun, h]

theorem length_splitRun_snd (a : α) (l : List α) : (splitRun le a l).2.length ≤ l.length := by
  induction l generalizing a with
  | nil => simp [splitRun]
  | cons b l ih =>
    by_cases h : le a b
    · simp only [splitRun, h, if_true, List.length_cons]
      exact Nat.le_succ_of_le (ih b)
    · simp [splitRun, h]

theorem head?_splitRun (a : α) (l : List α) : (splitRun le a l).1.head? = some a := by
  cases l with
  | nil => rfl
  | cons b l =>
    by_cases h : le a b
    · simp [splitRun, h]
    · simp [splitRun, h]

/-- A run is a chain of `le`. -/
theorem isChain_splitRun (a : α) (l : List α) :
    (splitRun le a l).1.IsChain (fun x y => le x y = true) := by
  induction l generalizing a with
  | nil => exact List.isChain_singleton a
  | cons b l ih =>
    by_cases h : le a b
    · have hhead := head?_splitRun le b l
      simp only [splitRun, h, if_true]
      obtain ⟨run, hrun⟩ : ∃ run, (splitRun le b l).1 = b :: run := by
        cases hr : (splitRun le b l).1 with
        | nil => rw [hr] at hhead; cases hhead
        | cons c run =>
          rw [hr, List.head?_cons, Option.some_inj] at hhead
          exact ⟨run, by rw [hhead]⟩
      have hchain := ih b
      rw [hrun] at hchain ⊢
      exact List.isChain_cons_cons.mpr ⟨h, hchain⟩
    · simp [splitRun, h]

/-- A run stops before an element that is not `le`-after its last element. -/
theorem splitRun_stop (a : α) (l : List α) {b : α} {r : List α}
    (hr : (splitRun le a l).2 = b :: r) : ∀ x ∈ (splitRun le a l).1.getLast?, le x b = false := by
  induction l generalizing a with
  | nil => cases hr
  | cons c l ih =>
    by_cases h : le a c
    · simp only [splitRun, h, if_true] at hr ⊢
      have hlast : (a :: (splitRun le c l).1).getLast? = (splitRun le c l).1.getLast? := by
        have hhead := head?_splitRun le c l
        cases hrun : (splitRun le c l).1 with
        | nil => rw [hrun] at hhead; cases hhead
        | cons d run => rw [List.getLast?_cons_cons]
      rw [hlast]
      exact ih c hr
    · simp only [splitRun, h, Bool.false_eq_true, if_false] at hr ⊢
      obtain ⟨rfl, -⟩ := List.cons_eq_cons.mp hr
      intro x hx
      rw [List.getLast?_singleton, Option.mem_some_iff] at hx
      subst hx
      simpa using h

/-! ## Descents -/

/-- The number of neighbours of the list out of order. -/
def descents : List α → Nat
  | a :: b :: l => (if le a b then 0 else 1) + descents (b :: l)
  | _ => 0

/-- The descents of two joined lists: those of each and the one where they meet, if any. -/
theorem descents_append_cons {l₁ l₂ : List α} {x b : α} (hx : l₁.getLast? = some x) :
    descents le (l₁ ++ b :: l₂) =
      descents le l₁ + (if le x b then 0 else 1) + descents le (b :: l₂) := by
  induction l₁ with
  | nil => cases hx
  | cons y l₁ ih =>
    cases l₁ with
    | nil =>
      rw [List.getLast?_singleton, Option.some_inj] at hx
      subst hx
      simp [descents]
    | cons z l₁ =>
      rw [List.getLast?_cons_cons] at hx
      simp only [List.cons_append, descents] at ih ⊢
      rw [ih hx]
      omega

theorem descents_append_le (l₁ l₂ : List α) :
    descents le (l₁ ++ l₂) ≤ descents le l₁ + 1 + descents le l₂ := by
  cases l₂ with
  | nil =>
    rw [List.append_nil]
    omega
  | cons b l₂ =>
    cases hx : l₁.getLast? with
    | none => simp [List.getLast?_eq_none_iff.mp hx]
    | some x =>
      rw [descents_append_cons le hx]
      split <;> omega

theorem descents_eq_zero {l : List α} (h : l.IsChain (fun x y => le x y = true)) :
    descents le l = 0 := by
  induction l with
  | nil => rfl
  | cons a l ih =>
    cases l with
    | nil => rfl
    | cons b l =>
      obtain ⟨hab, hl⟩ := List.isChain_cons_cons.mp h
      simp [descents, hab, ih hl]

theorem descents_lt_length {l : List α} (h : l ≠ []) : descents le l < l.length := by
  induction l with
  | nil => exact absurd rfl h
  | cons a l ih =>
    cases l with
    | nil => simp [descents]
    | cons b l =>
      have := ih (List.cons_ne_nil b l)
      simp only [descents, List.length_cons] at this ⊢
      split <;> omega

/-! ## Merging -/

section Merge

variable {le}

/-- With `le` transitive, a chain of `le` is sorted. -/
theorem pairwise_of_isChain (trans : ∀ a b c, le a b → le b c → le a c) {l : List α}
    (h : l.IsChain (fun x y => le x y = true)) : l.Pairwise (fun x y => le x y = true) :=
  haveI : IsTrans α (fun x y => le x y = true) := ⟨trans⟩
  List.isChain_iff_pairwise.mp h

/-- Merging keeps every sublist of its two lists whose part from the first list is `le`-before
its part from the second. -/
theorem sublist_merge (trans : ∀ a b c, le a b → le b c → le a c) {l₁ l₂ c₁ c₂ : List α}
    (h₁ : l₁.Pairwise (fun x y => le x y = true)) (hc₁ : c₁.Sublist l₁) (hc₂ : c₂.Sublist l₂)
    (hcross : ∀ a ∈ c₁, ∀ b ∈ c₂, le a b = true) : (c₁ ++ c₂).Sublist (l₁.merge l₂ le) := by
  induction l₁ generalizing l₂ c₁ c₂ with
  | nil =>
    rw [List.sublist_nil.mp hc₁, List.nil_merge]
    exact hc₂
  | cons x A ih₁ =>
    induction l₂ generalizing c₁ c₂ with
    | nil =>
      rw [List.sublist_nil.mp hc₂, List.append_nil, List.merge_right]
      exact hc₁
    | cons y B ih₂ =>
      rw [List.cons_merge_cons]
      by_cases hxy : le x y
      · -- `x` is output first: it is the first of `c₁` or not in `c₁`
        rw [if_pos hxy]
        cases hc₁ with
        | cons _ hc₁ => exact (ih₁ h₁.of_cons hc₁ hc₂ hcross).cons x
        | cons_cons _ hc₁ =>
          exact (ih₁ h₁.of_cons hc₁ hc₂ fun a ha => hcross a (List.mem_cons_of_mem x ha)).cons_cons x
      · -- `y` is output first: it is the first of `c₂` or not in `c₂`
        rw [if_neg hxy]
        cases hc₂ with
        | cons _ hc₂ => exact (ih₂ hc₁ hc₂ hcross).cons y
        | cons_cons _ hc₂ =>
          -- and then nothing of `c₁` is `le`-before `y`, as `x` is `le`-before all of it
          have hnil : c₁ = [] := by
            cases c₁ with
            | nil => rfl
            | cons a c₁ =>
              have ha : le a y := hcross a List.mem_cons_self y List.mem_cons_self
              rcases List.mem_cons.mp (hc₁.subset List.mem_cons_self) with rfl | haA
              · exact absurd ha hxy
              · exact absurd (trans x a y (List.rel_of_pairwise_cons h₁ haA) ha) hxy
          subst hnil
          exact (ih₂ (List.nil_sublist _) hc₂ (by simp)).cons_cons y

/-- Merging keeps every sorted sublist of the two lists joined, the first being sorted. -/
theorem sublist_merge_of_pairwise (trans : ∀ a b c, le a b → le b c → le a c)
    {l₁ l₂ c : List α} (h₁ : l₁.Pairwise (fun x y => le x y = true))
    (hc : c.Pairwise (fun x y => le x y = true)) (hsub : c.Sublist (l₁ ++ l₂)) :
    c.Sublist (l₁.merge l₂ le) := by
  obtain ⟨c₁, c₂, rfl, hc₁, hc₂⟩ := List.sublist_append_iff.mp hsub
  exact sublist_merge trans h₁ hc₁ hc₂ (List.pairwise_append.mp hc).2.2

end Merge

/-! ## Passes -/

/-- One pass: the runs from the front merged two by two, and the number of runs the pass
output. -/
def mergePass : List α → List α × Nat
  | [] => ([], 0)
  | a :: l =>
    match h : (splitRun le a l).2 with
    | [] => ((splitRun le a l).1, 1)
    | b :: r =>
      ((splitRun le a l).1.merge (splitRun le b r).1 le ++ (mergePass (splitRun le b r).2).1,
        (mergePass (splitRun le b r).2).2 + 1)
termination_by l => l.length
decreasing_by
  have h₁ := length_splitRun_snd le b r
  have h₂ := length_splitRun_snd le a l
  rw [h, List.length_cons] at h₂
  simp only [List.length_cons]
  omega

theorem mergePass_nil : mergePass le [] = ([], 0) := by
  rw [mergePass]

theorem mergePass_last {a : α} {l : List α} (h : (splitRun le a l).2 = []) :
    mergePass le (a :: l) = ((splitRun le a l).1, 1) := by
  rw [mergePass]
  split
  · rfl
  · simp_all

theorem mergePass_merge {a b : α} {l r : List α} (h : (splitRun le a l).2 = b :: r) :
    mergePass le (a :: l) =
      ((splitRun le a l).1.merge (splitRun le b r).1 le ++ (mergePass le (splitRun le b r).2).1,
        (mergePass le (splitRun le b r).2).2 + 1) := by
  rw [mergePass]
  split
  · simp_all
  · simp_all

/-- The list a pass merges: the run, the next run, and what follows them. -/
theorem splitRun_runs {a b : α} {l r : List α} (h : (splitRun le a l).2 = b :: r) :
    a :: l = (splitRun le a l).1 ++ (splitRun le b r).1 ++ (splitRun le b r).2 := by
  rw [List.append_assoc, splitRun_append le b r, ← h, splitRun_append]

/-- A pass permutes its list. -/
theorem perm_mergePass (l : List α) : (mergePass le l).1.Perm l := by
  induction l using mergePass.induct le with
  | case1 => rw [mergePass_nil]
  | case2 a l h =>
    rw [mergePass_last le h]
    exact .of_eq (by rw [← splitRun_append le a l, h, List.append_nil])
  | case3 a l b r h ih =>
    rw [mergePass_merge le h, splitRun_runs le h]
    exact ((List.merge_perm_append le).append ih)

/-- A pass outputs runs exactly from a list that has elements. -/
theorem count_mergePass_pos {l : List α} (h : l ≠ []) : 0 < (mergePass le l).2 := by
  cases l with
  | nil => exact absurd rfl h
  | cons a l =>
    cases hr : (splitRun le a l).2 with
    | nil => rw [mergePass_last le hr]; omega
    | cons b r => rw [mergePass_merge le hr]; omega

/-- The descents of a list at the end of its first run: those of the run, the one after it, and
those of the rest. -/
theorem descents_splitRun {a b : α} {l r : List α} (h : (splitRun le a l).2 = b :: r) :
    descents le (a :: l) = descents le (splitRun le a l).1 + 1 + descents le (b :: r) := by
  have hne : (splitRun le a l).1 ≠ [] := fun h' => by simpa [h'] using head?_splitRun le a l
  obtain ⟨x, hx⟩ := Option.isSome_iff_exists.mp (List.getLast?_isSome.mpr hne)
  have hstop : le x b = false := splitRun_stop le a l h x (by rw [hx]; rfl)
  conv_lhs => rw [← splitRun_append le a l, h]
  rw [descents_append_cons le hx, hstop]
  rfl

/-- A pass outputs at most half of two more runs than its list has descents. -/
theorem count_mergePass_le (l : List α) : (mergePass le l).2 ≤ (descents le l + 2) / 2 := by
  induction l using mergePass.induct le with
  | case1 => rw [mergePass_nil]; omega
  | case2 a l h => rw [mergePass_last le h]; omega
  | case3 a l b r h ih =>
    rw [mergePass_merge le h, descents_splitRun le h]
    -- the second run ends in a descent too, unless nothing follows it
    cases hrest : (splitRun le b r).2 with
    | nil => rw [mergePass_nil]; omega
    | cons c r' =>
      rw [descents_splitRun le hrest]
      rw [hrest] at ih
      omega

theorem count_mergePass_le_length (l : List α) : (mergePass le l).2 ≤ l.length := by
  cases l with
  | nil => rw [mergePass_nil]; rfl
  | cons a l =>
    have h₁ := count_mergePass_le le (a :: l)
    have h₂ := descents_lt_length le (List.cons_ne_nil a l)
    simp only [List.length_cons] at h₂ ⊢
    omega

section Order

variable {le}
variable (trans : ∀ a b c, le a b → le b c → le a c) (total : ∀ a b, le a b || le b a)
include trans

theorem pairwise_splitRun (a : α) (l : List α) :
    (splitRun le a l).1.Pairwise (fun x y => le x y = true) :=
  pairwise_of_isChain trans (isChain_splitRun le a l)

/-- A pass keeps every sorted sublist of its list: elements it does not order keep their
order. -/
theorem sublist_mergePass (l : List α) {c : List α} (hc : c.Pairwise (fun x y => le x y = true))
    (hsub : c.Sublist l) : c.Sublist (mergePass le l).1 := by
  induction l using mergePass.induct le generalizing c with
  | case1 => rwa [mergePass_nil]
  | case2 a l h =>
    rw [mergePass_last le h]
    rwa [← splitRun_append le a l, h, List.append_nil] at hsub
  | case3 a l b r h ih =>
    rw [mergePass_merge le h]
    rw [splitRun_runs le h] at hsub
    obtain ⟨c₁, c₂, rfl, hc₁, hc₂⟩ := List.sublist_append_iff.mp hsub
    have hp := List.pairwise_append.mp hc
    exact (sublist_merge_of_pairwise trans (pairwise_splitRun trans a l) hp.1 hc₁).append
      (ih hp.2.1 hc₂)

include total

/-- A pass that outputs at most one run outputs a sorted list. -/
theorem isChain_mergePass (l : List α) (h : (mergePass le l).2 ≤ 1) :
    (mergePass le l).1.IsChain (fun x y => le x y = true) := by
  induction l using mergePass.induct le with
  | case1 => rw [mergePass_nil]; exact List.IsChain.nil
  | case2 a l hr =>
    rw [mergePass_last le hr]
    exact isChain_splitRun le a l
  | case3 a l b r hr ih =>
    rw [mergePass_merge le hr] at h ⊢
    -- the runs after the two merged are none
    have hnil : (splitRun le b r).2 = [] := by
      by_contra hne
      have := count_mergePass_pos le hne
      omega
    rw [hnil, mergePass_nil, List.append_nil]
    exact (List.pairwise_merge trans total _ _ (pairwise_splitRun trans a l)
      (pairwise_splitRun trans b r)).isChain

/-- A pass leaves fewer descents than the runs it output. -/
theorem descents_mergePass_lt {l : List α} (hl : l ≠ []) :
    descents le (mergePass le l).1 < (mergePass le l).2 := by
  induction l using mergePass.induct le with
  | case1 => exact absurd rfl hl
  | case2 a l h =>
    rw [mergePass_last le h, descents_eq_zero le (isChain_splitRun le a l)]
    omega
  | case3 a l b r h ih =>
    rw [mergePass_merge le h]
    dsimp only
    have hmerge : descents le ((splitRun le a l).1.merge (splitRun le b r).1 le) = 0 :=
      descents_eq_zero le (List.pairwise_merge trans total _ _ (pairwise_splitRun trans a l)
        (pairwise_splitRun trans b r)).isChain
    cases hrest : (splitRun le b r).2 with
    | nil => rw [mergePass_nil, List.append_nil, hmerge]; omega
    | cons c r' =>
      rw [hrest] at ih
      have hout := ih (List.cons_ne_nil c r')
      have happ := descents_append_le le ((splitRun le a l).1.merge (splitRun le b r).1 le)
        (mergePass le (c :: r')).1
      omega

/-- A pass that outputs more than one run leaves a list whose next pass outputs fewer. -/
theorem count_mergePass_lt {l : List α} (h : 1 < (mergePass le l).2) :
    (mergePass le (mergePass le l).1).2 < (mergePass le l).2 := by
  have hl : l ≠ [] := by
    rintro rfl
    rw [mergePass_nil] at h
    omega
  have hd := descents_mergePass_lt trans total hl
  have hc := count_mergePass_le le (mergePass le l).1
  omega

end Order

/-! ## Pairs of a list without duplicates -/

/-- Two distinct elements of a list stand one before the other. -/
theorem sublist_pair_or {l : List α} {a b : α} (ha : a ∈ l) (hb : b ∈ l) (hab : a ≠ b) :
    [a, b].Sublist l ∨ [b, a].Sublist l := by
  induction l with
  | nil => cases ha
  | cons c l ih =>
    rcases List.mem_cons.mp ha with rfl | ha'
    · have hb' : b ∈ l := (List.mem_cons.mp hb).resolve_left (Ne.symm hab)
      exact .inl ((List.singleton_sublist.mpr hb').cons_cons a)
    · rcases List.mem_cons.mp hb with rfl | hb'
      · exact .inr ((List.singleton_sublist.mpr ha').cons_cons b)
      · exact (ih ha' hb').imp (·.cons c) (·.cons c)

/-- In a list without duplicates, no two elements stand both ways round. -/
theorem not_sublist_pair_swap {l : List α} (hnd : l.Nodup) {a b : α} (hab : [a, b].Sublist l)
    (hba : [b, a].Sublist l) : False := by
  induction l with
  | nil => cases hab
  | cons c l ih =>
    obtain ⟨hc, hnd⟩ := List.nodup_cons.mp hnd
    cases hab with
    | cons _ hab =>
      cases hba with
      | cons _ hba => exact ih hnd hab hba
      | cons_cons _ hba => exact hc (hab.subset (by simp))
    | cons_cons _ hab =>
      cases hba with
      | cons _ hba => exact hc (hba.subset (by simp))
      | cons_cons _ hba => exact hc (hab.subset (by simp))

/-! ## Sorting -/

/-- Passes until one outputs at most one run, and then the check that the list is sorted; at
most `fuel` passes. -/
def sortPasses : Nat → List α → Option (List α)
  | 0, _ => none
  | fuel + 1, l =>
    if (mergePass le l).2 > 1 then sortPasses fuel (mergePass le l).1
    else if (mergePass le l).1.IsChain (fun x y => le x y = true) then some (mergePass le l).1
    else none

section Order

variable {le}
variable (trans : ∀ a b c, le a b → le b c → le a c) (total : ∀ a b, le a b || le b a)
include trans total

/-- The passes end, with a sorted permutation of the list that keeps every sorted sublist of it,
when there is fuel for one more pass than the first outputs runs. -/
theorem sortPasses_count {fuel : Nat} {l : List α} (hfuel : (mergePass le l).2 < fuel) :
    ∃ l', sortPasses le fuel l = some l' ∧ l'.Perm l ∧
      l'.Pairwise (fun x y => le x y = true) ∧
      ∀ c : List α, c.Pairwise (fun x y => le x y = true) → c.Sublist l → c.Sublist l' := by
  induction fuel generalizing l with
  | zero => omega
  | succ f ih =>
    by_cases hmany : (mergePass le l).2 > 1
    · -- another pass, on a list whose pass outputs fewer runs
      obtain ⟨l', hsort, hperm, hsorted, hsub⟩ :=
        ih (l := (mergePass le l).1) (by have := count_mergePass_lt trans total hmany; omega)
      refine ⟨l', by rw [sortPasses, if_pos hmany, hsort], hperm.trans (perm_mergePass le l),
        hsorted, fun c hc hcl => hsub c hc (sublist_mergePass trans l hc hcl)⟩
    · have hchain := isChain_mergePass trans total l (by omega)
      refine ⟨(mergePass le l).1, by rw [sortPasses, if_neg hmany, if_pos hchain],
        perm_mergePass le l, pairwise_of_isChain trans hchain,
        fun c hc hcl => sublist_mergePass trans l hc hcl⟩

/-- A list of `n` elements is sorted within `n + 1` passes, stably. -/
theorem sortPasses_spec {fuel : Nat} {l : List α} (hfuel : l.length < fuel) :
    ∃ l', sortPasses le fuel l = some l' ∧ l'.Perm l ∧
      l'.Pairwise (fun x y => le x y = true) ∧
      ∀ c : List α, c.Pairwise (fun x y => le x y = true) → c.Sublist l → c.Sublist l' :=
  sortPasses_count trans total (lt_of_le_of_lt (count_mergePass_le_length le l) hfuel)

/-- A sorted permutation of a list without duplicates that keeps each of its sorted pairs is
the list's `List.mergeSort`: the stable sort is unique. -/
theorem eq_mergeSort {xs ys : List α} (hnd : xs.Nodup) (hperm : ys.Perm xs)
    (hsorted : ys.Pairwise (fun x y => le x y = true))
    (hstable : ∀ a b, le a b = true → [a, b].Sublist xs → [a, b].Sublist ys) :
    ys = xs.mergeSort le := by
  -- `a` stands before `b`: `le`-before it, and in the order of `xs` when `le` is both ways
  have hrel : ∀ zs : List α, zs.Perm xs → zs.Pairwise (fun x y => le x y = true) →
      (∀ a b, le a b = true → [a, b].Sublist xs → [a, b].Sublist zs) →
      zs.Pairwise (fun a b => le a b = true ∧ (le b a = true → [a, b].Sublist xs)) := by
    intro zs hz hzs hzst
    rw [List.pairwise_iff_forall_sublist]
    intro a b hab
    refine ⟨List.pairwise_iff_forall_sublist.mp hzs hab, fun hba => ?_⟩
    have hznd := hnd.perm hz.symm
    have hne : a ≠ b := fun he => List.nodup_iff_sublist.mp hznd a (he ▸ hab)
    rcases sublist_pair_or (hz.subset (hab.subset (by simp))) (hz.subset (hab.subset (by simp)))
      hne with hxs | hxs
    · exact hxs
    · exact (not_sublist_pair_swap hznd hab (hzst b a hba hxs)).elim
  have hms := List.mergeSort_perm xs le
  refine List.Perm.eq_of_pairwise (fun a b _ _ h₁ h₂ => ?_) (hrel ys hperm hsorted hstable)
    (hrel _ hms (List.pairwise_mergeSort trans total xs)
      fun a b hab h => List.pair_sublist_mergeSort trans total hab h) (hperm.trans hms.symm)
  by_contra hne
  exact not_sublist_pair_swap hnd (h₁.2 h₂.1) (h₂.2 h₁.1)

/-- On a list without duplicates, the passes give `List.mergeSort`. -/
theorem sortPasses_eq_mergeSort {fuel : Nat} {l : List α} (hnd : l.Nodup) (hfuel : l.length < fuel) :
    sortPasses le fuel l = some (l.mergeSort le) := by
  obtain ⟨l', hsort, hperm, hsorted, hsub⟩ := sortPasses_spec trans total hfuel
  rw [hsort, eq_mergeSort trans total hnd hperm hsorted
    fun a b hab h => hsub [a, b] (List.pairwise_pair.mpr hab) h]

end Order

end NaturalMergeSort
