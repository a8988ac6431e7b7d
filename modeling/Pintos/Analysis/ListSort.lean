import Pintos.Analysis.List
import Pintos.Lib.NaturalMergeSort

/-!
# `list_sort` is a stable merge sort

`list_sort` is a natural merge sort in place: each pass finds two runs with `find_end_of_run`
and merges them with `inplace_merge`, which splices each element of the second run that is
`less` than the current element of the first in front of it. Each function is shown to do to
the sequence the list holds what `NaturalMergeSort` does to a list, with `sortLe less`, the test
`!less (a1b0, a0, aux)` of `inplace_merge`, as its order:

* `is_sorted` decides whether a segment is a chain of `sortLe` (`isSorted_eq`);
* `find_end_of_run` stops where `splitRun` ends the run (`findEndOfRun_eq`);
* `inplace_merge` leaves `List.merge` of the two runs (`inplaceMerge_eq`);
* one pass of `list_sort` leaves `mergePass` and counts its runs (`sortPass_eq`);
* `list_sort` returns exactly when `sortPasses` does, with the list holding what it gives
  (`listSort_rel`).

Each loop is proved by induction on the part of the list it has still to walk, the part
already done generalized; the splice moves the list to a new sequence, with the elements the
merge has placed in front.
-/

set_option autoImplicit false

namespace Pintos.KernelList

open DList NaturalMergeSort

/-- The order `list_sort` puts a list in: `a` may stand before `b` when `b` is not `less` than
`a`, the test `!less (a1b0, a0, aux)` of `inplace_merge`. -/
def sortLe (less : Nat → Nat → Bool) (a b : Nat) : Bool := !less b a

variable {m : Mem} {l : ListStruct} {xs P Q S : List Nat} (less : Nat → Nat → Bool)

/-! ## `is_sorted` and `find_end_of_run` -/

/-- A step of a walk over a segment of the list that ends where `Q` begins: the next element is
not the end of the segment, and `list_prev` leads back. -/
theorem segment_step {x y : Nat} (h : Holds m l.head l.tail (P ++ x :: y :: S ++ Q)) :
    listNext m x = some y ∧ y ≠ Q.headD l.tail ∧ listPrev m y = some x := by
  have h₁ : Holds m l.head l.tail (P ++ x :: (y :: (S ++ Q))) := by simpa using h
  have h₂ : Holds m l.head l.tail ((P ++ [x]) ++ y :: (S ++ Q)) := by simpa using h
  have h₃ : Holds m l.head l.tail ((P ++ x :: y :: S) ++ Q) := by simpa using h
  refine ⟨(walk_step h₁).2, fun he => h₃.cut_disjoint y (by simp) _
    (headD_mem_append_singleton Q l.tail) he, listPrev_eq ?_⟩
  rw [(h₂.links rfl).1]
  simp

theorem isSortedLoop_eq {x : Nat} (h : Holds m l.head l.tail (P ++ x :: S ++ Q)) {fuel : Nat}
    (hfuel : S.length < fuel) :
    isSortedLoop m less (Q.headD l.tail) fuel x =
      some (decide ((x :: S).IsChain fun a b => sortLe less a b = true)) := by
  obtain ⟨f, rfl⟩ : ∃ f, fuel = f + 1 := ⟨fuel - 1, by omega⟩
  induction S generalizing P x f with
  | nil =>
    obtain ⟨-, hnext⟩ := walk_step (show Holds m l.head l.tail (P ++ x :: Q) by simpa using h)
    rw [isSortedLoop, hnext, Option.bind_some, if_pos rfl]
    simp
  | cons y S ih =>
    obtain ⟨hnext, hy, hprev⟩ := segment_step h
    rw [isSortedLoop, hnext, Option.bind_some, if_neg hy, hprev, Option.bind_some]
    by_cases hless : less y x
    · rw [if_pos hless]
      simp [List.isChain_cons_cons, sortLe, hless]
    · obtain ⟨f', rfl⟩ : ∃ f', f = f' + 1 := ⟨f - 1, by simp at hfuel; omega⟩
      rw [if_neg hless, ih (P := P ++ [x]) (by simpa using h) f' (by simp at hfuel; omega)]
      simp [List.isChain_cons_cons, sortLe, hless]

/-- `is_sorted` of the segment of the list between two cuts decides whether it is a chain of
`sortLe`. -/
theorem isSorted_eq (h : Holds m l.head l.tail (P ++ S ++ Q)) {fuel : Nat} (hfuel : S.length < fuel) :
    isSorted m less ((S ++ Q).headD l.tail) (Q.headD l.tail) fuel =
      some (decide (S.IsChain fun a b => sortLe less a b = true)) := by
  cases S with
  | nil => simp [isSorted]
  | cons x S =>
    have hx : x ≠ Q.headD l.tail := fun he =>
      (show Holds m l.head l.tail ((P ++ x :: S) ++ Q) from h).cut_disjoint x (by simp) _
        (headD_mem_append_singleton Q l.tail) he
    rw [List.cons_append, List.headD_cons, isSorted, if_pos hx]
    exact isSortedLoop_eq less h (by simp at hfuel; omega)

theorem findEndOfRunLoop_eq {x : Nat} (h : Holds m l.head l.tail (P ++ x :: S ++ Q)) {fuel : Nat}
    (hfuel : S.length < fuel) :
    findEndOfRunLoop m less (Q.headD l.tail) fuel x =
      some (((splitRun (sortLe less) x S).2 ++ Q).headD l.tail) := by
  obtain ⟨f, rfl⟩ : ∃ f, fuel = f + 1 := ⟨fuel - 1, by omega⟩
  induction S generalizing P x f with
  | nil =>
    obtain ⟨-, hnext⟩ := walk_step (show Holds m l.head l.tail (P ++ x :: Q) by simpa using h)
    rw [findEndOfRunLoop, hnext, Option.bind_some, if_pos rfl]
    rfl
  | cons y S ih =>
    obtain ⟨hnext, hy, hprev⟩ := segment_step h
    rw [findEndOfRunLoop, hnext, Option.bind_some, if_neg hy, hprev, Option.bind_some]
    by_cases hless : less y x
    · rw [if_pos hless]
      simp [splitRun, sortLe, hless]
    · obtain ⟨f', rfl⟩ : ∃ f', f = f' + 1 := ⟨f - 1, by simp at hfuel; omega⟩
      rw [if_neg hless, ih (P := P ++ [x]) (by simpa using h) f' (by simp at hfuel; omega)]
      simp [splitRun, sortLe, hless]

/-- `find_end_of_run` from an element of the list returns where `splitRun` ends its run. -/
theorem findEndOfRun_eq {x : Nat} (h : Holds m l.head l.tail (P ++ x :: S ++ Q)) {fuel : Nat}
    (hfuel : S.length < fuel) :
    findEndOfRun m less x (Q.headD l.tail) fuel =
      some (((splitRun (sortLe less) x S).2 ++ Q).headD l.tail) := by
  have hx : x ≠ Q.headD l.tail := fun he =>
    (show Holds m l.head l.tail ((P ++ x :: S) ++ Q) from h).cut_disjoint x (by simp) _
      (headD_mem_append_singleton Q l.tail) he
  rw [findEndOfRun, if_neg hx]
  exact findEndOfRunLoop_eq less h hfuel

/-! ## `inplace_merge` -/

/-- The loop of `inplace_merge` with `A` left of the first run and `B` of the second, between
the elements placed so far and `Q`, leaves `List.merge` of them, writing no cell outside the
list. -/
theorem mergeLoop_eq {A B : List Nat} (h : Holds m l.head l.tail (P ++ A ++ B ++ Q)) {fuel : Nat}
    (hfuel : A.length + B.length < fuel) :
    ∃ m', mergeLoop less (Q.headD l.tail) fuel m ((A ++ B ++ Q).headD l.tail)
        ((B ++ Q).headD l.tail) = some m' ∧
      Holds m' l.head l.tail (P ++ A.merge B (sortLe less) ++ Q) ∧
      ∀ a ∉ l.head :: (P ++ A ++ B ++ Q ++ [l.tail]), m' a = m a := by
  induction fuel generalizing P A B m with
  | zero => omega
  | succ f ih =>
    cases A with
    | nil =>
      -- the first run is used up: `a0` has reached `a1b0`
      refine ⟨m, ?_, by simpa using h, fun _ _ => rfl⟩
      rw [mergeLoop, if_neg (fun hc => hc.1 rfl)]
    | cons x A =>
      cases B with
      | nil =>
        -- the second run is used up: `a1b0` has reached `b1`
        refine ⟨m, ?_, by simpa using h, fun _ _ => rfl⟩
        rw [mergeLoop, if_neg (fun hc => hc.2 rfl)]
      | cons y B =>
        have hxy : x ≠ y := fun he =>
          (show Holds m l.head l.tail ((P ++ [x]) ++ (A ++ y :: B ++ Q)) by simpa using h).cut_disjoint
            x (by simp) y (by simp) he
        have hyQ : y ≠ Q.headD l.tail := fun he =>
          (show Holds m l.head l.tail ((P ++ x :: A ++ [y] ++ B) ++ Q) by simpa using h).cut_disjoint
            y (by simp) _ (headD_mem_append_singleton Q l.tail) he
        simp only [List.cons_append, List.headD_cons]
        rw [mergeLoop, if_pos ⟨hxy, hyQ⟩]
        by_cases hle : sortLe less x y
        · -- `x` stays where it is and the first run moves on
          have hx : (!less y x) = true := hle
          obtain ⟨-, hnext⟩ := walk_step (show Holds m l.head l.tail (P ++ x :: (A ++ y :: B ++ Q))
            by simpa using h)
          obtain ⟨m', hloop, hm', hkeep⟩ := ih (P := P ++ [x]) (A := A) (B := y :: B)
            (by simpa using h) (by simp at hfuel ⊢; omega)
          rw [if_pos hx, hnext, Option.bind_some]
          refine ⟨m', by simpa using hloop, ?_, fun a ha => hkeep a (by simpa using ha)⟩
          rw [List.cons_merge_cons_pos _ _ _ hle]
          simpa using hm'
        · -- `y` is spliced in front of `x` and the second run moves on
          have hx : ¬(!less y x) = true := hle
          have h₁ : Holds m l.head l.tail (P ++ x :: A ++ [y] ++ (B ++ Q)) := by simpa using h
          obtain ⟨-, hnext⟩ := walk_step (show Holds m l.head l.tail ((P ++ x :: A) ++ y :: (B ++ Q))
            by simpa using h)
          have hprev := listPrev_cut (show Holds m l.head l.tail ((P ++ x :: A ++ [y]) ++ (B ++ Q))
            by simpa using h)
          obtain ⟨m₁, hsplice, hm₁, hkeep₁⟩ := listSplice_back h₁ (List.head?_cons)
          rw [List.getLastD_concat] at hprev
          obtain ⟨m', hloop, hm', hkeep⟩ := ih (P := P ++ [y]) (A := x :: A) (B := B)
            (by simpa using hm₁) (by simp at hfuel ⊢; omega)
          rw [if_neg hx, hnext, Option.bind_some, hprev, Option.bind_some, hsplice, Option.bind_some]
          refine ⟨m', by simpa using hloop, ?_, fun a ha => ?_⟩
          · rw [List.cons_merge_cons_neg _ _ _ hle]
            simpa using hm'
          · rw [hkeep a (fun ha' => ha (by simp only [List.mem_cons, List.mem_append] at ha' ⊢; tauto)),
              hkeep₁ a (fun ha' => ha (by simp only [List.mem_cons, List.mem_append] at ha' ⊢; tauto))]

/-- `inplace_merge` of two sorted runs that stand next to each other in the list: its checks
pass and the list holds the runs merged. -/
theorem inplaceMerge_eq {A B : List Nat} (h : Holds m l.head l.tail (P ++ A ++ B ++ Q))
    (hA : A.IsChain fun a b => sortLe less a b = true)
    (hB : B.IsChain fun a b => sortLe less a b = true) {fuel : Nat}
    (hfuel : A.length + B.length < fuel) :
    ∃ m', inplaceMerge m less ((A ++ B ++ Q).headD l.tail) ((B ++ Q).headD l.tail) (Q.headD l.tail)
        fuel = some m' ∧
      Holds m' l.head l.tail (P ++ A.merge B (sortLe less) ++ Q) ∧
      ∀ a ∉ l.head :: (P ++ A ++ B ++ Q ++ [l.tail]), m' a = m a := by
  obtain ⟨m', hloop, hm', hkeep⟩ := mergeLoop_eq less h hfuel
  have hsortedA := isSorted_eq less (S := A) (Q := B ++ Q)
    (show Holds m l.head l.tail (P ++ A ++ (B ++ Q)) by simpa using h)
    (show A.length < fuel by omega)
  have hsortedB := isSorted_eq less (P := P ++ A) h (show B.length < fuel by omega)
  rw [← List.append_assoc] at hsortedA
  refine ⟨m', ?_, hm', hkeep⟩
  rw [inplaceMerge, hsortedA, Option.bind_some, hsortedB, Option.bind_some, decide_eq_true hA,
    decide_eq_true hB]
  exact hloop

/-! ## `list_sort` -/

theorem headD_append_of_head? {A : List Nat} {a : Nat} (h : A.head? = some a) (X : List Nat)
    (d : Nat) : (A ++ X).headD d = a := by
  cases A with
  | nil => cases h
  | cons b A =>
    rw [List.head?_cons, Option.some_inj] at h
    rw [List.cons_append, List.headD_cons, h]

/-- One pass of `list_sort` from the cut before `R` merges the runs of `R` two by two, as
`mergePass` does, and adds the number of runs it output to its count. -/
theorem sortPass_eq {R : List Nat} (h : Holds m l.head l.tail (P ++ R)) {fuel steps : Nat}
    (hfuel : R.length < fuel) (hsteps : R.length < steps) (cnt : Nat) :
    ∃ m', sortPass less l fuel steps m (R.headD l.tail) cnt =
        some (m', cnt + (mergePass (sortLe less) R).2) ∧
      Holds m' l.head l.tail (P ++ (mergePass (sortLe less) R).1) ∧
      ∀ a ∉ l.head :: (P ++ R ++ [l.tail]), m' a = m a := by
  obtain ⟨s, rfl⟩ : ∃ s, steps = s + 1 := ⟨steps - 1, by omega⟩
  induction R using mergePass.induct (sortLe less) generalizing P m s cnt with
  | case1 =>
    refine ⟨m, ?_, by simpa [mergePass_nil] using h, fun _ _ => rfl⟩
    rw [sortPass, List.headD_nil, listEnd, if_pos rfl, mergePass_nil]
    rfl
  | case2 a R hr =>
    -- one run is left: the pass counts it and stops
    have ha := (walk_step h).1
    have hend : findEndOfRun m less a (listEnd l) fuel = some (listEnd l) := by
      have := findEndOfRun_eq less (Q := []) (show Holds m l.head l.tail (P ++ a :: R ++ [])
        by simpa using h) (show R.length < fuel by simp at hfuel; omega)
      rw [hr] at this
      exact this
    have hrun : (splitRun (sortLe less) a R).1 = a :: R := by
      simpa [hr] using splitRun_append (sortLe less) a R
    refine ⟨m, ?_, by rwa [mergePass_last _ hr, hrun], fun _ _ => rfl⟩
    rw [sortPass, List.headD_cons, if_neg ha, hend, Option.bind_some, mergePass_last _ hr,
      if_pos rfl]
  | case3 a R b r hr ih =>
    -- two runs: they are merged, and the pass goes on after them
    simp only [List.length_cons] at hfuel hsteps
    have hsplit := splitRun_runs (sortLe less) hr
    have hlen := congrArg List.length hsplit
    simp only [List.length_cons, List.length_append] at hlen
    have hrest := length_splitRun_snd (sortLe less) b r
    have hrun₁ : (splitRun (sortLe less) a R).1 ++ b :: r = a :: R := by
      rw [← hr, splitRun_append]
    have hlen₁ := congrArg List.length hrun₁
    simp only [List.length_cons, List.length_append] at hlen₁
    have e : P ++ (splitRun (sortLe less) a R).1 ++ (splitRun (sortLe less) b r).1 ++
        (splitRun (sortLe less) b r).2 = P ++ a :: R := by
      rw [hsplit]
      simp only [List.append_assoc]
    have h' : Holds m l.head l.tail (P ++ (splitRun (sortLe less) a R).1 ++
        (splitRun (sortLe less) b r).1 ++ (splitRun (sortLe less) b r).2) := by
      rw [e]
      exact h
    have hb : Holds m l.head l.tail ((P ++ (splitRun (sortLe less) a R).1) ++ b :: r) := by
      rw [List.append_assoc, hrun₁]
      exact h
    have ha := (walk_step h).1
    have hend₁ := findEndOfRun_eq less (Q := []) (show Holds m l.head l.tail (P ++ a :: R ++ [])
      by simpa using h) (show R.length < fuel by omega)
    have hend₂ := findEndOfRun_eq less (Q := [])
      (show Holds m l.head l.tail (P ++ (splitRun (sortLe less) a R).1 ++ b :: r ++ []) by
        simpa using hb) (show r.length < fuel by omega)
    rw [hr, List.append_nil] at hend₁
    rw [List.append_nil] at hend₂
    replace hend₁ : findEndOfRun m less a (listEnd l) fuel = some b := hend₁
    replace hend₂ : findEndOfRun m less b (listEnd l) fuel =
      some ((splitRun (sortLe less) b r).2.headD l.tail) := hend₂
    have hb' := (walk_step hb).1
    obtain ⟨m₁, hmerge, hm₁, hkeep₁⟩ := inplaceMerge_eq less h' (isChain_splitRun _ a R)
      (isChain_splitRun _ b r) (show _ < fuel by omega)
    rw [List.append_assoc, headD_append_of_head? (head?_splitRun _ a R),
      headD_append_of_head? (head?_splitRun _ b r)] at hmerge
    obtain ⟨s', rfl⟩ : ∃ s', s = s' + 1 := ⟨s - 1, by omega⟩
    obtain ⟨m', hpass, hm', hkeep⟩ := ih (P := P ++ (splitRun (sortLe less) a R).1.merge
      (splitRun (sortLe less) b r).1 (sortLe less)) hm₁ (by omega) (cnt + 1) s' (by omega)
    rw [mergePass_merge _ hr]
    refine ⟨m', ?_, by simpa using hm', fun x hx => ?_⟩
    · rw [sortPass, List.headD_cons, if_neg ha, hend₁, Option.bind_some, if_neg hb', hend₂,
        Option.bind_some, hmerge, Option.bind_some, hpass]
      congr 2
      omega
    · -- the cells of the list are those it had, in another order
      have hx₁ : x ∉ l.head :: (P ++ (splitRun (sortLe less) a R).1 ++ (splitRun (sortLe less) b r).1 ++
          (splitRun (sortLe less) b r).2 ++ [l.tail]) := by
        rwa [e]
      have hx₂ : x ∉ l.head :: (P ++ (splitRun (sortLe less) a R).1.merge (splitRun (sortLe less) b r).1
          (sortLe less) ++ (splitRun (sortLe less) b r).2 ++ [l.tail]) := by
        simp only [List.mem_cons, List.mem_append, List.mem_merge] at hx₁ ⊢
        tauto
      rw [hkeep x hx₂, hkeep₁ x hx₁]

/-- The passes of `list_sort` do to the list what `sortPasses` does to its sequence: they
return exactly when it does, and the list then holds what it gives, no cell outside it
written. -/
theorem sortLoop_rel (h : Holds m l.head l.tail xs) {fuel : Nat} (hfuel : xs.length < fuel)
    (passes : Nat) :
    Option.Rel (fun m' ys => Holds m' l.head l.tail ys ∧
        ∀ a ∉ l.head :: (xs ++ [l.tail]), m' a = m a)
      (sortLoop less l fuel passes m) (sortPasses (sortLe less) passes xs) := by
  induction passes generalizing m xs with
  | zero => exact Option.Rel.none
  | succ p ih =>
    obtain ⟨m₁, hpass, hm₁, hkeep₁⟩ := sortPass_eq less (P := [])
      (show Holds m l.head l.tail ([] ++ xs) from h) hfuel hfuel 0
    rw [List.nil_append] at hm₁
    rw [List.nil_append] at hkeep₁
    have hperm := perm_mergePass (sortLe less) xs
    rw [sortLoop, listBegin_eq h, Option.bind_some, hpass, Option.bind_some, sortPasses, zero_add]
    by_cases hmany : (mergePass (sortLe less) xs).2 > 1
    · -- another pass, from a list with the same cells
      rw [if_pos hmany, if_pos hmany]
      have hrel := ih hm₁ (by rw [hperm.length_eq]; exact hfuel)
      revert hrel
      cases sortLoop less l fuel p m₁ <;> cases sortPasses (sortLe less) p (mergePass (sortLe less) xs).1
      · exact fun _ => Option.Rel.none
      · exact fun hrel => by cases hrel
      · exact fun hrel => by cases hrel
      · intro hrel
        obtain ⟨hm', hkeep⟩ := Option.rel_some_some.mp hrel
        refine Option.rel_some_some.mpr ⟨hm', fun a ha => ?_⟩
        rw [hkeep a (fun ha' => ha (by simpa [hperm.mem_iff] using ha')), hkeep₁ a ha]
    · -- the last pass, and the check that the list is sorted
      rw [if_neg hmany, if_neg hmany, listBegin_eq hm₁, Option.bind_some]
      have hsorted : isSorted m₁ less ((mergePass (sortLe less) xs).1.headD l.tail) (listEnd l) fuel =
          some (decide ((mergePass (sortLe less) xs).1.IsChain fun a b => sortLe less a b = true)) := by
        have := isSorted_eq less (P := []) (Q := [])
          (show Holds m₁ l.head l.tail ([] ++ (mergePass (sortLe less) xs).1 ++ []) by simpa using hm₁)
          (show _ < fuel by rw [hperm.length_eq]; exact hfuel)
        rwa [List.append_nil] at this
      rw [hsorted, Option.bind_some]
      by_cases hchain : (mergePass (sortLe less) xs).1.IsChain fun a b => sortLe less a b = true
      · rw [decide_eq_true hchain, if_pos rfl, if_pos hchain]
        exact Option.rel_some_some.mpr ⟨hm₁, hkeep₁⟩
      · rw [decide_eq_false hchain, if_neg Bool.false_ne_true, if_neg hchain]
        exact Option.Rel.none

/-- `list_sort` returns exactly when `sortPasses` with as many passes as its fuel does, the list
then holding what `sortPasses` gives. -/
theorem listSort_rel (h : Holds m l.head l.tail xs) {fuel : Nat} (hfuel : xs.length < fuel) :
    Option.Rel (fun m' ys => Holds m' l.head l.tail ys ∧
        ∀ a ∉ l.head :: (xs ++ [l.tail]), m' a = m a)
      (listSort m less l fuel) (sortPasses (sortLe less) fuel xs) :=
  sortLoop_rel less h hfuel fuel

/-! ## `list_sort` sorts stably -/

section StrictWeakOrder

variable {less}
variable (hasymm : ∀ a b, less a b = true → less b a = false)
  (hneg : ∀ a b c, less a c = true → less a b = true ∨ less b c = true)

include hasymm in
theorem sortLe_total (a b : Nat) : (sortLe less a b || sortLe less b a) = true := by
  unfold sortLe
  cases hba : less b a
  · rfl
  · rw [hasymm b a hba]
    rfl

include hneg in
theorem sortLe_trans (a b c : Nat) (hab : sortLe less a b = true) (hbc : sortLe less b c = true) :
    sortLe less a c = true := by
  unfold sortLe at *
  rw [Bool.not_eq_true'] at *
  cases hca : less c a
  · rfl
  · rcases hneg c b a hca with hcb | hba
    · rw [hcb] at hbc; cases hbc
    · rw [hba] at hab; cases hab

include hasymm hneg in
/-- With `less` a strict weak order, `list_sort` returns once its fuel exceeds the length of
the list, which then holds `List.mergeSort` of its elements by `!less b a`: they are sorted,
and elements `less` does not order keep their order. No cell outside the list is written. -/
theorem listSort_eq_mergeSort (h : Holds m l.head l.tail xs) {fuel : Nat} (hfuel : xs.length < fuel) :
    ∃ m', listSort m less l fuel = some m' ∧ Holds m' l.head l.tail (xs.mergeSort (sortLe less)) ∧
      ∀ a ∉ l.head :: (xs ++ [l.tail]), m' a = m a := by
  have hnd : xs.Nodup := (List.nodup_append.mp (List.nodup_cons.mp h.nodup).2).1
  have hsort := sortPasses_eq_mergeSort (sortLe_trans hneg) (sortLe_total hasymm) hnd hfuel
  have hrel := listSort_rel less h hfuel
  rw [hsort] at hrel
  revert hrel
  cases listSort m less l fuel with
  | none => exact fun hrel => by cases hrel
  | some m' =>
    intro hrel
    obtain ⟨hm', hkeep⟩ := Option.rel_some_some.mp hrel
    exact ⟨m', rfl, hm', hkeep⟩

end StrictWeakOrder

/-- Cells ordered by their tens, two of them of one key: the list is sorted and the two keep
their order. -/
theorem listSort_eq_mergeSort_tens :
    ∃ m', listSort (Mem.ofList [0, 30, 31, 20, 1]) (fun a b => decide (a / 10 < b / 10)) ⟨0, 1⟩ 4 =
        some m' ∧
      Holds m' 0 1 ([30, 31, 20].mergeSort (sortLe fun a b => decide (a / 10 < b / 10))) ∧
      ∀ a ∉ [0, 30, 31, 20, 1], m' a = Mem.ofList [0, 30, 31, 20, 1] a :=
  listSort_eq_mergeSort (fun a b h => by simp at h ⊢; omega) (fun a b c h => by simp at h ⊢; omega)
    (holds_ofList 0 1 [30, 31, 20] (by decide)) (by decide)

end Pintos.KernelList
