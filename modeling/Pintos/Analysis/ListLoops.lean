import Pintos.Analysis.List

/-!
# The walks of `list.c`

`list_insert_ordered`, `list_max`, `list_min` and `list_reverse` walk a list from `list_begin`
to `list_end`. Each walk is proved by induction on the part of the list after a cut
`ys ++ zs`, the walk standing at `zs.headD l.tail` (`walk_step` gives the step), with `ys`
generalized; the fuel is enough when it exceeds the length of `zs`.

What they compute are the sequence functions the kernel's other models use:
`list_insert_ordered` leaves `OrderedList.insertOrdered`, the operation the timer's sleep list
is kept by, and `list_max` returns `OrderedList.listMax`, the scheduler's choice from the ready
list. `list_reverse` exchanges the links of every element (`DList.Mem.swapOn`) and then those
of the sentinels, which is `DList.Holds.reverse`.
-/

set_option autoImplicit false

namespace Pintos.KernelList

open DList

variable {m : Mem} {l : ListStruct} {xs ys zs : List Nat} (less : Nat → Nat → Bool)

/-! ## `list_insert_ordered` -/

/-- The loop of `list_insert_ordered` stops at the first element `elem` is `less` than, or at
`list_end`. -/
theorem insertOrderedLoop_eq (h : Holds m l.head l.tail (ys ++ zs)) (elem : Nat) {fuel : Nat}
    (hfuel : zs.length < fuel) :
    insertOrderedLoop m less l elem fuel (zs.headD l.tail) =
      some ((zs.dropWhile fun e => !less elem e).headD l.tail) := by
  obtain ⟨f, rfl⟩ : ∃ f, fuel = f + 1 := ⟨fuel - 1, by omega⟩
  induction zs generalizing ys f with
  | nil => simp [insertOrderedLoop, listEnd]
  | cons z zs ih =>
    obtain ⟨hz, hnext⟩ := walk_step h
    rw [insertOrderedLoop, List.headD_cons, if_neg hz]
    by_cases hlt : less elem z
    · rw [if_pos hlt, List.dropWhile_cons_of_neg (by simp [hlt])]
      rfl
    · have h' : Holds m l.head l.tail ((ys ++ [z]) ++ zs) := by simpa using h
      obtain ⟨f', rfl⟩ : ∃ f', f = f' + 1 := ⟨f - 1, by simp at hfuel; omega⟩
      rw [if_neg hlt, hnext, Option.bind_some, ih h' f' (by simp at hfuel; omega),
        List.dropWhile_cons_of_pos (by simp [hlt])]

/-- `list_insert_ordered` links `elem` in front of the first element it is `less` than: the list
holds `OrderedList.insertOrdered less elem xs`, and only `elem` and its two new neighbours are
written. -/
theorem listInsertOrdered_spec (h : Holds m l.head l.tail xs) {elem fuel : Nat}
    (helem : elem ∉ l.head :: (xs ++ [l.tail])) (hfuel : xs.length < fuel) :
    ∃ m', listInsertOrdered m less l elem fuel = some m' ∧
      Holds m' l.head l.tail (OrderedList.insertOrdered less elem xs) ∧
      ∀ a ∉ l.head :: (xs ++ [l.tail]), a ≠ elem → m' a = m a := by
  set p : Nat → Bool := fun e => !less elem e
  have hsplit := List.takeWhile_append_dropWhile (p := p) (l := xs)
  have hcut : Holds m l.head l.tail (xs.takeWhile p ++ xs.dropWhile p) := by rwa [hsplit]
  obtain ⟨m', hins, hm', hkeep⟩ := listInsert_spec hcut (by rwa [hsplit])
  refine ⟨m', ?_, by rwa [OrderedList.insertOrdered_eq_takeWhile], fun a ha hae => hkeep a hae ?_ ?_⟩
  · rw [listInsertOrdered, listBegin_eq h, Option.bind_some,
      insertOrderedLoop_eq less (show Holds m l.head l.tail ([] ++ xs) from h) elem hfuel,
      Option.bind_some, hins]
  -- the new neighbours of `elem` are cells of the list
  · have hmem := getLastD_mem_cells l.head (xs.takeWhile p) (xs.dropWhile p) l.tail
    rw [hsplit] at hmem
    exact fun he => ha (he ▸ hmem)
  · have hmem := headD_mem_cells l.head (xs.takeWhile p) (xs.dropWhile p) l.tail
    rw [hsplit] at hmem
    exact fun he => ha (he ▸ hmem)

/-! ## `list_max` and `list_min` -/

/-- The loop of `list_max` scans the elements after a cut with the candidate of
`OrderedList.maxStep`. -/
theorem maxLoop_eq (h : Holds m l.head l.tail (ys ++ zs)) (cand : Nat) {fuel : Nat}
    (hfuel : zs.length < fuel) :
    maxLoop m less l fuel cand (zs.headD l.tail) = some (zs.foldl (OrderedList.maxStep less) cand) := by
  obtain ⟨f, rfl⟩ : ∃ f, fuel = f + 1 := ⟨fuel - 1, by omega⟩
  induction zs generalizing ys f cand with
  | nil => simp [maxLoop, listEnd]
  | cons z zs ih =>
    obtain ⟨hz, hnext⟩ := walk_step h
    have h' : Holds m l.head l.tail ((ys ++ [z]) ++ zs) := by simpa using h
    obtain ⟨f', rfl⟩ : ∃ f', f = f' + 1 := ⟨f - 1, by simp at hfuel; omega⟩
    rw [maxLoop, List.headD_cons, if_neg hz, hnext, Option.bind_some,
      ih h' _ f' (by simp at hfuel; omega), List.foldl_cons]

/-- `list_max` returns the first maximum of the list, `OrderedList.listMax`, and the list's tail
when it is empty. -/
theorem listMax_eq (h : Holds m l.head l.tail xs) {fuel : Nat} (hfuel : xs.length < fuel) :
    listMax m less l fuel = some ((OrderedList.listMax less xs).getD l.tail) := by
  rw [listMax, listBegin_eq h, Option.bind_some]
  cases xs with
  | nil => simp [listEnd, OrderedList.listMax]
  | cons x xs =>
    obtain ⟨hx, hnext⟩ := walk_step (show Holds m l.head l.tail ([] ++ x :: xs) from h)
    rw [List.headD_cons, if_neg hx, hnext, Option.bind_some,
      maxLoop_eq less (show Holds m l.head l.tail ([x] ++ xs) from h) x (by simp at hfuel; omega)]
    rfl

/-! ## `list_reverse` -/

theorem swapLinks_eq (m : Mem) (e : Nat) : swapLinks m e = Function.update m e (m e).swap := by
  funext a
  by_cases ha : a = e
  · subst ha
    simp [swapLinks, Mem.setPrev, Mem.setNext, Link.swap]
  · simp [swapLinks, Mem.setPrev, Mem.setNext, ha]

/-- The loop of `list_reverse` exchanges the links of the elements after a cut, going on from each
to its old `next`, which after the exchange is its `prev`. -/
theorem reverseLoop_eq (h : Holds m l.head l.tail (ys ++ zs)) {fuel : Nat}
    (hfuel : zs.length < fuel) :
    reverseLoop l.tail fuel (m.swapOn ys) (zs.headD l.tail) = some (m.swapOn (ys ++ zs)) := by
  obtain ⟨f, rfl⟩ : ∃ f, fuel = f + 1 := ⟨fuel - 1, by omega⟩
  induction zs generalizing ys f with
  | nil => simp [reverseLoop]
  | cons z zs ih =>
    obtain ⟨hz, hnext⟩ := walk_step h
    have hzys : z ∉ ys := fun hz' => h.cut_disjoint z (List.mem_cons_of_mem _ hz') z (by simp) rfl
    have hswap : swapLinks (m.swapOn ys) z = m.swapOn (ys ++ [z]) := by
      rw [swapLinks_eq]
      funext a
      by_cases ha : a = z
      · subst ha
        simp [hzys]
      · simp [ha]
    have hprev : (m.swapOn (ys ++ [z]) z).prev = some (zs.headD l.tail) := by
      simp [(h.links rfl).2]
    have h' : Holds m l.head l.tail ((ys ++ [z]) ++ zs) := by simpa using h
    obtain ⟨f', rfl⟩ : ∃ f', f = f' + 1 := ⟨f - 1, by simp at hfuel; omega⟩
    rw [reverseLoop, List.headD_cons, if_neg (show z ≠ l.tail from hz), hswap, hprev, Option.bind_some,
      ih h' f' (by simp at hfuel; omega), List.append_assoc, List.singleton_append]

theorem swapOn_nil (m : Mem) : m.swapOn [] = m := by
  funext a
  simp

/-- `list_reverse` reverses the list in place, writing no cell outside it. -/
theorem listReverse_spec (h : Holds m l.head l.tail xs) {fuel : Nat} (hfuel : xs.length < fuel) :
    ∃ m', listReverse m l fuel = some m' ∧ Holds m' l.head l.tail xs.reverse ∧
      ∀ a ∉ l.head :: (xs ++ [l.tail]), m' a = m a := by
  cases xs with
  | nil => exact ⟨m, by simp [listReverse, listEmpty_eq h], h, fun _ _ => rfl⟩
  | cons first rest =>
    have hloop := reverseLoop_eq (show Holds m l.head l.tail ([] ++ first :: rest) from h) hfuel
    rw [swapOn_nil, List.nil_append] at hloop
    have hhd : l.head ∉ first :: rest := fun hx => (h.ne_ends hx).1 rfl
    have htl : l.tail ∉ first :: rest := fun hx => (h.ne_ends hx).2 rfl
    have hlast : rest.getLastD first ∈ first :: rest := List.getLastD_mem_cons
    have hne₁ : first ≠ l.head := fun he => hhd (he ▸ List.mem_cons_self)
    have hne₂ : rest.getLastD first ≠ l.tail := fun he => htl (he ▸ hlast)
    -- the links the two final `swap`s read
    have hends := h.ends
    rw [List.getLastD_cons] at hends
    have hfirst_prev : (m first).prev = some l.head :=
      (h.links (show first :: rest = [] ++ first :: rest from rfl)).1
    have hlast_next : (m (rest.getLastD first)).next = some l.tail :=
      (h.links (List.dropLast_append_getLast? _ (getLast?_cons_eq first rest)).symm).2
    refine ⟨_, ?_, h.reverse, ?_⟩
    · rw [listReverse, if_neg (by rw [listEmpty_eq h]; simp), listBegin_eq h, Option.bind_some, hloop,
        Option.bind_some]
      simp only [Mem.next_setNext, Mem.next_setPrev, Mem.prev_setPrev, Mem.prev_setNext,
        Mem.swapOn_apply, if_neg hhd, if_neg htl, if_true, hends.1, hends.2,
        Option.bind_some, Option.map_some, List.headD_cons, if_neg hne₁, if_neg hne₂, hlast,
        List.mem_cons_self, Link.next_swap, Link.prev_swap, hfirst_prev, hlast_next]
    · intro a ha
      have h₁ : a ≠ l.head := fun he => ha (he ▸ List.mem_cons_self)
      have h₂ : a ∉ first :: rest := fun hx => ha (List.mem_cons_of_mem _ (List.mem_append_left _ hx))
      have h₃ : a ≠ l.tail := fun he => ha (he ▸ by simp)
      have h₄ : a ≠ first := fun he => h₂ (he ▸ List.mem_cons_self)
      have h₅ : a ≠ rest.getLastD first := fun he => h₂ (he ▸ hlast)
      rw [Mem.setNext_ne _ _ h₄, Mem.setPrev_ne _ _ h₅, Mem.setPrev_ne _ _ h₃, Mem.setNext_ne _ _ h₁,
        Mem.swapOn_apply, if_neg h₂]


theorem listReverse_spec_three :
    ∃ m', listReverse (Mem.ofList [0, 30, 31, 20, 1]) ⟨0, 1⟩ 4 = some m' ∧
      Holds m' 0 1 [20, 31, 30] ∧ ∀ a ∉ [0, 30, 31, 20, 1], m' a = Mem.ofList [0, 30, 31, 20, 1] a :=
  listReverse_spec (l := ⟨0, 1⟩) (holds_ofList 0 1 [30, 31, 20] (by decide)) (by decide)
/-! ## `list_unique` -/

/-- The loop of `list_unique` at `e`, the last element kept, with `R` the elements after it: the
list keeps `List.destutter'` of them, and the duplicates list, if there is one, gets the others
at its back. -/
theorem uniqueLoop_spec {dup : Option ListStruct} {P R D : List Nat} {e : Nat}
    (h : Holds m l.head l.tail (P ++ e :: R))
    (hd : ∀ d, dup = some d → Holds m d.head d.tail D ∧
      ∀ a ∈ l.head :: (P ++ e :: R ++ [l.tail]), a ∉ d.head :: (D ++ [d.tail]))
    {fuel : Nat} (hfuel : R.length < fuel) :
    ∃ m', uniqueLoop less l dup fuel m e = some m' ∧
      Holds m' l.head l.tail (P ++ R.destutter' (OrderedList.Unequal less) e) ∧
      ∀ d, dup = some d → Holds m' d.head d.tail
        (D ++ OrderedList.stutter' (OrderedList.Unequal less) e R) := by
  obtain ⟨f, rfl⟩ : ∃ f, fuel = f + 1 := ⟨fuel - 1, by omega⟩
  induction R generalizing P e m D f with
  | nil =>
    obtain ⟨-, hnext⟩ := walk_step h
    refine ⟨m, ?_, by simpa using h, fun d hdup => by simpa [OrderedList.stutter'] using (hd d hdup).1⟩
    rw [uniqueLoop, hnext, Option.bind_some, List.headD_nil, listEnd, if_pos rfl]
  | cons r R ih =>
    obtain ⟨-, hnext⟩ := walk_step h
    have h' : Holds m l.head l.tail ((P ++ [e]) ++ r :: R) := by simpa using h
    obtain ⟨hr, -⟩ := walk_step h'
    obtain ⟨f', rfl⟩ : ∃ f', f = f' + 1 := ⟨f - 1, by simp at hfuel; omega⟩
    have hfuel' : R.length < f' + 1 := by simp at hfuel; omega
    rw [uniqueLoop, hnext, Option.bind_some, List.headD_cons, if_neg hr]
    by_cases hrel : OrderedList.Unequal less e r
    · -- `r` is kept, and the walk goes on from it
      have hne : ¬(!less e r && !less r e) = true :=
        Bool.eq_false_iff.mp ((OrderedList.unequal_iff less e r).mp hrel)
      rw [if_neg hne]
      obtain ⟨m', hloop, hm', hdup⟩ := ih h'
        (fun d hdup => ⟨(hd d hdup).1, fun a ha => (hd d hdup).2 a (by simpa using ha)⟩) f' hfuel'
      refine ⟨m', hloop, ?_, fun d hdup' => ?_⟩
      · rw [List.destutter'_cons_pos R hrel]
        simpa using hm'
      · rw [OrderedList.stutter', if_pos hrel]
        exact hdup d hdup'
    · -- `r` equals `e` under `less`: it is removed and pushed to the back of the duplicates list
      have heq : (!less e r && !less r e) = true := by
        rwa [OrderedList.unequal_iff, Bool.not_eq_false] at hrel
      rw [if_pos heq]
      have h'' : Holds m l.head l.tail ((P ++ [e]) ++ [r] ++ R) := by simpa using h'
      obtain ⟨m₁, hrem, hm₁, hkeep₁⟩ := listRemove_spec h'
      have hm₁' : Holds m₁ l.head l.tail (P ++ e :: R) := by simpa using hm₁
      have hdes : (r :: R).destutter' (OrderedList.Unequal less) e =
          R.destutter' (OrderedList.Unequal less) e :=
        List.destutter'_cons_neg R hrel
      rw [hrem, Option.bind_some]
      cases dup with
      | none =>
        obtain ⟨m', hloop, hm', -⟩ := ih (D := D) hm₁' (fun d hdup => by cases hdup) f' hfuel'
        exact ⟨m', hloop, by rwa [hdes], fun d hdup => by cases hdup⟩
      | some d =>
        obtain ⟨hD, hapart⟩ := hd d rfl
        -- the cells of `l`, before and after `r` leaves it, are apart from those of `d`
        have hapart' : ∀ a ∈ l.head :: ((P ++ [e]) ++ r :: R ++ [l.tail]),
            a ∉ d.head :: (D ++ [d.tail]) := fun a ha => hapart a (by simpa using ha)
        have hrout : r ∉ l.head :: (P ++ e :: R ++ [l.tail]) := by
          simpa using h''.block_apart.2 r (List.mem_singleton_self r)
        have hD₁ : Holds m₁ d.head d.tail D := hD.frame fun a ha =>
          hkeep₁ a (fun he => hapart' _ (getLastD_mem_cells _ _ _ _) (he ▸ ha))
            (fun he => hapart _ (by simpa using headD_mem_cells l.head (P ++ [e, r]) R l.tail) (he ▸ ha))
        obtain ⟨m₂, hpush, hm₂, hkeep₂⟩ := listPushBack_spec hD₁ (hapart' r (by simp))
        have hl₂ : Holds m₂ l.head l.tail (P ++ e :: R) := hm₁'.frame fun a ha =>
          hkeep₂ a (fun he => hrout (he ▸ ha))
            (fun he => hapart a (by simp at ha ⊢; tauto)
              (he ▸ by simpa using getLastD_mem_cells d.head D [] d.tail))
            (fun he => hapart a (by simp at ha ⊢; tauto) (he ▸ by simp))
        obtain ⟨m', hloop, hm', hdup'⟩ := ih hl₂ (fun d' hd' => by
          cases hd'
          refine ⟨hm₂, fun a ha hmem => ?_⟩
          -- a cell of `l` was apart from `d`, and is not `r`, which has left `l`
          have hold : a ∉ d.head :: (D ++ [d.tail]) := hapart a (by simp at ha ⊢; tauto)
          have hr' : a ≠ r := fun he => hrout (he ▸ ha)
          simp at hmem hold
          tauto) f' hfuel'
        refine ⟨m', ?_, by rwa [hdes], fun d' hd' => ?_⟩
        · simp only [hpush, Option.bind_some]
          exact hloop
        · cases hd'
          rw [OrderedList.stutter', if_neg hrel, ← List.singleton_append, ← List.append_assoc]
          exact hdup' d rfl

/-- `list_unique` keeps the first of each run of adjacent elements equal under `less`,
`List.destutter`, and appends the others, in order, to the duplicates list if there is one. -/
theorem listUnique_spec (h : Holds m l.head l.tail xs) {dup : Option ListStruct} {D : List Nat}
    (hd : ∀ d, dup = some d → Holds m d.head d.tail D ∧
      ∀ a ∈ l.head :: (xs ++ [l.tail]), a ∉ d.head :: (D ++ [d.tail]))
    {fuel : Nat} (hfuel : xs.length < fuel) :
    ∃ m', listUnique m less l dup fuel = some m' ∧
      Holds m' l.head l.tail (xs.destutter (OrderedList.Unequal less)) ∧
      ∀ d, dup = some d → Holds m' d.head d.tail
        (D ++ OrderedList.stutter (OrderedList.Unequal less) xs) := by
  cases xs with
  | nil =>
    refine ⟨m, by simp [listUnique, listEmpty_eq h], h, fun d hdup => ?_⟩
    simpa [OrderedList.stutter] using (hd d hdup).1
  | cons x xs =>
    have hfuel' : xs.length < fuel := by simp at hfuel; omega
    obtain ⟨m', hloop, hm', hdup⟩ := uniqueLoop_spec less
      (show Holds m l.head l.tail ([] ++ x :: xs) from h) (fun d hdup => ⟨(hd d hdup).1,
        fun a ha => (hd d hdup).2 a (by simpa using ha)⟩) hfuel'
    refine ⟨m', ?_, by simpa [List.destutter_cons'] using hm', hdup⟩
    rw [listUnique, if_neg (by rw [listEmpty_eq h]; simp), listBegin_eq h, Option.bind_some]
    exact hloop

/-- Cells compared by their tens, with an empty list of duplicates beside them: the second cell
of key 3 goes to the duplicates. -/
theorem listUnique_spec_tens :
    ∃ m', listUnique (fun a => if a ∈ [4, 5] then Mem.ofList [4, 5] a else Mem.ofList [0, 30, 31, 20, 1] a)
        (fun a b => decide (a / 10 < b / 10)) ⟨0, 1⟩ (some ⟨4, 5⟩) 4 = some m' ∧
      Holds m' 0 1 ([30, 31, 20].destutter (OrderedList.Unequal fun a b => decide (a / 10 < b / 10))) ∧
      ∀ d : ListStruct, some ⟨4, 5⟩ = some d → Holds m' d.head d.tail
        ([] ++ OrderedList.stutter (OrderedList.Unequal fun a b => decide (a / 10 < b / 10)) [30, 31, 20]) :=
  listUnique_spec _ (show Holds _ 0 1 [30, 31, 20] by decide)
    (fun d hd => by cases hd; exact ⟨by decide, by decide⟩) (by decide)

end Pintos.KernelList
