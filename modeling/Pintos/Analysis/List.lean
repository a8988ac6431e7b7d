import Pintos.Model.List

/-!
# `list.c` keeps its lists doubly linked and acts on their sequences

`DList.Holds m l.head l.tail xs` says that in memory `m` the list `l` holds the elements `xs`,
in order. From a list that holds a sequence, each operation of `list.c` returns, leaves a list
that holds the sequence the operation names, and writes no cell but those it links, so that a
list whose cells it does not write keeps its own sequence (`DList.Holds.frame`).

A position in the list is a cut `xs = ys ++ zs` of its sequence: the element before the cut is
`ys.getLastD l.head` and the element after it `zs.headD l.tail`, the sentinels standing in at
the two ends. `list_insert` links one element in at a cut and `list_remove` unlinks one; both
are the surgeries of `DList`, as is `list_splice`, which unlinks a block and links it in again
elsewhere.
-/

set_option autoImplicit false

namespace Pintos.KernelList

open DList

variable {m : Mem} {l : ListStruct} {xs ys zs F : List Nat}

/-! ## Reading a list -/

theorem isInterior_or_isTail (e : Nat) : (isInterior m e || isTail m e) = (m e).prev.isSome := by
  unfold isInterior isTail
  cases (m e).prev <;> cases (m e).next <;> rfl

theorem isHead_or_isInterior (e : Nat) : (isHead m e || isInterior m e) = (m e).next.isSome := by
  unfold isHead isInterior
  cases (m e).prev <;> cases (m e).next <;> rfl

theorem listNext_eq {e n : Nat} (h : (m e).next = some n) : listNext m e = some n := by
  rw [listNext, isHead_or_isInterior, h]
  rfl

theorem listPrev_eq {e p : Nat} (h : (m e).prev = some p) : listPrev m e = some p := by
  rw [listPrev, isInterior_or_isTail, h]
  rfl

/-- `list_next` steps over a cut. -/
theorem listNext_cut (h : Holds m l.head l.tail (ys ++ zs)) :
    listNext m (ys.getLastD l.head) = some (zs.headD l.tail) :=
  listNext_eq h.adj_cut.1

/-- `list_prev` steps back over a cut. -/
theorem listPrev_cut (h : Holds m l.head l.tail (ys ++ zs)) :
    listPrev m (zs.headD l.tail) = some (ys.getLastD l.head) :=
  listPrev_eq h.adj_cut.2

/-- A step of a walk over the list: an element is not `list_end`, and `list_next` gives the
element after it. -/
theorem walk_step {z : Nat} (h : Holds m l.head l.tail (ys ++ z :: zs)) :
    z ≠ listEnd l ∧ listNext m z = some (zs.headD l.tail) :=
  ⟨(h.ne_ends (by simp)).2, listNext_eq (h.links rfl).2⟩

theorem isInterior_of_mem {e : Nat} (h : Holds m l.head l.tail (ys ++ e :: zs)) :
    isInterior m e = true := by
  obtain ⟨hp, hn⟩ := h.links rfl
  simp [isInterior, hp, hn]

/-- The element after a cut is one `list_insert` and `list_splice` accept as `before`. -/
theorem interior_or_tail_cut (h : Holds m l.head l.tail (ys ++ zs)) :
    (isInterior m (zs.headD l.tail) || isTail m (zs.headD l.tail)) = true := by
  rw [isInterior_or_isTail, h.adj_cut.2]
  rfl

theorem listBegin_eq (h : Holds m l.head l.tail xs) : listBegin m l = some (xs.headD l.tail) :=
  h.ends.1

theorem listEmpty_eq (h : Holds m l.head l.tail xs) : listEmpty m l = xs.isEmpty := by
  rw [listEmpty, listBegin_eq h, listEnd]
  cases xs with
  | nil => simp
  | cons x xs => simp [(h.ne_ends List.mem_cons_self).2]

theorem listFront_eq (h : Holds m l.head l.tail xs) : listFront m l = xs.head? := by
  rw [listFront, listEmpty_eq h]
  cases xs with
  | nil => rfl
  | cons x xs => simpa using h.ends.1

theorem listBack_eq (h : Holds m l.head l.tail xs) : listBack m l = xs.getLast? := by
  rw [listBack, listEmpty_eq h]
  cases xs with
  | nil => rfl
  | cons x xs =>
    simp only [List.isEmpty_cons, Bool.false_eq_true, if_false]
    rw [h.ends.2, List.getLastD_eq_getLast?, getLast?_cons_eq]
    rfl

/-! ## `list_init`, `list_insert` and `list_remove` -/

theorem holds_listInit (hne : l.head ≠ l.tail) : Holds (listInit m l) l.head l.tail [] where
  chain := chain_cons_cons.mpr ⟨⟨by simp [listInit, hne], by simp [listInit]⟩,
    chain_singleton _⟩
  head_prev := by simp [listInit, hne]
  tail_next := by simp [listInit]
  nodup := by simp [hne]

theorem listInit_ne {a : Nat} (h₁ : a ≠ l.head) (h₂ : a ≠ l.tail) : listInit m l a = m a := by
  rw [listInit, Mem.setNext_ne _ _ h₂, Mem.setPrev_ne _ _ h₂, Mem.setNext_ne _ _ h₁,
    Mem.setPrev_ne _ _ h₁]

/-- `list_insert` before the element after a cut links `elem` in at the cut, writing `elem` and
its two new neighbours. -/
theorem listInsert_spec (h : Holds m l.head l.tail (ys ++ zs)) {elem : Nat}
    (helem : elem ∉ l.head :: (ys ++ zs ++ [l.tail])) :
    ∃ m', listInsert m (zs.headD l.tail) elem = some m' ∧
      Holds m' l.head l.tail (ys ++ elem :: zs) ∧
      ∀ a, a ≠ elem → a ≠ ys.getLastD l.head → a ≠ zs.headD l.tail → m' a = m a := by
  have hadj := h.adj_cut
  have hbfmem : zs.headD l.tail ∈ l.head :: (ys ++ zs ++ [l.tail]) := by
    rw [List.append_assoc]
    exact List.mem_cons_of_mem _ (List.mem_append_right ys (headD_mem_append_singleton zs l.tail))
  set bp := ys.getLastD l.head
  set bf := zs.headD l.tail
  have hbf : bf ≠ elem := fun he => helem (he ▸ hbfmem)
  refine ⟨(((m.setPrev elem (some bp)).setNext elem (some bf)).setNext bp (some elem)).setPrev bf
    (some elem), ?_, ?_, ?_⟩
  · have hread : ((m.setPrev elem (m bf).prev).setNext elem (some bf) bf).prev = some bp := by
      simp [hbf, hadj.2]
    rw [KernelList.listInsert, if_pos (interior_or_tail_cut h)]
    dsimp only
    rw [hread, Option.map_some, hadj.2]
  · have hlink := h.link (F := [elem]) (chain_singleton elem) rfl rfl (List.nodup_singleton elem)
      (fun a ha => by rw [List.mem_singleton.mp ha]; exact helem)
    rwa [List.append_assoc, List.singleton_append] at hlink
  · intro a h₁ h₂ h₃
    rw [Mem.setPrev_ne _ _ h₃, Mem.setNext_ne _ _ h₂, Mem.setNext_ne _ _ h₁, Mem.setPrev_ne _ _ h₁]

/-- `list_remove` of an element unlinks it, writing only its two neighbours, and returns the
element after it. -/
theorem listRemove_spec {e : Nat} (h : Holds m l.head l.tail (ys ++ e :: zs)) :
    ∃ m', listRemove m e = some (m', zs.headD l.tail) ∧ Holds m' l.head l.tail (ys ++ zs) ∧
      ∀ a, a ≠ ys.getLastD l.head → a ≠ zs.headD l.tail → m' a = m a := by
  obtain ⟨hp, hn⟩ := h.links rfl
  have h' : Holds m l.head l.tail (ys ++ [e] ++ zs) := by
    rwa [List.append_assoc, List.singleton_append]
  set fp := ys.getLastD l.head
  set ln := zs.headD l.tail
  refine ⟨(m.setNext fp (some ln)).setPrev ln (some fp), ?_, h'.unlink.1, ?_⟩
  · rw [KernelList.listRemove, if_pos (isInterior_of_mem h)]
    simp [hp, hn]
  · intro a h₁ h₂
    rw [Mem.setPrev_ne _ _ h₂, Mem.setNext_ne _ _ h₁]

/-! ## `list_splice` -/

theorem getLastD_append_of_getLast? {F : List Nat} {lt : Nat} (hlt : F.getLast? = some lt)
    (ys : List Nat) (hd : Nat) : (ys ++ F).getLastD hd = lt := by
  rw [List.getLastD_eq_getLast?, List.getLast?_append, hlt]
  rfl

/-- What `list_splice` writes once its checks pass: the block `F`, from `first` to `lt`, unlinked
from before `last`, then linked in before `before`, whose `prev` after the unlinking is `bp`. -/
theorem listSplice_eq (h : Holds m l.head l.tail (ys ++ F ++ zs)) {first lt before bp : Nat}
    (hfirst : F.head? = some first) (hlt : F.getLast? = some lt) (hbefore : before ∉ F)
    (hok : (isInterior m before || isTail m before) = true)
    (hbp : (((m.setNext (ys.getLastD l.head) (some (zs.headD l.tail))).setPrev (zs.headD l.tail)
      (some (ys.getLastD l.head))) before).prev = some bp) :
    listSplice m before first (zs.headD l.tail) =
      some ((((((m.setNext (ys.getLastD l.head) (some (zs.headD l.tail))).setPrev (zs.headD l.tail)
        (some (ys.getLastD l.head))).setPrev first (some bp)).setNext lt (some before)).setNext bp
          (some first)).setPrev before (some lt)) := by
  have hF : first ∈ F := List.mem_of_mem_head? hfirst
  have hltF : lt ∈ F := List.mem_of_mem_getLast? hlt
  -- `F` is a block of the list, between the cut before it and the one after it
  have hsplit : ys ++ F ++ zs = ys ++ first :: (F.tail ++ zs) := by
    obtain ⟨F', rfl⟩ : ∃ F', F = first :: F' := by
      cases F with
      | nil => cases hfirst
      | cons a F' => exact ⟨F', by rw [List.head?_cons, Option.some_inj] at hfirst; rw [hfirst]⟩
    simp
  have hprev_first := (h.links (by rw [hsplit])).1
  have hcut := (show Holds m l.head l.tail ((ys ++ F) ++ zs) from h).adj_cut
  rw [getLastD_append_of_getLast? hlt] at hcut
  have hltlast := listPrev_eq hcut.2
  have hapart := (show Holds m l.head l.tail (ys ++ (F ++ zs)) by
    rwa [← List.append_assoc]).cut_disjoint
  have hapart' := (show Holds m l.head l.tail ((ys ++ F) ++ zs) from h).cut_disjoint
  have hfirst_last : first ≠ zs.headD l.tail := hapart' first (by simp [hF]) _
    (headD_mem_append_singleton zs l.tail)
  have hlt_fp : lt ≠ ys.getLastD l.head := fun he =>
    hapart _ List.getLastD_mem_cons lt (by simp [hltF]) he.symm
  have hbf : before ≠ first := fun he => hbefore (he ▸ hF)
  have hfirst_int : isInterior m first = true := by
    rw [hsplit] at h
    exact isInterior_of_mem h
  have hlt_int : isInterior m lt = true := by
    obtain ⟨F₁, F₂, hF₁⟩ := List.append_of_mem hltF
    have h' : Holds m l.head l.tail ((ys ++ F₁) ++ lt :: (F₂ ++ zs)) := by simpa [hF₁] using h
    exact isInterior_of_mem h'
  rw [listSplice, if_pos hok, if_neg hfirst_last, hltlast, Option.bind_some,
    if_pos (by rw [hfirst_int, hlt_int]; rfl), hprev_first, Option.bind_some]
  simp only [Mem.next_setNext, if_neg hlt_fp, hcut.1, Option.bind_some, Mem.prev_setNext]
  rw [hprev_first]
  set m₁ := (m.setNext (ys.getLastD l.head) (some (zs.headD l.tail))).setPrev (zs.headD l.tail)
    (some (ys.getLastD l.head))
  rw [hbp, show (m₁.setPrev first (some bp) before).prev = some bp by simp [hbf, hbp],
    Option.map_some]

theorem getLast?_of_head? {F : List Nat} {first : Nat} (hfirst : F.head? = some first) :
    ∃ lt, F.getLast? = some lt := by
  cases F with
  | nil => cases hfirst
  | cons a F => exact ⟨_, getLast?_cons_eq a F⟩

/-- `list_splice` of a block of a list `l` before the element after a cut of a list `d`, as `d`
stands once the block is unlinked: `d` then has the block at the cut. `d` may be `l` itself. -/
theorem listSplice_into {d : ListStruct} {us vs : List Nat} {first lt : Nat}
    (h : Holds m l.head l.tail (ys ++ F ++ zs)) (hfirst : F.head? = some first)
    (hlt : F.getLast? = some lt)
    (hdst : Holds ((m.setNext (ys.getLastD l.head) (some (zs.headD l.tail))).setPrev
      (zs.headD l.tail) (some (ys.getLastD l.head))) d.head d.tail (us ++ vs))
    (hok : (isInterior m (vs.headD d.tail) || isTail m (vs.headD d.tail)) = true)
    (hdisj : ∀ a ∈ F, a ∉ d.head :: (us ++ vs ++ [d.tail])) :
    ∃ m', listSplice m (vs.headD d.tail) first (zs.headD l.tail) = some m' ∧
      Holds m' d.head d.tail (us ++ F ++ vs) ∧
      (∀ a, a ≠ first → a ≠ lt → a ≠ us.getLastD d.head → a ≠ vs.headD d.tail →
        m' a = ((m.setNext (ys.getLastD l.head) (some (zs.headD l.tail))).setPrev
          (zs.headD l.tail) (some (ys.getLastD l.head))) a) ∧
      ∀ a ∉ l.head :: (ys ++ F ++ zs ++ [l.tail]), a ∉ d.head :: (us ++ vs ++ [d.tail]) →
        m' a = m a := by
  have hbefore : vs.headD d.tail ∉ F := fun hF => hdisj _ hF (headD_mem_cells _ _ _ _)
  have hkeep : ∀ a, a ≠ first → a ≠ lt → a ≠ us.getLastD d.head → a ≠ vs.headD d.tail →
      ((((((m.setNext (ys.getLastD l.head) (some (zs.headD l.tail))).setPrev (zs.headD l.tail)
        (some (ys.getLastD l.head))).setPrev first (some (us.getLastD d.head))).setNext lt
          (some (vs.headD d.tail))).setNext (us.getLastD d.head) (some first)).setPrev
            (vs.headD d.tail) (some lt)) a =
        ((m.setNext (ys.getLastD l.head) (some (zs.headD l.tail))).setPrev
          (zs.headD l.tail) (some (ys.getLastD l.head))) a := fun a h₁ h₂ h₃ h₄ => by
    rw [Mem.setPrev_ne _ _ h₄, Mem.setNext_ne _ _ h₃, Mem.setNext_ne _ _ h₂, Mem.setPrev_ne _ _ h₁]
  refine ⟨_, listSplice_eq h hfirst hlt hbefore hok hdst.adj_cut.2,
    hdst.link h.unlink.2 hfirst hlt h.block_apart.1 hdisj, hkeep, fun a hl hd => ?_⟩
  -- every cell written is a cell of `l` or of `d`
  have hF : ∀ x ∈ F, x ∈ l.head :: (ys ++ F ++ zs ++ [l.tail]) := fun x hx => by simp [hx]
  have hfp := getLastD_mem_cells l.head ys (F ++ zs) l.tail
  rw [← List.append_assoc] at hfp
  rw [hkeep a (fun he => hl (he ▸ hF _ (List.mem_of_mem_head? hfirst)))
      (fun he => hl (he ▸ hF _ (List.mem_of_mem_getLast? hlt)))
      (fun he => hd (he ▸ getLastD_mem_cells _ _ _ _)) (fun he => hd (he ▸ headD_mem_cells _ _ _ _)),
    Mem.setPrev_ne (a := zs.headD l.tail) (b := a) _ _
      (fun he => hl (he ▸ headD_mem_cells l.head (ys ++ F) zs l.tail)),
    Mem.setNext_ne (a := ys.getLastD l.head) (b := a) _ _ (fun he => hl (he ▸ hfp))]

/-- `list_splice` of a block before an earlier element `b` of the same list, as `inplace_merge`
does: the block moves back in front of `b`. -/
theorem listSplice_back {xs₁ xs₂ xs₃ : List Nat} {b first : Nat}
    (h : Holds m l.head l.tail (xs₁ ++ b :: xs₂ ++ F ++ xs₃)) (hfirst : F.head? = some first) :
    ∃ m', listSplice m b first (xs₃.headD l.tail) = some m' ∧
      Holds m' l.head l.tail (xs₁ ++ F ++ b :: xs₂ ++ xs₃) ∧
      ∀ a ∉ l.head :: (xs₁ ++ b :: xs₂ ++ F ++ xs₃ ++ [l.tail]), m' a = m a := by
  obtain ⟨lt, hlt⟩ := getLast?_of_head? hfirst
  have hdst := h.unlink.1
  rw [List.append_assoc] at hdst
  have hok : (isInterior m b || isTail m b) = true :=
    interior_or_tail_cut (show Holds m l.head l.tail (xs₁ ++ b :: (xs₂ ++ F ++ xs₃)) by simpa using h)
  have hdisj : ∀ a ∈ F, a ∉ l.head :: (xs₁ ++ (b :: xs₂ ++ xs₃) ++ [l.tail]) := by
    simpa using h.block_apart.2
  obtain ⟨m', hsplice, hm', -, hframe⟩ := listSplice_into h hfirst hlt hdst hok hdisj
  refine ⟨m', hsplice, by simpa using hm', fun a ha => hframe a ha fun hd => ha ?_⟩
  simp only [List.mem_cons, List.mem_append] at hd ⊢
  tauto

/-- `list_splice` of a block before a later element of the same list, the one after a cut of
what follows the block: the block moves forward to that cut. -/
theorem listSplice_forward {xs₁ xs₂ xs₃ : List Nat} {first : Nat}
    (h : Holds m l.head l.tail (xs₁ ++ F ++ xs₂ ++ xs₃)) (hfirst : F.head? = some first) :
    ∃ m', listSplice m (xs₃.headD l.tail) first ((xs₂ ++ xs₃).headD l.tail) = some m' ∧
      Holds m' l.head l.tail (xs₁ ++ xs₂ ++ F ++ xs₃) ∧
      ∀ a ∉ l.head :: (xs₁ ++ F ++ xs₂ ++ xs₃ ++ [l.tail]), m' a = m a := by
  obtain ⟨lt, hlt⟩ := getLast?_of_head? hfirst
  have h' : Holds m l.head l.tail (xs₁ ++ F ++ (xs₂ ++ xs₃)) := by simpa using h
  have hdst := h'.unlink.1
  rw [← List.append_assoc] at hdst
  have hok := interior_or_tail_cut h
  have hdisj : ∀ a ∈ F, a ∉ l.head :: (xs₁ ++ xs₂ ++ xs₃ ++ [l.tail]) := by
    simpa using h'.block_apart.2
  obtain ⟨m', hsplice, hm', -, hframe⟩ := listSplice_into h' hfirst hlt hdst hok hdisj
  refine ⟨m', hsplice, hm', fun a ha => hframe a (by simpa using ha) fun hd => ha ?_⟩
  simp only [List.mem_cons, List.mem_append] at hd ⊢
  tauto

/-- `list_splice` of a block of one list before an element of another, whose cells are apart:
the block leaves the first list for the second. -/
theorem listSplice_across {d : ListStruct} {us vs : List Nat} {first : Nat}
    (h : Holds m l.head l.tail (ys ++ F ++ zs)) (hd : Holds m d.head d.tail (us ++ vs))
    (hapart : ∀ a ∈ l.head :: (ys ++ F ++ zs ++ [l.tail]), a ∉ d.head :: (us ++ vs ++ [d.tail]))
    (hfirst : F.head? = some first) :
    ∃ m', listSplice m (vs.headD d.tail) first (zs.headD l.tail) = some m' ∧
      Holds m' l.head l.tail (ys ++ zs) ∧ Holds m' d.head d.tail (us ++ F ++ vs) := by
  obtain ⟨lt, hlt⟩ := getLast?_of_head? hfirst
  -- the cells of `l` once the block is unlinked, and those of the block, are cells of `l`
  have hrest : ∀ a ∈ l.head :: (ys ++ zs ++ [l.tail]), a ∈ l.head :: (ys ++ F ++ zs ++ [l.tail]) :=
    fun a ha => by simp only [List.mem_cons, List.mem_append] at ha ⊢; tauto
  have hblock : ∀ a ∈ F, a ∈ l.head :: (ys ++ F ++ zs ++ [l.tail]) := fun a ha => by simp [ha]
  have hdst : Holds ((m.setNext (ys.getLastD l.head) (some (zs.headD l.tail))).setPrev
      (zs.headD l.tail) (some (ys.getLastD l.head))) d.head d.tail (us ++ vs) :=
    hd.frame fun a ha => by
      have h₁ : a ≠ zs.headD l.tail := fun he =>
        hapart _ (hrest _ (headD_mem_cells _ _ _ _)) (he ▸ ha)
      have h₂ : a ≠ ys.getLastD l.head := fun he =>
        hapart _ (hrest _ (getLastD_mem_cells _ _ _ _)) (he ▸ ha)
      rw [Mem.setPrev_ne _ _ h₁, Mem.setNext_ne _ _ h₂]
  have hok := interior_or_tail_cut hd
  have hdisj : ∀ a ∈ F, a ∉ d.head :: (us ++ vs ++ [d.tail]) := fun a ha => hapart a (hblock a ha)
  obtain ⟨m', hsplice, hm', hkeep, -⟩ := listSplice_into h hfirst hlt hdst hok hdisj
  -- `list_splice` writes the ends of the block and its new neighbours in `d`
  refine ⟨m', hsplice, h.unlink.1.frame fun a ha => hkeep a ?_ ?_ ?_ ?_, hm'⟩
  · exact fun he => h.block_apart.2 first (List.mem_of_mem_head? hfirst) (he ▸ ha)
  · exact fun he => h.block_apart.2 lt (List.mem_of_mem_getLast? hlt) (he ▸ ha)
  · exact fun he => hapart a (hrest a ha) (he ▸ getLastD_mem_cells _ _ _ _)
  · exact fun he => hapart a (hrest a ha) (he ▸ headD_mem_cells _ _ _ _)

/-- The middle cell of one list moved into an empty list beside it. -/
theorem listSplice_across_middle :
    ∃ m', listSplice (fun a => if a ∈ [4, 5] then Mem.ofList [4, 5] a else Mem.ofList [0, 30, 31, 20, 1] a)
        5 31 20 = some m' ∧ Holds m' 0 1 [30, 20] ∧ Holds m' 4 5 [31] :=
  listSplice_across (l := ⟨0, 1⟩) (d := ⟨4, 5⟩) (show Holds _ 0 1 ([30] ++ [31] ++ [20]) by decide)
    (show Holds _ 4 5 ([] ++ []) by decide) (by decide) rfl

/-! ## Pushing and popping -/

theorem listPushFront_spec (h : Holds m l.head l.tail xs) {elem : Nat}
    (helem : elem ∉ l.head :: (xs ++ [l.tail])) :
    ∃ m', listPushFront m l elem = some m' ∧ Holds m' l.head l.tail (elem :: xs) ∧
      ∀ a, a ≠ elem → a ≠ l.head → a ≠ xs.headD l.tail → m' a = m a := by
  obtain ⟨m', hins, hm', hkeep⟩ := listInsert_spec (show Holds m l.head l.tail ([] ++ xs) from h) helem
  exact ⟨m', by rw [KernelList.listPushFront, listBegin_eq h, Option.bind_some, hins], hm', hkeep⟩

theorem listPushBack_spec (h : Holds m l.head l.tail xs) {elem : Nat}
    (helem : elem ∉ l.head :: (xs ++ [l.tail])) :
    ∃ m', listPushBack m l elem = some m' ∧ Holds m' l.head l.tail (xs ++ [elem]) ∧
      ∀ a, a ≠ elem → a ≠ xs.getLastD l.head → a ≠ l.tail → m' a = m a :=
  listInsert_spec (show Holds m l.head l.tail (xs ++ []) by simpa using h) (by simpa using helem)

theorem listPopFront_spec {e : Nat} (h : Holds m l.head l.tail (e :: xs)) :
    ∃ m', listPopFront m l = some (m', e) ∧ Holds m' l.head l.tail xs ∧
      ∀ a, a ≠ l.head → a ≠ xs.headD l.tail → m' a = m a := by
  obtain ⟨m', hrem, hm', hkeep⟩ := listRemove_spec (show Holds m l.head l.tail ([] ++ e :: xs) from h)
  refine ⟨m', ?_, hm', hkeep⟩
  rw [KernelList.listPopFront, listFront_eq h, List.head?_cons, Option.bind_some, hrem]
  rfl

theorem listPopBack_spec {e : Nat} (h : Holds m l.head l.tail (xs ++ [e])) :
    ∃ m', listPopBack m l = some (m', e) ∧ Holds m' l.head l.tail xs ∧
      ∀ a, a ≠ xs.getLastD l.head → a ≠ l.tail → m' a = m a := by
  obtain ⟨m', hrem, hm', hkeep⟩ := listRemove_spec (show Holds m l.head l.tail (xs ++ e :: []) from h)
  refine ⟨m', ?_, by simpa using hm', hkeep⟩
  rw [KernelList.listPopBack, listBack_eq h, List.getLast?_concat, Option.bind_some, hrem]
  rfl

/-- Popping an empty list fails `list_front`'s or `list_back`'s `ASSERT`. -/
theorem listPop_nil (h : Holds m l.head l.tail []) :
    listPopFront m l = none ∧ listPopBack m l = none := by
  rw [listPopFront, listPopBack, listFront_eq h, listBack_eq h]
  exact ⟨rfl, rfl⟩

/-! ## `list_size` -/

/-- The loop of `list_size` from the element after a cut counts the elements after it. -/
theorem sizeLoop_eq (h : Holds m l.head l.tail (ys ++ zs)) {fuel : Nat}
    (hfuel : zs.length < fuel) (cnt : Nat) :
    sizeLoop m l fuel (zs.headD l.tail) cnt = some (cnt + zs.length) := by
  obtain ⟨f, rfl⟩ : ∃ f, fuel = f + 1 := ⟨fuel - 1, by omega⟩
  induction zs generalizing ys f cnt with
  | nil => simp [sizeLoop, listEnd]
  | cons z zs ih =>
    obtain ⟨hz, hnext⟩ := walk_step h
    have h' : Holds m l.head l.tail ((ys ++ [z]) ++ zs) := by simpa using h
    obtain ⟨f', rfl⟩ : ∃ f', f = f' + 1 := ⟨f - 1, by simp at hfuel; omega⟩
    rw [sizeLoop, List.headD_cons, if_neg hz, hnext, Option.bind_some,
      ih h' (cnt + 1) f' (by simp at hfuel; omega), List.length_cons, Nat.add_right_comm cnt 1,
      Nat.add_assoc]

theorem listSize_eq (h : Holds m l.head l.tail xs) {fuel : Nat} (hfuel : xs.length < fuel) :
    listSize m l fuel = some xs.length := by
  rw [listSize, listBegin_eq h, Option.bind_some, sizeLoop_eq (show Holds m l.head l.tail ([] ++ xs) from h) hfuel, zero_add]

end Pintos.KernelList
