import Mathlib

/-!
# Doubly linked cells in a memory

A memory gives every address a cell with a `prev` and a `next` link, either of which may be
null. A list of addresses is a `Chain` when each cell's `next` is the cell after it and that
cell's `prev` leads back. A chain reads the `next` of all its cells but the last and the
`prev` of all but the first, so writes to other links keep it (`Chain.frame`); and a chain is
its pieces and the links where they meet (`chain_append_cons_cons`).
-/

set_option autoImplicit false

namespace DList

variable {ι : Type}

/-- The two links of a cell; `none` is a null pointer. -/
structure Link (ι : Type) where
  prev : Option ι
  next : Option ι
  deriving DecidableEq, Repr

/-- A memory of cells. -/
abbrev Mem (ι : Type) := ι → Link ι

/-- The cell with its two links exchanged. -/
def Link.swap (c : Link ι) : Link ι := ⟨c.next, c.prev⟩

@[simp] theorem Link.prev_swap (c : Link ι) : c.swap.prev = c.next := rfl

@[simp] theorem Link.next_swap (c : Link ι) : c.swap.next = c.prev := rfl

namespace Mem

variable [DecidableEq ι] (m : Mem ι)

/-- The `prev` link of `a` set to `v`. -/
def setPrev (a : ι) (v : Option ι) : Mem ι := Function.update m a { m a with prev := v }

/-- The `next` link of `a` set to `v`. -/
def setNext (a : ι) (v : Option ι) : Mem ι := Function.update m a { m a with next := v }

@[simp] theorem prev_setPrev (a b : ι) (v : Option ι) :
    (m.setPrev a v b).prev = if b = a then v else (m b).prev := by
  by_cases h : b = a
  · subst h; simp [setPrev]
  · simp [setPrev, h]

@[simp] theorem next_setPrev (a b : ι) (v : Option ι) : (m.setPrev a v b).next = (m b).next := by
  by_cases h : b = a
  · subst h; simp [setPrev]
  · simp [setPrev, h]

@[simp] theorem next_setNext (a b : ι) (v : Option ι) :
    (m.setNext a v b).next = if b = a then v else (m b).next := by
  by_cases h : b = a
  · subst h; simp [setNext]
  · simp [setNext, h]

@[simp] theorem prev_setNext (a b : ι) (v : Option ι) : (m.setNext a v b).prev = (m b).prev := by
  by_cases h : b = a
  · subst h; simp [setNext]
  · simp [setNext, h]

/-- The cells of `s` with their links exchanged. -/
def swapOn (s : List ι) : Mem ι := fun a => if a ∈ s then (m a).swap else m a

@[simp] theorem swapOn_apply (s : List ι) (a : ι) :
    m.swapOn s a = if a ∈ s then (m a).swap else m a := rfl

theorem setPrev_ne {a b : ι} (v : Option ι) (h : b ≠ a) : m.setPrev a v b = m b := by
  simp [setPrev, h]

theorem setNext_ne {a b : ι} (v : Option ι) (h : b ≠ a) : m.setNext a v b = m b := by
  simp [setNext, h]

end Mem

/-- `a`'s `next` is `b` and `b`'s `prev` is `a`. -/
def Adj (m : Mem ι) (a b : ι) : Prop := (m a).next = some b ∧ (m b).prev = some a

/-- Each cell of `l` is linked to the one after it, both ways. -/
def Chain (m : Mem ι) (l : List ι) : Prop := l.IsChain (Adj m)

variable {m m' : Mem ι}

@[simp] theorem chain_nil : Chain m [] := List.IsChain.nil

@[simp] theorem chain_singleton (a : ι) : Chain m [a] := List.isChain_singleton a

theorem chain_cons_cons {a b : ι} {l : List ι} : Chain m (a :: b :: l) ↔ Adj m a b ∧ Chain m (b :: l) :=
  List.isChain_cons_cons

/-- A chain is its two pieces and the link where they meet. -/
theorem chain_append_cons_cons {l₁ l₂ : List ι} {a b : ι} :
    Chain m (l₁ ++ a :: b :: l₂) ↔ Chain m (l₁ ++ [a]) ∧ Adj m a b ∧ Chain m (b :: l₂) :=
  List.isChain_append_cons_cons

theorem Chain.left {l₁ l₂ : List ι} (h : Chain m (l₁ ++ l₂)) : Chain m l₁ :=
  List.IsChain.left_of_append h

theorem Chain.right {l₁ l₂ : List ι} (h : Chain m (l₁ ++ l₂)) : Chain m l₂ :=
  List.IsChain.right_of_append h

/-- Two chains joined by the link where they meet. -/
theorem Chain.append {l₁ l₂ : List ι} {a b : ι} (h₁ : Chain m l₁) (h₂ : Chain m l₂)
    (ha : l₁.getLast? = some a) (hb : l₂.head? = some b) (hab : Adj m a b) : Chain m (l₁ ++ l₂) :=
  List.isChain_append.mpr ⟨h₁, h₂, fun x hx y hy => by
    rw [ha, Option.mem_some_iff] at hx
    rw [hb, Option.mem_some_iff] at hy
    subst hx hy
    exact hab⟩

/-- The link where two pieces of a chain meet. -/
theorem Chain.adj_of_append {l₁ l₂ : List ι} {a b : ι} (h : Chain m (l₁ ++ l₂))
    (ha : l₁.getLast? = some a) (hb : l₂.head? = some b) : Adj m a b :=
  (List.isChain_append.mp h).2.2 a (by rw [ha]; rfl) b (by rw [hb]; rfl)

/-- The link between two neighbours of a chain. -/
theorem Chain.adj {l₁ l₂ : List ι} {a b : ι} (h : Chain m (l₁ ++ a :: b :: l₂)) : Adj m a b :=
  (chain_append_cons_cons.mp h).2.1

/-- A chain reads only the `next` of its cells but the last and the `prev` of its cells but the
first. -/
theorem Chain.frame {l : List ι} (h : Chain m l)
    (hnext : ∀ a ∈ l.dropLast, (m' a).next = (m a).next)
    (hprev : ∀ a ∈ l.tail, (m' a).prev = (m a).prev) : Chain m' l := by
  induction l with
  | nil => exact chain_nil
  | cons a l ih =>
    cases l with
    | nil => exact chain_singleton a
    | cons b l =>
      obtain ⟨⟨hab, hba⟩, hrest⟩ := chain_cons_cons.mp h
      refine chain_cons_cons.mpr ⟨⟨?_, ?_⟩, ih hrest ?_ ?_⟩
      · rw [hnext a (by simp)]; exact hab
      · rw [hprev b (by simp)]; exact hba
      · intro x hx
        exact hnext x (by rw [List.dropLast_cons_cons]; exact List.mem_cons_of_mem a hx)
      · intro x hx
        exact hprev x (List.mem_cons_of_mem b hx)

/-- A chain read in a memory where its cells have their links exchanged is the chain reversed.
Only the links the reversed chain reads need to be exchanged: the `next` of all cells but the
first and the `prev` of all but the last. -/
theorem Chain.reverse {l : List ι} (h : Chain m l)
    (hnext : ∀ a ∈ l.tail, (m' a).next = (m a).prev)
    (hprev : ∀ a ∈ l.dropLast, (m' a).prev = (m a).next) : Chain m' l.reverse := by
  have hswap : Chain (fun a => (m a).swap) l.reverse :=
    List.isChain_reverse.mpr (List.IsChain.imp (fun _ _ hab => ⟨hab.2, hab.1⟩) h)
  refine hswap.frame (fun a ha => ?_) (fun a ha => ?_)
  · rw [List.dropLast_reverse, List.mem_reverse] at ha
    exact hnext a ha
  · rw [List.tail_reverse, List.mem_reverse] at ha
    exact hprev a ha

/-! ## Lists with sentinels

A list whose first and last cells are the sentinels `hd` and `tl`, with null outer links. Every
change to such a list is one of two surgeries: a block of cells is unlinked, the cells on its
two sides linked to each other, or a chain of cells is linked in between two neighbours. -/

theorem not_mem_dropLast_of_nodup {l : List ι} {a : ι} (h : l.Nodup) (ha : l.getLast? = some a) :
    a ∉ l.dropLast := by
  have hne : l ≠ [] := by rintro rfl; cases ha
  have hsplit := List.dropLast_concat_getLast hne
  rw [List.getLast?_eq_some_getLast hne, Option.some_inj] at ha
  rw [← hsplit, ha] at h
  exact fun hmem => (List.nodup_append.mp h).2.2 a hmem a (List.mem_singleton_self a) rfl

theorem not_mem_tail_of_nodup {l : List ι} {a : ι} (h : l.Nodup) (ha : l.head? = some a) :
    a ∉ l.tail := by
  cases l with
  | nil => cases ha
  | cons b l =>
    rw [List.head?_cons, Option.some_inj] at ha
    subst ha
    exact (List.nodup_cons.mp h).1

theorem getLast?_cons_eq (a : ι) (l : List ι) : (a :: l).getLast? = some (l.getLastD a) := by
  rw [List.getLast?_cons, List.getLastD_eq_getLast?]

theorem head?_append_singleton (l : List ι) (a : ι) : (l ++ [a]).head? = some (l.headD a) := by
  cases l <;> rfl

theorem headD_mem_append_singleton (l : List ι) (a : ι) : l.headD a ∈ l ++ [a] :=
  List.mem_of_mem_head? (head?_append_singleton l a)

/-- The cell before a cut of a list with sentinels is one of its cells. -/
theorem getLastD_mem_cells (hd : ι) (ys zs : List ι) (tl : ι) :
    ys.getLastD hd ∈ hd :: (ys ++ zs ++ [tl]) := by
  rcases List.mem_cons.mp (List.getLastD_mem_cons (l := ys) (a := hd)) with h | h
  · rw [h]; exact List.mem_cons_self
  · exact List.mem_cons_of_mem _ (List.mem_append_left _ (List.mem_append_left _ h))

/-- The cell after a cut of a list with sentinels is one of its cells. -/
theorem headD_mem_cells (hd : ι) (ys zs : List ι) (tl : ι) :
    zs.headD tl ∈ hd :: (ys ++ zs ++ [tl]) := by
  rw [List.append_assoc]
  exact List.mem_cons_of_mem _ (List.mem_append_right ys (headD_mem_append_singleton zs tl))

/-- The list with sentinels `hd` and `tl` holds the cells `xs`, in order: `hd`, the cells and
`tl` linked both ways, the `prev` of `hd` and the `next` of `tl` null, and no cell twice. -/
structure Holds (m : Mem ι) (hd tl : ι) (xs : List ι) : Prop where
  chain : Chain m (hd :: (xs ++ [tl]))
  head_prev : (m hd).prev = none
  tail_next : (m tl).next = none
  nodup : (hd :: (xs ++ [tl])).Nodup

instance [DecidableEq ι] : DecidableRel (Adj m) := fun _ _ => inferInstanceAs (Decidable (_ ∧ _))

instance [DecidableEq ι] (l : List ι) : Decidable (Chain m l) :=
  inferInstanceAs (Decidable (l.IsChain (Adj m)))

/-- Whether a list in a memory holds a sequence can be computed, link by link. -/
instance [DecidableEq ι] (hd tl : ι) (xs : List ι) : Decidable (Holds m hd tl xs) :=
  decidable_of_iff (Chain m (hd :: (xs ++ [tl])) ∧ (m hd).prev = none ∧ (m tl).next = none ∧
      (hd :: (xs ++ [tl])).Nodup)
    ⟨fun ⟨h₁, h₂, h₃, h₄⟩ => ⟨h₁, h₂, h₃, h₄⟩, fun h => ⟨h.chain, h.head_prev, h.tail_next, h.nodup⟩⟩

variable {hd tl : ι}

/-- A list is kept by writes to cells that are not its own. -/
theorem Holds.frame {xs : List ι} (h : Holds m hd tl xs)
    (hm : ∀ a ∈ hd :: (xs ++ [tl]), m' a = m a) : Holds m' hd tl xs where
  chain := h.chain.frame (fun a ha => by rw [hm a (List.dropLast_subset _ ha)])
    (fun a ha => by rw [hm a (List.tail_subset _ ha)])
  head_prev := by rw [hm hd List.mem_cons_self]; exact h.head_prev
  tail_next := by rw [hm tl (by simp)]; exact h.tail_next
  nodup := h.nodup

/-- The links of a cell of the list: back to the cell before it and on to the cell after. -/
theorem Holds.links {xs ys zs : List ι} {e : ι} (h : Holds m hd tl xs) (hxs : xs = ys ++ e :: zs) :
    (m e).prev = some (ys.getLastD hd) ∧ (m e).next = some (zs.headD tl) := by
  have hc := h.chain
  rw [hxs] at hc
  constructor
  · have hc' : Chain m ((hd :: ys) ++ (e :: (zs ++ [tl]))) := by simpa using hc
    exact (hc'.adj_of_append (getLast?_cons_eq hd ys) rfl).2
  · have hc' : Chain m ((hd :: ys ++ [e]) ++ (zs ++ [tl])) := by simpa using hc
    exact (hc'.adj_of_append List.getLast?_concat (head?_append_singleton zs tl)).1

/-- The cells before a cut and the cells after it are apart. -/
theorem Holds.cut_disjoint {ys zs : List ι} (h : Holds m hd tl (ys ++ zs)) :
    ∀ a ∈ hd :: ys, ∀ b ∈ zs ++ [tl], a ≠ b := by
  have hnd : ((hd :: ys) ++ (zs ++ [tl])).Nodup := by simpa using h.nodup
  exact (List.nodup_append.mp hnd).2.2

/-- Across a cut of the list: the last cell before it, or `hd`, and the first after it, or `tl`,
are linked. -/
theorem Holds.adj_cut {ys zs : List ι} (h : Holds m hd tl (ys ++ zs)) :
    Adj m (ys.getLastD hd) (zs.headD tl) := by
  have hc : Chain m ((hd :: ys) ++ (zs ++ [tl])) := by simpa using h.chain
  exact hc.adj_of_append (getLast?_cons_eq hd ys) (head?_append_singleton zs tl)

/-- A block of the list has no cell twice and none of the rest of the list. -/
theorem Holds.block_apart {ys F zs : List ι} (h : Holds m hd tl (ys ++ F ++ zs)) :
    F.Nodup ∧ ∀ a ∈ F, a ∉ hd :: (ys ++ zs ++ [tl]) := by
  have hnd : ((hd :: ys) ++ F ++ (zs ++ [tl])).Nodup := by simpa using h.nodup
  obtain ⟨⟨-, hndF, hLF⟩, -, hLFR⟩ := List.nodup_append.mp hnd |>.imp_left List.nodup_append.mp
  refine ⟨hndF, fun a ha hmem => ?_⟩
  have hmem' : a ∈ (hd :: ys) ++ (zs ++ [tl]) := by simpa using hmem
  rcases List.mem_append.mp hmem' with hL | hR
  · exact hLF a hL a ha rfl
  · exact hLFR a (List.mem_append_right _ ha) a hR rfl

/-- The cells of the list are not its sentinels. -/
theorem Holds.ne_ends {xs : List ι} {e : ι} (h : Holds m hd tl xs) (he : e ∈ xs) :
    e ≠ hd ∧ e ≠ tl := by
  obtain ⟨hhd, hnd⟩ := List.nodup_cons.mp h.nodup
  refine ⟨fun he' => hhd (List.mem_append_left _ (he' ▸ he)), fun he' => ?_⟩
  exact (List.nodup_append.mp hnd).2.2 e he tl (List.mem_singleton_self tl) he'

/-- The sentinels' inner links: to the first cell, or `tl`, and back from the last, or `hd`. -/
theorem Holds.ends {xs : List ι} (h : Holds m hd tl xs) :
    (m hd).next = some (xs.headD tl) ∧ (m tl).prev = some (xs.getLastD hd) := by
  have hc := h.chain
  constructor
  · have hc' : Chain m ([hd] ++ (xs ++ [tl])) := hc
    exact (hc'.adj_of_append rfl (head?_append_singleton xs tl)).1
  · have hc' : Chain m ((hd :: xs) ++ [tl]) := by simpa using hc
    exact (hc'.adj_of_append (getLast?_cons_eq hd xs) rfl).2

variable [DecidableEq ι]

/-- Unlinking the block `F` from between `ys` and `zs`: the cell before it and the cell after it
are linked to each other. The block keeps its inner links. -/
theorem Holds.unlink {ys F zs : List ι} (h : Holds m hd tl (ys ++ F ++ zs)) :
    Holds ((m.setNext (ys.getLastD hd) (some (zs.headD tl))).setPrev (zs.headD tl)
        (some (ys.getLastD hd))) hd tl (ys ++ zs) ∧
      Chain ((m.setNext (ys.getLastD hd) (some (zs.headD tl))).setPrev (zs.headD tl)
        (some (ys.getLastD hd))) F := by
  set fp := ys.getLastD hd
  set ln := zs.headD tl
  set m₁ := (m.setNext fp (some ln)).setPrev ln (some fp)
  have hcells : hd :: (ys ++ F ++ zs ++ [tl]) = (hd :: ys) ++ F ++ (zs ++ [tl]) := by simp
  have hnd := h.nodup
  have hc := h.chain
  rw [hcells] at hnd hc
  obtain ⟨⟨hndL, hndF, hLF⟩, hndR, hLFR⟩ := List.nodup_append.mp hnd |>.imp_left List.nodup_append.mp
  have hfp : (hd :: ys).getLast? = some fp := getLast?_cons_eq hd ys
  have hln : (zs ++ [tl]).head? = some ln := head?_append_singleton zs tl
  have hfpL : fp ∈ hd :: ys := List.getLastD_mem_cons
  have hlnR : ln ∈ zs ++ [tl] := List.mem_of_mem_head? hln
  -- the cells written, against the pieces
  have hfpR : fp ∉ zs ++ [tl] := fun hR => hLFR fp (List.mem_append_left F hfpL) fp hR rfl
  have hlnL : ln ∉ hd :: ys := fun hL => hLFR ln (List.mem_append_left F hL) ln hlnR rfl
  have hfpF : fp ∉ F := fun hF => hLF fp hfpL fp hF rfl
  have hlnF : ln ∉ F := fun hF => hLFR ln (List.mem_append_right _ hF) ln hlnR rfl
  have hne : fp ≠ ln := fun he => hfpR (he ▸ hlnR)
  have hkeep : ∀ a, a ≠ fp → a ≠ ln → m₁ a = m a := fun a ha hb => by
    simp only [m₁]
    rw [Mem.setPrev_ne _ _ hb, Mem.setNext_ne _ _ ha]
  have hcL := hc.left.left
  have hcF := hc.left.right
  have hcR := hc.right
  have hL : Chain m₁ (hd :: ys) := hcL.frame
    (fun a ha => by
      have : a ≠ fp := fun he => not_mem_dropLast_of_nodup hndL hfp (he ▸ ha)
      rw [hkeep a this fun he => hlnL (he ▸ List.dropLast_subset _ ha)])
    (fun a ha => by
      have hmem := List.tail_subset _ ha
      have : a ≠ ln := fun he => hlnL (he ▸ hmem)
      simp [m₁, this])
  have hR : Chain m₁ (zs ++ [tl]) := hcR.frame
    (fun a ha => by
      have : a ≠ fp := fun he => hfpR (he ▸ List.dropLast_subset _ ha)
      simp [m₁, this])
    (fun a ha => by
      have : a ≠ ln := fun he => not_mem_tail_of_nodup hndR hln (he ▸ ha)
      rw [hkeep a (fun he => hfpR (he ▸ List.tail_subset _ ha)) this])
  have hadj : Adj m₁ fp ln := ⟨by simp [m₁], by simp [m₁]⟩
  refine ⟨⟨?_, ?_, ?_, ?_⟩, ?_⟩
  · have := hL.append hR hfp hln hadj
    simpa using this
  · have hhd : hd ≠ ln := fun he => hlnL (he ▸ List.mem_cons_self)
    have : (m₁ hd).prev = (m hd).prev := by simp [m₁, hhd]
    rw [this]
    exact h.head_prev
  · have htl : tl ≠ fp := fun he => hfpR (he ▸ List.mem_append_right zs (List.mem_singleton_self tl))
    have : (m₁ tl).next = (m tl).next := by simp [m₁, htl]
    rw [this]
    exact h.tail_next
  · exact h.nodup.sublist
      ((((List.sublist_append_left ys F).append_right zs).append_right [tl]).cons_cons hd)
  · exact hcF.frame
      (fun a ha => by
        have hF := List.dropLast_subset _ ha
        rw [hkeep a (fun he => hfpF (he ▸ hF)) (fun he => hlnF (he ▸ hF))])
      (fun a ha => by
        have hF := List.tail_subset _ ha
        rw [hkeep a (fun he => hfpF (he ▸ hF)) (fun he => hlnF (he ▸ hF))])

/-- Linking the chain `F`, from `first` to `last`, in between `ys` and `zs`: `first` back to the
cell before and on from `last` to the cell after, and those two to `first` and `last`. -/
theorem Holds.link {ys F zs : List ι} {first last : ι} (h : Holds m hd tl (ys ++ zs))
    (hF : Chain m F) (hfirst : F.head? = some first) (hlast : F.getLast? = some last)
    (hndF : F.Nodup) (hdisj : ∀ a ∈ F, a ∉ hd :: (ys ++ zs ++ [tl])) :
    Holds ((((m.setPrev first (some (ys.getLastD hd))).setNext last (some (zs.headD tl))).setNext
        (ys.getLastD hd) (some first)).setPrev (zs.headD tl) (some last)) hd tl (ys ++ F ++ zs) := by
  set bp := ys.getLastD hd
  set bf := zs.headD tl
  set m₂ := (((m.setPrev first (some bp)).setNext last (some bf)).setNext bp (some first)).setPrev
    bf (some last)
  have hcells : hd :: (ys ++ zs ++ [tl]) = (hd :: ys) ++ (zs ++ [tl]) := by simp
  have hnd := h.nodup
  have hc := h.chain
  rw [hcells] at hnd hc
  rw [hcells] at hdisj
  obtain ⟨hndL, hndR, hLR⟩ := List.nodup_append.mp hnd
  have hbp : (hd :: ys).getLast? = some bp := getLast?_cons_eq hd ys
  have hbf : (zs ++ [tl]).head? = some bf := head?_append_singleton zs tl
  have hbpL : bp ∈ hd :: ys := List.getLastD_mem_cons
  have hbfR : bf ∈ zs ++ [tl] := List.mem_of_mem_head? hbf
  have hfirstF : first ∈ F := List.mem_of_mem_head? hfirst
  have hlastF : last ∈ F := List.mem_of_mem_getLast? hlast
  -- the cells written, against the pieces
  have hbpR : bp ∉ zs ++ [tl] := fun hR => hLR bp hbpL bp hR rfl
  have hbfL : bf ∉ hd :: ys := fun hL => hLR bf hL bf hbfR rfl
  have hout : ∀ a ∈ F, a ∉ hd :: ys ∧ a ∉ zs ++ [tl] := fun a ha =>
    ⟨fun hL => hdisj a ha (List.mem_append_left _ hL), fun hR => hdisj a ha (List.mem_append_right _ hR)⟩
  have hbpF : bp ∉ F := fun hF => (hout bp hF).1 hbpL
  have hbfF : bf ∉ F := fun hF => (hout bf hF).2 hbfR
  have hL : Chain m₂ (hd :: ys) := hc.left.frame
    (fun a ha => by
      have hmem := List.dropLast_subset _ ha
      have h₁ : a ≠ bp := fun he => not_mem_dropLast_of_nodup hndL hbp (he ▸ ha)
      have h₂ : a ≠ last := fun he => (hout last hlastF).1 (he ▸ hmem)
      simp [m₂, h₁, h₂])
    (fun a ha => by
      have hmem := List.tail_subset _ ha
      have h₁ : a ≠ first := fun he => (hout first hfirstF).1 (he ▸ hmem)
      have h₂ : a ≠ bf := fun he => hbfL (he ▸ hmem)
      simp [m₂, h₁, h₂])
  have hFm : Chain m₂ F := hF.frame
    (fun a ha => by
      have hmem := List.dropLast_subset _ ha
      have h₁ : a ≠ bp := fun he => hbpF (he ▸ hmem)
      have h₂ : a ≠ last := fun he => not_mem_dropLast_of_nodup hndF hlast (he ▸ ha)
      simp [m₂, h₁, h₂])
    (fun a ha => by
      have hmem := List.tail_subset _ ha
      have h₁ : a ≠ first := fun he => not_mem_tail_of_nodup hndF hfirst (he ▸ ha)
      have h₂ : a ≠ bf := fun he => hbfF (he ▸ hmem)
      simp [m₂, h₁, h₂])
  have hR : Chain m₂ (zs ++ [tl]) := hc.right.frame
    (fun a ha => by
      have hmem := List.dropLast_subset _ ha
      have h₁ : a ≠ bp := fun he => hbpR (he ▸ hmem)
      have h₂ : a ≠ last := fun he => (hout last hlastF).2 (he ▸ hmem)
      simp [m₂, h₁, h₂])
    (fun a ha => by
      have hmem := List.tail_subset _ ha
      have h₁ : a ≠ first := fun he => (hout first hfirstF).2 (he ▸ hmem)
      have h₂ : a ≠ bf := fun he => not_mem_tail_of_nodup hndR hbf (he ▸ ha)
      simp [m₂, h₁, h₂])
  have hne₁ : first ≠ bf := fun he => hbfF (he ▸ hfirstF)
  have hne₂ : last ≠ bp := fun he => hbpF (he ▸ hlastF)
  have hadj₁ : Adj m₂ bp first := ⟨by simp [m₂], by simp [m₂, hne₁]⟩
  have hadj₂ : Adj m₂ last bf := ⟨by simp [m₂, hne₂], by simp [m₂]⟩
  have hLF := hL.append hFm hbp hfirst hadj₁
  have hLFR := hLF.append hR (by rw [List.getLast?_append, hlast]; rfl) hbf hadj₂
  have hhd : hd ∉ F := fun hF => (hout hd hF).1 List.mem_cons_self
  have htl : tl ∉ F := fun hF => (hout tl hF).2 (List.mem_append_right zs (List.mem_singleton_self tl))
  refine ⟨by simpa using hLFR, ?_, ?_, ?_⟩
  · have h₁ : hd ≠ first := fun he => hhd (he ▸ hfirstF)
    have h₂ : hd ≠ bf := fun he => hbfL (he ▸ List.mem_cons_self)
    have : (m₂ hd).prev = (m hd).prev := by simp [m₂, h₁, h₂]
    rw [this]
    exact h.head_prev
  · have h₁ : tl ≠ last := fun he => htl (he ▸ hlastF)
    have h₂ : tl ≠ bp := fun he => hbpR (he ▸ List.mem_append_right zs (List.mem_singleton_self tl))
    have : (m₂ tl).next = (m tl).next := by simp [m₂, h₁, h₂]
    rw [this]
    exact h.tail_next
  · -- `F` is new to the list
    have hperm : ((hd :: ys) ++ F ++ (zs ++ [tl])).Perm (F ++ ((hd :: ys) ++ (zs ++ [tl]))) := by
      exact (List.perm_append_comm.append_right _).trans (.of_eq (List.append_assoc _ _ _))
    have hnew : (F ++ ((hd :: ys) ++ (zs ++ [tl]))).Nodup :=
      List.nodup_append.mpr ⟨hndF, hnd, fun a ha b hb hab => hdisj a ha (hab ▸ hb)⟩
    have := hperm.nodup_iff.mpr hnew
    simpa using this

/-- Reversing the list in place: every cell's links exchanged, then the sentinels linked to the
old last and first cells, which are linked back to them. -/
theorem Holds.reverse {first : ι} {rest : List ι} (h : Holds m hd tl (first :: rest)) :
    Holds (((((m.swapOn (first :: rest)).setNext hd (some (rest.getLastD first))).setPrev tl
        (some first)).setPrev (rest.getLastD first) (some hd)).setNext first (some tl)) hd tl
      (first :: rest).reverse := by
  set xs := first :: rest
  set last := rest.getLastD first
  set m₃ := ((((m.swapOn xs).setNext hd (some last)).setPrev tl (some first)).setPrev last
    (some hd)).setNext first (some tl)
  have hfirst : first ∈ xs := List.mem_cons_self
  have hlast : last ∈ xs := List.getLastD_mem_cons
  have hhd : hd ∉ xs := fun hx => (h.ne_ends hx).1 rfl
  have htl : tl ∉ xs := fun hx => (h.ne_ends hx).2 rfl
  have hndxs : xs.Nodup := (List.nodup_append.mp (List.nodup_cons.mp h.nodup).2).1
  have hxs : xs.getLast? = some last := getLast?_cons_eq first rest
  have hcxs : Chain m xs := by
    have hc : Chain m ([hd] ++ xs ++ [tl]) := by simpa using h.chain
    exact hc.left.right
  -- the cells of the list in reverse; the ends of the reversed chain are the written links
  have hrev : Chain m₃ xs.reverse := hcxs.reverse
    (fun a ha => by
      have ha' := List.tail_subset _ ha
      have h₁ : a ≠ first := fun he => not_mem_tail_of_nodup hndxs rfl (he ▸ ha)
      have h₂ : a ≠ hd := fun he => hhd (he ▸ ha')
      simp [m₃, h₁, h₂, ha'])
    (fun a ha => by
      have ha' := List.dropLast_subset _ ha
      have h₁ : a ≠ last := fun he => not_mem_dropLast_of_nodup hndxs hxs (he ▸ ha)
      have h₂ : a ≠ tl := fun he => htl (he ▸ ha')
      simp [m₃, h₁, h₂, ha'])
  have hne₁ : hd ≠ first := fun he => hhd (he ▸ hfirst)
  have hne₂ : tl ≠ last := fun he => htl (he ▸ hlast)
  have hne₃ : hd ≠ last := fun he => hhd (he ▸ hlast)
  have hne₄ : tl ≠ first := fun he => htl (he ▸ hfirst)
  have hne₅ : hd ≠ tl := fun he => (List.nodup_cons.mp h.nodup).1 (he ▸ by simp)
  have hadj₁ : Adj m₃ hd last := ⟨by simp [m₃, hne₁], by simp [m₃]⟩
  have hadj₂ : Adj m₃ first tl := ⟨by simp [m₃], by simp [m₃, hne₂]⟩
  have hL := (chain_singleton hd).append hrev rfl (by rw [List.head?_reverse, hxs]) hadj₁
  have hLR := hL.append (chain_singleton tl)
    (by rw [List.getLast?_append, List.getLast?_reverse]; rfl) rfl hadj₂
  refine ⟨by simpa using hLR, ?_, ?_, ?_⟩
  · simp [m₃, hne₃, hne₅, hhd, h.head_prev]
  · simp [m₃, hne₄, hne₅.symm, htl, h.tail_next]
  · exact (((List.reverse_perm xs).append_right [tl]).cons hd).nodup_iff.mpr h.nodup

/-! ## A sequence laid out in memory -/

/-- The cell after `x` in `l`. -/
def nextIn : List ι → ι → Option ι
  | a :: b :: l, x => if x = a then some b else nextIn (b :: l) x
  | _, _ => none

/-- The cell before `x` in `l`. -/
def prevIn : List ι → ι → Option ι
  | a :: b :: l, x => if x = b then some a else prevIn (b :: l) x
  | _, _ => none

/-- The memory that links the cells of `l` in order and leaves every other cell unlinked. -/
def Mem.ofList (l : List ι) : Mem ι := fun x => ⟨prevIn l x, nextIn l x⟩

theorem nextIn_of_not_mem {x : ι} : ∀ {l : List ι}, x ∉ l.dropLast → nextIn l x = none
  | [], _ | [_], _ => rfl
  | a :: b :: l, hx => by
    have hxa : x ≠ a := fun he => hx (he ▸ List.mem_cons_self)
    rw [nextIn, if_neg hxa]
    exact nextIn_of_not_mem fun h => hx (by rw [List.dropLast_cons_cons]; exact .tail _ h)

theorem prevIn_of_not_mem {x : ι} : ∀ {l : List ι}, x ∉ l.tail → prevIn l x = none
  | [], _ | [_], _ => rfl
  | a :: b :: l, hx => by
    have hxb : x ≠ b := fun he => hx (he ▸ List.mem_cons_self)
    rw [prevIn, if_neg hxb]
    exact prevIn_of_not_mem fun h => hx (List.mem_of_mem_tail h)

theorem chain_ofList {l : List ι} (hnd : l.Nodup) : Chain (Mem.ofList l) l := by
  match l, hnd with
  | [], _ => exact chain_nil
  | [a], _ => exact chain_singleton a
  | a :: b :: l, hnd =>
    obtain ⟨ha, hnd'⟩ := List.nodup_cons.mp hnd
    have hb : b ∉ l := (List.nodup_cons.mp hnd').1
    refine chain_cons_cons.mpr ⟨⟨?_, ?_⟩, ?_⟩
    · simp [Mem.ofList, nextIn]
    · simp [Mem.ofList, prevIn]
    -- the rest is laid out as in the memory of `b :: l`, which differs only at `a` and `b`
    · refine (chain_ofList hnd').frame (fun x hx => ?_) (fun x hx => ?_)
      · have hxa : x ≠ a := fun he => ha (he ▸ List.dropLast_subset _ hx)
        simp [Mem.ofList, nextIn, hxa]
      · have hxb : x ≠ b := fun he => hb (he ▸ hx)
        simp [Mem.ofList, prevIn, hxb]

/-- Laid out in memory, a sequence of distinct cells between two sentinels is held by the list
of those sentinels. -/
theorem holds_ofList (hd tl : ι) (xs : List ι) (hnd : (hd :: (xs ++ [tl])).Nodup) :
    Holds (Mem.ofList (hd :: (xs ++ [tl]))) hd tl xs where
  chain := chain_ofList hnd
  head_prev := prevIn_of_not_mem (not_mem_tail_of_nodup hnd rfl)
  tail_next := by
    have hlast : (hd :: (xs ++ [tl])).getLast? = some tl := by
      rw [← List.cons_append, List.getLast?_concat]
    exact nextIn_of_not_mem (not_mem_dropLast_of_nodup hnd hlast)
  nodup := hnd

end DList
