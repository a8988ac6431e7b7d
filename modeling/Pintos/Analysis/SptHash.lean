import Pintos.Model.Spt
import Pintos.Model.Page
import Pintos.Analysis.Hash

/-!
# The supplemental page table refines an association list

The VM model keeps a thread's supplemental page table as an association list from `upage` to
the entry (`Proc.spt`), looked up by `find_spte`, extended by `insert_unmapped_spte`, changed
in place through the pointer `find_spte` gives, and cut down by `munmap`. The source keeps it in
a `struct hash` with `spt_hash_hash_func` and `spt_hash_less_func`. `Represents` relates the
two: the table is well formed with those functions and holds the entries of the list, up to
order. Under it, each call on the table gives what the list gives and leaves tables that again
represent each other (`spt_hash_refines_alist`).

The keys decide everything: `spt_hash_less_func` compares `upage`s, so two entries are equal
in the sense of `hash.c` exactly when their `upage`s are (`equal_spt`), and the table's set is
then an association list (`ClassSet.keyEq`).
-/

set_option autoImplicit false

namespace Pintos.Vm.SptHash

open HashTable ClassSet

theorem lawful_spt : Lawful sptHashHashFunc sptHashLessFunc := lawful_of_key Sigma.fst

/-- Under `spt_hash_less_func`, entries are equal exactly when their `upage`s are. -/
theorem equal_spt {h : Hash SptElem} (hless : h.less = sptHashLessFunc) : h.equal = keyEq := by
  funext a b
  rw [Hash.equal, hless, Bool.eq_iff_iff]
  simp only [sptHashLessFunc, keyEq, Bool.and_eq_true, Bool.not_eq_true', decide_eq_false_iff_not,
    decide_eq_true_eq]
  omega

/-- The table holds the entries of the list, up to order, and is well formed with the functions
of `spt_init`. -/
structure Represents (h : Hash SptElem) (spt : AList (fun _ : Nat => Spte)) : Prop where
  wf : h.Wf
  hash : h.hash = sptHashHashFunc
  less : h.less = sptHashLessFunc
  perm : h.contents.Perm spt.entries

variable {h : Hash SptElem} {spt : AList (fun _ : Nat => Spte)}

theorem Represents.lawful (hr : Represents h spt) : Lawful h.hash h.less := by
  rw [hr.hash, hr.less]
  exact lawful_spt

theorem represents_sptInit (hinit : sptInit true = some h) : Represents h ∅ := by
  obtain ⟨hw, hnil⟩ := wf_hashInit hinit
  cases hinit
  exact ⟨hw, rfl, rfl, by rw [hnil]; rfl⟩

/-- A call of `hash.h` on the table does to the list what the same call does to its entries
as a set keyed by `upage`. -/
theorem Represents.call (hr : Represents h spt) (c : Call SptElem)
    {spt' : AList (fun _ : Nat => Spte)} (hspt : (c.spec keyEq spt.entries).1.Perm spt'.entries) :
    Represents (c.apply h).1 spt' ∧ (c.apply h).2 = (c.spec keyEq spt.entries).2 := by
  obtain ⟨hw, hperm, hret⟩ := hr.wf.apply_spec hr.lawful hr.perm c
  rw [equal_spt hr.less] at hperm hret
  refine ⟨⟨hw, ?_, ?_, hperm.trans hspt⟩, hret⟩
  · rw [(Hash.hash_less_apply c).1, hr.hash]
  · rw [(Hash.hash_less_apply c).2, hr.less]

theorem find_keyEq_eq_none_iff (upage : Nat) (b : Spte) :
    find keyEq spt.entries ⟨upage, b⟩ = none ↔ spt.lookup upage = none := by
  rw [← Option.map_eq_none_iff, find_keyEq]
  rfl

/-! ## Each call -/

theorem Represents.findSpte_eq (hr : Represents h spt) (upage : Nat) :
    findSpte h upage = spt.lookup upage := by
  have hfind := (hr.call (.find ⟨upage, finderFields⟩) (.refl _)).2
  rw [findSpte, show hashFind h ⟨upage, finderFields⟩ = _ from hfind]
  exact find_keyEq _ _ _

theorem Represents.insertUnmappedSpte (hr : Represents h spt) (upage : Nat) (spte : Spte)
    (ok : Bool) :
    Represents (insertUnmappedSpte h upage spte ok).1
        (if (spt.lookup upage).isSome then spt else spt.insert upage spte) ∧
      (insertUnmappedSpte h upage spte ok).2 = (spt.lookup upage).isNone := by
  have hnone : find keyEq spt.entries ⟨upage, spte⟩ = none ↔ spt.lookup upage = none :=
    find_keyEq_eq_none_iff upage spte
  -- the set keyed by `upage` gets the entry exactly when the list has none of its key
  have hspec : (ClassSet.insert keyEq spt.entries ⟨upage, spte⟩).Perm
      (if (spt.lookup upage).isSome then spt else spt.insert upage spte).entries := by
    unfold ClassSet.insert
    cases hf : find keyEq spt.entries ⟨upage, spte⟩ with
    | none =>
      have hl := hnone.mp hf
      rw [hl, Option.isSome_none, if_neg Bool.false_ne_true,
        AList.entries_insert_of_notMem (AList.lookup_eq_none.mp hl)]
    | some x =>
      have hl : (spt.lookup upage).isSome = true := by
        cases hlk : spt.lookup upage with
        | none => rw [hnone.mpr hlk] at hf; cases hf
        | some _ => rfl
      rw [if_pos hl]
  obtain ⟨hr', hret⟩ := hr.call (.insert ⟨upage, spte⟩ ok) hspec
  refine ⟨hr', ?_⟩
  show (hashInsert h ⟨upage, spte⟩ ok).2.isNone = _
  rw [show (hashInsert h ⟨upage, spte⟩ ok).2 = find keyEq spt.entries ⟨upage, spte⟩ from hret]
  cases hlk : spt.lookup upage with
  | none => rw [hnone.mpr hlk]; rfl
  | some _ =>
    cases hf : find keyEq spt.entries ⟨upage, spte⟩ with
    | none => rw [hnone.mp hf] at hlk; cases hlk
    | some _ => rfl

/-- A store through the pointer to the entry of `upage` is `AList.insert` of the new entry. -/
theorem Represents.writeSpte (hr : Represents h spt) {upage : Nat} (spte : Spte)
    (hpresent : (spt.lookup upage).isSome) :
    Represents (writeSpte h upage spte) (spt.insert upage spte) := by
  set f : SptElem → SptElem := fun e => if e.1 = upage then ⟨upage, spte⟩ else e with hf
  have hkey : ∀ e, (f e).1 = e.1 := fun e => by
    by_cases he : e.1 = upage
    · simp [hf, he]
    · simp [hf, he]
  have hequal := equal_spt hr.less
  obtain ⟨hw, hcontents⟩ := hr.wf.map f (fun e => by rw [hr.hash, sptHashHashFunc, sptHashHashFunc, hkey])
    (fun x y => by rw [hequal, keyEq, keyEq, hkey, hkey])
  refine ⟨hw, hr.hash, hr.less, ?_⟩
  show ({ h with buckets := h.buckets.map (List.map f) } : Hash SptElem).contents.Perm _
  -- the entry of `upage` is changed where it stands: `replace` of the set, up to order
  obtain ⟨v, hv⟩ := Option.isSome_iff_exists.mp hpresent
  have hmem : (⟨upage, v⟩ : SptElem) ∈ spt.entries := AList.mem_lookup_iff.mp hv
  have hdist : Distinct keyEq spt.entries := distinct_keyEq_iff.mpr spt.nodupKeys
  have hf' : f = fun y => if keyEq y ⟨upage, spte⟩ then ⟨upage, spte⟩ else y := by
    funext y
    simp [hf, keyEq]
  rw [hcontents, AList.entries_insert, ← erase_keyEq spt.nodupKeys upage spte]
  refine (hr.perm.map f).trans ?_
  rw [hf']
  exact map_perm_replace keyEq_isEquiv hdist hmem (by simp [keyEq])

theorem Represents.deleteSpte (hr : Represents h spt) (upage : Nat) (ok : Bool) :
    Represents (deleteSpte h upage ok).1 (spt.erase upage) ∧
      (deleteSpte h upage ok).2 = spt.lookup upage := by
  have hspec : (erase keyEq spt.entries ⟨upage, finderFields⟩).Perm (spt.erase upage).entries :=
    .of_eq (erase_keyEq spt.nodupKeys upage finderFields)
  obtain ⟨hr', hret⟩ := hr.call (.delete ⟨upage, finderFields⟩ ok) hspec
  refine ⟨hr', ?_⟩
  show (hashDelete h ⟨upage, finderFields⟩ ok).2.map Sigma.snd = _
  rw [show (hashDelete h ⟨upage, finderFields⟩ ok).2 = find keyEq spt.entries ⟨upage, finderFields⟩
    from hret]
  exact find_keyEq _ _ _

/-- Destroying one swap slot commutes with destroying another. -/
theorem hashDestroyFunc_right_comm (vm : State) (x y : SptElem) :
    hashDestroyFunc (hashDestroyFunc vm x) y = hashDestroyFunc (hashDestroyFunc vm y) x := by
  unfold hashDestroyFunc
  split_ifs <;> try rfl
  by_cases hxy : x.2.swapIndex = y.2.swapIndex
  · rw [hxy]
  · simp only [State.destroySwapSlot, List.set_comm _ _ hxy]

theorem Represents.destroySpt_eq (hr : Represents h spt) {vm : State} {t : Nat}
    (hspt : (vm.proc t).spt = spt) :
    vm.destroySpt t = (destroySpt vm h).modifyProc t fun p => { p with spt := ∅ } := by
  rw [SptHash.destroySpt, Hash.hashClearDestructor_eq h hr.wf.length,
    hr.perm.foldl_eq' (fun x _ y _ z => hashDestroyFunc_right_comm z x y), ← hspt]
  rfl

/-! ## The refinement -/

/-- The hash table `vm/page.c` keeps for a thread refines the association list `Proc.spt` of the
VM model. From a table and a list that represent each other: `find_spte` gives what `lookup`
gives; `insert_unmapped_spte` succeeds exactly when no entry has the key, and what it leaves
represents the list with the entry added in that case; a store through the pointer `find_spte`
gave represents `AList.insert`; `munmap`'s `hash_delete` represents `AList.erase` and returns the
entry `lookup` gives; and `destroy_spt` destroys the swap slots that the VM model's `destroySpt`
destroys, whatever the order of the buckets. -/
theorem spt_hash_refines_alist (hr : Represents h spt) (upage : Nat) (spte : Spte) (ok : Bool) :
    findSpte h upage = spt.lookup upage ∧
      Represents (insertUnmappedSpte h upage spte ok).1
        (if (spt.lookup upage).isSome then spt else spt.insert upage spte) ∧
      (insertUnmappedSpte h upage spte ok).2 = (spt.lookup upage).isNone ∧
      ((spt.lookup upage).isSome → Represents (writeSpte h upage spte) (spt.insert upage spte)) ∧
      Represents (deleteSpte h upage ok).1 (spt.erase upage) ∧
      (deleteSpte h upage ok).2 = spt.lookup upage ∧
      ∀ (vm : State) (t : Nat), (vm.proc t).spt = spt →
        vm.destroySpt t = (destroySpt vm h).modifyProc t fun p => { p with spt := ∅ } := by
  obtain ⟨hins, hinsRet⟩ := hr.insertUnmappedSpte upage spte ok
  obtain ⟨hdel, hdelRet⟩ := hr.deleteSpte upage ok
  exact ⟨hr.findSpte_eq upage, hins, hinsRet, hr.writeSpte spte, hdel, hdelRet,
    fun _ _ hspt => hr.destroySpt_eq hspt⟩

/-- The table of `spt_init` and the empty list: the first entry of a process, at the start of
its code segment, goes in. -/
theorem spt_hash_refines_alist_boot :
    (insertUnmappedSpte ⟨0, 4, List.replicate 4 [], sptHashHashFunc, sptHashLessFunc⟩ 0x8048000
      finderFields true).2 = true :=
  (spt_hash_refines_alist (represents_sptInit rfl) 0x8048000 finderFields true).2.2.1

end Pintos.Vm.SptHash
