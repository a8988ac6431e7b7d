import Pintos.Model.Hash
import Pintos.Lib.ClassSet

/-!
# `hash.c` keeps a set of elements, one of each class of `less`

The elements of a table are its buckets read in order (`contents`), which is also the order
`hash_apply` and the iterators visit. `Wf` is the representation invariant: `bucket_cnt` is a
power of two and at least 4, the bucket array has `bucket_cnt` buckets, every element is in
the bucket `find_bucket` names for it, `elem_cnt` counts the elements, and no two elements are
equal in the sense of `find_elem` (neither is `less` than the other). Under what `hash.h` asks
of `hash` and `less` (`Lawful`), each operation keeps `Wf` and acts on `contents` as the
operation of the same name of `ClassSet` does, up to the order of the elements.
-/

set_option autoImplicit false

namespace Pintos.HashTable

open Buckets

variable {α : Type}

/-- What `hash.h` asks of the two functions: `less` is irreflexive, incomparability under
it is transitive, and `hash` gives incomparable elements the same value. -/
structure Lawful (hash : α → UInt32) (less : α → α → Bool) : Prop where
  irrefl : ∀ a, less a a = false
  incomp_trans : ∀ a b c, (!less a b && !less b a) = true → (!less b c && !less c b) = true →
    (!less a c && !less c a) = true
  hash_eq : ∀ a b, (!less a b && !less b a) = true → hash a = hash b

namespace Hash

variable (h : Hash α)

/-- The elements of the table, bucket by bucket. -/
def contents : List α := h.buckets.flatten

/-- The representation invariant of a table. -/
structure Wf : Prop where
  length : h.buckets.length = h.bucketCnt
  pow2 : h.bucketCnt.isPowerOfTwo
  four_le : 4 ≤ h.bucketCnt
  placed : Placed h.findBucket h.buckets
  count : h.elemCnt = h.contents.length
  distinct : ClassSet.Distinct h.equal h.contents

variable {h}

theorem Lawful.isEquiv (hl : Lawful h.hash h.less) : ClassSet.IsEquiv h.equal where
  refl a := by simp [Hash.equal, hl.irrefl]
  symm a b hab := by
    simp only [Hash.equal, Bool.and_eq_true, Bool.not_eq_true'] at hab ⊢
    exact ⟨hab.2, hab.1⟩
  trans := hl.incomp_trans

theorem findBucket_lt (hpos : 0 < h.bucketCnt) (e : α) : h.findBucket e < h.bucketCnt :=
  Nat.lt_of_le_of_lt Nat.and_le_right (by omega)

theorem Wf.findBucket_lt (hw : h.Wf) (e : α) : h.findBucket e < h.buckets.length :=
  hw.length ▸ Hash.findBucket_lt (by have := hw.four_le; omega) e

theorem mem_contents_iff {x : α} : x ∈ h.contents ↔ ∃ b, x ∈ h.bucket b := by
  simp only [contents, bucket, List.mem_flatten, List.getD_eq_getElem?_getD]
  constructor
  · rintro ⟨l, hl, hx⟩
    obtain ⟨b, hb, rfl⟩ := List.getElem_of_mem hl
    exact ⟨b, by simpa [hb] using hx⟩
  · rintro ⟨b, hx⟩
    cases hb : h.buckets[b]? with
    | none => simp [hb] at hx
    | some l => exact ⟨l, List.mem_of_getElem? hb, by simpa [hb] using hx⟩

theorem mem_contents_of_mem_bucket {x : α} {b : Nat} (hx : x ∈ h.bucket b) : x ∈ h.contents :=
  mem_contents_iff.mpr ⟨b, hx⟩

/-- An element of the table is in the bucket `find_bucket` names for it. -/
theorem Wf.mem_bucket (hw : h.Wf) {x : α} (hx : x ∈ h.contents) : x ∈ h.bucket (h.findBucket x) := by
  obtain ⟨b, hb⟩ := mem_contents_iff.mp hx
  rwa [hw.placed b x hb]

/-! ## `find_elem` -/

theorem findElemFrom_eq_none_iff (e : α) (i : Nat) (l : List α) :
    h.findElemFrom e i l = none ↔ ∀ x ∈ l, h.equal x e = false := by
  induction l generalizing i with
  | nil => simp [findElemFrom]
  | cons y l ih =>
    rw [findElemFrom]
    split_ifs with hy
    · simp [hy]
    · simp [ih, Bool.eq_false_iff.mpr hy]

theorem findElemFrom_eq_some {e x : α} {i j : Nat} {l : List α}
    (hf : h.findElemFrom e i l = some (j, x)) :
    i ≤ j ∧ l[j - i]? = some x ∧ h.equal x e = true := by
  induction l generalizing i with
  | nil => cases hf
  | cons y l ih =>
    rw [findElemFrom] at hf
    split_ifs at hf with hy
    · cases hf
      exact ⟨Nat.le_refl _, by simp, hy⟩
    · obtain ⟨hij, hx, hxe⟩ := ih hf
      refine ⟨by omega, ?_, hxe⟩
      rw [show j - i = (j - (i + 1)) + 1 by omega, List.getElem?_cons_succ]
      exact hx

theorem findElem_eq_some {b : Nat} {e x : α} {i : Nat}
    (hf : h.findElem (h.bucket b) e = some (i, x)) :
    ∃ hi : i < (h.bucket b).length,
      (h.bucket b)[i] = x ∧ x ∈ h.contents ∧ h.equal x e = true := by
  obtain ⟨-, hx, hxe⟩ := findElemFrom_eq_some hf
  rw [Nat.sub_zero, List.getElem?_eq_some_iff] at hx
  obtain ⟨hi, hx⟩ := hx
  exact ⟨hi, hx, mem_contents_of_mem_bucket (hx ▸ List.getElem_mem hi), hxe⟩

variable (hl : Lawful h.hash h.less)
include hl

/-- `find_elem` on the bucket of `e` finds nothing exactly when no element of the table is
equal to `e`: an equal element has the same hash, so it is in that bucket. -/
theorem Wf.findElem_eq_none_iff (hw : h.Wf) (e : α) :
    h.findElem (h.bucket (h.findBucket e)) e = none ↔ ∀ x ∈ h.contents, h.equal x e = false := by
  rw [findElem, findElemFrom_eq_none_iff]
  constructor
  · intro hnone x hx
    by_contra hxe
    have hxe' : h.equal x e = true := by simpa using hxe
    have hsame : h.findBucket x = h.findBucket e := by
      rw [findBucket, findBucket, hl.hash_eq x e hxe']
    exact hxe (hnone x (hsame ▸ hw.mem_bucket hx))
  · exact fun hall x hx => hall x (mem_contents_of_mem_bucket hx)

/-- `hash_find` is `find` of the set the table holds. -/
theorem Wf.hashFind_eq (hw : h.Wf) (e : α) :
    hashFind h e = ClassSet.find h.equal h.contents e := by
  unfold hashFind
  cases hf : h.findElem (h.bucket (h.findBucket e)) e with
  | none =>
    rw [Option.map_none, eq_comm, ClassSet.find_eq_none_iff]
    exact (hw.findElem_eq_none_iff hl e).mp hf
  | some p =>
    obtain ⟨i, x⟩ := p
    obtain ⟨-, -, hx, hxe⟩ := findElem_eq_some hf
    rw [Option.map_some, eq_comm, ClassSet.find_eq_some_iff (Lawful.isEquiv hl) hw.distinct]
    exact ⟨hx, hxe⟩

end Hash

/-! ## The bucket count of `rehash` -/

theorem isPowerOfTwo_of_isPowerOf2 {x : Nat} (h : isPowerOf2 x = true) : x.isPowerOfTwo := by
  simp only [isPowerOf2, turnOffLeast1bit, Bool.and_eq_true, bne_iff_ne, ne_eq, beq_iff_eq] at h
  exact Nat.ne_zero_and_sub_one_eq_zero_iff_isPowerOfTwo.mp h

/-- Clearing the lowest one bit of a number that is not a power of two keeps its highest. -/
theorem log2_turnOffLeast1bit {x : Nat} (hx : x ≠ 0) (hpow : ¬ x.isPowerOfTwo) :
    turnOffLeast1bit x ≠ 0 ∧ (turnOffLeast1bit x).log2 = x.log2 := by
  have htop : 2 ^ x.log2 ≤ turnOffLeast1bit x :=
    Nat.ge_two_pow_of_testBit (Nat.and_sub_one_testBit_log2 hx hpow)
  have hne : turnOffLeast1bit x ≠ 0 := by
    have := Nat.one_le_two_pow (n := x.log2)
    omega
  refine ⟨hne, (Nat.log2_eq_iff hne).mpr ⟨htop, ?_⟩⟩
  exact Nat.lt_of_le_of_lt Nat.and_le_left Nat.lt_log2_self

/-- The loop of `rehash` ends at the highest power of two not above its start. -/
theorem clearToPowerOf2_eq {x : Nat} (hx : x ≠ 0) : clearToPowerOf2 x = 2 ^ x.log2 := by
  induction x using clearToPowerOf2.induct with
  | case1 => exact absurd rfl hx
  | case2 x hx0 hpow =>
    rw [clearToPowerOf2, if_neg hx0, if_pos hpow]
    obtain ⟨k, rfl⟩ := isPowerOfTwo_of_isPowerOf2 hpow
    rw [Nat.log2_two_pow]
  | case3 x hx0 hpow ih =>
    rw [clearToPowerOf2, if_neg hx0, if_neg hpow]
    have hnot : ¬ x.isPowerOfTwo := fun hp => hpow (by
      simpa [isPowerOf2, turnOffLeast1bit, hx0] using
        (Nat.and_sub_one_eq_zero_iff_isPowerOfTwo hx0).mpr hp)
    obtain ⟨hne, hlog⟩ := log2_turnOffLeast1bit hx0 hnot
    rw [ih hne, hlog]

namespace Hash

variable (h : Hash α)

theorem idealBucketCnt_eq : h.idealBucketCnt = 2 ^ (max (h.elemCnt / 2) 4).log2 :=
  clearToPowerOf2_eq (by omega)

theorem four_le_idealBucketCnt : 4 ≤ h.idealBucketCnt := by
  rw [idealBucketCnt_eq]
  have h2 : 2 ≤ (max (h.elemCnt / 2) 4).log2 :=
    (Nat.le_log2 (by omega)).mpr (by simp)
  calc 4 = 2 ^ 2 := rfl
    _ ≤ 2 ^ (max (h.elemCnt / 2) 4).log2 := Nat.pow_le_pow_right (by decide) h2

theorem isPowerOfTwo_idealBucketCnt : h.idealBucketCnt.isPowerOfTwo :=
  ⟨_, h.idealBucketCnt_eq⟩

/-! ## Operations that keep `hash` and `less` -/

@[simp] theorem findBucket_insertElem (b : Nat) (e : α) :
    (h.insertElem b e).findBucket = h.findBucket := rfl
@[simp] theorem equal_insertElem (b : Nat) (e : α) : (h.insertElem b e).equal = h.equal := rfl
@[simp] theorem findBucket_removeElem (b i : Nat) :
    (h.removeElem b i).findBucket = h.findBucket := rfl
@[simp] theorem equal_removeElem (b i : Nat) : (h.removeElem b i).equal = h.equal := rfl
@[simp] theorem hash_rehash (ok : Bool) : (h.rehash ok).hash = h.hash := by
  unfold rehash; dsimp only; split_ifs <;> rfl
@[simp] theorem less_rehash (ok : Bool) : (h.rehash ok).less = h.less := by
  unfold rehash; dsimp only; split_ifs <;> rfl
@[simp] theorem equal_rehash (ok : Bool) : (h.rehash ok).equal = h.equal := by
  funext a b; simp [equal]
variable {h}

/-- A table with the same elements as a well-formed one is distinct where it is. -/
theorem Wf.distinct_of_perm (hw : h.Wf) (hl : Lawful h.hash h.less) {l : List α}
    (hperm : h.contents.Perm l) : ClassSet.Distinct h.equal l :=
  hperm.pairwise hw.distinct (Lawful.isEquiv hl).false_symm

/-- `insert_elem` of an element equal to none of the table, into its bucket. -/
theorem Wf.insertElem (hw : h.Wf) (hl : Lawful h.hash h.less) {e : α}
    (hnone : ∀ x ∈ h.contents, h.equal x e = false) :
    (h.insertElem (h.findBucket e) e).Wf ∧
      (h.insertElem (h.findBucket e) e).contents.Perm (e :: h.contents) := by
  have hperm : (h.insertElem (h.findBucket e) e).contents.Perm (e :: h.contents) :=
    flatten_pushFront_perm (hw.findBucket_lt e) e
  refine ⟨⟨?_, hw.pow2, hw.four_le, hw.placed.pushFront e, ?_, ?_⟩, hperm⟩
  · exact (length_pushFront _ _ _).trans hw.length
  · rw [hperm.length_eq, List.length_cons, ← hw.count]
    rfl
  · exact hperm.symm.pairwise (hw.distinct.cons (Lawful.isEquiv hl) hnone)
      (Lawful.isEquiv hl).false_symm

/-- `remove_elem` of the element at position `i` of bucket `b` takes it out of the table. -/
theorem Wf.removeElem (hw : h.Wf) (hl : Lawful h.hash h.less) {b i : Nat}
    (hb : b < h.bucketCnt) (hi : i < (h.bucket b).length) :
    (h.removeElem b i).Wf ∧ h.contents.Perm ((h.bucket b)[i] :: (h.removeElem b i).contents) := by
  have hb' : b < h.buckets.length := hw.length ▸ hb
  have hbucket : h.bucket b = h.buckets[b] := List.getD_eq_getElem _ _ hb'
  have hperm : h.contents.Perm ((h.bucket b)[i] :: (h.removeElem b i).contents) := by
    simp only [hbucket]
    exact flatten_eraseIdx_perm hb' (hbucket ▸ hi)
  have hdist := hw.distinct_of_perm hl hperm
  refine ⟨⟨?_, hw.pow2, hw.four_le, ?_, ?_, (List.pairwise_cons.mp hdist).2⟩, hperm⟩
  · show (h.buckets.modify b _).length = h.bucketCnt
    rw [List.length_modify, hw.length]
  · exact Placed.modify hw.placed _ (fun xs x hx => List.mem_of_mem_eraseIdx hx) b
  · have := hperm.length_eq
    rw [List.length_cons, ← hw.count] at this
    show h.elemCnt - 1 = _
    omega

/-- `rehash` keeps the invariant and the elements, whether its `malloc` succeeds or not. -/
theorem Wf.rehash (hw : h.Wf) (hl : Lawful h.hash h.less) (ok : Bool) :
    (h.rehash ok).Wf ∧ (h.rehash ok).contents.Perm h.contents := by
  unfold Hash.rehash
  dsimp only
  split_ifs
  · exact ⟨hw, List.Perm.refl _⟩
  · exact ⟨hw, List.Perm.refl _⟩
  · -- the new array: `idealBucketCnt` empty buckets, then every element moved in
    set n := h.idealBucketCnt with hn
    have hn4 : 4 ≤ n := h.four_le_idealBucketCnt
    have hkey : ∀ e, (h.hash e).toNat &&& (n - 1) < (List.replicate n ([] : List α)).length :=
      fun e => by
        rw [List.length_replicate]
        exact Nat.lt_of_le_of_lt Nat.and_le_right (by omega)
    obtain ⟨hlen, hperm, hplaced⟩ := scatter_spec _ h.buckets hkey
    have hperm' : (Buckets.scatter (fun e => (h.hash e).toNat &&& (n - 1))
        (List.replicate n []) h.buckets).flatten.Perm h.contents := by
      refine hperm.trans ?_
      simp only [List.flatten_replicate_nil, List.append_nil]
      exact List.reverse_perm _
    refine ⟨⟨?_, h.isPowerOfTwo_idealBucketCnt, hn4, hplaced (placed_replicate n), ?_, ?_⟩,
      hperm'⟩
    · exact hlen.trans List.length_replicate
    · exact hw.count.trans hperm'.length_eq.symm
    · exact hperm'.symm.pairwise hw.distinct (Lawful.isEquiv hl).false_symm

/-- Every element changed in place by an `f` that keeps its hash and its class: a caller's
store, through a pointer the table gave it, to fields that `hash` and `less` do not read. -/
theorem Wf.map (hw : h.Wf) (f : α → α) (hhash : ∀ x, h.hash (f x) = h.hash x)
    (hequal : ∀ x y, h.equal (f x) (f y) = h.equal x y) :
    ({ h with buckets := h.buckets.map (List.map f) } : Hash α).Wf ∧
      ({ h with buckets := h.buckets.map (List.map f) } : Hash α).contents = h.contents.map f := by
  have hcontents : ({ h with buckets := h.buckets.map (List.map f) } : Hash α).contents =
      h.contents.map f := by
    simp [contents, List.map_flatten]
  refine ⟨⟨by simp [hw.length], hw.pow2, hw.four_le, ?_, ?_, ?_⟩, hcontents⟩
  · -- `f` keeps the hash, so each element stays in the bucket of its hash
    intro b x hx
    simp only [List.getD_eq_getElem?_getD, List.getElem?_map] at hx
    cases hb : h.buckets[b]? with
    | none => simp [hb] at hx
    | some l =>
      obtain ⟨y, hy, rfl⟩ := List.mem_map.mp (by simpa [hb] using hx)
      have hplaced := hw.placed b y (by simpa [List.getD_eq_getElem?_getD, hb] using hy)
      rw [← hplaced]
      exact congrArg (· &&& (h.bucketCnt - 1)) (congrArg UInt32.toNat (hhash y))
  · rw [hcontents, List.length_map, ← hw.count]
  · rw [hcontents]
    exact List.pairwise_map.mpr (hw.distinct.imp fun {x y} hxy => (hequal x y).trans hxy)

end Hash

/-! ## The calls of `hash.h` -/

namespace Hash

section Calls

variable {h : Hash α} (hw : h.Wf) (hl : Lawful h.hash h.less)
include hw hl

/-- `hash_insert` inserts `e` unless an element equal to it is there, which it returns. -/
theorem Wf.insert_spec (e : α) (ok : Bool) :
    (hashInsert h e ok).1.Wf ∧
      (hashInsert h e ok).1.contents.Perm (ClassSet.insert h.equal h.contents e) ∧
      (hashInsert h e ok).2 = ClassSet.find h.equal h.contents e := by
  unfold HashTable.hashInsert
  dsimp only
  cases hf : h.findElem (h.bucket (h.findBucket e)) e with
  | none =>
    have hnone := (hw.findElem_eq_none_iff hl e).mp hf
    have hfind : ClassSet.find h.equal h.contents e = none :=
      (ClassSet.find_eq_none_iff _ _).mpr hnone
    obtain ⟨hw₁, hperm₁⟩ := hw.insertElem hl hnone
    obtain ⟨hw₂, hperm₂⟩ := hw₁.rehash hl ok
    refine ⟨hw₂, ?_, hfind.symm⟩
    rw [ClassSet.insert, hfind]
    exact hperm₂.trans hperm₁
  | some p =>
    obtain ⟨i, old⟩ := p
    obtain ⟨-, -, hold, hequal⟩ := findElem_eq_some hf
    have hfind : ClassSet.find h.equal h.contents e = some old :=
      (ClassSet.find_eq_some_iff (Lawful.isEquiv hl) hw.distinct).mpr ⟨hold, hequal⟩
    obtain ⟨hw₁, hperm₁⟩ := hw.rehash hl ok
    refine ⟨hw₁, ?_, hfind.symm⟩
    rw [ClassSet.insert, hfind]
    exact hperm₁

/-- The element equal to `e` at position `i` of its bucket, taken out: what is left has no
element equal to `e`, and is the set with the class of `e` erased. -/
theorem Wf.removeEqual {e old : α} {i : Nat}
    (hf : h.findElem (h.bucket (h.findBucket e)) e = some (i, old)) :
    let h₁ := h.removeElem (h.findBucket e) i
    h₁.Wf ∧ h₁.contents.Perm (ClassSet.erase h.equal h.contents e) ∧
      (∀ x ∈ h₁.contents, h.equal x e = false) ∧
      ClassSet.find h.equal h.contents e = some old := by
  obtain ⟨hi, hget, hold, hequal⟩ := findElem_eq_some hf
  obtain ⟨hw₁, hperm₁⟩ := hw.removeElem hl (hw.length ▸ hw.findBucket_lt e) hi
  rw [hget] at hperm₁
  have herase := ClassSet.erase_perm_of_perm_cons (Lawful.isEquiv hl) hw.distinct hperm₁ hequal
  refine ⟨hw₁, herase.symm, fun x hx => ?_,
    (ClassSet.find_eq_some_iff (Lawful.isEquiv hl) hw.distinct).mpr ⟨hold, hequal⟩⟩
  have hx' : x ∈ ClassSet.erase h.equal h.contents e := herase.mem_iff.mpr hx
  simpa [ClassSet.erase] using (List.mem_filter.mp hx').2

/-- `hash_replace` puts `e` in place of the element equal to it, which it returns. -/
theorem Wf.replace_spec (e : α) (ok : Bool) :
    (hashReplace h e ok).1.Wf ∧
      (hashReplace h e ok).1.contents.Perm (ClassSet.replace h.equal h.contents e) ∧
      (hashReplace h e ok).2 = ClassSet.find h.equal h.contents e := by
  unfold HashTable.hashReplace
  dsimp only
  cases hf : h.findElem (h.bucket (h.findBucket e)) e with
  | none =>
    have hnone := (hw.findElem_eq_none_iff hl e).mp hf
    obtain ⟨hw₁, hperm₁⟩ := hw.insertElem hl hnone
    obtain ⟨hw₂, hperm₂⟩ := hw₁.rehash hl ok
    refine ⟨hw₂, ?_, ((ClassSet.find_eq_none_iff _ _).mpr hnone).symm⟩
    rw [ClassSet.replace, ← ClassSet.erase, ClassSet.erase_eq_self hnone]
    exact hperm₂.trans hperm₁
  | some p =>
    obtain ⟨i, old⟩ := p
    obtain ⟨hw₁, hperm₁, hnone₁, hfind⟩ := hw.removeEqual hl hf
    obtain ⟨hw₂, hperm₂⟩ := hw₁.insertElem hl hnone₁
    obtain ⟨hw₃, hperm₃⟩ := hw₂.rehash hl ok
    refine ⟨hw₃, ?_, hfind.symm⟩
    exact hperm₃.trans (hperm₂.trans (hperm₁.cons e))

/-- `hash_delete` takes out the element equal to `e` and returns it. -/
theorem Wf.delete_spec (e : α) (ok : Bool) :
    (hashDelete h e ok).1.Wf ∧
      (hashDelete h e ok).1.contents.Perm (ClassSet.erase h.equal h.contents e) ∧
      (hashDelete h e ok).2 = ClassSet.find h.equal h.contents e := by
  unfold HashTable.hashDelete
  dsimp only
  cases hf : h.findElem (h.bucket (h.findBucket e)) e with
  | none =>
    have hnone := (hw.findElem_eq_none_iff hl e).mp hf
    refine ⟨hw, ?_, ((ClassSet.find_eq_none_iff _ _).mpr hnone).symm⟩
    rw [ClassSet.erase_eq_self hnone]
  | some p =>
    obtain ⟨i, old⟩ := p
    obtain ⟨hw₁, hperm₁, -, hfind⟩ := hw.removeEqual hl hf
    obtain ⟨hw₂, hperm₂⟩ := hw₁.rehash hl ok
    exact ⟨hw₂, hperm₂.trans hperm₁, hfind.symm⟩

end Calls

theorem Wf.clear_spec {h : Hash α} (hw : h.Wf) : (hashClear h).Wf ∧ (hashClear h).contents = [] := by
  have hnil : (hashClear h).contents = [] := by
    simp [hashClear, Hash.contents]
  refine ⟨⟨by simp [hashClear, hw.length], hw.pow2, hw.four_le, ?_, ?_, ?_⟩, hnil⟩
  · intro b x hx
    simp [hashClear, List.getD_eq_getElem?_getD] at hx
  · rw [hnil]; rfl
  · rw [hnil]; exact List.Pairwise.nil

end Hash

/-! ## Iteration

An iterator stands before the elements it has still to give (`remaining`): from the head of a
bucket, the whole bucket and the buckets after it; from an element, the rest of its bucket and
the buckets after it. `hash_next` gives the first of them and moves past it, and gives `NULL`
only when none is left, so the loop of `hash_first` and `hash_next` visits `contents`. -/

namespace Hash

variable (h : Hash α)

/-- The elements from position `k` of bucket `b` to the end of the table. -/
def after (b k : Nat) : List α := (h.bucket b).drop k ++ (h.buckets.drop (b + 1)).flatten

/-- The elements an iterator has still to give. -/
def remaining (it : Iterator) : List α :=
  match it.elem with
  | .head => h.after it.bucket 0
  | .elem k => h.after it.bucket (k + 1)
  | .null => []

/-- The element an iterator points at (`hash_cur`). -/
def current (it : Iterator) : Option α :=
  match it.elem with
  | .elem k => (h.bucket it.bucket)[k]?
  | _ => none

theorem hashNext_snd (it : Iterator) : (hashNext h it).2 = h.current (hashNext h it).1 := rfl

theorem flatten_drop (b : Nat) :
    (h.buckets.drop b).flatten = h.bucket b ++ (h.buckets.drop (b + 1)).flatten := by
  by_cases hb : b < h.buckets.length
  · rw [List.drop_eq_getElem_cons hb, List.flatten_cons, bucket, List.getD_eq_getElem _ _ hb]
  · have hb' : h.buckets.length ≤ b := by omega
    simp [bucket, List.getD_eq_getElem?_getD, List.getElem?_eq_none hb',
      List.drop_eq_nil_of_le hb', List.drop_eq_nil_of_le (Nat.le_succ_of_le hb')]

theorem after_zero_zero : h.after 0 0 = h.contents := by
  rw [after, List.drop_zero, ← flatten_drop, List.drop_zero]
  rfl

/-- The `while` loop of `hash_next`: from position `k` of bucket `b` it stops at the first
element left, or at `NULL` when there is none. -/
theorem after_skipEnds (hlen : h.buckets.length = h.bucketCnt) (b k : Nat) :
    h.after b k = match h.current (skipEnds h b k) with
      | none => []
      | some e => e :: h.remaining (skipEnds h b k) := by
  induction b, k using skipEnds.induct h with
  | case1 b k hk =>
    rw [skipEnds, if_pos hk]
    simp only [current, remaining, List.getElem?_eq_getElem hk, after]
    rw [List.drop_eq_getElem_cons hk, List.cons_append]
  | case2 b k hk hend =>
    rw [skipEnds, if_neg hk, if_pos hend]
    simp only [current, after]
    rw [List.drop_eq_nil_of_le (by omega), List.drop_eq_nil_of_le (by omega)]
    rfl
  | case3 b k hk hend ih =>
    rw [skipEnds, if_neg hk, if_neg hend, ← ih, after, after, List.drop_zero,
      List.drop_eq_nil_of_le (by omega), List.nil_append, flatten_drop]

/-- `hash_next` gives the first element the iterator has left and moves past it, or gives
`NULL` when it has none left. -/
theorem remaining_hashNext (hlen : h.buckets.length = h.bucketCnt) (it : Iterator) :
    h.remaining it = match (hashNext h it).2 with
      | none => []
      | some e => e :: h.remaining (hashNext h it).1 := by
  obtain ⟨b, k⟩ := it
  rw [hashNext_snd]
  cases k with
  | head => exact h.after_skipEnds hlen b 0
  | elem k => exact h.after_skipEnds hlen b (k + 1)
  | null => rfl

/-- The loop ends within one more call than the iterator has elements left, having visited
them all in order. -/
theorem visit_eq (hlen : h.buckets.length = h.bucketCnt) (fuel : Nat) (it : Iterator)
    (hfuel : (h.remaining it).length < fuel) : visit h fuel it = some (h.remaining it) := by
  induction fuel generalizing it with
  | zero => cases hfuel
  | succ fuel ih =>
    have hnext := h.remaining_hashNext hlen it
    rcases hn : hashNext h it with ⟨it', _ | e⟩
    · -- `NULL`: nothing was left
      rw [hn] at hnext
      dsimp only at hnext
      rw [visit, hn, hnext]
    · rw [hn] at hnext
      dsimp only at hnext
      rw [hnext, List.length_cons] at hfuel
      rw [visit, hn, hnext]
      dsimp only
      rw [ih it' (by omega), Option.map_some]

theorem hashApply_eq {σ : Type} (action : σ → α → σ) (s : σ) :
    hashApply h action s = h.contents.foldl action s := by
  rw [contents, List.foldl_flatten]
  rfl

/-- `hash_clear` calls its destructor on the elements in the order `hash_apply` does. -/
theorem hashClearDestructor_eq (hlen : h.buckets.length = h.bucketCnt) {σ : Type}
    (destructor : σ → α → σ) (s : σ) :
    hashClearDestructor h destructor s = h.contents.foldl destructor s := by
  have hbuckets : (List.range h.bucketCnt).map h.bucket = h.buckets := by
    refine List.ext_getElem (by simp [hlen]) fun i h₁ h₂ => ?_
    simp [bucket, List.getElem?_eq_getElem h₂]
  rw [hashClearDestructor, ← h.hashApply_eq, hashApply, ← hbuckets, List.foldl_map]

end Hash

/-- Iterating a table as `hash.c` says, with `hash_first` and then `hash_next` until it returns
`NULL`, visits every element once, bucket by bucket, in the order `hash_apply` applies its
action: the loop ends after `hash_size + 1` calls, and an action run in its body computes what
`hash_apply` computes. -/
theorem hash_iteration_visits_contents {h : Hash α} (hlen : h.buckets.length = h.bucketCnt)
    {fuel : Nat} (hfuel : h.contents.length < fuel) {σ : Type} (action : σ → α → σ) (s : σ) :
    visit h fuel hashFirst = some h.contents ∧
      (visit h fuel hashFirst).map (·.foldl action s) = some (hashApply h action s) := by
  have hvisit : visit h fuel hashFirst = some h.contents := by
    rw [← h.after_zero_zero] at hfuel ⊢
    exact h.visit_eq hlen fuel hashFirst hfuel
  refine ⟨hvisit, ?_⟩
  rw [hvisit, Option.map_some, h.hashApply_eq]

/-- Two numbers in the first and third of four buckets, summed by the loop. -/
theorem hash_iteration_visits_contents_sum :
    (visit (⟨2, 4, [[5], [], [2], []], fun n : Nat => hashInt n.toUInt32,
        fun a b => decide (a < b)⟩ : Hash Nat) 3 hashFirst).map (·.foldl (· + ·) 0) =
      some (hashApply (⟨2, 4, [[5], [], [2], []], fun n : Nat => hashInt n.toUInt32,
        fun a b => decide (a < b)⟩ : Hash Nat) (· + ·) 0) :=
  (hash_iteration_visits_contents rfl (by decide) _ _).2

/-! ## Runs of calls -/

/-- A call on a table: `hash_insert`, `hash_replace` and `hash_delete` with the outcome of the
`malloc` of their `rehash`, `hash_find` and `hash_clear`. -/
inductive Call (α : Type) where
  | insert (e : α) (ok : Bool)
  | replace (e : α) (ok : Bool)
  | delete (e : α) (ok : Bool)
  | find (e : α)
  | clear

namespace Call

/-- The call on a table: the table after it and what it returned (`NULL` for `hash_clear`). -/
def apply (h : Hash α) : Call α → Hash α × Option α
  | insert e ok => hashInsert h e ok
  | replace e ok => hashReplace h e ok
  | delete e ok => hashDelete h e ok
  | find e => (h, hashFind h e)
  | clear => (hashClear h, none)

/-- The same call on a set of `ClassSet`. -/
def spec (eqv : α → α → Bool) (s : List α) : Call α → List α × Option α
  | insert e _ => (ClassSet.insert eqv s e, ClassSet.find eqv s e)
  | replace e _ => (ClassSet.replace eqv s e, ClassSet.find eqv s e)
  | delete e _ => (ClassSet.erase eqv s e, ClassSet.find eqv s e)
  | find e => (s, ClassSet.find eqv s e)
  | clear => ([], none)

end Call

/-- The calls one after the other: the table at the end and what each call returned. -/
def runCalls (h : Hash α) : List (Call α) → Hash α × List (Option α)
  | [] => (h, [])
  | c :: cs => ((runCalls (c.apply h).1 cs).1, (c.apply h).2 :: (runCalls (c.apply h).1 cs).2)

/-- The same calls on a set. -/
def specCalls (eqv : α → α → Bool) (s : List α) : List (Call α) → List α × List (Option α)
  | [] => (s, [])
  | c :: cs =>
    ((specCalls eqv (c.spec eqv s).1 cs).1, (c.spec eqv s).2 :: (specCalls eqv (c.spec eqv s).1 cs).2)

namespace Hash

variable {h : Hash α}

/-- No call changes `hash` or `less`. -/
theorem hash_less_apply (c : Call α) : (c.apply h).1.hash = h.hash ∧ (c.apply h).1.less = h.less := by
  cases c with
  | insert e ok =>
    simp only [Call.apply, HashTable.hashInsert]
    split <;> simp [insertElem]
  | replace e ok =>
    simp only [Call.apply, HashTable.hashReplace]
    split <;> simp [insertElem, removeElem]
  | delete e ok =>
    simp only [Call.apply, HashTable.hashDelete]
    split <;> simp [removeElem]
  | find e => exact ⟨rfl, rfl⟩
  | clear => exact ⟨rfl, rfl⟩

theorem equal_apply (c : Call α) : (c.apply h).1.equal = h.equal := by
  funext a b
  simp [equal, (hash_less_apply c).2]

/-- One call, against the same call on a set that the table holds. -/
theorem Wf.apply_spec (hw : h.Wf) (hl : Lawful h.hash h.less) {s : List α}
    (hs : h.contents.Perm s) (c : Call α) :
    (c.apply h).1.Wf ∧ (c.apply h).1.contents.Perm (c.spec h.equal s).1 ∧
      (c.apply h).2 = (c.spec h.equal s).2 := by
  have he := Lawful.isEquiv hl
  have hfind := ClassSet.find_perm he hs hw.distinct
  cases c with
  | insert e ok =>
    obtain ⟨hw', hperm, hret⟩ := hw.insert_spec hl e ok
    exact ⟨hw', hperm.trans (ClassSet.Perm.insert he hs hw.distinct e), hret.trans (hfind e)⟩
  | replace e ok =>
    obtain ⟨hw', hperm, hret⟩ := hw.replace_spec hl e ok
    exact ⟨hw', hperm.trans (ClassSet.Perm.replace hs e), hret.trans (hfind e)⟩
  | delete e ok =>
    obtain ⟨hw', hperm, hret⟩ := hw.delete_spec hl e ok
    exact ⟨hw', hperm.trans (ClassSet.Perm.erase hs e), hret.trans (hfind e)⟩
  | find e => exact ⟨hw, hs, (hw.hashFind_eq hl e).trans (hfind e)⟩
  | clear =>
    obtain ⟨hw', hnil⟩ := hw.clear_spec
    exact ⟨hw', .of_eq hnil, rfl⟩

/-- A run of calls, against the same calls on a set that the table holds. -/
theorem Wf.runCalls_spec (hw : h.Wf) (hl : Lawful h.hash h.less) {s : List α}
    (hs : h.contents.Perm s) (cs : List (Call α)) :
    (runCalls h cs).1.Wf ∧ (runCalls h cs).1.contents.Perm (specCalls h.equal s cs).1 ∧
      (runCalls h cs).2 = (specCalls h.equal s cs).2 := by
  induction cs generalizing h s with
  | nil => exact ⟨hw, hs, rfl⟩
  | cons c cs ih =>
    obtain ⟨hw₁, hs₁, hret⟩ := hw.apply_spec hl hs c
    have hl₁ : Lawful (c.apply h).1.hash (c.apply h).1.less := by
      rw [(hash_less_apply c).1, (hash_less_apply c).2]
      exact hl
    obtain ⟨hw', hs', hrets⟩ := ih hw₁ hl₁ hs₁
    rw [equal_apply] at hs' hrets
    exact ⟨hw', hs', by rw [runCalls, specCalls, hret, hrets]⟩

end Hash

theorem wf_hashInit {hash : α → UInt32} {less : α → α → Bool} {h : Hash α}
    (hinit : hashInit hash less true = some h) : h.Wf ∧ h.contents = [] := by
  cases hinit
  refine ⟨⟨rfl, ⟨2, rfl⟩, Nat.le_refl 4, placed_replicate 4, rfl, List.Pairwise.nil⟩, rfl⟩

/-- A table from `hash_init`, after any sequence of `hash_insert`, `hash_replace`,
`hash_delete`, `hash_find` and `hash_clear`, with any outcome of the allocations of `rehash`,
is well formed. It holds, up to order, the set of `ClassSet` the same calls build from the empty
set, and each call returns what the call of the same name on that set returns. -/
theorem hash_refines_class_set {hash : α → UInt32} {less : α → α → Bool} (hl : Lawful hash less)
    {h : Hash α} (hinit : hashInit hash less true = some h) (cs : List (Call α)) :
    (runCalls h cs).1.Wf ∧
      (runCalls h cs).1.contents.Perm (specCalls (fun a b => !less a b && !less b a) [] cs).1 ∧
      (runCalls h cs).2 = (specCalls (fun a b => !less a b && !less b a) [] cs).2 := by
  obtain ⟨hw, hnil⟩ := wf_hashInit hinit
  have hh : h.hash = hash ∧ h.less = less := by cases hinit; exact ⟨rfl, rfl⟩
  have hl' : Lawful h.hash h.less := hh.1 ▸ hh.2 ▸ hl
  have := hw.runCalls_spec hl' (s := []) (by rw [hnil]) cs
  rwa [show h.equal = fun a b => !less a b && !less b a by
    funext a b; simp [Hash.equal, hh.2]] at this

/-- Tables ordered by a number, as the supplemental page table is by `upage`
(`spt_hash_hash_func` and `spt_hash_less_func` of `vm/page.c`): `hash_int` of the key and `<`
on keys. -/
theorem lawful_of_key (key : α → Nat) :
    Lawful (fun e => hashInt (key e).toUInt32) (fun a b => decide (key a < key b)) where
  irrefl a := by simp
  incomp_trans a b c hab hbc := by
    simp only [Bool.and_eq_true, Bool.not_eq_true', decide_eq_false_iff_not, Nat.not_lt] at *
    omega
  hash_eq a b hab := by
    simp only [Bool.and_eq_true, Bool.not_eq_true', decide_eq_false_iff_not, Nat.not_lt] at hab
    rw [Nat.le_antisymm hab.2 hab.1]

/-- A table of numbers: inserting 3 twice, deleting it with a failed `rehash` and finding it
return `NULL`, 3, 3 and `NULL`. -/
theorem hash_refines_class_set_numbers :
    (runCalls ⟨0, 4, List.replicate 4 [], fun n : Nat => hashInt n.toUInt32,
        fun a b => decide (a < b)⟩ [.insert 3 true, .insert 3 true, .delete 3 false, .find 3]).2 =
      [none, some 3, some 3, none] := by
  have hl : Lawful (fun n : Nat => hashInt n.toUInt32) (fun a b => decide (a < b)) :=
    lawful_of_key id
  rw [(hash_refines_class_set hl rfl _).2.2]
  decide

/-! ## The bucket count follows the element count -/

namespace Hash

variable (h : Hash α)

end Hash

namespace Call

end Call

namespace Hash

variable {h : Hash α}

end Hash

end Pintos.HashTable
