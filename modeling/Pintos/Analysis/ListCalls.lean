import Pintos.Analysis.ListLoops

/-!
# Runs of calls on a kernel list

The kernel keeps its queues in `list.c` lists and touches them through a handful of calls: a
thread goes to the back of the ready list or of a semaphore's waiters by `list_push_back`, the
sleeping threads are kept in order by `list_insert_ordered`, the next thread to run or to wake is
the `list_max` of a queue or its `list_pop_front`, a thread leaves a queue by `list_remove`, and
the scheduler counts the ready threads by `list_size`.
`Call` names these calls, `Call.apply` makes one on a list in memory and `Call.spec` says what it
does to the sequence the list holds, with `none` where the code's precondition fails: an element
pushed is already a cell of the list, a list popped is empty, an element removed is not in it.

Each call is one of the lemmas of `Pintos.Analysis.List` and `Pintos.Analysis.ListLoops`, so
the step lemma `Call.apply_spec` is a case split over the calls, and the run lemma
`list_calls_refine` an induction over the run: from a list that holds a sequence, every run of
calls the sequence allows returns what the calls on the sequence return, and the list holds
their result at the end. The walks of `list_insert_ordered`, `list_max` and `list_size` need fuel for the
longest list of the run; one more than the starting length and the number of calls is enough,
since no call adds more than one element.
-/

set_option autoImplicit false

namespace Pintos.KernelList

open DList

/-- A call a kernel queue makes on its list. -/
inductive Call where
  | pushFront (e : Nat)
  | pushBack (e : Nat)
  | insertOrdered (less : Nat → Nat → Bool) (e : Nat)
  | popFront
  | popBack
  | remove (e : Nat)
  | front
  | size
  | max (less : Nat → Nat → Bool)

namespace Call

/-- The call on the list `l` in memory, with `fuel` for the walks: the memory after it and the
element it returns, or `none` where the code stops. -/
def apply (l : ListStruct) (fuel : Nat) (m : Mem) : Call → Option (Mem × Option Nat)
  | pushFront e => (listPushFront m l e).map fun m' => (m', none)
  | pushBack e => (listPushBack m l e).map fun m' => (m', none)
  | insertOrdered less e => (listInsertOrdered m less l e fuel).map fun m' => (m', none)
  | popFront => (listPopFront m l).map fun r => (r.1, some r.2)
  | popBack => (listPopBack m l).map fun r => (r.1, some r.2)
  | remove e => (listRemove m e).map fun r => (r.1, some r.2)
  | front => (listFront m l).map fun e => (m, some e)
  | size => (listSize m l fuel).map fun n => (m, some n)
  | max less => (listMax m less l fuel).map fun e => (m, some e)

/-- The call on the sequence `xs` the list holds: the sequence after it and the element it
returns, or `none` where its precondition fails. `list_remove` returns the element after the one
removed, the list's tail after the last one; `list_max` of an empty list returns the tail. -/
def spec (l : ListStruct) (xs : List Nat) : Call → Option (List Nat × Option Nat)
  | pushFront e => if e ∈ l.head :: (xs ++ [l.tail]) then none else some (e :: xs, none)
  | pushBack e => if e ∈ l.head :: (xs ++ [l.tail]) then none else some (xs ++ [e], none)
  | insertOrdered less e =>
    if e ∈ l.head :: (xs ++ [l.tail]) then none
    else some (OrderedList.insertOrdered less e xs, none)
  | popFront => xs.head?.map fun e => (xs.tail, some e)
  | popBack => xs.getLast?.map fun e => (xs.dropLast, some e)
  | remove e =>
    if e ∈ xs then some (xs.erase e, some (((xs.dropWhile (· != e)).drop 1).headD l.tail))
    else none
  | front => xs.head?.map fun e => (xs, some e)
  | size => some (xs, some xs.length)
  | max less => some (xs, some ((OrderedList.listMax less xs).getD l.tail))

end Call

/-- A run of calls on the list `l` in memory: the memory at the end and what each call
returned, or `none` where one of them stops. -/
def runCalls (l : ListStruct) (fuel : Nat) (m : Mem) : List Call → Option (Mem × List (Option Nat))
  | [] => some (m, [])
  | c :: cs => (c.apply l fuel m).bind fun r =>
    (runCalls l fuel r.1 cs).map fun s => (s.1, r.2 :: s.2)

/-- The same calls on the sequence the list holds. -/
def specCalls (l : ListStruct) (xs : List Nat) : List Call → Option (List Nat × List (Option Nat))
  | [] => some (xs, [])
  | c :: cs => (c.spec l xs).bind fun r =>
    (specCalls l r.1 cs).map fun s => (s.1, r.2 :: s.2)

variable {m : Mem} {l : ListStruct} {xs ys : List Nat}

theorem dropWhile_ne_append {e : Nat} {zs : List Nat} (hnot : e ∉ ys) :
    (ys ++ e :: zs).dropWhile (· != e) = e :: zs := by
  induction ys with
  | nil => exact List.dropWhile_cons_of_neg (by simp)
  | cons y ys ih =>
    have hy : y ≠ e := fun hy => hnot (hy ▸ List.mem_cons_self)
    rw [List.cons_append, List.dropWhile_cons_of_pos (by simpa using hy),
      ih (fun he => hnot (List.mem_cons_of_mem y he))]

/-- No call adds more than one element to the sequence. -/
theorem Call.length_spec {c : Call} {out : Option Nat} (hspec : c.spec l xs = some (ys, out)) :
    ys.length ≤ xs.length + 1 := by
  cases c with
  | pushFront e | pushBack e =>
    simp only [Call.spec] at hspec
    split at hspec <;> cases hspec
    simp
  | insertOrdered less e =>
    simp only [Call.spec] at hspec
    split at hspec <;> cases hspec
    rw [(OrderedList.insertOrdered_perm less e xs).length_eq]
    simp
  | popFront | popBack =>
    simp only [Call.spec] at hspec
    obtain ⟨x, -, hys⟩ := Option.map_eq_some_iff.mp hspec
    cases hys
    simp only [List.length_tail, List.length_dropLast]
    omega
  | front =>
    obtain ⟨x, -, hys⟩ := Option.map_eq_some_iff.mp hspec
    cases hys
    omega
  | remove e =>
    simp only [Call.spec] at hspec
    split at hspec <;> cases hspec
    have := List.length_erase_le (a := e) (l := xs)
    omega
  | size | max less =>
    cases hspec
    omega

/-- One call on a list that holds `xs` does what the call does on `xs`. -/
theorem Call.apply_spec (h : Holds m l.head l.tail xs) {c : Call} {out : Option Nat}
    (hspec : c.spec l xs = some (ys, out)) {fuel : Nat} (hfuel : xs.length < fuel) :
    ∃ m', c.apply l fuel m = some (m', out) ∧ Holds m' l.head l.tail ys := by
  cases c with
  | pushFront e =>
    simp only [Call.spec] at hspec
    split at hspec
    · cases hspec
    · cases hspec
      obtain ⟨m', hpush, hm', -⟩ := listPushFront_spec h (by assumption)
      exact ⟨m', by rw [Call.apply, hpush]; rfl, hm'⟩
  | pushBack e =>
    simp only [Call.spec] at hspec
    split at hspec
    · cases hspec
    · cases hspec
      obtain ⟨m', hpush, hm', -⟩ := listPushBack_spec h (by assumption)
      exact ⟨m', by rw [Call.apply, hpush]; rfl, hm'⟩
  | insertOrdered less e =>
    simp only [Call.spec] at hspec
    split at hspec
    · cases hspec
    · cases hspec
      obtain ⟨m', hins, hm', -⟩ := listInsertOrdered_spec less h (by assumption) hfuel
      exact ⟨m', by rw [Call.apply, hins]; rfl, hm'⟩
  | popFront =>
    cases xs with
    | nil => cases hspec
    | cons x xs =>
      cases hspec
      obtain ⟨m', hpop, hm', -⟩ := listPopFront_spec h
      exact ⟨m', by rw [Call.apply, hpop]; rfl, hm'⟩
  | popBack =>
    simp only [Call.spec] at hspec
    obtain ⟨x, hlast, hys⟩ := Option.map_eq_some_iff.mp hspec
    cases hys
    have hxs : xs = xs.dropLast ++ [x] := (List.dropLast_append_getLast? x hlast).symm
    obtain ⟨m', hpop, hm', -⟩ := listPopBack_spec (show Holds m l.head l.tail (xs.dropLast ++ [x]) by
      rwa [← hxs])
    exact ⟨m', by rw [Call.apply, hpop]; rfl, hm'⟩
  | remove e =>
    simp only [Call.spec] at hspec
    split at hspec
    · cases hspec
      -- the element removed stands at a cut, and is in the list only once
      obtain ⟨ys', zs', rfl⟩ := List.append_of_mem (by assumption : e ∈ xs)
      have h' : Holds m l.head l.tail (ys' ++ [e] ++ zs') := by
        rwa [List.append_assoc, List.singleton_append]
      have hnot : e ∉ ys' := fun he => (h'.block_apart.2 e (List.mem_singleton_self e))
        (List.mem_cons_of_mem _ (List.mem_append_left _ (List.mem_append_left _ he)))
      obtain ⟨m', hrem, hm', -⟩ := listRemove_spec h
      refine ⟨m', ?_, ?_⟩
      · rw [Call.apply, hrem, dropWhile_ne_append hnot]
        rfl
      · rwa [List.erase_append_right _ hnot, List.erase_cons_head]
    · cases hspec
  | front =>
    cases xs with
    | nil => cases hspec
    | cons x xs =>
      cases hspec
      exact ⟨m, by rw [Call.apply, listFront_eq h]; rfl, h⟩
  | size =>
    cases hspec
    exact ⟨m, by rw [Call.apply, listSize_eq h hfuel]; rfl, h⟩
  | max less =>
    cases hspec
    exact ⟨m, by rw [Call.apply, listMax_eq less h hfuel]; rfl, h⟩

/-- Every run of the kernel's queue calls on a `list.c` list refines the same calls on the
sequence it holds: from a list that holds `xs`, where the calls on `xs` meet their
preconditions, the run returns what they return, and the list holds what they leave. -/
theorem list_calls_refine (h : Holds m l.head l.tail xs) {cs : List Call}
    {outs : List (Option Nat)} (hspec : specCalls l xs cs = some (ys, outs)) {fuel : Nat}
    (hfuel : xs.length + cs.length < fuel) :
    ∃ m', runCalls l fuel m cs = some (m', outs) ∧ Holds m' l.head l.tail ys := by
  -- induction on the run, the sequence and the memory generalized; the fuel bound loses one
  -- call and gains at most one element per step
  induction cs generalizing m xs outs with
  | nil =>
    cases hspec
    exact ⟨m, rfl, h⟩
  | cons c cs ih =>
    obtain ⟨⟨xs', out⟩, hc, hrest⟩ := Option.bind_eq_some_iff.mp hspec
    obtain ⟨⟨ys', outs'⟩, hrun, hys⟩ := Option.map_eq_some_iff.mp hrest
    cases hys
    have hlen := Call.length_spec hc
    simp only [List.length_cons] at hfuel
    obtain ⟨m₁, happly, hm₁⟩ := Call.apply_spec h hc (show xs.length < fuel by omega)
    obtain ⟨m', hruns, hm'⟩ := ih hm₁ hrun (by omega)
    exact ⟨m', by rw [runCalls, happly, Option.bind_some, hruns]; rfl, hm'⟩

/-- From `list_init`: a thread pushed, another inserted in order, the maximum read and the
front popped, and the rest counted. -/
theorem list_calls_refine_init :
    ∃ m', runCalls ⟨0, 1⟩ 6 (listInit (fun _ => ⟨none, none⟩) ⟨0, 1⟩)
        [.pushBack 5, .insertOrdered (fun a b => decide (a < b)) 3,
          .max (fun a b => decide (a < b)), .popFront, .size] =
        some (m', [none, none, some 5, some 3, some 1]) ∧
      Holds m' 0 1 [5] :=
  list_calls_refine (holds_listInit (by decide)) (by decide) (by decide)

end Pintos.KernelList
