import Pintos.Lib.DList
import Pintos.Lib.OrderedList

/-!
# Doubly linked lists (`lib/kernel/list.c`)

A `struct list_elem` is a cell of a `DList.Mem` at its address, with its `prev` and `next`
pointers, `NULL` being `none`; a `struct list` is its two sentinel elements `head` and `tail`,
by their addresses. The structure that contains an element is out of the model: a
`list_less_func` is a function of the addresses of two elements, and its `aux` argument is
left out.

A failed `ASSERT` or a dereference of `NULL` stops the kernel: the function returns `none`. A
loop that walks a list runs at most `fuel` rounds and returns `none` when they run out; on a
well-formed list of `n` elements, `n + 1` rounds are enough for each loop.
-/

set_option autoImplicit false

namespace Pintos.KernelList

open DList

/-- The memory of `list_elem`s, by address. -/
abbrev Mem := DList.Mem Nat

/-- `struct list`: the addresses of its `head` and `tail` elements. -/
structure ListStruct where
  head : Nat
  tail : Nat
  deriving DecidableEq, Repr

variable (m : Mem)

/-- `is_head (elem)`. -/
def isHead (e : Nat) : Bool := (m e).prev.isNone && (m e).next.isSome

/-- `is_interior (elem)`. -/
def isInterior (e : Nat) : Bool := (m e).prev.isSome && (m e).next.isSome

/-- `is_tail (elem)`. -/
def isTail (e : Nat) : Bool := (m e).prev.isSome && (m e).next.isNone

/-- `list_init (list)`. -/
def listInit (l : ListStruct) : Mem :=
  (((m.setPrev l.head none).setNext l.head (some l.tail)).setPrev l.tail (some l.head)).setNext
    l.tail none

/-- `list_begin (list)`: `list->head.next`. -/
def listBegin (l : ListStruct) : Option Nat := (m l.head).next

/-- `list_next (elem)`. -/
def listNext (e : Nat) : Option Nat := if isHead m e || isInterior m e then (m e).next else none

/-- `list_end (list)`: the address of `list->tail`. -/
def listEnd (l : ListStruct) : Nat := l.tail

/-- `list_rbegin (list)`: `list->tail.prev`. -/
def listRbegin (l : ListStruct) : Option Nat := (m l.tail).prev

/-- `list_prev (elem)`. -/
def listPrev (e : Nat) : Option Nat := if isInterior m e || isTail m e then (m e).prev else none

/-- `list_insert (before, elem)`. -/
def listInsert (before elem : Nat) : Option Mem :=
  if isInterior m before || isTail m before then
    let m := (m.setPrev elem (m before).prev).setNext elem (some before)
    (m before).prev.map fun p => (m.setNext p (some elem)).setPrev before (some elem)
  else none

/-- `list_splice (before, first, last)`: `first` up to `last` (exclusive) taken out of their list
and put before `before`. -/
def listSplice (before first last : Nat) : Option Mem :=
  if isInterior m before || isTail m before then
    if first = last then some m
    else (listPrev m last).bind fun last =>
      if isInterior m first && isInterior m last then
        -- remove `first ... last` from its list
        (m first).prev.bind fun fp =>
        let m := m.setNext fp (m last).next
        (m last).next.bind fun ln =>
        let m := m.setPrev ln (m first).prev
        -- and put it before `before`
        let m := (m.setPrev first (m before).prev).setNext last (some before)
        (m before).prev.map fun bp => (m.setNext bp (some first)).setPrev before (some last)
      else none
  else none

/-- `list_push_front (list, elem)`. -/
def listPushFront (l : ListStruct) (elem : Nat) : Option Mem :=
  (listBegin m l).bind fun b => listInsert m b elem

/-- `list_push_back (list, elem)`. -/
def listPushBack (l : ListStruct) (elem : Nat) : Option Mem := listInsert m (listEnd l) elem

/-- `list_remove (elem)`: the memory and the element that followed `elem`. -/
def listRemove (elem : Nat) : Option (Mem × Nat) :=
  if isInterior m elem then
    (m elem).prev.bind fun p =>
    let m := m.setNext p (m elem).next
    (m elem).next.bind fun n =>
    let m := m.setPrev n (m elem).prev
    (m elem).next.map fun r => (m, r)
  else none

/-- `list_empty (list)`. -/
def listEmpty (l : ListStruct) : Bool := listBegin m l == some (listEnd l)

/-- `list_front (list)`. -/
def listFront (l : ListStruct) : Option Nat := if listEmpty m l then none else (m l.head).next

/-- `list_back (list)`. -/
def listBack (l : ListStruct) : Option Nat := if listEmpty m l then none else (m l.tail).prev

/-- `list_pop_front (list)`: the memory and the element removed. -/
def listPopFront (l : ListStruct) : Option (Mem × Nat) :=
  (listFront m l).bind fun front => (listRemove m front).map fun r => (r.1, front)

/-- `list_pop_back (list)`. -/
def listPopBack (l : ListStruct) : Option (Mem × Nat) :=
  (listBack m l).bind fun back => (listRemove m back).map fun r => (r.1, back)

/-- The loop of `list_size` at `e`, having counted `cnt`. -/
def sizeLoop (l : ListStruct) : Nat → Nat → Nat → Option Nat
  | 0, _, _ => none
  | fuel + 1, e, cnt =>
    if e = listEnd l then some cnt else (listNext m e).bind fun e => sizeLoop l fuel e (cnt + 1)

/-- `list_size (list)`. -/
def listSize (l : ListStruct) (fuel : Nat) : Option Nat :=
  (listBegin m l).bind fun b => sizeLoop m l fuel b 0

/-- `swap (&e->prev, &e->next)`. -/
def swapLinks (e : Nat) : Mem := (m.setPrev e (m e).next).setNext e (m e).prev

/-- The loop of `list_reverse` at `e`: its links swapped, then on to its `prev`, which was its
`next`. -/
def reverseLoop (tail : Nat) : Nat → Mem → Nat → Option Mem
  | 0, _, _ => none
  | fuel + 1, m, e =>
    if e = tail then some m
    else (swapLinks m e e).prev.bind fun e' => reverseLoop tail fuel (swapLinks m e) e'

/-- `list_reverse (list)`. -/
def listReverse (l : ListStruct) (fuel : Nat) : Option Mem :=
  if listEmpty m l then some m
  else (listBegin m l).bind fun b => (reverseLoop l.tail fuel m b).bind fun m =>
    -- `swap (&list->head.next, &list->tail.prev)`
    let m := (m.setNext l.head (m l.tail).prev).setPrev l.tail (m l.head).next
    -- `swap (&list->head.next->prev, &list->tail.prev->next)`
    (m l.head).next.bind fun x => (m l.tail).prev.map fun y =>
      (m.setPrev x (m y).next).setNext y (m x).prev

variable (less : Nat → Nat → Bool)

/-- The loop of `is_sorted` at `a`. -/
def isSortedLoop (b : Nat) : Nat → Nat → Option Bool
  | 0, _ => none
  | fuel + 1, a =>
    (listNext m a).bind fun a =>
      if a = b then some true
      else (listPrev m a).bind fun p => if less a p then some false else isSortedLoop b fuel a

/-- `is_sorted (a, b, less, aux)`. -/
def isSorted (a b fuel : Nat) : Option Bool :=
  if a ≠ b then isSortedLoop m less b fuel a else some true

/-- The `do ... while` loop of `find_end_of_run` at `a`. -/
def findEndOfRunLoop (b : Nat) : Nat → Nat → Option Nat
  | 0, _ => none
  | fuel + 1, a =>
    (listNext m a).bind fun a =>
      if a = b then some a
      else (listPrev m a).bind fun p => if less a p then some a else findEndOfRunLoop b fuel a

/-- `find_end_of_run (a, b, less, aux)`. -/
def findEndOfRun (a b fuel : Nat) : Option Nat :=
  if a = b then none else findEndOfRunLoop m less b fuel a

/-- The loop of `inplace_merge`: an element of the second run that is `less` than `a0` is
spliced in before it. -/
def mergeLoop (b1 : Nat) : Nat → Mem → Nat → Nat → Option Mem
  | 0, _, _, _ => none
  | fuel + 1, m, a0, a1b0 =>
    if a0 ≠ a1b0 ∧ a1b0 ≠ b1 then
      if !less a1b0 a0 then (listNext m a0).bind fun a0 => mergeLoop b1 fuel m a0 a1b0
      else (listNext m a1b0).bind fun a1b0 => (listPrev m a1b0).bind fun p =>
        (listSplice m a0 p a1b0).bind fun m => mergeLoop b1 fuel m a0 a1b0
    else some m

/-- `inplace_merge (a0, a1b0, b1, less, aux)`. -/
def inplaceMerge (a0 a1b0 b1 fuel : Nat) : Option Mem :=
  (isSorted m less a0 a1b0 fuel).bind fun s₁ => (isSorted m less a1b0 b1 fuel).bind fun s₂ =>
    if s₁ && s₂ then mergeLoop less b1 fuel m a0 a1b0 else none

/-- The `for` loop of one pass of `list_sort` at `a0`, having output `cnt` runs: the memory and
`output_run_cnt`. -/
def sortPass (l : ListStruct) (fuel : Nat) : Nat → Mem → Nat → Nat → Option (Mem × Nat)
  | 0, _, _, _ => none
  | steps + 1, m, a0, cnt =>
    if a0 = listEnd l then some (m, cnt)
    else (findEndOfRun m less a0 (listEnd l) fuel).bind fun a1b0 =>
      if a1b0 = listEnd l then some (m, cnt + 1)
      else (findEndOfRun m less a1b0 (listEnd l) fuel).bind fun b1 =>
        (inplaceMerge m less a0 a1b0 b1 fuel).bind fun m => sortPass l fuel steps m b1 (cnt + 1)

/-- The `do ... while (output_run_cnt > 1)` loop of `list_sort`, then its final `ASSERT`. -/
def sortLoop (l : ListStruct) (fuel : Nat) : Nat → Mem → Option Mem
  | 0, _ => none
  | passes + 1, m =>
    (listBegin m l).bind fun b => (sortPass less l fuel fuel m b 0).bind fun r =>
      if r.2 > 1 then sortLoop l fuel passes r.1
      else (listBegin r.1 l).bind fun b => (isSorted r.1 less b (listEnd l) fuel).bind fun s =>
        if s then some r.1 else none

/-- `list_sort (list, less, aux)`. -/
def listSort (l : ListStruct) (fuel : Nat) : Option Mem := sortLoop less l fuel fuel m

/-- The loop of `list_insert_ordered` at `e`: where `elem` goes. -/
def insertOrderedLoop (l : ListStruct) (elem : Nat) : Nat → Nat → Option Nat
  | 0, _ => none
  | fuel + 1, e =>
    if e = listEnd l then some e
    else if less elem e then some e
    else (listNext m e).bind fun e => insertOrderedLoop l elem fuel e

/-- `list_insert_ordered (list, elem, less, aux)`. -/
def listInsertOrdered (l : ListStruct) (elem fuel : Nat) : Option Mem :=
  (listBegin m l).bind fun b => (insertOrderedLoop m less l elem fuel b).bind fun e =>
    listInsert m e elem

/-- The `while` loop of `list_unique` at `elem`. -/
def uniqueLoop (l : ListStruct) (duplicates : Option ListStruct) : Nat → Mem → Nat → Option Mem
  | 0, _, _ => none
  | fuel + 1, m, elem =>
    (listNext m elem).bind fun next =>
      if next = listEnd l then some m
      else if !less elem next && !less next elem then
        (listRemove m next).bind fun r =>
          match duplicates with
          | none => uniqueLoop l duplicates fuel r.1 elem
          | some d => (listPushBack r.1 d next).bind fun m => uniqueLoop l duplicates fuel m elem
      else uniqueLoop l duplicates fuel m next

/-- `list_unique (list, duplicates, less, aux)`. -/
def listUnique (l : ListStruct) (duplicates : Option ListStruct) (fuel : Nat) : Option Mem :=
  if listEmpty m l then some m
  else (listBegin m l).bind fun b => uniqueLoop less l duplicates fuel m b

/-- The `for` loop of `list_max` at `e`, with the maximum so far: it is replaced by an element
it is `less` than. -/
def maxLoop (l : ListStruct) : Nat → Nat → Nat → Option Nat
  | 0, _, _ => none
  | fuel + 1, max, e =>
    if e = listEnd l then some max
    else (listNext m e).bind fun e' => maxLoop l fuel (OrderedList.maxStep less max e) e'

/-- `list_max (list, less, aux)`: the list's tail when it is empty. -/
def listMax (l : ListStruct) (fuel : Nat) : Option Nat :=
  (listBegin m l).bind fun max =>
    if max = listEnd l then some max else (listNext m max).bind fun e => maxLoop m less l fuel max e

/-- `list_min (list, less, aux)`: `list_max` with the comparison turned round, as
`if (less (e, min, aux))` is `if (less (max, e, aux))` with the arguments swapped. -/
def listMin (l : ListStruct) (fuel : Nat) : Option Nat := listMax m (fun a b => less b a) l fuel

end Pintos.KernelList
