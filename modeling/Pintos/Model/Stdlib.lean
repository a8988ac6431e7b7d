import Mathlib

/-!
# `lib/stdlib.c` and `lib/ctype.h`: `atoi`

A string is the list of its bytes; the end of the list reads as the terminator `'\0'`, which
is neither white space nor a digit. C's `int` is `Int` within `INT_MIN .. INT_MAX`, and an
operation whose exact result leaves that range, which C leaves undefined, is `none`
(`intOp`). The `ASSERT (s != NULL)` of `atoi` has no counterpart: a list is a string.

`atoi` (stdlib.c:9-41) skips white space, reads one optional sign, and accumulates the
digits negatively, `value = value * 10 - (*s - '0')`, so that `INT_MIN` is reached; it
negates the value at the end unless the sign was `'-'`.

`sort` (stdlib.c:134-152) is a heap sort over an array of `cnt` elements of `size` bytes
with 1-based indices: element `idx` is the `size` bytes at `array + (idx - 1) * size`
(`elementAt`). `heapify` floats element `i` down: `max` is the largest of `i` and its
children `2 * i` and `2 * i + 1` up to `cnt`, and while it is not `i` the two are swapped
and `i` moves to `max`. That `max` is a child up to `cnt` is what ends the loop
(`heapifyMax_eq_or`). `binary_search` (stdlib.c:183-207) narrows a byte window
`[first, last)` by whole elements. The array is the list of its bytes and a pointer into it
an offset; `compare` is a function of the two elements' bytes, with `aux` part of it, and
`qsort` and `bsearch` pass theirs through `compare_thunk`, which is `compare` itself here.
The `ASSERT (size > 0)` of `sort` is the `none` result; `array != NULL` and
`compare != NULL` hold of a list and a function.
-/

set_option autoImplicit false

namespace Pintos.Stdlib

/-- `isspace` (ctype.h:12-15): space, `'\f'`, `'\n'`, `'\r'`, `'\t'` and `'\v'`. -/
def isspace (c : UInt8) : Bool :=
  c == 32 || c == 12 || c == 10 || c == 13 || c == 9 || c == 11

/-- `isdigit` (ctype.h:7). -/
def isdigit (c : UInt8) : Bool := 48 ≤ c && c ≤ 57

def INT_MIN : Int := -2 ^ 31

def INT_MAX : Int := 2 ^ 31 - 1

/-- The result of an `int` operation: its exact value while `int` holds it. -/
def intOp (x : Int) : Option Int := if INT_MIN ≤ x ∧ x ≤ INT_MAX then some x else none

/-- `while (isspace ((unsigned char) *s)) s++;` -/
def skipSpace : List UInt8 → List UInt8
  | [] => []
  | c :: s => if isspace c then skipSpace s else c :: s

/-- The optional sign: whether it is `'-'`, and the string after it. -/
def parseSign : List UInt8 → Bool × List UInt8
  | [] => (false, [])
  | c :: s => if c = 43 then (false, s) else if c = 45 then (true, s) else (false, c :: s)

/-- `for (; isdigit (*s); s++) value = value * 10 - (*s - '0');` from `value`. -/
def parseDigits (value : Int) : List UInt8 → Option Int
  | [] => some value
  | c :: s =>
      if isdigit c then do
        let v ← intOp (value * 10)
        let v ← intOp (v - ((c.toNat : Int) - 48))
        parseDigits v s
      else some value

/-- `atoi (s)`. -/
def atoi (s : List UInt8) : Option Int :=
  let (negative, s) := parseSign (skipSpace s)
  match parseDigits 0 s with
  | some value => if negative then some value else intOp (-value)
  | none => none

/-! ## Sorting and searching -/

/-- The `size` bytes of the element with 1-based index `idx`, at `array + (idx - 1) * size`. -/
def elementAt (array : List UInt8) (idx size : Nat) : List UInt8 :=
  (array.drop ((idx - 1) * size)).take size

/-- `do_swap (array, a_idx, b_idx, size)`: `for (i = 0; i < size; i++)` exchanges byte `i` of
the two elements through `t`. -/
def doSwap (array : List UInt8) (aIdx bIdx size : Nat) : List UInt8 :=
  let a := (aIdx - 1) * size
  let b := (bIdx - 1) * size
  (List.range size).foldl
    (fun array i =>
      let t := array.getD (a + i) 0
      (array.set (a + i) (array.getD (b + i) 0)).set (b + i) t)
    array

/-- `do_compare (array, a_idx, b_idx, size, compare, aux)`. -/
def doCompare (compare : List UInt8 → List UInt8 → Int) (array : List UInt8)
    (aIdx bIdx size : Nat) : Int :=
  compare (elementAt array aIdx size) (elementAt array bIdx size)

/-- `max` in `heapify`: the index of the largest of element `i` and its children up to `cnt`,
the left child first. -/
def heapifyMax (compare : List UInt8 → List UInt8 → Int) (array : List UInt8)
    (i cnt size : Nat) : Nat :=
  let left := 2 * i
  let right := 2 * i + 1
  let max := if left ≤ cnt ∧ doCompare compare array left i size > 0 then left else i
  if right ≤ cnt ∧ doCompare compare array right max size > 0 then right else max

/-- `max` stays at `i` or moves to a child up to `cnt`, which lies after `i`. -/
theorem heapifyMax_eq_or (compare : List UInt8 → List UInt8 → Int) (array : List UInt8)
    (i cnt size : Nat) :
    heapifyMax compare array i cnt size = i ∨
      (i < heapifyMax compare array i cnt size ∧ heapifyMax compare array i cnt size ≤ cnt) := by
  unfold heapifyMax
  dsimp only
  split_ifs <;> omega

/-- `heapify (array, i, cnt, size, compare, aux)`: the `for (;;)` loop, which ends because
`i` grows and stays at most `cnt`. -/
def heapify (compare : List UInt8 → List UInt8 → Int) (array : List UInt8)
    (i cnt size : Nat) : List UInt8 :=
  let max := heapifyMax compare array i cnt size
  if max = i then array
  else heapify compare (doSwap array i max size) max cnt size
termination_by cnt + 1 - i
decreasing_by
  have := heapifyMax_eq_or compare array i cnt size
  omega

/-- `for (i = cnt / 2; i > 0; i--) heapify (array, i, cnt, ...)`, from `i`. -/
def buildHeap (compare : List UInt8 → List UInt8 → Int) (cnt size : Nat) :
    List UInt8 → Nat → List UInt8
  | array, 0 => array
  | array, i + 1 => buildHeap compare cnt size (heapify compare array (i + 1) cnt size) i

/-- `for (i = cnt; i > 1; i--) { do_swap (array, 1, i, size); heapify (array, 1, i - 1, ...); }`,
from `i`. -/
def sortHeap (compare : List UInt8 → List UInt8 → Int) (size : Nat) :
    List UInt8 → Nat → List UInt8
  | array, i + 2 =>
      sortHeap compare size (heapify compare (doSwap array 1 (i + 2) size) 1 (i + 1) size) (i + 1)
  | array, _ => array

/-- `sort (array, cnt, size, compare, aux)`. -/
def sort (compare : List UInt8 → List UInt8 → Int) (array : List UInt8) (cnt size : Nat) :
    Option (List UInt8) :=
  if size > 0 then some (sortHeap compare size (buildHeap compare cnt size array (cnt / 2)) cnt)
  else none

/-- `qsort (array, cnt, size, compare)`: `sort` through `compare_thunk`. -/
def qsort (array : List UInt8) (cnt size : Nat) (compare : List UInt8 → List UInt8 → Int) :
    Option (List UInt8) :=
  sort compare array cnt size

/-- The middle of a window of whole elements lies before its end. -/
theorem middle_lt {first last size : Nat} (h : first < last) (hsize : 0 < size) :
    first + (last - first) / size / 2 * size < last := by
  have hdiv : (last - first) / size * size ≤ last - first := Nat.div_mul_le_self _ _
  rcases Nat.eq_zero_or_pos ((last - first) / size) with h0 | hpos
  · rw [h0]
    omega
  · have hhalf : (last - first) / size / 2 * size < (last - first) / size * size :=
      Nat.mul_lt_mul_of_pos_right (Nat.div_lt_self hpos (by decide)) hsize
    omega

/-- The `while (first < last)` loop of `binary_search`, with `first` and `last` byte offsets
into the array: the offset of the element it finds, or `none` for `NULL`. -/
def binarySearchLoop (compare : List UInt8 → List UInt8 → Int) (key array : List UInt8)
    (size : Nat) (hsize : 0 < size) (first last : Nat) : Option Nat :=
  if first < last then
    let range := (last - first) / size
    let middle := first + (range / 2) * size
    let cmp := compare key ((array.drop middle).take size)
    if cmp < 0 then binarySearchLoop compare key array size hsize first middle
    else if cmp > 0 then binarySearchLoop compare key array size hsize (middle + size) last
    else some middle
  else none
termination_by last - first
decreasing_by
  · have := middle_lt (by assumption) hsize
    omega
  · omega

/-- `binary_search (key, array, cnt, size, compare, aux)`. With `size = 0` the window
`[array, array + size * cnt)` is empty and the loop does not run: `NULL`. -/
def binarySearch (compare : List UInt8 → List UInt8 → Int) (key array : List UInt8)
    (cnt size : Nat) : Option Nat :=
  if hsize : 0 < size then binarySearchLoop compare key array size hsize 0 (size * cnt)
  else none

/-- `bsearch (key, array, cnt, size, compare)`: `binary_search` through `compare_thunk`. -/
def bsearch (key array : List UInt8) (cnt size : Nat) (compare : List UInt8 → List UInt8 → Int) :
    Option Nat :=
  binarySearch compare key array cnt size

end Pintos.Stdlib
