import Pintos.Lib.Buckets

/-!
# Hash tables (`lib/kernel/hash.c`)

A `struct hash` holds `elem_cnt`, `bucket_cnt`, the array of buckets and the functions
`hash` and `less`. A bucket is a `struct list` of `hash_elem`s; here it is the list of its
elements from `list_begin` to `list_end`, so `list_push_front` is a `cons` and the
`list_remove` of the element `find_elem` found erases it at the position where it was found.
The table is generic in the element type `α`, with `hash` and `less` as functions of `α`; the
`aux` argument they are passed is the table's own and is left out. `size_t` counts are `Nat`:
`rehash` keeps `bucket_cnt` at most `elem_cnt`, and the index `hash & (bucket_cnt - 1)` is
below `bucket_cnt`, so nothing wraps.

`hash_init` and `rehash` call `malloc`, which may fail; whether it succeeds is an argument
(`ok`). A failed `rehash` leaves the table as it was (hash.c:359-367). `hash_destroy` frees the
bucket array and `hash_clear`'s destructor, if any, is called on each element before its bucket
is emptied: neither is table state that a later call reads.
-/

set_option autoImplicit false

namespace Pintos.HashTable

/-- `struct hash`. -/
structure Hash (α : Type) where
  elemCnt : Nat
  bucketCnt : Nat
  buckets : List (List α)
  hash : α → UInt32
  less : α → α → Bool

variable {α : Type}

namespace Hash

variable (h : Hash α)

/-- The bucket at index `b` of `h->buckets`. -/
def bucket (b : Nat) : List α := h.buckets.getD b []

/-- `find_bucket (h, e)`: the index `hash (e) & (bucket_cnt - 1)`. -/
def findBucket (e : α) : Nat := (h.hash e).toNat &&& (h.bucketCnt - 1)

/-- The test `find_elem` makes: neither `less (hi, e)` nor `less (e, hi)`. -/
def equal (hi e : α) : Bool := !h.less hi e && !h.less e hi

/-- The loop of `find_elem` over a bucket from position `i`: the position and element of the
first element equal to `e`, or `NULL`. -/
def findElemFrom (e : α) : Nat → List α → Option (Nat × α)
  | _, [] => none
  | i, hi :: rest => if h.equal hi e then some (i, hi) else findElemFrom e (i + 1) rest

/-- `find_elem (h, bucket, e)`. -/
def findElem (bucket : List α) (e : α) : Option (Nat × α) := h.findElemFrom e 0 bucket

/-- `insert_elem (h, bucket, e)`: `elem_cnt++` and `list_push_front`. -/
def insertElem (b : Nat) (e : α) : Hash α :=
  { h with elemCnt := h.elemCnt + 1, buckets := Buckets.pushFront h.buckets b e }

/-- `remove_elem (h, e)` for the element at position `i` of bucket `b`: `elem_cnt--` and
`list_remove`. -/
def removeElem (b i : Nat) : Hash α :=
  { h with elemCnt := h.elemCnt - 1, buckets := h.buckets.modify b (·.eraseIdx i) }

end Hash

/-- `turn_off_least_1bit (x)`. -/
def turnOffLeast1bit (x : Nat) : Nat := x &&& (x - 1)

/-- `is_power_of_2 (x)`. -/
def isPowerOf2 (x : Nat) : Bool := x != 0 && turnOffLeast1bit x == 0

/-- `while (!is_power_of_2 (x)) x = turn_off_least_1bit (x);` in `rehash`. The loop does not
end from 0, which `rehash` never gives it (it starts from 4 or more); here 0 is returned. -/
def clearToPowerOf2 (x : Nat) : Nat :=
  if x = 0 then 0
  else if isPowerOf2 x then x
  else clearToPowerOf2 (turnOffLeast1bit x)
termination_by x
decreasing_by exact Nat.lt_of_le_of_lt Nat.and_le_right (by omega)

def MIN_ELEMS_PER_BUCKET : Nat := 1
def BEST_ELEMS_PER_BUCKET : Nat := 2
def MAX_ELEMS_PER_BUCKET : Nat := 4

namespace Hash

variable (h : Hash α)

/-- The bucket count `rehash` aims at: `elem_cnt / BEST_ELEMS_PER_BUCKET`, at least 4,
turned into a power of 2. -/
def idealBucketCnt : Nat := clearToPowerOf2 (max (h.elemCnt / BEST_ELEMS_PER_BUCKET) 4)

/-- `rehash (h)`, where `ok` is whether the `malloc` of the new bucket array succeeds: with
the new array installed, each element of each old bucket, in order, is pushed to the front
of its new bucket. -/
def rehash (ok : Bool) : Hash α :=
  let newBucketCnt := h.idealBucketCnt
  if newBucketCnt = h.bucketCnt then h
  else if !ok then h
  else
    let h' := { h with bucketCnt := newBucketCnt, buckets := List.replicate newBucketCnt [] }
    { h' with buckets := Buckets.scatter h'.findBucket h'.buckets h.buckets }

end Hash

/-- `hash_init (h, hash, less, aux)`: `none` when the `malloc` of the four buckets fails. -/
def hashInit (hash : α → UInt32) (less : α → α → Bool) (ok : Bool) : Option (Hash α) :=
  if ok then some ⟨0, 4, List.replicate 4 [], hash, less⟩ else none

/-- `hash_clear (h, destructor)`: every bucket emptied and `elem_cnt = 0`. -/
def hashClear (h : Hash α) : Hash α :=
  { h with buckets := h.buckets.map fun _ => [], elemCnt := 0 }

/-- The calls of `destructor` that `hash_clear (h, destructor)` makes, with their effect a
state `σ` it threads: for each of the `bucket_cnt` buckets in order, each element popped from
its front. -/
def hashClearDestructor {σ : Type} (h : Hash α) (destructor : σ → α → σ) (s : σ) : σ :=
  (List.range h.bucketCnt).foldl (fun s i => (h.bucket i).foldl destructor s) s

/-- `hash_insert (h, new)`: the element equal to `new`, if there is one, else `NULL` and `new`
inserted; then `rehash`. -/
def hashInsert (h : Hash α) (new : α) (ok : Bool) : Hash α × Option α :=
  let bucket := h.findBucket new
  match h.findElem (h.bucket bucket) new with
  | none => ((h.insertElem bucket new).rehash ok, none)
  | some (_, old) => (h.rehash ok, some old)

/-- `hash_replace (h, new)`: `new` inserted in place of the element equal to it, which is
returned. -/
def hashReplace (h : Hash α) (new : α) (ok : Bool) : Hash α × Option α :=
  let bucket := h.findBucket new
  match h.findElem (h.bucket bucket) new with
  | none => ((h.insertElem bucket new).rehash ok, none)
  | some (i, old) => (((h.removeElem bucket i).insertElem bucket new).rehash ok, some old)

/-- `hash_find (h, e)`. -/
def hashFind (h : Hash α) (e : α) : Option α :=
  (h.findElem (h.bucket (h.findBucket e)) e).map Prod.snd

/-- `hash_delete (h, e)`: the element equal to `e` removed and returned; `rehash` only when
one was found. -/
def hashDelete (h : Hash α) (e : α) (ok : Bool) : Hash α × Option α :=
  let bucket := h.findBucket e
  match h.findElem (h.bucket bucket) e with
  | none => (h, none)
  | some (i, found) => ((h.removeElem bucket i).rehash ok, some found)

/-- `hash_size (h)`. -/
def hashSize (h : Hash α) : Nat := h.elemCnt

/-- `hash_empty (h)`. -/
def hashEmpty (h : Hash α) : Bool := h.elemCnt == 0

/-- `hash_apply (h, action)`, with the action's effect a state `σ` it threads: the buckets in
order, each from its front. -/
def hashApply {σ : Type} (h : Hash α) (action : σ → α → σ) (s : σ) : σ :=
  h.buckets.foldl (fun s bucket => bucket.foldl action s) s

/-! ## Iterators -/

/-- What `i->elem` points at: the list head of the current bucket (before its first
element), the element at a position of it, or `NULL` at the end of the table. -/
inductive Cursor where
  | head
  | elem (k : Nat)
  | null
  deriving DecidableEq, Repr

/-- `struct hash_iterator`: the current bucket and element. -/
structure Iterator where
  bucket : Nat
  elem : Cursor
  deriving DecidableEq, Repr

/-- `hash_first (i, h)`. -/
def hashFirst : Iterator := ⟨0, .head⟩

/-- The `while` loop of `hash_next`: at position `k` of bucket `b`, stepping over the ends of
buckets to the first element of the next bucket, or to `NULL` past the last bucket. -/
def skipEnds (h : Hash α) (b k : Nat) : Iterator :=
  if k < (h.bucket b).length then ⟨b, .elem k⟩
  else if b + 1 ≥ h.bucketCnt then ⟨b + 1, .null⟩
  else skipEnds h (b + 1) 0
termination_by h.bucketCnt - b

/-- `hash_next (i)`: the iterator moved to the next element, and that element (`hash_cur`),
or `NULL`. The source dereferences `NULL` when called again after the end; that call is
`NULL` here. -/
def hashNext (h : Hash α) (it : Iterator) : Iterator × Option α :=
  let it' := match it.elem with
    | .head => skipEnds h it.bucket 0
    | .elem k => skipEnds h it.bucket (k + 1)
    | .null => it
  (it', match it'.elem with
    | .elem k => (h.bucket it'.bucket)[k]?
    | _ => none)

/-- The loop `hash_first (&i, h); while (hash_next (&i)) ...` that `hash.c` gives for iterating,
with at most `fuel` calls of `hash_next`: the elements the body sees, in order, or `none` if the
loop has not ended after `fuel` calls. -/
def visit (h : Hash α) : Nat → Iterator → Option (List α)
  | 0, _ => none
  | fuel + 1, it =>
    match hashNext h it with
    | (_, none) => some []
    | (it', some e) => (visit h fuel it').map (e :: ·)

/-! ## Hash functions -/

def FNV_32_PRIME : UInt32 := 16777619
def FNV_32_BASIS : UInt32 := 2166136261

/-- `hash_bytes (buf, size)`: the 32-bit Fowler-Noll-Vo hash of the bytes. -/
def hashBytes (buf : List UInt8) : UInt32 :=
  buf.foldl (fun hash b => (hash * FNV_32_PRIME) ^^^ b.toUInt32) FNV_32_BASIS

/-- `hash_string (s)`: the bytes before the NUL. -/
def hashString (s : List UInt8) : UInt32 :=
  hashBytes (s.takeWhile (· ≠ 0))

/-- `hash_int (i)`: `hash_bytes (&i, sizeof i)`, the four bytes of `i` in memory order
(little-endian on the 80x86). -/
def hashInt (i : UInt32) : UInt32 :=
  hashBytes [i.toUInt8, (i >>> 8).toUInt8, (i >>> 16).toUInt8, (i >>> 24).toUInt8]

end Pintos.HashTable
