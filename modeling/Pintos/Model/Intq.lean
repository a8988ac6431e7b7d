import Pintos.Model.Sched

/-!
# Interrupt queues (`devices/intq.c`) on the scheduler

An `intq` is a circular buffer of `INTQ_BUFSIZE` bytes shared by kernel threads and
interrupt handlers: `head` is where the next byte goes, `tail` where the next one comes
from, and the queue is full one byte short of the buffer (intq.c:28-31). `q->lock` lets one
thread at a time wait, in the registers `not_full` and `not_empty`.

`intq_getc` (intq.c:36-53) and `intq_putc` (intq.c:58-73) run with interrupts off, so the
only places another thread runs in the middle of one are where it blocks (`lock_acquire`,
and `thread_block` in `wait`) and where `thread_unblock` in `signal` switches to a thread of
higher priority (thread.c:282-286): `signal` (intq.c:99-108) clears the register only after
`thread_unblock` returns. A thread's place in this code is its `Pc`; the lock calls are the
scheduler model's `Call.acquire` and `Call.release`, whose statements the thread runs as
`Event.kernel`. Everything else of one call up to the next such place runs in one step.

An interrupt handler runs a whole call at once: it may not wait, and `thread_unblock` from a
handler switches only when the handler returns (`intr_yield_on_return`). The `ASSERT`s of
`wait`, `signal` and the loops are the `panicked` flag.
-/

set_option autoImplicit false

namespace Pintos.Devices

open Pintos.Sched

def INTQ_BUFSIZE : Nat := 64

/-- `next (pos)`: the position after `pos` round the buffer. -/
def next (pos : Nat) : Nat := (pos + 1) % INTQ_BUFSIZE

/-- The two registers `wait` and `signal` are given. -/
inductive Waiter where
  | notFull
  | notEmpty
  deriving DecidableEq, Repr

/-- `struct intq`; `lock` is the number of `q->lock` among the kernel's locks. -/
structure Intq where
  lock : Nat
  notFull : Option Tid
  notEmpty : Option Tid
  buf : List UInt8
  head : Nat
  tail : Nat
  deriving DecidableEq, Repr

namespace Intq

variable (q : Intq)

/-- `intq_empty (q)`. -/
def empty : Bool := q.head == q.tail

/-- `intq_full (q)`. -/
def full : Bool := next q.head == q.tail

def waiter : Waiter → Option Tid
  | .notFull => q.notFull
  | .notEmpty => q.notEmpty

def setWaiter : Waiter → Option Tid → Intq
  | .notFull, t => { q with notFull := t }
  | .notEmpty, t => { q with notEmpty := t }

/-- What `wait` asserts of the queue for the register it is given. -/
def waitCond : Waiter → Bool
  | .notFull => q.full
  | .notEmpty => q.empty

/-- What `signal` asserts of the queue for the register it is given. -/
def signalCond : Waiter → Bool
  | .notFull => !q.full
  | .notEmpty => !q.empty

/-- `q->buf[q->head] = byte; q->head = next (q->head);` -/
def push (byte : UInt8) : Intq := { q with buf := q.buf.set q.head byte, head := next q.head }

/-- `byte = q->buf[q->tail]; q->tail = next (q->tail);`: the byte and the queue after. -/
def pop : UInt8 × Intq := (q.buf.getD q.tail 0, { q with tail := next q.tail })

end Intq

/-- Where a thread is in the code of `intq.c`. -/
inductive Pc where
  /-- In its own code. -/
  | outside
  /-- `intq_getc`: the test `intq_empty (q)` of its loop, or the read after it. -/
  | getTest
  /-- `intq_getc`, `q->lock` taken: `wait (q, &q->not_empty)`. -/
  | getWait
  /-- `intq_getc`, back from `wait`: `lock_release (&q->lock)`. -/
  | getRelease
  /-- `intq_getc`, the byte read: `signal (q, &q->not_full)`. -/
  | getSignal (byte : UInt8)
  /-- In that `signal`, after `thread_unblock`: `*waiter = NULL`. -/
  | getClear (byte : UInt8)
  /-- `intq_putc (q, byte)`: the test `intq_full (q)` of its loop, or the write after it. -/
  | putTest (byte : UInt8)
  /-- `intq_putc`, `q->lock` taken: `wait (q, &q->not_full)`. -/
  | putWait (byte : UInt8)
  /-- `intq_putc`, back from `wait`: `lock_release (&q->lock)`. -/
  | putRelease (byte : UInt8)
  /-- `intq_putc`, the byte written: `signal (q, &q->not_empty)`. -/
  | putSignal
  /-- In that `signal`, after `thread_unblock`: `*waiter = NULL`. -/
  | putClear
  deriving DecidableEq, Repr

/-- The kernel, one queue, each thread's place in `intq.c`, and the bytes written into the
buffer and read out of it, in order. -/
structure System where
  kernel : Kernel
  q : Intq
  pc : Tid → Pc
  stored : List UInt8
  taken : List UInt8
  panicked : Bool

/-- The two calls. -/
inductive IntqCall where
  | getc
  | putc (byte : UInt8)
  deriving DecidableEq, Repr

namespace System

variable (s : System)

/-- The running thread is in its own code, with interrupts on. -/
def inOwnCode : Prop :=
  s.pc s.kernel.running = .outside ∧ (s.kernel.thread s.kernel.running).ops = []

instance : Decidable s.inOwnCode := inferInstanceAs (Decidable (_ ∧ _))

/-- The running thread moves to `p`. -/
def goto (p : Pc) : System := { s with pc := Function.update s.pc s.kernel.running p }

/-- The running thread starts a kernel call and goes on at `p` once it returns. -/
def callKernel (c : Call) (p : Pc) : System :=
  { s.goto p with kernel := startCall s.kernel c }

/-- `wait (q, waiter)`: `*waiter = thread_current (); thread_block ();`, the thread going
on at `p` when it runs again. -/
def wait (w : Waiter) (p : Pc) : System :=
  if s.q.waitCond w then
    { s.goto p with q := s.q.setWaiter w (some s.kernel.running), kernel := threadBlock s.kernel }
  else { s with panicked := true }

/-- `signal (q, waiter)` up to `thread_unblock`: with a waiter, unblock it, which may switch
to it at once, and clear the register at `p` when this thread runs on; with none, return
from the call. -/
def signal (w : Waiter) (p : Pc) : System :=
  if s.q.signalCond w then
    match s.q.waiter w with
    | some t => { s.goto p with kernel := threadUnblock s.kernel t }
    | none => s.goto .outside
  else { s with panicked := true }

/-- `*waiter = NULL`, and return from the call. -/
def clear (w : Waiter) : System := { s.goto .outside with q := s.q.setWaiter w none }

/-- One statement of the running thread in `intq.c`. -/
def intqStep : System :=
  match s.pc s.kernel.running with
  | .outside => s
  | .getTest =>
      if s.q.empty then s.callKernel (.acquire s.q.lock) .getWait
      else
        let (byte, q) := s.q.pop
        { s.goto (.getSignal byte) with q := q, taken := s.taken ++ [byte] }
  | .getWait => s.wait .notEmpty .getRelease
  | .getRelease => s.callKernel (.release s.q.lock) .getTest
  | .getSignal byte => s.signal .notFull (.getClear byte)
  | .getClear _ => s.clear .notFull
  | .putTest byte =>
      if s.q.full then s.callKernel (.acquire s.q.lock) (.putWait byte)
      else { s.goto .putSignal with q := s.q.push byte, stored := s.stored ++ [byte] }
  | .putWait byte => s.wait .notFull (.putRelease byte)
  | .putRelease byte => s.callKernel (.release s.q.lock) (.putTest byte)
  | .putSignal => s.signal .notEmpty .putClear
  | .putClear => s.clear .notEmpty

/-- `thread_unblock (t)` from an interrupt handler: no switch, but whether it asks for
`intr_yield_on_return`. -/
def threadUnblockIntr (k : Kernel) (t : Tid) : Kernel × Bool :=
  let k' := { k.modifyThread t (fun th => { th with status := .ready }) with ready := k.ready ++ [t] }
  (k', decide (¬ k'.idling ∧ k'.prio k'.running < k'.prio t))

/-- `signal (q, waiter)` in an interrupt handler, to its end, and whether it asks for a
yield. -/
def signalIntr (w : Waiter) : System × Bool :=
  if s.q.signalCond w then
    match s.q.waiter w with
    | some t =>
        let (k, yield) := threadUnblockIntr s.kernel t
        ({ s with kernel := k, q := s.q.setWaiter w none }, yield)
    | none => (s, false)
  else ({ s with panicked := true }, false)

/-- An interrupt handler calls `intq_getc` or `intq_putc` and runs it to the end, then the
interrupted thread yields if the call asked for it. A handler finds the queue empty or
full only to fail the loop's `ASSERT (!intr_context ())`. -/
def handlerCall : IntqCall → System
  | .getc =>
      if s.q.empty then { s with panicked := true }
      else
        let (byte, q) := s.q.pop
        let (s', yield) := signalIntr { s with q := q, taken := s.taken ++ [byte] } .notFull
        if yield then { s' with kernel := threadYield s'.kernel } else s'
  | .putc byte =>
      if s.q.full then { s with panicked := true }
      else
        let (s', yield) :=
          signalIntr { s with q := s.q.push byte, stored := s.stored ++ [byte] } .notEmpty
        if yield then { s' with kernel := threadYield s'.kernel } else s'

end System

/-- What happens next: the running thread, in its own code, calls `intq_getc` or
`intq_putc` or another kernel call, or an interrupt handler or the timer interrupts it;
or the running thread runs its next statement in `intq.c` or in a kernel call. -/
inductive Event where
  | call (c : IntqCall)
  | kernelCall (c : Call)
  | handler (c : IntqCall)
  | tick
  | intq
  | kernel

def step (s : System) : Event → System
  | .call c =>
      if s.inOwnCode ∧ ¬ s.kernel.idling ∧ s.panicked = false then
        s.goto (match c with
          | .getc => .getTest
          | .putc byte => .putTest byte)
      else s
  | .kernelCall c =>
      if s.inOwnCode ∧ s.panicked = false then { s with kernel := startCall s.kernel c } else s
  | .handler c => if s.inOwnCode ∧ s.panicked = false then s.handlerCall c else s
  | .tick => if s.inOwnCode ∧ s.panicked = false then { s with kernel := timerTick s.kernel } else s
  | .intq =>
      if (s.kernel.thread s.kernel.running).ops = [] ∧ s.panicked = false then s.intqStep else s
  | .kernel =>
      if (s.kernel.thread s.kernel.running).ops ≠ [] ∧ s.panicked = false then
        { s with kernel := stepOp s.kernel }
      else s

def run (s : System) (evs : List Event) : System := evs.foldl step s

/-- `intq_init (q)` with `q->lock` the kernel's lock `lock`, every thread in its own code. -/
def init (k : Kernel) (lock : Nat) : System :=
  { kernel := k, q := ⟨lock, none, none, List.replicate INTQ_BUFSIZE 0, 0, 0⟩,
    pc := fun _ => .outside, stored := [], taken := [], panicked := false }

end Pintos.Devices
