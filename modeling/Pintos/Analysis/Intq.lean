import Pintos.Model.Intq

/-!
# A reader of an interrupt queue can lose its wake-up

`signal` wakes the thread in the register and only then clears the register. When the
woken thread has the higher priority, `thread_unblock` switches to it at once, before the
clear. If that thread takes the byte, calls `intq_getc` again on the now empty queue and
waits, it writes itself into `not_empty` — and the signaller, back at last, clears the
register it has just filled. The reader is blocked with no register naming it: the next
`intq_putc` signals nobody, and the reader stays blocked with a byte in the queue.

`lostWakeup` is such a run from `boot`: `main` (priority 31) and a reader created at
priority 40, with `q->lock` the kernel's lock 0 (`intq_getc_wakeup_lost`; `lostWakeup` has 29 events).
-/

set_option autoImplicit false

namespace Pintos.Devices

open Pintos.Sched

/-- `main` creates a reader at priority 40, which runs at once and waits on the empty queue;
`main` puts 1 and signals it, and is switched out in `signal`; the reader takes 1 and waits
again; `main` clears the register and puts 2. -/
def lostWakeup : List Event :=
  [.kernelCall (.create 40), .kernel,
   -- the reader: `intq_getc`, `lock_acquire`, `wait`
   .call .getc, .intq, .kernel, .kernel, .kernel, .intq,
   -- `main`: `intq_putc (q, 1)` up to `thread_unblock`, which switches to the reader
   .call (.putc 1), .intq, .intq,
   -- the reader: `lock_release`, the read, `signal (&q->not_full)`
   .intq, .kernel, .kernel, .kernel, .kernel, .kernel, .intq, .intq,
   -- the reader again: `intq_getc`, `lock_acquire`, `wait`
   .call .getc, .intq, .kernel, .kernel, .kernel, .intq,
   -- `main`: `*waiter = NULL`
   .intq,
   -- `main`: `intq_putc (q, 2)`, whose `signal` finds no waiter
   .call (.putc 2), .intq, .intq]

/-- The system after the first `n` events of `lostWakeup`. -/
def lostWakeupAfter (n : Nat) : System :=
  run (init (boot false 1 [] 0) 0) (lostWakeup.take n)

set_option maxRecDepth 4000 in
/-- Before the last `signal (&q->not_empty)` the reader (thread 2) is blocked in `wait` and
the register is empty; after it, the reader is still blocked, with byte 2 in the queue, and
nothing has failed. -/
theorem intq_getc_wakeup_lost :
    ((lostWakeupAfter 28).pc 0 = .putSignal ∧ (lostWakeupAfter 28).q.notEmpty = none ∧
        ((lostWakeupAfter 28).kernel.thread 2).status = .blocked) ∧
      ((lostWakeupAfter 29).kernel.thread 2).status = .blocked ∧
      (lostWakeupAfter 29).pc 2 = .getRelease ∧ (lostWakeupAfter 29).q.empty = false ∧
      (lostWakeupAfter 29).q.notEmpty = none ∧ (lostWakeupAfter 29).pc 0 = .outside ∧
      (lostWakeupAfter 29).stored = [1, 2] ∧ (lostWakeupAfter 29).taken = [1] ∧
      (lostWakeupAfter 29).panicked = false := by
  decide

end Pintos.Devices
