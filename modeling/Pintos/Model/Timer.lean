import Pintos.Lib.OrderedList
import Mathlib.Data.Int.Order.Basic

/-!
# The alarm clock: `timer_sleep` and `timer_interrupt`

`devices/timer.c` keeps the threads that called `timer_sleep` in `sleep_list` (declared in
`threads/thread.c`), blocked until the tick count reaches their `wake_ticks`:

* `timer_sleep (ticks)` (timer.c:92-104) reads `start = timer_ticks ()`, sets
  `cur->wake_ticks = start + ticks`, inserts the current thread with
  `list_insert_ordered (sleep_list, &cur->elem, less_wake_ticks, NULL)` and blocks it.
* `timer_interrupt` (timer.c:171-191) increments `ticks`, calls `thread_tick ()`, and then
  pops threads from the front of `sleep_list` while their `wake_ticks <= ticks`, passing
  each to `thread_unblock`; it stops at the first thread that is not due.
* `less_wake_ticks` (timer.c:267-273) is `a->wake_ticks < b->wake_ticks`.

The model keeps what these functions read and write: the tick counter, the list of
sleeping thread ids, and each thread's `wake_ticks`. `timerInterrupt` also returns the
threads it passes to `thread_unblock`, in order; `thread_tick` does not touch any of the
three and belongs to the scheduler. `int64_t` is modelled by `Int`.

A run is a list of events: a call of `timer_sleep` by a thread, or a timer interrupt. The
call carries the value `start` that the thread read from `timer_ticks`; interrupts are
enabled until `timer_sleep` disables them, so `start` may be older than the current
count. A call is possible only for a thread that is not asleep (a sleeping thread is
blocked and cannot call anything) and with a `start` the counter has already reached.
-/

set_option autoImplicit false

namespace Pintos.Timer

open OrderedList

/-- Thread identifiers (`tid_t`). -/
abbrev Tid := Nat

/-- What `timer_sleep` and `timer_interrupt` read and write. -/
structure SleepState where
  /-- `ticks`: timer ticks since the OS booted. -/
  ticks : Int
  /-- `sleep_list`, front first. -/
  sleepList : List Tid
  /-- `wake_ticks` of each thread. -/
  wakeTicks : Tid → Int

/-- The state at boot: `ticks` is zero and `timer_init` makes `sleep_list` empty
(`init_thread` zeroes every `struct thread`). -/
def boot : SleepState :=
  { ticks := 0, sleepList := [], wakeTicks := fun _ => 0 }

/-- `less_wake_ticks`: compares the `wake_ticks` of two threads. -/
def lessWakeTicks (wakeTicks : Tid → Int) : Tid → Tid → Bool :=
  keyLess wakeTicks

/-- `timer_sleep (ticks)` by thread `cur`, which read `start` from `timer_ticks`. -/
def timerSleep (s : SleepState) (cur : Tid) (start ticks : Int) : SleepState :=
  let wakeTicks := Function.update s.wakeTicks cur (start + ticks)
  { s with
    wakeTicks := wakeTicks
    sleepList := insertOrdered (lessWakeTicks wakeTicks) cur s.sleepList }

/-- The loop of `timer_interrupt`: pop threads from the front while they are due, and
stop at the first one that is not. Returns the popped threads and what remains. -/
def wakeSleepers (wakeTicks : Tid → Int) (ticks : Int) : List Tid → List Tid × List Tid
  | [] => ([], [])
  | t :: l =>
      if wakeTicks t ≤ ticks then
        ((wakeSleepers wakeTicks ticks l).1.cons t, (wakeSleepers wakeTicks ticks l).2)
      else ([], t :: l)

/-- `timer_interrupt`: one tick, then every due thread at the front of `sleep_list` is
unblocked. Returns the new state and the unblocked threads in order. -/
def timerInterrupt (s : SleepState) : SleepState × List Tid :=
  let ticks := s.ticks + 1
  ({ s with ticks := ticks, sleepList := (wakeSleepers s.wakeTicks ticks s.sleepList).2 },
    (wakeSleepers s.wakeTicks ticks s.sleepList).1)

/-- An event of a run: a call of `timer_sleep (n)` by thread `t` that read `start` from
`timer_ticks`, or a timer interrupt. -/
inductive SleepEvent where
  | sleep (t : Tid) (start n : Int)
  | tick
  deriving DecidableEq, Repr

/-- One event: the new state and the threads it unblocks. -/
def step (s : SleepState) : SleepEvent → SleepState × List Tid
  | .sleep t start n => (timerSleep s t start n, [])
  | .tick => timerInterrupt s

/-- An event can happen in `s`: a sleeping thread cannot call `timer_sleep`, and the value
it read from `timer_ticks` is one the counter has reached. -/
def Enabled (s : SleepState) : SleepEvent → Prop
  | .sleep t start _ => t ∉ s.sleepList ∧ start ≤ s.ticks
  | .tick => True

/-- The state after a run. -/
def run (s : SleepState) : List SleepEvent → SleepState
  | [] => s
  | e :: evs => run (step s e).1 evs

/-- Every event of a run can happen when it does. -/
def Admissible (s : SleepState) : List SleepEvent → Prop
  | [] => True
  | e :: evs => Enabled s e ∧ Admissible (step s e).1 evs

@[simp] theorem run_nil (s : SleepState) : run s [] = s := rfl

@[simp] theorem run_cons (s : SleepState) (e : SleepEvent) (evs : List SleepEvent) :
    run s (e :: evs) = run (step s e).1 evs := rfl

@[simp] theorem admissible_nil (s : SleepState) : Admissible s [] := trivial

@[simp] theorem admissible_cons (s : SleepState) (e : SleepEvent) (evs : List SleepEvent) :
    Admissible s (e :: evs) ↔ Enabled s e ∧ Admissible (step s e).1 evs := Iff.rfl

@[simp] theorem timerSleep_ticks (s : SleepState) (cur : Tid) (start n : Int) :
    (timerSleep s cur start n).ticks = s.ticks := rfl

@[simp] theorem step_sleep (s : SleepState) (t : Tid) (start n : Int) :
    step s (.sleep t start n) = (timerSleep s t start n, []) := rfl

@[simp] theorem step_tick (s : SleepState) : step s .tick = timerInterrupt s := rfl

/-- The interrupt's loop takes the longest due prefix of `sleep_list`. -/
theorem wakeSleepers_eq (wakeTicks : Tid → Int) (ticks : Int) (l : List Tid) :
    wakeSleepers wakeTicks ticks l =
      (l.takeWhile (fun t => decide (wakeTicks t ≤ ticks)),
        l.dropWhile (fun t => decide (wakeTicks t ≤ ticks))) := by
  induction l with
  | nil => rfl
  | cons t l ih =>
      by_cases ht : wakeTicks t ≤ ticks
      · simp [wakeSleepers, ht, ih]
      · simp [wakeSleepers, ht]

end Pintos.Timer
