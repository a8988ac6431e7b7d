import Pintos.Lib.OrderedList
import Pintos.Lib.Table
import Mathlib

/-!
# Kernel threads: the scheduler, semaphores, locks and priority donation

`threads/thread.c` and `threads/synch.c` on one CPU. A thread is running, ready (on
`ready_list`), blocked, or dying. The running thread makes calls (`Call`); each call is a
sequence of kernel statements (`Op`) that the thread runs one at a time, and that may
block or yield it in the middle: then the thread keeps the rest of its call, and goes on
with it when `schedule` switches back to it. A run is a list of events: a call by the
running thread, one statement of the running thread, or a timer tick.

* `schedule` (thread.c:750-763) switches to `next_thread_to_run` (thread.c:693-706): the
  `list_max` of `ready_list` under `less_priority`, which is the first thread of highest
  priority, or the idle thread if the list is empty.
* `thread_unblock` (thread.c:271-288) appends to `ready_list` and yields if the unblocked
  thread has a higher priority than the running one, unless the running one is the idle
  thread; `thread_yield` (thread.c:344-357) appends the running thread (not the idle one).
* `sema_down` (synch.c:60-75) blocks while the value is 0 and re-checks when it runs
  again; `sema_up` (synch.c:103-119) increments the value and unblocks the waiter of
  highest priority (the first such).
* `lock_acquire` (synch.c:196-216): if the holder's priority is below the caller's, every
  thread on the chain holder, `holder->donee`, ... gets the caller's priority, the caller's
  `donee` becomes the holder, and the caller joins the holder's `donators`; then
  `sema_down` and `lock->holder = cur`.
* `lock_release` (synch.c:244-268): removes from the caller's `donators` each waiter of the
  lock, clears the holder, `sema_up`, clears the caller's `donee`, and calls
  `thread_set_priority (thread_get_priority ())`.
* `thread_set_priority` (thread.c:382-410) and `thread_get_priority` (thread.c:415-424)
  read the donators' highest priority; `cond_wait` and `cond_signal` (synch.c:319-357)
  queue a `semaphore_elem` with the waiter's priority at the time of the call.
* With `thread_mlfqs`, donation and `thread_set_priority` are off, and `thread_tick`
  (thread.c:134-176) recomputes `recent_cpu`, `load_avg` and every priority with the
  fixed-point macros of `fixed-point.h`; `thread_set_nice` recomputes the caller's.

Statements run atomically: each stands for code that runs with interrupts off, or that
touches only what no other thread touches meanwhile. `allocate_tid`'s use of `tid_lock`
is left out, as are timer sleeps: `timer_sleep` is modelled in `Pintos.Model.Timer`. A
donation chain that comes back to a thread it passed (the C loop then never ends) leaves
the caller spinning in `lock_acquire` for good (`Op.spin`).
-/

set_option autoImplicit false

namespace Pintos.Sched

open OrderedList

/-- `tid_t`; a thread's number is its index. -/
abbrev Tid := Nat

def PRI_MIN : Int := 0
def PRI_DEFAULT : Int := 31
def PRI_MAX : Int := 63
def TIME_SLICE : Nat := 4
def TIMER_FREQ : Nat := 100

/-! ## Fixed-point arithmetic (`fixed-point.h`)

Numbers with 14 fractional bits; C's `/` truncates toward zero, as `Int.tdiv` does. -/

/-- The macro `f`, `1 << 14`. -/
def fixedOne : Int := 2 ^ 14

def intToFixed (n : Int) : Int := n * fixedOne

/-- `fixed_to_int`: rounds to the nearest integer. -/
def fixedToInt (x : Int) : Int :=
  if x ≥ 0 then (x + fixedOne / 2).tdiv fixedOne else (x - fixedOne / 2).tdiv fixedOne

def fixedPlusInt (x n : Int) : Int := x + n * fixedOne

def fixedMinusInt (x n : Int) : Int := x - n * fixedOne

def fixedMulFixed (x y : Int) : Int := (x * y).tdiv fixedOne

def fixedMulInt (x n : Int) : Int := x * n

def fixedDivFixed (x y : Int) : Int := (x * fixedOne).tdiv y

def fixedDivInt (x n : Int) : Int := x.tdiv n

/-- `update_priority`'s formula: `PRI_MAX - recent_cpu / 4 - nice * 2`, rounded and clamped
to `PRI_MIN .. PRI_MAX`. -/
def mlfqsPriority (recentCpu nice : Int) : Int :=
  let p := fixedToInt (fixedMinusInt (intToFixed PRI_MAX - fixedDivInt recentCpu 4) (2 * nice))
  max PRI_MIN (min PRI_MAX p)

/-! ## State -/

inductive Status where
  | running | ready | blocked | dying
  deriving DecidableEq, Repr

/-- The semaphore a `sema_down` or `sema_up` works on: a lock's, or a free-standing one. -/
inductive SemaRef where
  | lock (l : Nat)
  | sema (s : Nat)
  deriving DecidableEq, Repr

/-- The statements of the kernel calls. -/
inductive Op where
  /-- `lock_acquire`: the donation before `sema_down`. -/
  | donate (l : Nat)
  /-- `sema_down`. -/
  | down (s : SemaRef)
  /-- `lock->holder = thread_current ()`. -/
  | setHolder (l : Nat)
  /-- `lock_try_acquire`. -/
  | tryAcquire (l : Nat)
  /-- `lock_release`: the loop that removes the lock's waiters from `donators`. -/
  | dropDonators (l : Nat)
  /-- `lock->holder = NULL`. -/
  | clearHolder (l : Nat)
  /-- `sema_up`. -/
  | up (s : SemaRef)
  /-- `thread_set_donee (NULL)`. -/
  | clearDonee
  /-- `thread_set_priority (thread_get_priority ())`. -/
  | restore
  /-- `thread_set_priority (p)`. -/
  | setPriority (p : Int)
  /-- `thread_yield`. -/
  | yield
  /-- `thread_create` of a thread of priority `p` that starts by running `body`. -/
  | create (p : Int) (body : List Op)
  /-- `thread_exit`. -/
  | exit
  /-- `cond_wait`: `waiter.priority = thread_get_priority ()` and `list_push_back`. -/
  | condPush (c : Nat)
  /-- `cond_wait`: `sema_down (&waiter.semaphore)`, until `cond_signal`. -/
  | condSleep
  /-- `cond_signal`. -/
  | condSignal (c : Nat)
  /-- `thread_set_nice (n)`. -/
  | setNice (n : Int)
  /-- `idle`: `idle_thread = thread_current ()`. -/
  | becomeIdle
  /-- `thread_block`. -/
  | block
  /-- A donation loop that never ends. -/
  | spin

/-- What the running thread can call. -/
inductive Call where
  | create (p : Int)
  | acquire (l : Nat)
  | tryAcquire (l : Nat)
  | release (l : Nat)
  | down (s : Nat)
  | up (s : Nat)
  | setPriority (p : Int)
  | yield
  | exit
  | condWait (c l : Nat)
  | condSignal (c : Nat)
  | setNice (n : Int)

/-- The statements of each call. -/
def Call.ops : Call → List Op
  | .create p => [.create p []]
  | .acquire l => [.donate l, .down (.lock l), .setHolder l]
  | .tryAcquire l => [.tryAcquire l]
  | .release l => [.dropDonators l, .clearHolder l, .up (.lock l), .clearDonee, .restore]
  | .down s => [.down (.sema s)]
  | .up s => [.up (.sema s)]
  | .setPriority p => [.setPriority p]
  | .yield => [.yield]
  | .exit => [.exit]
  | .condWait c l =>
      [.condPush c, .dropDonators l, .clearHolder l, .up (.lock l), .clearDonee, .restore,
        .condSleep, .donate l, .down (.lock l), .setHolder l]
  | .condSignal c => [.condSignal c]
  | .setNice n => [.setNice n]

/-- The fields of `struct thread` that the scheduler and the synchronisation read, and the
rest of the call the thread is in (empty when it runs its own code). -/
structure Thread where
  priority : Int
  originalPriority : Int
  donators : List Tid
  donee : Option Tid
  status : Status
  nice : Int
  recentCpu : Int
  ops : List Op

/-- What an index past the last thread reads as. -/
def Thread.unused : Thread :=
  { priority := PRI_MIN, originalPriority := PRI_MIN, donators := [], donee := none,
    status := .dying, nice := 0, recentCpu := 0, ops := [] }

structure Sema where
  value : Nat
  waiters : List Tid
  deriving DecidableEq, Repr

structure Lock where
  holder : Option Tid
  sema : Sema
  deriving DecidableEq, Repr

structure Kernel where
  threads : List Thread
  running : Tid
  /-- `ready_list`, front first. -/
  ready : List Tid
  locks : List Lock
  semas : List Sema
  /-- Each condition's `semaphore_elem`s: the waiting thread and `priority`. -/
  conds : List (List (Tid × Int))
  mlfqs : Bool
  /-- `idle_thread`, `NULL` until the idle thread first runs. -/
  idleThread : Option Tid
  ticks : Nat
  /-- `thread_ticks`: ticks since the last switch. -/
  threadTicks : Nat
  loadAvg : Int

namespace Kernel

variable (k : Kernel)

def thread (t : Tid) : Thread := k.threads.getD t .unused

def prio (t : Tid) : Int := (k.thread t).priority

def modifyThread (t : Tid) (g : Thread → Thread) : Kernel :=
  { k with threads := k.threads.set t (g (k.thread t)) }

@[simp] theorem length_modifyThread (t : Tid) (g : Thread → Thread) :
    (k.modifyThread t g).threads.length = k.threads.length :=
  List.length_set

@[simp] theorem running_modifyThread (t : Tid) (g : Thread → Thread) :
    (k.modifyThread t g).running = k.running :=
  rfl

@[simp] theorem ready_modifyThread (t : Tid) (g : Thread → Thread) :
    (k.modifyThread t g).ready = k.ready :=
  rfl

@[simp] theorem locks_modifyThread (t : Tid) (g : Thread → Thread) :
    (k.modifyThread t g).locks = k.locks :=
  rfl

@[simp] theorem idleThread_modifyThread (t : Tid) (g : Thread → Thread) :
    (k.modifyThread t g).idleThread = k.idleThread :=
  rfl

theorem thread_modifyThread (t u : Tid) (g : Thread → Thread) :
    (k.modifyThread t g).thread u = if t = u ∧ u < k.threads.length then g (k.thread u) else k.thread u :=
  Table.getD_set_getD _ _ t u g

theorem thread_modifyThread_self {t : Tid} (h : t < k.threads.length) (g : Thread → Thread) :
    (k.modifyThread t g).thread t = g (k.thread t) :=
  Table.getD_set_self _ _ h _

theorem thread_modifyThread_ne {t u : Tid} (h : t ≠ u) (g : Thread → Thread) :
    (k.modifyThread t g).thread u = k.thread u :=
  Table.getD_set_ne _ _ h _

def lock (l : Nat) : Lock := k.locks.getD l ⟨none, ⟨1, []⟩⟩

def setLock (l : Nat) (lk : Lock) : Kernel := { k with locks := k.locks.set l lk }

def sema : SemaRef → Sema
  | .lock l => (k.lock l).sema
  | .sema s => k.semas.getD s ⟨0, []⟩

def setSema : SemaRef → Sema → Kernel
  | .lock l, sm => k.setLock l { k.lock l with sema := sm }
  | .sema s, sm => { k with semas := k.semas.set s sm }

def cond (c : Nat) : List (Tid × Int) := k.conds.getD c []

def setCond (c : Nat) (ws : List (Tid × Int)) : Kernel := { k with conds := k.conds.set c ws }

/-- The running thread is the idle thread. -/
def idling : Prop := k.idleThread = some k.running

instance : Decidable k.idling := inferInstanceAs (Decidable (_ = _))

/-- `list_max (&ready_list, less_priority, NULL)`. -/
def maxReady : Option Tid := listMax (keyLess k.prio) k.ready

end Kernel

/-! ## The scheduler -/

/-- `schedule`: the running thread has already left `running`; switch to
`next_thread_to_run ()` and start its time slice. -/
def schedule (k : Kernel) : Kernel :=
  match k.maxReady with
  | some t =>
      { k.modifyThread t fun th => { th with status := .running } with
        running := t, ready := k.ready.erase t, threadTicks := 0 }
  | none =>
      match k.idleThread with
      | some i =>
          { k.modifyThread i fun th => { th with status := .running } with
            running := i, threadTicks := 0 }
      | none => k

/-- `thread_yield`. -/
def threadYield (k : Kernel) : Kernel :=
  let k' := k.modifyThread k.running fun th => { th with status := .ready }
  schedule (if k.idling then k' else { k' with ready := k.ready ++ [k.running] })

/-- `thread_block`. -/
def threadBlock (k : Kernel) : Kernel :=
  schedule (k.modifyThread k.running fun th => { th with status := .blocked })

/-- `thread_unblock (t)`, from a thread. -/
def threadUnblock (k : Kernel) (t : Tid) : Kernel :=
  let k' := { k.modifyThread t (fun th => { th with status := .ready }) with ready := k.ready ++ [t] }
  if ¬ k'.idling ∧ k'.prio k'.running < k'.prio t then threadYield k' else k'

/-- `if (!list_empty (&ready_list) && cur->priority < max->priority) thread_yield ()`. -/
def yieldIfLower (k : Kernel) : Kernel :=
  match k.maxReady with
  | some t => if k.prio k.running < k.prio t then threadYield k else k
  | none => k

/-! ## Priorities -/

/-- `thread_get_priority` of thread `t`. -/
def threadGetPriority (k : Kernel) (t : Tid) : Int :=
  if k.mlfqs then (k.thread t).originalPriority
  else match listMax (keyLess k.prio) (k.thread t).donators with
    | some d => k.prio d
    | none => (k.thread t).originalPriority

/-- `thread_set_priority (p)` by the running thread. -/
def threadSetPriority (k : Kernel) (p : Int) : Kernel :=
  if k.mlfqs then k
  else match listMax (keyLess k.prio) (k.thread k.running).donators with
    | some d =>
        if p < k.prio d then k.modifyThread k.running fun th => { th with originalPriority := p }
        else yieldIfLower (k.modifyThread k.running fun th => { th with priority := p })
    | none =>
        yieldIfLower (k.modifyThread k.running fun th =>
          { th with originalPriority := p, priority := p })

/-- `update_priority (t, aux)`: `aux` asks for the yield test when `t` is running. -/
def updatePriority (k : Kernel) (t : Tid) (aux : Bool) : Kernel :=
  if k.idleThread = some t then k
  else
    let p := mlfqsPriority (k.thread t).recentCpu (k.thread t).nice
    let k' := k.modifyThread t fun th => { th with priority := p, originalPriority := p }
    if t = k'.running ∧ aux then yieldIfLower k' else k'

/-- The loop of `lock_acquire`: priority `p` for the thread `d`, its donee, and so on. After
as many steps as there are threads the chain has come back to a thread it passed:
`false` then says the loop never ends. -/
def donateChain (p : Int) : Nat → Kernel → Option Tid → Kernel × Bool
  | _, k, none => (k, true)
  | 0, k, some _ => (k, false)
  | fuel + 1, k, some d =>
      donateChain p fuel (k.modifyThread d fun th => { th with priority := p }) (k.thread d).donee

/-! ## One statement -/

/-- Statement `op` of the running thread, whose other statements are already in place. -/
def execOp (k : Kernel) : Op → Kernel
  | .donate l =>
      match (k.lock l).holder with
      | some h =>
          if ¬ k.mlfqs ∧ k.prio h < k.prio k.running then
            match donateChain (k.prio k.running) k.threads.length k (some h) with
            | (k', true) =>
                (k'.modifyThread k'.running fun th => { th with donee := some h }).modifyThread h
                  fun th => { th with donators := th.donators ++ [k'.running] }
            | (k', false) => k'.modifyThread k'.running fun th => { th with ops := [.spin] }
          else k
      | none => k
  | .down s =>
      let sm := k.sema s
      if 0 < sm.value then k.setSema s { sm with value := sm.value - 1 }
      else threadBlock ((k.setSema s { sm with waiters := sm.waiters ++ [k.running] }).modifyThread
        k.running fun th => { th with ops := .down s :: th.ops })
  | .setHolder l => k.setLock l { k.lock l with holder := some k.running }
  | .tryAcquire l =>
      let sm := (k.lock l).sema
      if 0 < sm.value then k.setLock l ⟨some k.running, { sm with value := sm.value - 1 }⟩ else k
  | .dropDonators l =>
      if k.mlfqs then k
      else k.modifyThread k.running fun th =>
        { th with donators := (k.lock l).sema.waiters.foldl List.erase th.donators }
  | .clearHolder l => k.setLock l { k.lock l with holder := none }
  | .up s =>
      let sm := k.sema s
      match listMax (keyLess k.prio) sm.waiters with
      | some t => threadUnblock (k.setSema s ⟨sm.value + 1, sm.waiters.erase t⟩) t
      | none => k.setSema s { sm with value := sm.value + 1 }
  | .clearDonee => k.modifyThread k.running fun th => { th with donee := none }
  | .restore => threadSetPriority k (threadGetPriority k k.running)
  | .setPriority p => threadSetPriority k p
  | .yield => threadYield k
  | .create p body =>
      let cur := k.thread k.running
      let th : Thread :=
        if k.mlfqs then
          -- `init_thread` copies `nice` and `recent_cpu` and calls `update_priority`
          let q := mlfqsPriority cur.recentCpu cur.nice
          { priority := q, originalPriority := q, donators := [], donee := none,
            status := .blocked, nice := cur.nice, recentCpu := cur.recentCpu, ops := body }
        else
          { priority := p, originalPriority := p, donators := [], donee := none,
            status := .blocked, nice := 0, recentCpu := 0, ops := body }
      threadUnblock { k with threads := k.threads ++ [th] } k.threads.length
  | .exit => schedule (k.modifyThread k.running fun th => { th with status := .dying, ops := [] })
  | .condPush c => k.setCond c (k.cond c ++ [(k.running, threadGetPriority k k.running)])
  | .condSleep => threadBlock k
  | .condSignal c =>
      match listMax (keyLess Prod.snd) (k.cond c) with
      | some w => threadUnblock (k.setCond c ((k.cond c).erase w)) w.1
      | none => k
  | .setNice n =>
      updatePriority (k.modifyThread k.running fun th => { th with nice := n }) k.running true
  | .becomeIdle => { k with idleThread := some k.running }
  | .block => threadBlock k
  | .spin => k.modifyThread k.running fun th => { th with ops := [.spin] }

/-- One statement of the running thread. -/
def stepOp (k : Kernel) : Kernel :=
  match (k.thread k.running).ops with
  | [] => k
  | op :: rest => execOp (k.modifyThread k.running fun th => { th with ops := rest }) op

/-- The running thread calls `c` from its own code; the idle thread makes no calls. -/
def startCall (k : Kernel) (c : Call) : Kernel :=
  if (k.thread k.running).ops = [] ∧ ¬ k.idling then
    k.modifyThread k.running fun th => { th with ops := c.ops }
  else k

/-! ## The timer -/

/-- `update_recent_cpu (t)`. -/
def updateRecentCpu (k : Kernel) (t : Tid) : Kernel :=
  if k.idleThread = some t then k
  else
    let loadAvgTerm := fixedMulInt k.loadAvg 2
    let coefficient := fixedDivFixed loadAvgTerm (fixedPlusInt loadAvgTerm 1)
    k.modifyThread t fun th =>
      { th with recentCpu := fixedPlusInt (fixedMulFixed coefficient th.recentCpu) th.nice }

/-- `update_load_avg`. -/
def updateLoadAvg (k : Kernel) : Kernel :=
  let readyThreads : Int := k.ready.length + if k.idling then 0 else 1
  { k with loadAvg := fixedDivInt (fixedPlusInt (fixedMulInt k.loadAvg 59) readyThreads) 60 }

/-- The threads on `all_list`: every thread that has not exited. -/
def allThreads (k : Kernel) : List Tid :=
  (List.range k.threads.length).filter fun t => (k.thread t).status ≠ .dying

/-- `thread_foreach (func, NULL)`. -/
def threadForeach (k : Kernel) (func : Kernel → Tid → Kernel) : Kernel :=
  (allThreads k).foldl func k

/-- The statistics of `thread_tick` under MLFQS: the running thread's `recent_cpu`, and
once a second `load_avg` and every `recent_cpu`. -/
def mlfqsStatistics (k : Kernel) : Kernel :=
  let k := k.modifyThread k.running fun th => { th with recentCpu := fixedPlusInt th.recentCpu 1 }
  if k.ticks % TIMER_FREQ = 0 then threadForeach (updateLoadAvg k) updateRecentCpu else k

/-- The MLFQS part of `thread_tick`: the statistics, every fourth tick every priority, and
whether a ready thread then outranks the running one, which asks for
`intr_yield_on_return`. -/
def mlfqsTick (k : Kernel) : Kernel × Bool :=
  let k := mlfqsStatistics k
  if k.ticks % TIME_SLICE = 0 then
    let k := threadForeach k fun k t => updatePriority k t false
    (k, match k.maxReady with
      | some t => decide (k.prio k.running < k.prio t)
      | none => false)
  else (k, false)

/-- `timer_interrupt`'s `ticks++` and `thread_tick`, with `intr_yield_on_return` at the
end of a time slice. -/
def timerTick (k : Kernel) : Kernel :=
  let k := { k with ticks := k.ticks + 1 }
  let r : Kernel × Bool := if k.mlfqs then mlfqsTick k else (k, false)
  let k' := { r.1 with threadTicks := r.1.threadTicks + 1 }
  if r.2 ∨ TIME_SLICE ≤ k'.threadTicks then threadYield k' else k'

/-! ## Runs -/

/-- What happens next: the running thread calls, runs one statement, or the timer ticks. -/
inductive Event where
  | call (c : Call)
  | op
  | tick

def step (k : Kernel) : Event → Kernel
  | .call c => startCall k c
  | .op => stepOp k
  | .tick => timerTick k

def run (k : Kernel) (evs : List Event) : Kernel :=
  evs.foldl step k

/-- Runs the running thread's statements until it is back in its own code, for at most
`fuel` statements. -/
def finish : Nat → Kernel → Kernel
  | 0, k => k
  | fuel + 1, k => if (k.thread k.running).ops = [] then k else finish fuel (stepOp k)

/-- A call and everything the kernel does before a thread runs its own code again. -/
def exec (k : Kernel) (c : Call) : Kernel :=
  finish 64 (startCall k c)

/-- After `thread_start`: `main` (thread 0) runs at `PRI_DEFAULT`, the idle thread
(thread 1) is blocked, and there are `nlocks` free locks, semaphores of the given values,
and `nconds` conditions. -/
def boot (mlfqs : Bool) (nlocks : Nat) (semas : List Nat) (nconds : Nat) : Kernel :=
  let p := if mlfqs then mlfqsPriority 0 0 else PRI_DEFAULT
  let q := if mlfqs then mlfqsPriority 0 0 else PRI_MIN
  { threads :=
      [{ priority := p, originalPriority := p, donators := [], donee := none,
         status := .running, nice := 0, recentCpu := 0, ops := [] },
       { priority := q, originalPriority := q, donators := [], donee := none,
         status := .blocked, nice := 0, recentCpu := 0, ops := [] }],
    running := 0, ready := [],
    locks := List.replicate nlocks ⟨none, ⟨1, []⟩⟩,
    semas := semas.map fun v => ⟨v, []⟩,
    conds := List.replicate nconds [],
    mlfqs := mlfqs, idleThread := some 1, ticks := 0, threadTicks := 0, loadAvg := 0 }

/-- `idle` (thread.c:566-590) as it first runs: it sets `idle_thread`, ups `idle_started`
and blocks; afterwards `schedule` switches to it only when `ready_list` is empty. -/
def idleOps (idleStarted : Nat) : List Op :=
  [.becomeIdle, .up (.sema idleStarted), .block]

/-- `main` entering `thread_start` (thread.c:119-131) after `thread_init`: there is no idle
thread yet, and `idle_started` is a semaphore at 0 after the given ones. `thread_start`
creates the idle thread at `PRI_MIN` and waits on `idle_started`. -/
def start (mlfqs : Bool) (nlocks : Nat) (semas : List Nat) (nconds : Nat) : Kernel :=
  let p := if mlfqs then mlfqsPriority 0 0 else PRI_DEFAULT
  { threads :=
      [{ priority := p, originalPriority := p, donators := [], donee := none,
         status := .running, nice := 0, recentCpu := 0,
         ops := [.create PRI_MIN (idleOps semas.length), .down (.sema semas.length)] }],
    running := 0, ready := [],
    locks := List.replicate nlocks ⟨none, ⟨1, []⟩⟩,
    semas := (semas ++ [0]).map fun v => ⟨v, []⟩,
    conds := List.replicate nconds [],
    mlfqs := mlfqs, idleThread := none, ticks := 0, threadTicks := 0, loadAvg := 0 }

end Pintos.Sched
