import Pintos.Analysis.Donation

/-!
# Donation under preemption, and the loop of `lock_acquire`

`lock_acquire` (synch.c:196-216) donates with interrupts on, before `sema_down` turns them
off; in the model a timer tick can fall between the donation statement and `sema_down`.
The holder, which the donation raised to the caller's priority, may then run first and
release the lock. `lock_release` takes off its `donators` only the threads that wait on
the lock's semaphore (`mem_donators_dropDonators`), and the preempted caller does not wait
yet: it stays on the list of a thread that no longer holds the lock, which keeps the
donated priority, and when the caller later donates for another lock it is on two lists
at once (`preempted_acquire_leaves_stale_donator`).

The loop `while (donee != NULL)` follows `donee` pointers, and `lock_release` clears only
the releasing thread's: a thread that got the lock it waited for still points at the
thread that held it. Threads that point at each other keep the loop going for ever
(`length_chain_of_closed`), and `donee_cycle_spins` reaches two such threads from boot.
-/

set_option autoImplicit false

namespace Pintos.Sched.Analysis

/-! ## The loop of `lock_acquire` -/

/-- A set of threads each of which points at a thread of the set: the loop never leaves
the set and never reaches `NULL`. -/
theorem length_chain_of_closed (k : Kernel) (S : Tid → Prop)
    (hS : ∀ t, S t → ∃ t', S t' ∧ (k.thread t).donee = some t') :
    ∀ n t, S t → (chain k n (some t)).length = n := by
  intro n
  induction n with
  | zero => intro t _; rfl
  | succ n ih =>
      intro t ht
      obtain ⟨t', ht', hd⟩ := hS t ht
      rw [chain, hd, List.length_cons, ih t' ht']

/-- Main (priority 31) takes lock 0 and creates thread 2 (40), which waits for the lock and
points its `donee` at main. Main releases the lock to thread 2, which still points at main,
lowers its priority to 10 and lets main run. Main waits for lock 0 and points at thread 2;
thread 2 creates thread 3 (50), which waits for lock 0 as well. -/
def doneeCycleState : Kernel :=
  [Call.acquire 0, .create 40, .acquire 0, .release 0, .setPriority 10, .acquire 0, .create 50,
    .acquire 0].foldl exec (boot false 1 [] 0)

/-- Thread 2 holds lock 0, main waits for it, and the chain from thread 2 runs 2, main, 2,
main, ...: the loop of thread 3's `lock_acquire` never ends. -/
theorem donee_cycle_spins :
    (doneeCycleState.lock 0).holder = some 2 ∧ (doneeCycleState.lock 0).sema.waiters = [0] ∧
      doneeCycleState.running = 3 ∧ ∀ n, (chain doneeCycleState n (some 2)).length = n := by
  refine ⟨by decide, by decide, by decide, fun n => ?_⟩
  refine length_chain_of_closed doneeCycleState (fun t => t = 2 ∨ t = 0) ?_ n 2 (Or.inl rfl)
  rintro t (rfl | rfl)
  · exact ⟨0, Or.inr rfl, by decide⟩
  · exact ⟨2, Or.inl rfl, by decide⟩

/-! ## A tick inside `lock_acquire` -/

/-- Erasing the waiters one by one keeps every thread that is not one of them. -/
theorem mem_foldl_erase_of_not_mem {t : Tid} {ws : List Tid} (ht : t ∉ ws) (ds : List Tid) :
    t ∈ ws.foldl List.erase ds ↔ t ∈ ds := by
  induction ws generalizing ds with
  | nil => rfl
  | cons w ws ih =>
      rw [List.foldl_cons, ih (fun h => ht (List.mem_cons_of_mem w h))]
      exact List.mem_erase_of_ne fun h => ht (h ▸ List.mem_cons_self)

/-- `lock_release`'s loop keeps on `donators` every thread that does not wait on the lock. -/
theorem mem_donators_dropDonators (k : Kernel) (l : Nat) {t : Tid}
    (ht : t ∉ (k.lock l).sema.waiters) (u : Tid) :
    t ∈ ((execOp k (.dropDonators l)).thread u).donators ↔ t ∈ (k.thread u).donators := by
  dsimp only [execOp]
  split
  · rfl
  · rw [Kernel.thread_modifyThread]
    split
    · exact mem_foldl_erase_of_not_mem ht _
    · rfl

/-- Main (31) takes lock 0; thread 2 (35) takes lock 1 and blocks on semaphore 0; main
creates thread 3 (40). -/
def staleDonorStart : Kernel :=
  [Call.acquire 0, .create 35, .acquire 1, .down 0, .create 40].foldl exec (boot false 2 [0] 0)

/-- Thread 3 calls `lock_acquire (0)` and donates 40 to main; its time slice ends before
`sema_down`. -/
def staleDonorPreempted : Kernel :=
  run staleDonorStart [.call (.acquire 0), .op, .tick, .tick, .tick, .tick]

/-- Main, the first of the two threads at 40, releases lock 0 and yields: thread 3 takes
the lock, then waits for lock 1 and donates to thread 2. -/
def staleDonorState : Kernel :=
  [Call.release 0, .yield, .acquire 1].foldl exec staleDonorPreempted

set_option maxRecDepth 4000 in
/-- Thread 3 is on main's `donators` though main holds no lock, and on thread 2's; main
keeps the donated 40. -/
theorem preempted_acquire_leaves_stale_donator :
    (staleDonorState.lock 0).holder = some 3 ∧ (staleDonorState.lock 1).holder = some 2 ∧
      (∀ l < staleDonorState.locks.length, (staleDonorState.lock l).holder ≠ some 0) ∧
      3 ∈ (staleDonorState.thread 0).donators ∧ 3 ∈ (staleDonorState.thread 2).donators ∧
      (staleDonorState.thread 0).priority = 40 ∧ (staleDonorState.thread 0).originalPriority = 31 := by
  decide

end Pintos.Sched.Analysis
