import Pintos.Model.Sched

/-!
# Priority donation

What donation is meant to give a thread is `donatedPriority`: the larger of its own
priority and the donated priorities of the threads blocked on the locks it holds, through
chains of locks to any depth.

`lock_acquire` does not compute this. Its loop gives every thread on the chain from the
holder through `donee` the caller's priority, whether that is more or less than the
thread already has (`prio_donateChain`); so a donation lowers a thread on the chain that
had been given more by another donor (`donate_lowers_chain`).
`chain_donation_lowers_holder` runs this from boot: a holder that donors of priority 20
and 60 raised to 60 falls to 30 when a third thread, of priority 30, donates to the
holder's donor of 20. `thread_set_priority` has its own gap: raised above the donors
while it has some, it sets the priority but not `original_priority`, so the thread drops
back to the old value once they are gone (`raised_priority_lost_after_release`).
-/

set_option autoImplicit false

namespace Pintos.Sched.Analysis

/-! ## The donation rule -/

/-- The threads blocked in `lock_acquire` on a lock that `t` holds. -/
def waitersOn (k : Kernel) (t : Tid) : List Tid :=
  k.locks.flatMap fun lk => if lk.holder = some t then lk.sema.waiters else []

/-- The priority the donation rule gives `t`, looking `n` locks deep: its
`original_priority`, or the donated priority of a thread blocked on one of its locks if
that is higher. -/
def donatedPriority (k : Kernel) : Nat → Tid → Int
  | 0, t => (k.thread t).originalPriority
  | n + 1, t =>
      (waitersOn k t).foldl (fun m w => max m (donatedPriority k n w)) (k.thread t).originalPriority

/-! ## The loop of `lock_acquire` -/

/-- The threads the loop visits from `x`, in at most `n` steps. -/
def chain (k : Kernel) : Nat → Option Tid → List Tid
  | _, none => []
  | 0, some _ => []
  | n + 1, some d => d :: chain k n (k.thread d).donee

/-- Setting a priority does not move a `donee` pointer. -/
theorem chain_modifyThread_priority (k : Kernel) (d : Tid) (q : Int) (n : Nat) (x : Option Tid) :
    chain (k.modifyThread d fun th => { th with priority := q }) n x = chain k n x := by
  induction n generalizing x with
  | zero => cases x <;> rfl
  | succ n ih =>
      cases x with
      | none => rfl
      | some e =>
          have hdonee : ((k.modifyThread d fun th => { th with priority := q }).thread e).donee =
              (k.thread e).donee := by
            rw [Kernel.thread_modifyThread]
            split <;> rfl
          simp only [chain, hdonee, ih]

/-- The loop gives exactly the threads it visits the priority `p`. -/
theorem prio_donateChain (p : Int) (n : Nat) (k : Kernel) (x : Option Tid) {u : Tid}
    (hu : u < k.threads.length) :
    (donateChain p n k x).1.prio u = if u ∈ chain k n x then p else k.prio u := by
  induction n generalizing k x with
  | zero => cases x <;> simp [donateChain, chain]
  | succ n ih =>
      cases x with
      | none => simp [donateChain, chain]
      | some d =>
          rw [donateChain, ih _ _ (by simpa using hu), chain_modifyThread_priority]
          -- the first step writes `d`; the rest of the chain is read from the same pointers
          by_cases hud : u = d
          · subst hud
            simp [chain, Kernel.prio, Kernel.thread_modifyThread, hu]
          · simp [chain, hud, Kernel.prio, Kernel.thread_modifyThread, Ne.symm hud]

/-- Once `lock_acquire` has decided to donate, every thread the loop reaches ends with the
caller's priority, more or less than it had. -/
theorem prio_execOp_donate (k : Kernel) (l : Nat) {h d : Tid} (hh : (k.lock l).holder = some h)
    (hm : k.mlfqs = false) (hlow : k.prio h < k.prio k.running)
    (hd : d ∈ chain k k.threads.length (some h)) (hdl : d < k.threads.length) :
    (execOp k (.donate l)).prio d = k.prio k.running := by
  have hprio := prio_donateChain (k.prio k.running) k.threads.length k (some h) hdl
  rw [if_pos hd] at hprio
  have hcond : ¬ k.mlfqs = true ∧ k.prio h < k.prio k.running := ⟨by simp [hm], hlow⟩
  simp only [execOp, hh, if_pos hcond]
  -- what follows the loop writes `donee`, `donators` or `ops`, never `priority`
  rcases hchain : donateChain (k.prio k.running) k.threads.length k (some h) with ⟨k', _ | _⟩
  all_goals
    rw [hchain] at hprio
    simp only [Kernel.prio, Kernel.thread_modifyThread] at hprio ⊢
    split_ifs <;> simp_all

/-- A donation lowers every thread on the chain that had a higher priority than the donor. -/
theorem donate_lowers_chain (k : Kernel) (l : Nat) {h d : Tid} (hh : (k.lock l).holder = some h)
    (hm : k.mlfqs = false) (hlow : k.prio h < k.prio k.running)
    (hd : d ∈ chain k k.threads.length (some h)) (hdl : d < k.threads.length)
    (hhigh : k.prio k.running < k.prio d) :
    (execOp k (.donate l)).prio d < k.prio d := by
  rw [prio_execOp_donate k l hh hm hlow hd hdl]
  exact hhigh

/-! ## Runs from boot -/

/-- Main (H) takes priority 10 and locks 1 and 2. It creates A (20), which takes lock 0
and waits for lock 1, raising H to 20, and C (60), which waits for lock 2, raising H to 60.
It creates D (30) and blocks on a semaphore; D waits for lock 0, held by A. -/
def chainDonationState : Kernel :=
  [Call.setPriority 10, .acquire 1, .acquire 2, .create 20, .acquire 0, .acquire 1,
    .create 60, .acquire 2, .create 30, .down 0, .acquire 0].foldl exec (boot false 3 [0] 0)

/-- D's donation gives A and then A's donee H the priority 30. H holds lock 2, which C
waits for, and runs at 30 where the rule gives 60. -/
theorem chain_donation_lowers_holder :
    (chainDonationState.lock 2).holder = some 0 ∧ (chainDonationState.lock 2).sema.waiters = [3] ∧
      (chainDonationState.thread 3).priority = 60 ∧ (chainDonationState.thread 0).priority = 30 ∧
      donatedPriority chainDonationState 3 0 = 60 := by
  decide

/-- Main (priority 31) takes lock 0 and creates a thread of priority 40 that waits for it.
Main then sets its priority to 50: the priority is 50 but `original_priority` stays 31,
and after releasing the lock main runs at 31. -/
theorem raised_priority_lost_after_release :
    let k := [Call.acquire 0, .create 40, .acquire 0, .setPriority 50].foldl exec
      (boot false 1 [] 0)
    (k.thread 0).priority = 50 ∧ (k.thread 0).originalPriority = 31 ∧
      ((exec k (.release 0)).thread 0).priority = 31 := by
  decide

end Pintos.Sched.Analysis
