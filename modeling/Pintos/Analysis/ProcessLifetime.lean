import Pintos.Model.Process

/-!
# The lifetime of a `struct process`

The page of a child's `struct process` is freed by whichever of parent and child comes
last: `process_remove_child` frees it if the child has exited, the child's `process_exit`
frees it if the parent has already set `parent = NULL`. Each of the three ways the two
meet goes wrong, and each at the level of single statements, from any state:

* `orphan_exit_uses_freed_page`: a child whose parent dropped it frees its page at
  `if (pcb && !pcb->parent)` and then calls `sema_up (&pcb->exit_sema)` on it.
* `exit_loop_reads_freed_child`: a parent that exits before waiting for an exited child
  frees the child's page in `process_remove_child` and then reads its `childelem` in the
  loop's `list_next (e)`.
* `remove_race_frees_twice`: if the child's `process_exit` runs its `parent` test between
  the parent's `child->parent = NULL` and its `is_exited` test, both free the page, and the
  second `palloc_free_page` panics the kernel.

`child_exit_then_parent_exit_uses_freed_page` runs the second case from boot.
-/

set_option autoImplicit false

namespace Pintos.Process.Analysis

open Lifetime

@[simp] theorem isFree_free (t pg : Nat) : isFree Event.use pg (.free t pg) = true := by
  simp [isFree, Event.use]

@[simp] theorem touches_access (t pg : Nat) (f : Field) :
    touches Event.use pg (.access t pg f) = true := by
  simp [touches, Event.use]

theorem lt_length_of_getElem? {w : World} {t : Nat} {th : Thread} (h : w.threads[t]? = some th) :
    t < w.threads.length :=
  (List.getElem?_eq_some_iff.mp h).1

/-! ## One statement at a time -/

section Statements

variable {w : World} {t pg : Nat} {th : Thread}

/-- `if (pcb && !pcb->parent) palloc_free_page (pcb)` in an orphan. -/
theorem step_exitCheck_orphan {p : Pcb} (hrun : w.panicked = false) (ht : w.threads[t]? = some th)
    (hpc : th.pc = .exitCheck) (hpcb : th.pcb = some pg) (hpg : w.page pg = .live p)
    (hnull : p.parent = none) :
    step w t = ((((w.emit (.access t pg .parent)).setPage pg .freed).emit (.free t pg)).setThread t
      { th with pc := .exitUp }) := by
  rw [step_of_thread hrun ht]
  simp [stepThread, hpc, hpcb, hpg, hnull, Page.parentIsNull, pallocFreePage]

/-- `sema_up (&pcb->exit_sema)` on a freed page faults. -/
theorem step_exitUp_freed (hrun : w.panicked = false) (ht : w.threads[t]? = some th)
    (hpc : th.pc = .exitUp) (hpcb : th.pcb = some pg) (hpg : w.page pg = .freed) :
    step w t = ((w.emit (.access t pg .exitSema)).emit (.fault t)).setThread t
      { th with pc := .exitStatus (-1) } := by
  rw [step_of_thread hrun ht]
  simp [stepThread, hpc, hpcb, semaUp, hpg]

/-- `if (child->is_exited) palloc_free_page (child)` in the exit loop, on a live page of an
exited child. -/
theorem step_rmFree_exited {p : Pcb} {succ : Cursor} (hrun : w.panicked = false)
    (ht : w.threads[t]? = some th) (hpc : th.pc = .rmFree pg .exitLoop succ)
    (hpg : w.page pg = .live p) (hex : p.isExited = true) :
    step w t = ((((w.emit (.access t pg .isExited)).setPage pg .freed).emit (.free t pg)).setThread t
      { th with pc := .exitNext pg succ }) := by
  rw [step_of_thread hrun ht]
  simp [stepThread, hpc, hpg, hex, Page.isExited, pallocFreePage]

/-- The same test on a page that is already free reads `is_exited` as true and frees the
page again: the allocator's assertion fails. -/
theorem step_rmFree_freed {caller : Caller} {succ : Cursor} (hrun : w.panicked = false)
    (ht : w.threads[t]? = some th) (hpc : th.pc = .rmFree pg caller succ)
    (hpg : w.page pg = .freed) :
    (step w t).panicked = true ∧
      (step w t).trace = w.trace ++ [.access t pg .isExited, .free t pg, .panic t] ++
        match caller with
        | .wait status => [.waitRet t status]
        | .exitLoop => [] := by
  rw [step_of_thread hrun ht]
  cases caller <;> simp [stepThread, hpc, hpg, Page.isExited, pallocFreePage]

/-- `e = list_next (e)` on a freed element reads it and gets `0xcccccccc`. -/
theorem step_exitNext_freed {succ : Cursor} (hrun : w.panicked = false)
    (ht : w.threads[t]? = some th) (hpc : th.pc = .exitNext pg succ) (hpg : w.page pg = .freed) :
    step w t = (w.emit (.access t pg .childelem)).setThread t { th with pc := .exitTest .garbage } := by
  rw [step_of_thread hrun ht]
  simp [stepThread, hpc, hpg]

end Statements

/-! ## The three ways to use a freed page -/

/-- An orphan's `process_exit` frees its own page and then signals `exit_sema` in it. -/
theorem orphan_exit_uses_freed_page {w : World} {c pg : Nat} {th : Thread} {p : Pcb}
    (hrun : w.panicked = false) (hc : w.threads[c]? = some th) (hpc : th.pc = .exitCheck)
    (hpcb : th.pcb = some pg) (hpg : w.page pg = .live p) (hnull : p.parent = none) :
    UsedAfterFree Event.use (run w [c, c]).trace pg := by
  have hlt := World.lt_of_page_eq_live hpg
  have hclt := lt_length_of_getElem? hc
  rw [run_cons, run_cons, run_nil, step_exitCheck_orphan hrun hc hpc hpcb hpg hnull]
  -- the second statement is the `sema_up`, on the page just freed
  have h₁ : ((((w.emit (.access c pg .parent)).setPage pg .freed).emit (.free c pg)).setThread c
      { th with pc := .exitUp }).threads[c]? = some { th with pc := .exitUp } := by
    simp [hclt]
  rw [step_exitUp_freed (by simp [hrun]) h₁ rfl hpcb
    (World.page_setPage_self (by simpa using hlt) _)]
  simp only [World.trace_setThread, World.trace_emit, World.trace_setPage, List.append_assoc,
    List.cons_append, List.nil_append]
  exact (usedAfterFree_of_split [.access c pg .parent] [.access c pg .exitSema, .fault c]
    (isFree_free c pg) List.mem_cons_self (touches_access c pg .exitSema)).prepend w.trace

/-- A parent's `process_exit` that removes an exited child frees the child's page and then
reads its `childelem` in `list_next (e)`. -/
theorem exit_loop_reads_freed_child {w : World} {t pg : Nat} {th : Thread} {p : Pcb}
    {succ : Cursor} (hrun : w.panicked = false) (ht : w.threads[t]? = some th)
    (hpc : th.pc = .rmFree pg .exitLoop succ) (hpg : w.page pg = .live p)
    (hex : p.isExited = true) :
    UsedAfterFree Event.use (run w [t, t]).trace pg := by
  have hlt := World.lt_of_page_eq_live hpg
  have htlt := lt_length_of_getElem? ht
  rw [run_cons, run_cons, run_nil, step_rmFree_exited hrun ht hpc hpg hex]
  -- the second statement is `e = list_next (e)`, on the page just freed
  have h₁ : ((((w.emit (.access t pg .isExited)).setPage pg .freed).emit (.free t pg)).setThread t
      { th with pc := .exitNext pg succ }).threads[t]? = some { th with pc := .exitNext pg succ } := by
    simp [htlt]
  rw [step_exitNext_freed (by simp [hrun]) h₁ rfl (World.page_setPage_self (by simpa using hlt) _)]
  simp only [World.trace_setThread, World.trace_emit, World.trace_setPage, List.append_assoc,
    List.cons_append, List.nil_append]
  exact (usedAfterFree_of_split [.access t pg .isExited] [.access t pg .childelem]
    (isFree_free t pg) List.mem_cons_self (touches_access t pg .childelem)).prepend w.trace

/-- A child that runs its `parent` test after its parent's `child->parent = NULL` and
before the parent's `is_exited` test frees its page, and then the parent frees it again:
the kernel panics. -/
theorem remove_race_frees_twice {w : World} {t c pg : Nat} {tht thc : Thread} {p : Pcb}
    {caller : Caller} {succ : Cursor} (hrun : w.panicked = false)
    (ht : w.threads[t]? = some tht) (hc : w.threads[c]? = some thc) (hne : t ≠ c)
    (hpct : tht.pc = .rmFree pg caller succ) (hpcc : thc.pc = .exitCheck)
    (hpcb : thc.pcb = some pg) (hpg : w.page pg = .live p) (hnull : p.parent = none) :
    (run w [c, t]).panicked = true ∧
      frees Event.use (run w [c, t]).trace pg = frees Event.use w.trace pg + 2 := by
  have hlt := World.lt_of_page_eq_live hpg
  rw [run_cons, run_cons, run_nil, step_exitCheck_orphan hrun hc hpcc hpcb hpg hnull]
  -- the parent's thread is untouched by the child's statement
  have h₁ : ((((w.emit (.access c pg .parent)).setPage pg .freed).emit (.free c pg)).setThread c
      { thc with pc := .exitUp }).threads[t]? = some tht := by
    simp [List.getElem?_set_ne (Ne.symm hne), ht]
  obtain ⟨hpanic, htrace⟩ := step_rmFree_freed (by simp [hrun]) h₁ hpct
    (World.page_setPage_self (by simpa using hlt) _)
  refine ⟨hpanic, ?_⟩
  rw [htrace]
  cases caller <;> simp [frees, isFree, Event.use]

/-! ## From boot -/

/-- The main thread runs a process that `exec`s a child exiting with 5 and then exits with
7 without waiting for it. The child (thread 2, page 1) runs to the end of its
`process_exit` before the parent (thread 1) exits: the parent's loop frees the child's
page and reads it again in `list_next`. -/
theorem child_exit_then_parent_exit_uses_freed_page :
    UsedAfterFree Event.use
      (run (boot true [.exec true [.exit 5], .exit 7])
        ([0] ++ List.replicate 3 1 ++ List.replicate 3 0 ++ List.replicate 2 1 ++
          List.replicate 3 2 ++ List.replicate 3 1 ++ List.replicate 6 2 ++
          List.replicate 16 1)).trace 1 :=
  usedAfterFree_iff.mp (by decide)

/-- What the freed page does to a waiting parent: the main thread runs a process (thread 1)
that `exec`s a process (thread 2), waits for it and exits. Thread 2 `exec`s a child
(thread 3) that exits with 5, and exits with 7 once the child is gone. Its loop reads the
freed child's `childelem`, gets `0xcccccccc`, and the kernel page fault on it calls
`syscall_exit (-1)`, which overwrites the status 7: thread 1's `wait (2)` returns -1. -/
theorem exit_fault_overwrites_waited_status :
    [Event.execRet 1 2, .exit 2 7, .waitRet 1 (-1)].Sublist
      (run (boot true [.exec true [.exec true [.exit 5], .exit 7], .wait 2, .exit 0])
        ([0] ++ List.replicate 3 1 ++ List.replicate 3 0 ++ List.replicate 2 1 ++
          List.replicate 3 2 ++ List.replicate 5 1 ++ List.replicate 2 2 ++
          List.replicate 3 3 ++ List.replicate 3 2 ++ List.replicate 6 3 ++
          List.replicate 14 2 ++ List.replicate 5 1)).trace := by
  decide +kernel

end Pintos.Process.Analysis
