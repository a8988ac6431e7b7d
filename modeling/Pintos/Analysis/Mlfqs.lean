import Pintos.Model.Sched
import Pintos.Lib.LongDivision
import Mathlib.Data.Rat.Floor

/-!
# The MLFQS priority against the 4.4BSD rule

The 4.4BSD scheduler sets `priority = PRI_MAX - (recent_cpu / 4) - (nice * 2)`, the result
rounded down to the nearest integer and clamped to `PRI_MIN .. PRI_MAX` (`bsdPriority`,
with `recent_cpu / 4` the exact rational). `update_priority` computes it in 17.14 fixed
point: `recent_cpu / 4` is a C division, which truncates, and `fixed_to_int` rounds to the
nearest integer, halves away from zero. The two never differ by more than one, and the
code's value is never the lower (`bsdPriority_le_mlfqsPriority`,
`mlfqsPriority_le_bsdPriority_add_one`); they differ whenever the exact value has a
fractional part of one half or more, as for `recent_cpu = 2` and `nice = 0`
(`update_priority_rounds_half_up`).
-/

set_option autoImplicit false

namespace Pintos.Sched

/-- The 4.4BSD priority: `PRI_MAX - recent_cpu / 4 - nice * 2` rounded down and clamped,
for `recent_cpu` given in 17.14 fixed point. -/
def bsdPriority (recentCpu nice : Int) : Int :=
  max PRI_MIN (min PRI_MAX ⌊(PRI_MAX : ℚ) - (recentCpu : ℚ) / fixedOne / 4 - 2 * nice⌋)

/-- The exact value is a quotient by `4 * 2 ^ 14`, so its floor is a floor division. -/
theorem floor_bsd (recentCpu nice : Int) :
    ⌊(PRI_MAX : ℚ) - (recentCpu : ℚ) / fixedOne / 4 - 2 * nice⌋ =
      (63 * 65536 - recentCpu - nice * 131072) / 65536 := by
  have hq : (PRI_MAX : ℚ) - (recentCpu : ℚ) / fixedOne / 4 - 2 * nice =
      ((63 * 65536 - recentCpu - nice * 131072 : Int) : ℚ) / ((65536 : Nat) : ℚ) := by
    simp only [PRI_MAX, fixedOne]
    push_cast
    ring
  rw [hq, Rat.floor_intCast_div_natCast]
  rfl

/-- `update_priority`'s value before the clamp, as floor divisions. -/
theorem fixedToInt_priority (recentCpu nice : Int) :
    fixedToInt (fixedMinusInt (intToFixed PRI_MAX - fixedDivInt recentCpu 4) (2 * nice)) =
      let x := 63 * 16384 - (if 0 ≤ recentCpu then recentCpu / 4 else -((-recentCpu) / 4)) -
        nice * 32768
      if 0 ≤ x then (x + 8192) / 16384 else -((-(x - 8192)) / 16384) := by
  simp only [fixedToInt, fixedMinusInt, intToFixed, fixedDivInt, fixedOne, PRI_MAX,
    LongDivision.tdiv_eq_ite]
  split_ifs <;> omega

/-- The code never rounds below the 4.4BSD rule. -/
theorem bsdPriority_le_mlfqsPriority (recentCpu nice : Int) :
    bsdPriority recentCpu nice ≤ mlfqsPriority recentCpu nice := by
  rw [bsdPriority, floor_bsd, mlfqsPriority, fixedToInt_priority]
  simp only [PRI_MIN, PRI_MAX]
  split_ifs <;> omega

/-- The code is at most one above the 4.4BSD rule. -/
theorem mlfqsPriority_le_bsdPriority_add_one (recentCpu nice : Int) :
    mlfqsPriority recentCpu nice ≤ bsdPriority recentCpu nice + 1 := by
  rw [bsdPriority, floor_bsd, mlfqsPriority, fixedToInt_priority]
  simp only [PRI_MIN, PRI_MAX]
  split_ifs <;> omega

/-- `recent_cpu = 2` and `nice = 0`: the exact value is 62.5; the rule gives 62, and
`update_priority` sets 63. -/
theorem update_priority_rounds_half_up :
    (updatePriority ((boot true 0 [] 0).modifyThread 0 fun th =>
        { th with recentCpu := 2 * fixedOne }) 0 false).prio 0 = 63 ∧
      bsdPriority (2 * fixedOne) 0 = 62 := by
  refine ⟨by decide, ?_⟩
  rw [bsdPriority, floor_bsd]
  decide

end Pintos.Sched
