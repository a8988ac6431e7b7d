import Pintos.Model.FdTable
import Pintos.Lib.Table
import Mathlib

/-!
# The descriptor table, until `next_fd` wraps

While `next_fd` stays below `INT_MAX` the table keeps its invariant `Wf`: the descriptors
are distinct and lie in `[2, next_fd)` (`wf_run`). A successful `open` then returns a
descriptor above every earlier one (`given_increasing`), `close` removes exactly the entry
with its descriptor and touches no other entry or position (`syscallClose_removes_exactly`),
and `process_exit`'s loop closes every entry (`processExit_closes_every_entry`).

The bound is the code's: `next_fd` is an `int` that only grows. After `2^31 - 3`
successful opens the next one returns `INT_MAX` and leaves `next_fd` at `INT_MIN`; the
entry is then outside `[2, next_fd)`, and `process_exit`, whose loop runs to `max_fd =
INT_MIN`, leaves it open. After `2^32` opens the descriptor 2 comes back
(`fd_table_breaks_at_int_max`).
-/

set_option autoImplicit false

namespace Pintos.FdTable

open Proc

/-! ## `int` arithmetic -/

/-- `next_fd++` below `INT_MAX` does not wrap. -/
theorem toInt_add_one {x : Int32} (h : x.toInt < 2 ^ 31 - 1) : (x + 1).toInt = x.toInt + 1 := by
  have hlo := Int32.le_toInt x
  rw [Int32.toInt_add, Int32.toInt_one]
  exact Int.bmod_eq_of_le (by simp; omega) (by simp; omega)

/-- The descriptors `process_exit` closes, `2 .. max_fd - 1`, are the `int`s in that range. -/
theorem mem_exitFds {m : Int} (hm : m ≤ 2 ^ 31 - 1) (x : Int32) :
    x ∈ (List.range (m - 2).toNat).map (fun i : Nat => Int32.ofInt (2 + i)) ↔
      2 ≤ x.toInt ∧ x.toInt < m := by
  rw [List.mem_map]
  constructor
  · rintro ⟨i, hi, rfl⟩
    rw [List.mem_range] at hi
    rw [Int32.toInt_ofInt_of_le (by omega) (by omega)]
    omega
  · rintro ⟨h2, hlt⟩
    refine ⟨(x.toInt - 2).toNat, List.mem_range.mpr (by omega), ?_⟩
    rw [show (2 : Int) + ((x.toInt - 2).toNat : Int) = x.toInt by omega, Int32.ofInt_toInt]

/-! ## The calls one by one -/

section Calls

variable (p : Proc)

theorem syscallOpen_true :
    p.syscallOpen true =
      ({ p with fdt := p.fdt ++ [⟨p.nextFd, p.nextFile⟩], nextFd := p.nextFd + 1,
                nextFile := p.nextFile + 1, pos := Function.update p.pos p.nextFile 0 }, p.nextFd) :=
  rfl

theorem snd_syscallOpen_true : (p.syscallOpen true).2 = p.nextFd := rfl

theorem syscallClose_of_none {fd : Int32} (h : p.processGetFde fd = none) : p.syscallClose fd = p := by
  simp [syscallClose, h]

@[simp] theorem nextFd_syscallClose (fd : Int32) : (p.syscallClose fd).nextFd = p.nextFd := by
  unfold syscallClose
  split <;> rfl

@[simp] theorem pos_syscallClose (fd : Int32) : (p.syscallClose fd).pos = p.pos := by
  unfold syscallClose
  split <;> rfl

theorem fdt_syscallClose (h : (p.fdt.map (·.fd)).Nodup) (fd : Int32) :
    (p.syscallClose fd).fdt = p.fdt.filter (·.fd ≠ fd) := by
  unfold syscallClose
  split
  · -- no entry has the descriptor: the filter keeps all of them
    rename_i hnone
    refine (List.filter_eq_self.mpr fun e he => ?_).symm
    have := List.find?_eq_none.mp hnone e he
    simpa using this
  · exact Table.eraseP_key_eq_filter Fde.fd fd p.fdt h

theorem closed_prefix_syscallClose (fd : Int32) : p.closed <+: (p.syscallClose fd).closed := by
  unfold syscallClose
  split
  · exact List.prefix_refl _
  · exact List.prefix_append _ _

/-- Closing an entry's descriptor closes the entry's file. -/
theorem file_mem_closed_syscallClose (h : (p.fdt.map (·.fd)).Nodup) {e : Fde} (he : e ∈ p.fdt) :
    e.file ∈ (p.syscallClose e.fd).closed := by
  unfold syscallClose
  split
  · rename_i hnone
    exact absurd (List.find?_eq_none.mp hnone e he) (by simp)
  · rename_i fde hsome
    -- the entry `process_get_fde` finds has `e`'s descriptor, so it is `e`
    have hmem := List.mem_of_find?_eq_some hsome
    have hfd : fde.fd = e.fd := by simpa using List.find?_some hsome
    rw [List.inj_on_of_nodup_map h hmem he hfd]
    exact List.mem_append_right _ (List.mem_singleton_self _)

@[simp] theorem fdt_syscallRead (fd n : Int32) : (p.syscallRead fd n).fdt = p.fdt := by
  unfold syscallRead
  split
  · rfl
  · split <;> rfl

@[simp] theorem nextFd_syscallRead (fd n : Int32) : (p.syscallRead fd n).nextFd = p.nextFd := by
  unfold syscallRead
  split
  · rfl
  · split <;> rfl

@[simp] theorem fdt_syscallWrite (fd n : Int32) : (p.syscallWrite fd n).fdt = p.fdt := by
  unfold syscallWrite
  split
  · rfl
  · split <;> rfl

@[simp] theorem nextFd_syscallWrite (fd n : Int32) : (p.syscallWrite fd n).nextFd = p.nextFd := by
  unfold syscallWrite
  split
  · rfl
  · split <;> rfl

@[simp] theorem fdt_syscallSeek (fd : Int32) (position : UInt32) : (p.syscallSeek fd position).fdt = p.fdt := by
  unfold syscallSeek
  split <;> rfl

@[simp] theorem nextFd_syscallSeek (fd : Int32) (position : UInt32) :
    (p.syscallSeek fd position).nextFd = p.nextFd := by
  unfold syscallSeek
  split <;> rfl

@[simp] theorem fdt_syscallMmap (fd : Int32) (ok : Bool) : (p.syscallMmap fd ok).fdt = p.fdt := by
  unfold syscallMmap
  split
  · rfl
  · split <;> rfl

@[simp] theorem nextFd_syscallMmap (fd : Int32) (ok : Bool) : (p.syscallMmap fd ok).nextFd = p.nextFd := by
  unfold syscallMmap
  split
  · rfl
  · split <;> rfl

/-- Only `open` and `close` change the table; only a successful `open` moves `next_fd`. -/
theorem fdt_step_of_ne {c : Call} (ho : ∀ ok, c ≠ .open ok) (hc : ∀ fd, c ≠ .close fd) :
    (step p c).fdt = p.fdt := by
  cases c with
  | «open» ok => exact absurd rfl (ho ok)
  | close fd => exact absurd rfl (hc fd)
  | read fd n => exact fdt_syscallRead p fd n
  | write fd n => exact fdt_syscallWrite p fd n
  | filesize => rfl
  | seek fd position => exact fdt_syscallSeek p fd position
  | tell => rfl
  | mmap fd ok => exact fdt_syscallMmap p fd ok

theorem nextFd_step (c : Call) :
    (step p c).nextFd = if c = .open true then p.nextFd + 1 else p.nextFd := by
  cases c with
  | «open» ok => cases ok <;> rfl
  | close fd => exact nextFd_syscallClose p fd
  | read fd n => exact nextFd_syscallRead p fd n
  | write fd n => exact nextFd_syscallWrite p fd n
  | filesize => rfl
  | seek fd position => exact nextFd_syscallSeek p fd position
  | tell => rfl
  | mmap fd ok => exact nextFd_syscallMmap p fd ok

end Calls

theorem opens_cons (c : Call) (cs : List Call) :
    opens (c :: cs) = opens cs + if c = .open true then 1 else 0 := by
  simp [opens, List.count_cons]

/-! ## The invariant -/

/-- The descriptors of the table are distinct and lie in `[2, next_fd)`. -/
structure Wf (p : Proc) : Prop where
  nodup : (p.fdt.map (·.fd)).Nodup
  range : ∀ e ∈ p.fdt, 2 ≤ e.fd.toInt ∧ e.fd.toInt < p.nextFd.toInt
  next : 2 ≤ p.nextFd.toInt

theorem wf_init : Wf Proc.init := ⟨List.nodup_nil, fun _ he => absurd he List.not_mem_nil, by decide⟩

/-- A successful `open` below `INT_MAX` appends a descriptor above every other one. -/
theorem Wf.syscallOpen {p : Proc} (h : Wf p) (hn : p.nextFd.toInt < 2 ^ 31 - 1) :
    Wf (p.syscallOpen true).1 := by
  rw [syscallOpen_true]
  have hnext := toInt_add_one hn
  have h2 := h.next
  refine ⟨?_, fun e he => ?_, ?_⟩
  · -- the new descriptor is `next_fd`, above every old one
    show ((p.fdt ++ [(⟨p.nextFd, p.nextFile⟩ : Fde)]).map Fde.fd).Nodup
    rw [List.map_append, List.nodup_append]
    refine ⟨h.nodup, List.nodup_singleton _, ?_⟩
    rintro a ha b hb rfl
    obtain ⟨e, he, rfl⟩ := List.mem_map.mp ha
    rw [List.map_singleton, List.mem_singleton] at hb
    exact absurd (congrArg Int32.toInt hb) (Int.ne_of_lt (h.range e he).2)
  · show 2 ≤ e.fd.toInt ∧ e.fd.toInt < (p.nextFd + 1).toInt
    rw [hnext]
    rcases List.mem_append.mp he with he | he
    · have := h.range e he
      omega
    · rw [List.mem_singleton] at he
      subst he
      show 2 ≤ p.nextFd.toInt ∧ p.nextFd.toInt < p.nextFd.toInt + 1
      omega
  · show 2 ≤ (p.nextFd + 1).toInt
    omega

theorem Wf.syscallClose {p : Proc} (h : Wf p) (fd : Int32) : Wf (p.syscallClose fd) where
  nodup := by
    rw [fdt_syscallClose p h.nodup]
    exact Table.nodup_map_filter _ _ _ h.nodup
  range e he := by
    rw [fdt_syscallClose p h.nodup, List.mem_filter] at he
    rw [nextFd_syscallClose]
    exact h.range e he.1
  next := by
    rw [nextFd_syscallClose]
    exact h.next

theorem Wf.of_table {p q : Proc} (h : Wf p) (hfdt : q.fdt = p.fdt) (hnext : q.nextFd = p.nextFd) :
    Wf q :=
  ⟨hfdt ▸ h.nodup, hfdt ▸ hnext ▸ h.range, hnext ▸ h.next⟩

/-- Every call but an `open` at `INT_MAX` keeps the invariant. -/
theorem Wf.step {p : Proc} (h : Wf p) (c : Call)
    (hc : c = .open true → p.nextFd.toInt < 2 ^ 31 - 1) : Wf (step p c) := by
  cases c
  case «open» ok =>
    cases ok
    · exact h
    · exact h.syscallOpen (hc rfl)
  case close fd => exact h.syscallClose fd
  -- the other calls leave the table and `next_fd` alone
  all_goals exact h.of_table (fdt_step_of_ne p (by simp) (by simp)) (by rw [nextFd_step, if_neg (by simp)])

theorem toInt_nextFd_step (p : Proc) (c : Call) (hc : c = .open true → p.nextFd.toInt < 2 ^ 31 - 1) :
    (step p c).nextFd.toInt = p.nextFd.toInt + ((if c = .open true then 1 else 0 : Nat) : Int) := by
  rw [nextFd_step]
  split
  · rename_i ho
    rw [toInt_add_one (hc ho)]
    rfl
  · simp

theorem run_cons (p : Proc) (c : Call) (cs : List Call) : run p (c :: cs) = run (step p c) cs := rfl

/-- Along a run whose opens keep `next_fd` at most `INT_MAX`, the invariant holds and
`next_fd` counts the opens. -/
theorem wf_run {p : Proc} (h : Wf p) (cs : List Call) (hb : p.nextFd.toInt + opens cs ≤ 2 ^ 31 - 1) :
    Wf (run p cs) ∧ (run p cs).nextFd.toInt = p.nextFd.toInt + opens cs := by
  induction cs generalizing p with
  | nil => exact ⟨h, by simp [run, opens]⟩
  | cons c cs ih =>
      rw [opens_cons] at hb ⊢
      have hc : c = .open true → p.nextFd.toInt < 2 ^ 31 - 1 := fun ho => by
        rw [if_pos ho] at hb
        omega
      have hnext := toInt_nextFd_step p c hc
      -- `b` is what the call adds to `next_fd`
      generalize (if c = Call.open true then 1 else 0 : Nat) = b at hb hnext ⊢
      obtain ⟨hw, hn⟩ := ih (h.step c hc) (by omega)
      rw [run_cons]
      exact ⟨hw, by omega⟩

theorem handsOut_eq (p : Proc) (c : Call) :
    handsOut p c = if c = .open true then some p.nextFd else none := by
  cases c
  case «open» ok => cases ok <;> rfl
  all_goals rfl

/-- Under the same bound, the descriptors the opens return grow, from `next_fd` on. -/
theorem given_increasing {p : Proc} (cs : List Call) (hb : p.nextFd.toInt + opens cs ≤ 2 ^ 31 - 1) :
    (given p cs).Pairwise (fun a b => a.toInt < b.toInt) ∧ ∀ d ∈ given p cs, p.nextFd.toInt ≤ d.toInt := by
  induction cs generalizing p with
  | nil => exact ⟨List.Pairwise.nil, fun _ hd => absurd hd List.not_mem_nil⟩
  | cons c cs ih =>
      rw [opens_cons] at hb
      have hc : c = .open true → p.nextFd.toInt < 2 ^ 31 - 1 := fun ho => by
        rw [if_pos ho] at hb
        omega
      have hnext := toInt_nextFd_step p c hc
      rw [given, handsOut_eq]
      by_cases ho : c = .open true
      · -- the open returns `next_fd`, below everything the rest of the run returns
        rw [if_pos ho] at hnext hb ⊢
        obtain ⟨hpw, hge⟩ := ih (p := step p c) (by omega)
        refine ⟨List.Pairwise.cons (fun d hd => ?_) hpw, fun d hd => ?_⟩
        · have := hge d hd
          omega
        · rcases List.mem_cons.mp hd with rfl | hd
          · exact Int.le_refl _
          · have := hge d hd
            omega
      · rw [if_neg ho] at hnext hb ⊢
        obtain ⟨hpw, hge⟩ := ih (p := step p c) (by omega)
        refine ⟨hpw, fun d hd => ?_⟩
        have := hge d hd
        omega

/-- From `init_thread`, no descriptor is returned twice while `next_fd` stays at most
`INT_MAX`. -/
theorem given_nodup (cs : List Call) (hb : opens cs ≤ 2 ^ 31 - 3) : (given Proc.init cs).Nodup := by
  have hinc := (given_increasing (p := Proc.init) cs (by
    show (2 : Int) + opens cs ≤ 2 ^ 31 - 1
    omega)).1
  exact hinc.imp fun hlt heq => absurd (congrArg Int32.toInt heq) (Int.ne_of_lt hlt)

/-- `close` removes exactly the entry with the descriptor and keeps every other entry and
every position; it does nothing for an unknown descriptor. -/
theorem syscallClose_removes_exactly {p : Proc} (h : Wf p) (fd : Int32) :
    (p.syscallClose fd).fdt = p.fdt.filter (·.fd ≠ fd) ∧ (p.syscallClose fd).pos = p.pos ∧
      (p.processGetFde fd = none → p.syscallClose fd = p) :=
  ⟨fdt_syscallClose p h.nodup fd, pos_syscallClose p fd, syscallClose_of_none p⟩

/-! ## `process_exit` -/

theorem fdt_foldl_syscallClose (fds : List Int32) (q : Proc) (hq : (q.fdt.map (·.fd)).Nodup) :
    (fds.foldl syscallClose q).fdt = q.fdt.filter (fun e => e.fd ∉ fds) := by
  induction fds generalizing q with
  | nil => simp
  | cons d fds ih =>
      have hq' : ((q.syscallClose d).fdt.map (·.fd)).Nodup := by
        rw [fdt_syscallClose q hq]
        exact Table.nodup_map_filter _ _ _ hq
      rw [List.foldl_cons, ih _ hq', fdt_syscallClose q hq, List.filter_filter]
      congr 1
      funext e
      by_cases h1 : e.fd = d <;> by_cases h2 : e.fd ∈ fds <;> simp [h1, h2]

theorem closed_prefix_foldl (fds : List Int32) (q : Proc) : q.closed <+: (fds.foldl syscallClose q).closed := by
  induction fds generalizing q with
  | nil => exact List.prefix_refl _
  | cons d fds ih => exact (closed_prefix_syscallClose q d).trans (ih _)

/-- A loop of closes over descriptors closes the file of every entry whose descriptor it
passes. -/
theorem file_mem_closed_foldl (fds : List Int32) (q : Proc) (hq : (q.fdt.map (·.fd)).Nodup) {e : Fde}
    (he : e ∈ q.fdt) (hfd : e.fd ∈ fds) : e.file ∈ (fds.foldl syscallClose q).closed := by
  induction fds generalizing q with
  | nil => exact absurd hfd List.not_mem_nil
  | cons d fds ih =>
      rw [List.foldl_cons]
      by_cases hd : e.fd = d
      · subst hd
        exact (closed_prefix_foldl fds _).subset (file_mem_closed_syscallClose q hq he)
      · have hq' : ((q.syscallClose d).fdt.map (·.fd)).Nodup := by
          rw [fdt_syscallClose q hq]
          exact Table.nodup_map_filter _ _ _ hq
        refine ih _ hq' ?_ (by simpa [hd] using hfd)
        rw [fdt_syscallClose q hq, List.mem_filter]
        exact ⟨he, by simpa using hd⟩

theorem processExit_eq (p : Proc) :
    p.processExit = ((List.range (p.nextFd.toInt - 2).toNat).map (fun i : Nat => Int32.ofInt (2 + i))).foldl
      syscallClose { p with nextFd := p.nextFd + 1 } := by
  simp only [processExit, threadGetNextFd, List.foldl_map]

/-- With the invariant, `process_exit`'s loop closes every entry of the table. -/
theorem processExit_closes_every_entry {p : Proc} (h : Wf p) :
    p.processExit.fdt = [] ∧ ∀ e ∈ p.fdt, e.file ∈ p.processExit.closed := by
  have hmax : p.nextFd.toInt ≤ 2 ^ 31 - 1 := by
    have := Int32.toInt_le p.nextFd
    rwa [Int32.toInt_maxValue] at this
  have hfds := mem_exitFds hmax
  rw [processExit_eq]
  refine ⟨?_, fun e he => file_mem_closed_foldl _ { p with nextFd := p.nextFd + 1 } h.nodup he
    ((hfds e.fd).mpr (h.range e he))⟩
  rw [fdt_foldl_syscallClose _ { p with nextFd := p.nextFd + 1 } h.nodup]
  refine List.filter_eq_nil_iff.mpr fun e he => ?_
  simp only [decide_eq_true_eq, not_not]
  exact (hfds e.fd).mpr (h.range e he)

/-! ## Past `INT_MAX` -/

/-- `open`, and `close` of the descriptor it returned. -/
def openClose (p : Proc) : Proc := (p.syscallOpen true).1.syscallClose (p.syscallOpen true).2

theorem openClose_iterate (n : Nat) :
    (openClose^[n] Proc.init).fdt = [] ∧ (openClose^[n] Proc.init).nextFd = Int32.ofInt (2 + n) ∧
      (openClose^[n] Proc.init).nextFile = n := by
  induction n with
  | zero => exact ⟨rfl, rfl, rfl⟩
  | succ n ih =>
      obtain ⟨hfdt, hnext, hfile⟩ := ih
      rw [Function.iterate_succ_apply']
      generalize openClose^[n] Proc.init = q at hfdt hnext hfile
      -- the open appends one entry, which the close finds and removes
      have hclose : openClose q = { (q.syscallOpen true).1 with fdt := [], closed := q.closed ++ [q.nextFile] } := by
        simp [openClose, syscallOpen_true, syscallClose, processGetFde, hfdt]
      rw [hclose]
      refine ⟨rfl, ?_, by simp [syscallOpen_true, hfile]⟩
      show q.nextFd + 1 = _
      rw [hnext, show (1 : Int32) = Int32.ofInt 1 from rfl, ← Int32.ofInt_add]
      congr 1

/-- After `2^31 - 3` opens, each closed again, `next_fd` is `INT_MAX`. -/
def atIntMax : Proc := openClose^[2 ^ 31 - 3] Proc.init

/-- The open at `INT_MAX`. -/
def pastIntMax : Proc := (atIntMax.syscallOpen true).1

/-- The open at `INT_MAX` returns `INT_MAX` and leaves `next_fd` at `INT_MIN`; its entry is
outside `[2, next_fd)`, and `process_exit` leaves it in the table. After `2^32` opens the
next one returns 2 again, the descriptor of the first. -/
theorem fd_table_breaks_at_int_max :
    (atIntMax.syscallOpen true).2 = Int32.maxValue ∧ pastIntMax.nextFd = Int32.minValue ∧
      pastIntMax.fdt = [⟨Int32.maxValue, 2 ^ 31 - 3⟩] ∧ ¬ Wf pastIntMax ∧
      pastIntMax.processExit.fdt = pastIntMax.fdt ∧
      ((openClose^[2 ^ 32] Proc.init).syscallOpen true).2 = (Proc.init.syscallOpen true).2 := by
  obtain ⟨hfdt, hnext, hfile⟩ := openClose_iterate (2 ^ 31 - 3)
  have hmax : atIntMax.nextFd = Int32.maxValue := by
    rw [atIntMax, hnext]
    decide
  have hopen := syscallOpen_true atIntMax
  have hpast : pastIntMax.fdt = [⟨Int32.maxValue, 2 ^ 31 - 3⟩] := by
    rw [pastIntMax, hopen]
    dsimp only
    rw [show atIntMax.fdt = [] from hfdt, show atIntMax.nextFile = 2 ^ 31 - 3 from hfile, hmax]
    rfl
  have hmin : pastIntMax.nextFd = Int32.minValue := by
    rw [pastIntMax, hopen]
    dsimp only
    rw [hmax]
    decide
  refine ⟨by rw [snd_syscallOpen_true, hmax], hmin, hpast, fun h => ?_, ?_, ?_⟩
  · -- the entry's `INT_MAX` is not below `INT_MIN`
    have := (h.range _ (hpast ▸ List.mem_singleton_self _)).2
    rw [hmin] at this
    exact absurd this (by decide)
  · -- `max_fd` is `INT_MIN`: the loop does not run
    have h0 : (Int32.minValue.toInt - 2).toNat = 0 := by decide
    rw [processExit_eq, hmin, h0]
    simp only [List.range_zero, List.map_nil, List.foldl_nil]
  · obtain ⟨-, hnext', -⟩ := openClose_iterate (2 ^ 32)
    rw [snd_syscallOpen_true, snd_syscallOpen_true, hnext']
    decide

end Pintos.FdTable
