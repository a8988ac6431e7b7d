import Pintos.Model.Syscall
import Pintos.Lib.CheckedAccess

/-!
# The system-call handler checks every user address before it uses it

Read as a `CheckedAccess` trace, with addresses compared as unsigned numbers, the events
of `syscallHandler` are disciplined (`safe_syscallHandler`): every check passed, every
byte the kernel reads or writes lies between two addresses checked before it, and a failed
check is followed by `exit (-1)` and nothing else. Since the user addresses are an
interval, every byte the kernel touches is a user address.

The proof follows the handler's pieces: `checkVaddr` adds its address to the checked ones,
`fetchWords` checks the two ends of the words it reads, which cannot wrap because the
first end lies below `PHYS_BASE`; the string loop checks each byte before it reads it, and
the buffer loop checks every byte of the buffer. Each piece is proved safe for any
continuation that is safe with more checked addresses.
-/

set_option autoImplicit false

namespace Pintos.Syscall.Analysis

open CheckedAccess

/-- How the discipline reads an event: pointers as unsigned numbers. -/
def Event.kind : Event → Kind Nat
  | .check a => .check a.toNat
  | .reject a => .reject a.toNat
  | .load a => .access a.toNat
  | .store a => .access a.toNat
  | _ => .other

/-- A pointer that `check_vaddr` accepts: not null, below `PHYS_BASE`. -/
def UserAddr (n : Nat) : Prop :=
  0 < n ∧ n < PHYS_BASE

/-- What follows a failed check: `syscall_exit (-1)`. -/
def ExitFailed (es : List Event) : Prop :=
  es = [.exit (-1)]

/-- The handler's discipline from the checked addresses `cs` on. -/
abbrev Safe (cs : List Nat) (es : List Event) : Prop :=
  Disciplined Event.kind UserAddr ExitFailed cs es

theorem validVaddr_iff (a : UInt32) : validVaddr a = true ↔ UserAddr a.toNat := by
  have h0 : a ≠ 0 ↔ 0 < a.toNat := by
    rw [Ne, ← UInt32.toNat_inj]
    simp only [UInt32.toNat_zero]
    omega
  unfold validVaddr UserAddr isUserVaddr
  rw [Bool.and_eq_true, bne_iff_ne, decide_eq_true_iff, h0]

theorem userAddr_convex : Convex UserAddr := by
  intro lo hi x hlo hhi h1 h2
  exact ⟨by have := hlo.1; omega, by have := hhi.2; omega⟩

theorem exitFailed_other (es : List Event) (h : ExitFailed es) : ∀ e ∈ es, Event.kind e = .other := by
  subst h
  simp [Event.kind]

section Events

variable {cs : List Nat} {es : List Event}

@[simp] theorem safe_check_cons {a : UInt32} :
    Safe cs (.check a :: es) ↔ UserAddr a.toNat ∧ Safe (a.toNat :: cs) es :=
  disciplined_check rfl

@[simp] theorem safe_reject_cons {a : UInt32} :
    Safe cs (.reject a :: es) ↔ ¬ UserAddr a.toNat ∧ ExitFailed es :=
  disciplined_reject rfl

@[simp] theorem safe_load_cons {a : UInt32} :
    Safe cs (.load a :: es) ↔ Covered cs a.toNat ∧ Safe cs es :=
  disciplined_access rfl

theorem safe_other_cons {e : Event} (h : Event.kind e = .other) :
    Safe cs (e :: es) ↔ Safe cs es :=
  disciplined_other h

end Events

/-! ## The pieces of the handler -/

theorem safe_of_other {cs : List Nat} {es : List Event} (h : ∀ e ∈ es, Event.kind e = .other) :
    Safe cs es := by
  induction es with
  | nil => trivial
  | cons e es ih =>
      rw [safe_other_cons (h e (by simp))]
      exact ih (fun e' he' => h e' (by simp [he']))

theorem safe_checkVaddr {cs : List Nat} {a : UInt32} {k : List Event}
    (hk : UserAddr a.toNat → Safe (a.toNat :: cs) k) : Safe cs (checkVaddr a k) := by
  unfold checkVaddr
  split
  · rename_i hv
    have ha := (validVaddr_iff a).mp hv
    exact safe_check_cons.mpr ⟨ha, hk ha⟩
  · rename_i hv
    exact safe_reject_cons.mpr ⟨fun ha => hv ((validVaddr_iff a).mpr ha), rfl⟩

theorem safe_loadBytes {cs : List Nat} {a : UInt32} {n : Nat} {k : List Event}
    (hcov : ∀ i < n, Covered cs (a + i.toUInt32).toNat) (hk : Safe cs k) :
    Safe cs (loadBytes a n ++ k) := by
  apply disciplined_append_accesses _ hk
  intro e he
  simp only [loadBytes, List.mem_map, List.mem_range] at he
  obtain ⟨i, hi, rfl⟩ := he
  exact ⟨_, rfl, hcov i hi⟩

theorem safe_storeBytes {cs : List Nat} {a : UInt32} {n : Nat} {k : List Event}
    (hcov : ∀ i < n, Covered cs (a + i.toUInt32).toNat) (hk : Safe cs k) :
    Safe cs (storeBytes a n ++ k) := by
  apply disciplined_append_accesses _ hk
  intro e he
  simp only [storeBytes, List.mem_map, List.mem_range] at he
  obtain ⟨i, hi, rfl⟩ := he
  exact ⟨_, rfl, hcov i hi⟩

/-- The bytes of a span whose two ends were checked, when the span does not wrap. -/
theorem covered_span {cs : List Nat} {lo : UInt32} {n : Nat} (hlo : lo.toNat ∈ cs)
    (hhi : lo.toNat + (n - 1) ∈ cs) (hwrap : lo.toNat + n ≤ 2 ^ 32) :
    ∀ i < n, Covered cs (lo + i.toUInt32).toNat := by
  intro i hi
  have hadd : (lo + i.toUInt32).toNat = lo.toNat + i := by
    simp only [UInt32.toNat_add, Nat.toUInt32_eq, UInt32.toNat_ofNat']
    omega
  exact ⟨lo.toNat, hlo, _, hhi, by omega, by omega⟩

theorem safe_fetchWords {cs : List Nat} (esp : UInt32) (first count : Nat) (hc : 0 < count)
    (hsmall : 4 * (first + count) < 2 ^ 30) {k : List Event}
    (hk : ∀ cs', cs ⊆ cs' → Safe cs' k) : Safe cs (fetchWords esp first count k) := by
  unfold fetchWords
  apply safe_checkVaddr
  intro hlo
  apply safe_checkVaddr
  intro hhi
  -- the last byte lies `4 * count - 1` above the first, which is below `PHYS_BASE`
  have hend : (esp + (4 * (first + count)).toUInt32 - 1).toNat =
      (esp + (4 * first).toUInt32).toNat + (4 * count - 1) := by
    have := hlo.2
    have := hhi.1
    simp only [UInt32.toNat_add, UInt32.toNat_sub, Nat.toUInt32_eq, UInt32.toNat_ofNat',
      UInt32.toNat_one, PHYS_BASE_eq] at *
    omega
  apply safe_loadBytes
  · apply covered_span (by simp) (by rw [← hend]; simp)
    have := hlo.2
    simp only [PHYS_BASE_eq] at this
    omega
  · exact hk _ (fun c hc => by simp [hc])

/-- The string loop from `p`: all bytes from `s` to `p` were checked, and the rest `k` gets
the checked string `s .. s + n`. -/
theorem safe_checkStringFrom (m : UserMem) (s : UInt32) {k : Nat → List Event}
    (hk : ∀ n cs', s.toNat ∈ cs' → s.toNat + n ∈ cs' → s.toNat + n < PHYS_BASE →
      Safe cs' (k n))
    (p : UInt32) :
    ∀ cs, s.toNat ∈ cs → p.toNat ∈ cs → UserAddr p.toNat → s.toNat ≤ p.toNat →
      Safe cs (checkStringFrom m s p k) := by
  induction p using checkStringFrom.induct with
  | case1 p ih =>
      intro cs hs hp hpv hsp
      rw [checkStringFrom_eq, safe_load_cons]
      refine ⟨covered_of_mem hp, ?_⟩
      have hsub : (p - s).toNat = p.toNat - s.toNat := by
        simp only [UInt32.toNat_sub]
        have := p.toNat_lt
        omega
      split
      · -- the terminator: the string is `s .. p`
        apply hk _ cs hs
        · rwa [hsub, Nat.add_sub_cancel' hsp]
        · rw [hsub, Nat.add_sub_cancel' hsp]
          exact hpv.2
      · apply safe_checkVaddr
        intro hv
        -- a checked `p + 1` is not null, so the pointer did not wrap
        have hnext : (p + 1).toNat = p.toNat + 1 := by
          have := hv.1
          simp only [UInt32.toNat_add, UInt32.toNat_one] at this ⊢
          have := p.toNat_lt
          omega
        exact ih ((validVaddr_iff _).mpr hv) _ (List.mem_cons_of_mem _ hs)
          List.mem_cons_self hv (by omega)

/-- A string argument, then a rest that reads the string. -/
theorem safe_checkString {cs : List Nat} (m : UserMem) (s : UInt32) {k : Nat → List Event}
    (hk : ∀ n cs', s.toNat ∈ cs' → s.toNat + n ∈ cs' → s.toNat + n < PHYS_BASE →
      Safe cs' (k n)) :
    Safe cs (checkString m s k) := by
  unfold checkString
  apply safe_checkVaddr
  intro hv
  exact safe_checkStringFrom m s hk s _ List.mem_cons_self List.mem_cons_self hv le_rfl

theorem safe_withString (cs : List Nat) (m : UserMem) (s : UInt32) : Safe cs (withString m s) := by
  apply safe_checkString
  intro n cs' hs hsn hlt
  apply safe_loadBytes (covered_span hs (by simpa using hsn) (by simp only [PHYS_BASE_eq] at hlt; omega))
  exact safe_of_other (by simp [Event.kind])

theorem safe_checkBuffer_foldr (buffer : UInt32) (l : List Nat) {k : List Event} :
    ∀ cs, (∀ cs', cs ⊆ cs' → (∀ j ∈ l, (buffer + j.toUInt32).toNat ∈ cs') → Safe cs' k) →
      Safe cs (l.foldr (fun i k => checkVaddr (buffer + i.toUInt32) k) k) := by
  induction l with
  | nil => exact fun cs hk => hk cs (List.Subset.refl _) (by simp)
  | cons j l ih =>
      intro cs hk
      apply safe_checkVaddr
      intro _
      apply ih
      intro cs' hsub hl
      apply hk cs' (fun c hc => hsub (List.mem_cons_of_mem _ hc))
      intro j' hj'
      rcases List.mem_cons.mp hj' with rfl | hj'
      · exact hsub List.mem_cons_self
      · exact hl j' hj'

/-- A buffer argument, then a rest that touches at most its bytes. -/
theorem safe_checkBuffer {cs : List Nat} (buffer size : UInt32) {k : List Event}
    (hk : ∀ cs', (∀ j < size.toNat, (buffer + j.toUInt32).toNat ∈ cs') → Safe cs' k) :
    Safe cs (checkBuffer buffer size k) :=
  safe_checkBuffer_foldr buffer _ cs fun cs' _ hl => hk cs' fun j hj => hl j (by simpa using hj)

theorem asInt_toNat_le (w : UInt32) : (asInt w).toNat ≤ w.toNat := by
  unfold asInt
  split <;> omega

/-- Reading or writing at most the checked bytes of the buffer. -/
theorem safe_buffer_bytes {cs : List Nat} {buffer size : UInt32} {n : Nat}
    (hbuf : ∀ j < size.toNat, (buffer + j.toUInt32).toNat ∈ cs) (hn : n ≤ size.toNat) :
    ∀ i < n, Covered cs (buffer + i.toUInt32).toNat :=
  fun i hi => covered_of_mem (hbuf i (by omega))

theorem safe_syscallRead (cs : List Nat) (env : Env) (fd : Int) (buffer size : UInt32) :
    Safe cs (syscallRead env fd buffer size) := by
  unfold syscallRead
  apply safe_checkBuffer
  intro cs' hbuf
  have hret : Safe cs' [.ret] := safe_of_other (by simp [Event.kind])
  split
  · exact safe_storeBytes (safe_buffer_bytes hbuf le_rfl) hret
  · split
    · exact safe_storeBytes (safe_buffer_bytes hbuf (asInt_toNat_le size)) hret
    · exact hret

theorem safe_syscallWrite (cs : List Nat) (env : Env) (fd : Int) (buffer size : UInt32) :
    Safe cs (syscallWrite env fd buffer size) := by
  unfold syscallWrite
  apply safe_checkBuffer
  intro cs' hbuf
  have hret : Safe cs' [.ret] := safe_of_other (by simp [Event.kind])
  split
  · exact safe_loadBytes (safe_buffer_bytes hbuf le_rfl) hret
  · split
    · exact safe_loadBytes (safe_buffer_bytes hbuf (asInt_toNat_le size)) hret
    · exact hret

theorem safe_syscallCreate (cs : List Nat) (env : Env) (m : UserMem) (file size : UInt32) :
    Safe cs (syscallCreate env m file size) := by
  apply safe_checkString
  intro n cs' hs hsn hlt
  unfold filesysCreate inodeCreate
  split
  · split
    · apply safe_loadBytes (covered_span hs (by simpa using hsn)
        (by simp only [PHYS_BASE_eq] at hlt; omega))
      exact safe_of_other (by simp [Event.kind])
    · exact safe_of_other (by simp [Event.kind])
  · exact safe_of_other (by simp [Event.kind])

theorem safe_syscallSeek (cs : List Nat) (env : Env) (fd : Int) (position : UInt32) :
    Safe cs (syscallSeek env fd position) := by
  apply safe_of_other
  unfold syscallSeek fileSeek
  split
  · split <;> simp [Event.kind]
  · simp [Event.kind]

/-- Every run of the handler keeps the discipline. -/
theorem safe_syscallHandler (env : Env) (m : UserMem) (esp : UInt32) :
    Safe [] (syscallHandler env m esp) := by
  unfold syscallHandler
  apply safe_fetchWords esp 0 1 (by decide) (by decide)
  intro cs _
  have hother : ∀ es : List Event, (∀ e ∈ es, Event.kind e = .other) → ∀ cs', cs ⊆ cs' →
      Safe cs' es := fun es h cs' _ => safe_of_other h
  split
  · exact safe_of_other (by simp [Event.kind])
  · exact safe_fetchWords esp 1 1 (by decide) (by decide) (hother _ (by simp [Event.kind]))
  · exact safe_fetchWords esp 1 1 (by decide) (by decide) fun cs' _ => safe_withString cs' m _
  · exact safe_fetchWords esp 1 1 (by decide) (by decide) (hother _ (by simp [Event.kind]))
  · exact safe_fetchWords esp 1 2 (by decide) (by decide) fun cs' _ => safe_syscallCreate cs' env m _ _
  · exact safe_fetchWords esp 1 1 (by decide) (by decide) fun cs' _ => safe_withString cs' m _
  · exact safe_fetchWords esp 1 1 (by decide) (by decide) fun cs' _ => safe_withString cs' m _
  · exact safe_fetchWords esp 1 1 (by decide) (by decide) (hother _ (by simp [Event.kind]))
  · exact safe_fetchWords esp 1 3 (by decide) (by decide) fun cs' _ => safe_syscallRead cs' env _ _ _
  · exact safe_fetchWords esp 1 3 (by decide) (by decide) fun cs' _ => safe_syscallWrite cs' env _ _ _
  · exact safe_fetchWords esp 1 2 (by decide) (by decide) fun cs' _ => safe_syscallSeek cs' env _ _
  · exact safe_fetchWords esp 1 1 (by decide) (by decide) (hother _ (by simp [Event.kind]))
  · exact safe_fetchWords esp 1 1 (by decide) (by decide) (hother _ (by simp [Event.kind]))
  · exact safe_fetchWords esp 1 2 (by decide) (by decide) (hother _ (by simp [Event.kind]))
  · exact safe_fetchWords esp 1 1 (by decide) (by decide) (hother _ (by simp [Event.kind]))
  · exact safe_of_other (by simp [Event.kind])

theorem kind_eq_check {e : Event} {n : Nat} (h : Event.kind e = .check n) :
    ∃ a, e = .check a ∧ a.toNat = n := by
  cases e with
  | check a => exact ⟨a, rfl, by simpa [Event.kind] using h⟩
  | _ => simp [Event.kind] at h

/-- A number from 15 on is one the `switch` has no case for. -/
theorem ofWord_of_ge_15 (w : UInt32) (h : 15 ≤ w.toNat) :
    SyscallNr.ofWord w = none ∨ SyscallNr.ofWord w = some .sysChdir ∨
      SyscallNr.ofWord w = some .sysMkdir ∨ SyscallNr.ofWord w = some .sysReaddir ∨
      SyscallNr.ofWord w = some .sysIsdir ∨ SyscallNr.ofWord w = some .sysInumber := by
  unfold SyscallNr.ofWord
  have : w.toNat = 15 ∨ w.toNat = 16 ∨ w.toNat = 17 ∨ w.toNat = 18 ∨ w.toNat = 19 ∨
      20 ≤ w.toNat := by omega
  rcases this with h' | h' | h' | h' | h' | h' <;> simp [SyscallNr.all, h']

theorem getLast_fetchWords_exit (esp : UInt32) (first count : Nat) :
    (fetchWords esp first count [.exit (-1)]).getLast? = some (.exit (-1)) := by
  unfold fetchWords checkVaddr
  split
  · split
    · rw [← List.cons_append, ← List.cons_append, List.getLast?_append]
      rfl
    · rfl
  · rfl

/-- System-call argument validation: in every run of the handler, from any stack pointer
and any user memory, each byte the kernel reads or writes on the user's behalf is a user
address lying between two addresses that `check_vaddr` accepted before; every
`check_vaddr` that lets the handler go on accepted its address; a failed check is followed
only by `exit (-1)`; and a system-call number the handler does not know ends the process
with `exit (-1)`. -/
theorem syscall_handler_checks_user_addresses (env : Env) (m : UserMem) (esp : UInt32) :
    let evs := syscallHandler env m esp
    (∀ i x, (evs[i]? = some (.load x) ∨ evs[i]? = some (.store x)) →
      validVaddr x ∧ ∃ lo hi, Event.check lo ∈ evs.take i ∧ Event.check hi ∈ evs.take i ∧
        lo.toNat ≤ x.toNat ∧ x.toNat ≤ hi.toNat) ∧
    (∀ a, Event.check a ∈ evs → validVaddr a) ∧
    (∀ i a, evs[i]? = some (.reject a) → validVaddr a = false ∧ evs.drop (i + 1) = [.exit (-1)]) ∧
    (15 ≤ (loadWord m esp).toNat → evs.getLast? = some (.exit (-1))) := by
  intro evs
  have hsafe : Safe [] evs := safe_syscallHandler env m esp
  refine ⟨?_, ?_, ?_, ?_⟩
  · intro i x hx
    obtain ⟨e, he, hke⟩ : ∃ e, evs[i]? = some e ∧ Event.kind e = .access x.toNat := by
      rcases hx with h | h
      · exact ⟨_, h, rfl⟩
      · exact ⟨_, h, rfl⟩
    refine ⟨(validVaddr_iff x).mpr
      (hsafe.valid_of_access exitFailed_other userAddr_convex (by simp) he hke), ?_⟩
    -- the two checked ends are the addresses of two checks before `i`
    obtain ⟨lo, hlo, hi, hhi, h1, h2⟩ := hsafe.covered_of_access exitFailed_other he hke
    rw [List.append_nil] at hlo hhi
    obtain ⟨elo, helo, hklo⟩ := mem_checked.mp hlo
    obtain ⟨ehi, hehi, hkhi⟩ := mem_checked.mp hhi
    obtain ⟨alo, rfl, rfl⟩ := kind_eq_check hklo
    obtain ⟨ahi, rfl, rfl⟩ := kind_eq_check hkhi
    exact ⟨alo, ahi, helo, hehi, h1, h2⟩
  · intro a ha
    exact (validVaddr_iff a).mpr (hsafe.valid_of_check exitFailed_other ha rfl)
  · intro i a ha
    obtain ⟨hinvalid, hstop⟩ := hsafe.stop_of_reject exitFailed_other ha rfl
    refine ⟨?_, hstop⟩
    cases hv : validVaddr a
    · rfl
    · exact absurd ((validVaddr_iff a).mp hv) hinvalid
  · intro h15
    -- the `default` case, after the number itself was fetched
    rcases ofWord_of_ge_15 _ h15 with hw | hw | hw | hw | hw | hw <;>
      simp only [evs, syscallHandler, hw] <;> exact getLast_fetchWords_exit esp 0 1

/-- A stack holding the number 20 at a valid `esp`: the number's first byte is read after
the checks of `esp` and `esp + 3`, and the process exits with -1. -/
theorem syscall_handler_checks_unknown_number :
    let m : UserMem := fun a => if a = 0xBFFFFF00 then 20 else 0
    let evs := syscallHandler ⟨[], false⟩ m 0xBFFFFF00
    evs[2]? = some (.load 0xBFFFFF00) ∧ 15 ≤ (loadWord m 0xBFFFFF00).toNat ∧
      (validVaddr 0xBFFFFF00 ∧ ∃ lo hi, Event.check lo ∈ evs.take 2 ∧
        Event.check hi ∈ evs.take 2 ∧ lo.toNat ≤ (0xBFFFFF00 : UInt32).toNat ∧
        (0xBFFFFF00 : UInt32).toNat ≤ hi.toNat) ∧
      evs.getLast? = some (.exit (-1)) := by
  intro m evs
  have hload : evs[2]? = some (.load 0xBFFFFF00) := by decide
  have hnr : 15 ≤ (loadWord m 0xBFFFFF00).toNat := by decide
  have h := syscall_handler_checks_user_addresses ⟨[], false⟩ m 0xBFFFFF00
  exact ⟨hload, hnr, h.1 2 _ (Or.inl hload), h.2.2.2 hnr⟩

end Pintos.Syscall.Analysis
