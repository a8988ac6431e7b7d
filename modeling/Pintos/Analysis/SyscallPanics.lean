import Pintos.Analysis.SyscallChecks

/-!
# Which system calls can panic the kernel

Two kernel assertions sit on the path of a user value: `file_seek` asserts
`new_pos >= 0` and `inode_create` asserts `length >= 0`, and `syscall_seek` and
`syscall_create` hand them the user's `unsigned` argument cast to `off_t`. A value from
`2^31` on is negative as `off_t`, so the assertion fails.

`panic_cause` shows these are the only panics of the handler: a run panics only for
`SYS_SEEK` or `SYS_CREATE` with a second argument of at least `2^31`. Conversely
`seek_panics` shows that every such seek on an open descriptor, from a valid stack,
panics, and `seek_position_2_pow_31_panics` and `create_size_2_pow_31_panics` evaluate the
handler at concrete inputs.
-/

set_option autoImplicit false

namespace Pintos.Syscall.Analysis

theorem asInt_neg_iff (w : UInt32) : asInt w < 0 ↔ 2 ^ 31 ≤ w.toNat := by
  unfold asInt
  have := w.toNat_lt
  split <;> omega

/-! ## Where a panic can come from -/

theorem panic_mem_checkVaddr {a : UInt32} {k : List Event} (h : Event.panic ∈ checkVaddr a k) :
    Event.panic ∈ k := by
  unfold checkVaddr at h
  split at h <;> simp_all

theorem panic_not_mem_loadBytes (a : UInt32) (n : Nat) : Event.panic ∉ loadBytes a n := by
  simp [loadBytes]

theorem panic_not_mem_storeBytes (a : UInt32) (n : Nat) : Event.panic ∉ storeBytes a n := by
  simp [storeBytes]

theorem panic_mem_fetchWords {esp : UInt32} {first count : Nat} {k : List Event}
    (h : Event.panic ∈ fetchWords esp first count k) : Event.panic ∈ k := by
  unfold fetchWords at h
  have h' := panic_mem_checkVaddr (panic_mem_checkVaddr h)
  rcases List.mem_append.mp h' with h'' | h''
  · exact absurd h'' (panic_not_mem_loadBytes _ _)
  · exact h''

theorem panic_mem_checkStringFrom (m : UserMem) (s : UInt32) {k : Nat → List Event}
    (p : UInt32) (h : Event.panic ∈ checkStringFrom m s p k) : ∃ n, Event.panic ∈ k n := by
  induction p using checkStringFrom.induct with
  | case1 p ih =>
      rw [checkStringFrom_eq] at h
      simp only [List.mem_cons, reduceCtorEq, false_or] at h
      split at h
      · exact ⟨_, h⟩
      · unfold checkVaddr at h
        split at h
        · rename_i hv
          simp only [List.mem_cons, reduceCtorEq, false_or] at h
          exact ih hv h
        · simp at h

theorem panic_mem_checkString {m : UserMem} {s : UInt32} {k : Nat → List Event}
    (h : Event.panic ∈ checkString m s k) : ∃ n, Event.panic ∈ k n :=
  panic_mem_checkStringFrom m s s (panic_mem_checkVaddr h)

theorem panic_mem_foldr_checkVaddr {buffer : UInt32} {k : List Event} (l : List Nat)
    (h : Event.panic ∈ l.foldr (fun i k => checkVaddr (buffer + i.toUInt32) k) k) :
    Event.panic ∈ k := by
  induction l with
  | nil => exact h
  | cons i l ih => exact ih (panic_mem_checkVaddr h)

theorem panic_mem_checkBuffer {buffer size : UInt32} {k : List Event}
    (h : Event.panic ∈ checkBuffer buffer size k) : Event.panic ∈ k :=
  panic_mem_foldr_checkVaddr _ h

theorem panic_not_mem_withString (m : UserMem) (s : UInt32) : Event.panic ∉ withString m s := by
  intro h
  obtain ⟨n, hn⟩ := panic_mem_checkString h
  simp [loadBytes] at hn

theorem panic_not_mem_syscallRead (env : Env) (fd : Int) (buffer size : UInt32) :
    Event.panic ∉ syscallRead env fd buffer size := by
  intro h
  have h' := panic_mem_checkBuffer h
  split at h' <;> [skip; split at h'] <;> simp [storeBytes] at h'

theorem panic_not_mem_syscallWrite (env : Env) (fd : Int) (buffer size : UInt32) :
    Event.panic ∉ syscallWrite env fd buffer size := by
  intro h
  have h' := panic_mem_checkBuffer h
  split at h' <;> [skip; split at h'] <;> simp [loadBytes] at h'

/-- `syscall_create` panics only through `inode_create`, on a size that is negative as
`off_t`. -/
theorem panic_mem_syscallCreate {env : Env} {m : UserMem} {file size : UInt32}
    (h : Event.panic ∈ syscallCreate env m file size) : 2 ^ 31 ≤ size.toNat := by
  obtain ⟨n, hn⟩ := panic_mem_checkString h
  unfold filesysCreate inodeCreate at hn
  split at hn
  · split at hn
    · simp [loadBytes] at hn
    · rename_i hneg
      exact (asInt_neg_iff size).mp (by omega)
  · simp at hn

/-- `syscall_seek` panics only through `file_seek`, on a position that is negative as
`off_t`. -/
theorem panic_mem_syscallSeek {env : Env} {fd : Int} {position : UInt32}
    (h : Event.panic ∈ syscallSeek env fd position) : 2 ^ 31 ≤ position.toNat := by
  unfold syscallSeek fileSeek at h
  split at h
  · split at h
    · simp at h
    · rename_i hneg
      exact (asInt_neg_iff position).mp (by omega)
  · simp at h

/-- The handler panics only in `seek` or `create`, on a second argument of at least
`2^31`. -/
theorem panic_cause (env : Env) (m : UserMem) (esp : UInt32)
    (h : Event.panic ∈ syscallHandler env m esp) :
    (SyscallNr.ofWord (loadWord m esp) = some .sysSeek ∨
      SyscallNr.ofWord (loadWord m esp) = some .sysCreate) ∧
    2 ^ 31 ≤ (loadWord m (esp + 8)).toNat := by
  unfold syscallHandler at h
  have h' := panic_mem_fetchWords h
  have hret : ∀ e : Event, e ≠ .panic → ∀ c, Event.panic ∉ fetchWords esp 1 c [e] :=
    fun e he c hmem => he (List.mem_singleton.mp (panic_mem_fetchWords hmem)).symm
  split at h'
  · simp at h'
  · exact absurd h' (hret _ (by simp) 1)
  · exact absurd (panic_mem_fetchWords h') (panic_not_mem_withString _ _)
  · exact absurd h' (hret _ (by simp) 1)
  · rename_i hnr
    exact ⟨Or.inr hnr, panic_mem_syscallCreate (panic_mem_fetchWords h')⟩
  · exact absurd (panic_mem_fetchWords h') (panic_not_mem_withString _ _)
  · exact absurd (panic_mem_fetchWords h') (panic_not_mem_withString _ _)
  · exact absurd h' (hret _ (by simp) 1)
  · exact absurd (panic_mem_fetchWords h') (panic_not_mem_syscallRead _ _ _ _)
  · exact absurd (panic_mem_fetchWords h') (panic_not_mem_syscallWrite _ _ _ _)
  · rename_i hnr
    exact ⟨Or.inl hnr, panic_mem_syscallSeek (panic_mem_fetchWords h')⟩
  · exact absurd h' (hret _ (by simp) 1)
  · exact absurd h' (hret _ (by simp) 1)
  · exact absurd h' (hret _ (by simp) 2)
  · exact absurd h' (hret _ (by simp) 1)
  · simp at h'

/-! ## Seeks that panic -/

theorem validVaddr_slot {esp : UInt32} {n : Nat} (h0 : 0 < esp.toNat)
    (hn : esp.toNat + n < PHYS_BASE) : validVaddr (esp + n.toUInt32) = true := by
  rw [validVaddr_iff]
  unfold UserAddr
  simp only [UInt32.toNat_add, Nat.toUInt32_eq, UInt32.toNat_ofNat', PHYS_BASE_eq] at *
  omega

theorem validVaddr_slot_end {esp : UInt32} {n : Nat} (h0 : 0 < esp.toNat) (hn : 0 < n)
    (hend : esp.toNat + n ≤ PHYS_BASE) : validVaddr (esp + n.toUInt32 - 1) = true := by
  rw [validVaddr_iff]
  unfold UserAddr
  simp only [UInt32.toNat_add, UInt32.toNat_sub, Nat.toUInt32_eq, UInt32.toNat_ofNat',
    UInt32.toNat_one, PHYS_BASE_eq] at *
  omega

theorem fetchWords_ne_nil (esp : UInt32) (first count : Nat) (k : List Event) :
    fetchWords esp first count k ≠ [] := by
  unfold fetchWords checkVaddr
  split <;> simp

/-- Once both ends of the argument words pass `check_vaddr`, the run ends as its rest does. -/
theorem getLast_fetchWords_of_valid {esp : UInt32} {first count : Nat} {k : List Event}
    (hlo : validVaddr (esp + (4 * first).toUInt32) = true)
    (hhi : validVaddr (esp + (4 * (first + count)).toUInt32 - 1) = true) (hk : k ≠ []) :
    (fetchWords esp first count k).getLast? = k.getLast? := by
  unfold fetchWords checkVaddr
  rw [if_pos hlo, if_pos hhi, ← List.cons_append, ← List.cons_append,
    List.getLast?_append_of_ne_nil _ hk]

/-- From a stack of three words in user memory, `SYS_SEEK` on an open descriptor with a
position of at least `2^31` ends in a kernel panic. -/
theorem seek_panics (env : Env) (m : UserMem) (esp : UInt32) (h0 : 0 < esp.toNat)
    (hstack : esp.toNat + 12 ≤ PHYS_BASE)
    (hnr : SyscallNr.ofWord (loadWord m esp) = some .sysSeek)
    (hfd : asInt (loadWord m (esp + 4)) ∈ env.fdt)
    (hpos : 2 ^ 31 ≤ (loadWord m (esp + 8)).toNat) :
    (syscallHandler env m esp).getLast? = some .panic := by
  have hneg : ¬ 0 ≤ asInt (loadWord m (esp + 8)) := by
    rw [Int.not_le, asInt_neg_iff]
    exact hpos
  unfold syscallHandler
  simp only [hnr]
  rw [getLast_fetchWords_of_valid (validVaddr_slot h0 (by omega))
      (validVaddr_slot_end h0 (by decide) (by omega)) (fetchWords_ne_nil _ _ _ _),
    getLast_fetchWords_of_valid (validVaddr_slot h0 (by omega))
      (validVaddr_slot_end h0 (by decide) (by omega)) (by unfold syscallSeek fileSeek; split_ifs <;> simp)]
  simp [syscallSeek, fileSeek, hfd, hneg]

/-- `SYS_SEEK` from a stack at `0xBFFFFF00` with descriptor 2 open and position
`0x80000000`, which is `-2^31` as `off_t`: `file_seek`'s assertion fails. -/
theorem seek_position_2_pow_31_panics :
    (syscallHandler ⟨[2], true⟩
      (fun a => if a = 0xBFFFFF00 then 10 else if a = 0xBFFFFF04 then 2
        else if a = 0xBFFFFF0B then 0x80 else 0) 0xBFFFFF00).getLast? = some .panic :=
  seek_panics _ _ _ (by decide) (by decide) (by decide) (by decide) (by decide)

/-! ## Creates that panic -/

/-- `check_vaddr` and the string loop on an empty string. -/
theorem checkString_of_nul {m : UserMem} {s : UInt32} {k : Nat → List Event}
    (hv : validVaddr s = true) (hnul : m s = 0) :
    checkString m s k = .check s :: .load s :: k 0 := by
  unfold checkString checkVaddr
  rw [if_pos hv, checkStringFrom_eq, if_pos hnul, UInt32.sub_self]
  rfl

/-- From a stack of three words in user memory, `SYS_CREATE` of an empty name with an
initial size of at least `2^31` ends in a kernel panic once the free map has a sector. -/
theorem create_panics (env : Env) (m : UserMem) (esp : UInt32) (h0 : 0 < esp.toNat)
    (hstack : esp.toNat + 12 ≤ PHYS_BASE)
    (hnr : SyscallNr.ofWord (loadWord m esp) = some .sysCreate)
    (hfile : validVaddr (loadWord m (esp + 4)) = true) (hnul : m (loadWord m (esp + 4)) = 0)
    (hsector : env.freeMapHasSector = true)
    (hsize : 2 ^ 31 ≤ (loadWord m (esp + 8)).toNat) :
    (syscallHandler env m esp).getLast? = some .panic := by
  have hneg : ¬ 0 ≤ asInt (loadWord m (esp + 8)) := by
    rw [Int.not_le, asInt_neg_iff]
    exact hsize
  have hcreate : syscallCreate env m (loadWord m (esp + 4)) (loadWord m (esp + 8)) =
      [.check (loadWord m (esp + 4)), .load (loadWord m (esp + 4)), .panic] := by
    unfold syscallCreate
    rw [checkString_of_nul hfile hnul]
    simp [filesysCreate, inodeCreate, hsector, hneg]
  unfold syscallHandler
  simp only [hnr]
  rw [getLast_fetchWords_of_valid (validVaddr_slot h0 (by omega))
      (validVaddr_slot_end h0 (by decide) (by omega)) (fetchWords_ne_nil _ _ _ _),
    getLast_fetchWords_of_valid (validVaddr_slot h0 (by omega))
      (validVaddr_slot_end h0 (by decide) (by omega)) (by simp [hcreate])]
  simp [hcreate]

/-- `SYS_CREATE` from a stack at `0xBFFFFF00` of the empty name at `0xBFFFFF10` with
initial size `0x80000000`: `inode_create`'s assertion fails. -/
theorem create_size_2_pow_31_panics :
    (syscallHandler ⟨[], true⟩
      (fun a => if a = 0xBFFFFF00 then 4 else if a = 0xBFFFFF04 then 0x10
        else if a = 0xBFFFFF05 then 0xFF else if a = 0xBFFFFF06 then 0xFF
        else if a = 0xBFFFFF07 then 0xBF else if a = 0xBFFFFF0B then 0x80 else 0)
      0xBFFFFF00).getLast? = some .panic :=
  create_panics _ _ _ (by decide) (by decide) (by decide) (by decide) (by decide) rfl (by decide)

end Pintos.Syscall.Analysis
