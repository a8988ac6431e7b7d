import Mathlib.Data.List.Basic

/-!
# The clock (second-chance) scan

A hand moves round a list of entries, each with a reference bit read from a state. An entry
whose bit is set has the bit cleared and is passed over; the first entry whose bit is
clear is chosen. `scan ref clear l fuel i s` runs the hand from index `i` for at most
`fuel` entries.

Clearing never sets a bit, and clears the bit of the entry it is given. Then every
entry passed over lowers the number of set bits, so a hand that is given one more step than
the list has entries always chooses (`scan_isSome`). The index chosen is one of the
list's (`scan_lt`), and what every clear keeps holds of the state the hand leaves
(`scan_invariant`). Where the hand stops is `d` entries round the list from where it
started, and every entry passed on the way is clear when it stops (`scan_spec`); fuel past
the steps it takes changes nothing (`scan_of_le_fuel`), so the fuel models a `while (1)`.
-/

set_option autoImplicit false

namespace Clock

variable {α σ : Type}

/-- The hand at index `i`: choose the entry if its bit is clear, otherwise clear it and
move to the next index, round to the front after the last. -/
def scan (ref : σ → α → Bool) (clear : σ → α → σ) (l : List α) : Nat → Nat → σ → Option (σ × Nat)
  | 0, _, _ => none
  | fuel + 1, i, s =>
      match l[i]? with
      | none => none
      | some a => if ref s a then scan ref clear l fuel ((i + 1) % l.length) (clear s a) else some (s, i)

/-- The number of entries whose bit is set. -/
def setBits (ref : σ → α → Bool) (l : List α) (s : σ) : Nat :=
  l.countP (ref s)

section Lemmas

variable {ref : σ → α → Bool} {clear : σ → α → σ} {l : List α}

theorem scan_lt {fuel i : Nat} {s s' : σ} {j : Nat} (h : scan ref clear l fuel i s = some (s', j)) :
    j < l.length := by
  induction fuel generalizing i s with
  | zero => simp [scan] at h
  | succ fuel ih =>
      simp only [scan] at h
      split at h
      · simp at h
      · rename_i a ha
        split at h
        · exact ih h
        · obtain ⟨-, rfl⟩ := Prod.mk.inj (Option.some.inj h)
          exact (List.getElem?_eq_some_iff.mp ha).1

/-- The entry chosen has its bit clear in the state the hand leaves. -/
theorem scan_chosen {fuel i : Nat} {s s' : σ} {j : Nat} (h : scan ref clear l fuel i s = some (s', j)) :
    ∃ a, l[j]? = some a ∧ ref s' a = false := by
  induction fuel generalizing i s with
  | zero => simp [scan] at h
  | succ fuel ih =>
      simp only [scan] at h
      split at h
      · simp at h
      · rename_i a ha
        split at h
        · exact ih h
        · rename_i hr
          obtain ⟨rfl, rfl⟩ := Prod.mk.inj (Option.some.inj h)
          exact ⟨a, ha, by simpa using hr⟩

/-- What every clear keeps holds of the state the hand leaves. -/
theorem scan_invariant {P : σ → Prop} (hP : ∀ s a, P s → P (clear s a)) {fuel i : Nat} {s s' : σ}
    {j : Nat} (hs : P s) (h : scan ref clear l fuel i s = some (s', j)) : P s' := by
  induction fuel generalizing i s with
  | zero => simp [scan] at h
  | succ fuel ih =>
      simp only [scan] at h
      split at h
      · simp at h
      · rename_i a _
        split at h
        · exact ih (hP s a hs) h
        · obtain ⟨rfl, -⟩ := Prod.mk.inj (Option.some.inj h)
          exact hs

/-- A hand that stops within `fuel` steps stops the same with one more: the fuel only cuts
off a hand that has not stopped. -/
theorem scan_succ_fuel {fuel i : Nat} {s : σ} {r : σ × Nat} (h : scan ref clear l fuel i s = some r) :
    scan ref clear l (fuel + 1) i s = some r := by
  induction fuel generalizing i s with
  | zero => simp [scan] at h
  | succ fuel ih =>
      rw [scan] at h ⊢
      cases ha : l[i]? with
      | none => simp [ha] at h
      | some a =>
          simp only [ha] at h ⊢
          split_ifs at h ⊢
          · exact ih h
          · exact h

/-- So every amount of fuel past the steps the hand takes gives the same result. -/
theorem scan_of_le_fuel {fuel fuel' i : Nat} {s : σ} {r : σ × Nat} (hle : fuel ≤ fuel')
    (h : scan ref clear l fuel i s = some r) : scan ref clear l fuel' i s = some r := by
  obtain ⟨m, rfl⟩ := Nat.exists_eq_add_of_le hle
  induction m with
  | zero => exact h
  | succ m ih => exact scan_succ_fuel (ih (by omega))

/-- Fewer entries satisfy `q` than `p` when `q` implies `p` on the list and some entry
satisfies `p` but not `q`. -/
theorem countP_lt_of_imp {p q : α → Bool} (himp : ∀ x ∈ l, q x = true → p x = true)
    {a : α} (ha : a ∈ l) (hp : p a = true) (hq : q a = false) : l.countP q < l.countP p := by
  induction l with
  | nil => simp at ha
  | cons b l ih =>
      have himp' : ∀ x ∈ l, q x = true → p x = true := fun x hx => himp x (by simp [hx])
      have hle : l.countP q ≤ l.countP p := List.countP_mono_left himp'
      rcases List.mem_cons.mp ha with rfl | ha
      · simp only [List.countP_cons, hp, hq]
        simp
        omega
      · have hlt := ih himp' ha
        rw [List.countP_cons, List.countP_cons]
        cases hqb : q b with
        | true =>
            rw [himp b (by simp) hqb]
            simp
            omega
        | false => cases p b <;> simp <;> omega

end Lemmas

section Termination

variable {ref : σ → α → Bool} {clear : σ → α → σ} {l : List α}

/-- Clearing an entry's bit sets no other bit. -/
def Monotone (ref : σ → α → Bool) (clear : σ → α → σ) : Prop :=
  ∀ s a b, ref (clear s a) b = true → ref s b = true

/-- Clearing an entry's bit clears it. -/
def Clears (ref : σ → α → Bool) (clear : σ → α → σ) : Prop :=
  ∀ s a, ref (clear s a) a = false

/-- A clear bit stays clear through a clear. -/
theorem ref_clear_of_false (hmono : Monotone ref clear) {s : σ} (a : α) {b : α} (hb : ref s b = false) :
    ref (clear s a) b = false := by
  cases h : ref (clear s a) b with
  | false => rfl
  | true => simp [hmono s a b h] at hb

/-- Where the hand stops: `d` entries on from where it started, round the list, with `d`
below the fuel. The hand given `d + 1` steps already stops there, and every entry it passed
on the way is clear in the state it leaves. By induction on the fuel: passing over an
entry clears it, and no later clear sets it again. -/
theorem scan_spec (hmono : Monotone ref clear) (hclear : Clears ref clear) :
    ∀ {fuel i : Nat} {s s' : σ} {j : Nat}, i < l.length → scan ref clear l fuel i s = some (s', j) →
      ∃ d < fuel, scan ref clear l (d + 1) i s = some (s', j) ∧ j = (i + d) % l.length ∧
        ∀ k < d, ∀ a, l[(i + k) % l.length]? = some a → ref s' a = false := by
  intro fuel
  induction fuel with
  | zero =>
      intro i s s' j _ h
      simp [scan] at h
  | succ fuel ih =>
      intro i s s' j hi h
      have ha : l[i]? = some l[i] := List.getElem?_eq_getElem hi
      have hmod : i % l.length = i := Nat.mod_eq_of_lt hi
      rw [scan, ha] at h
      dsimp only at h
      split_ifs at h with hr
      · -- the bit was set: the hand clears it and goes on from the next entry
        obtain ⟨d, hd, hstep, rfl, hpassed⟩ := ih (Nat.mod_lt _ (by omega)) h
        refine ⟨d + 1, by omega, ?_, ?_, ?_⟩
        · rw [scan, ha]
          dsimp only
          rw [if_pos hr]
          exact hstep
        · rw [Nat.mod_add_mod, Nat.add_assoc, Nat.add_comm 1 d]
        · intro k hk a hka
          cases k with
          | zero =>
              rw [Nat.add_zero, hmod, ha, Option.some.injEq] at hka
              subst hka
              exact scan_invariant (P := fun s => ref s l[i] = false)
                (fun s b hs => ref_clear_of_false hmono b hs) (hclear s l[i]) h
          | succ k =>
              apply hpassed k (by omega) a
              rw [Nat.mod_add_mod, Nat.add_assoc, Nat.add_comm 1 k]
              exact hka
      · -- the bit was clear: the hand stops here, after one step
        obtain ⟨rfl, rfl⟩ := Prod.mk.inj (Option.some.inj h)
        refine ⟨0, by omega, ?_, by rw [Nat.add_zero, hmod], fun k hk => absurd hk (Nat.not_lt_zero k)⟩
        rw [scan, ha]
        dsimp only
        rw [if_neg hr]

/-- A hand started at an index of the list, with more steps than there are set bits,
chooses an entry. -/
theorem scan_isSome_of_setBits (hmono : Monotone ref clear) (hclear : Clears ref clear) :
    ∀ (fuel i : Nat) (s : σ), i < l.length → setBits ref l s < fuel →
      (scan ref clear l fuel i s).isSome := by
  intro fuel
  induction fuel with
  | zero => intro i s _ hlt; omega
  | succ fuel ih =>
      intro i s hi hbits
      have ha : l[i]? = some l[i] := List.getElem?_eq_getElem hi
      simp only [scan, ha]
      split
      · rename_i hr
        -- passing over `l[i]` lowers the number of set bits
        have hdrop : setBits ref l (clear s l[i]) < setBits ref l s :=
          countP_lt_of_imp (fun b _ hb => hmono s l[i] b hb) (List.getElem_mem hi) hr (hclear s l[i])
        have hlen : 0 < l.length := by omega
        exact ih _ _ (Nat.mod_lt _ hlen) (by omega)
      · rfl

/-- One more step than the list has entries is enough. -/
theorem scan_isSome (hmono : Monotone ref clear) (hclear : Clears ref clear) {i : Nat} (s : σ)
    (hi : i < l.length) : (scan ref clear l (l.length + 1) i s).isSome :=
  scan_isSome_of_setBits hmono hclear _ i s hi (Nat.lt_succ_of_le (List.countP_le_length))

end Termination

end Clock
