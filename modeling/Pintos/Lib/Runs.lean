import Mathlib.Data.List.Basic

/-!
# Maximal runs of non-delimiters

`runs isDelim l` lists the maximal non-empty runs of consecutive elements of `l` that are
not delimiters, in order. It is the meaning of tokenising a string at a set of
delimiters: a scan that collects the current run and closes it at each delimiter and at
the end.

Two lemmas describe a tokeniser's step against it: delimiters in front of the first run
do not matter (`runs_cons_of_isDelim`), and a run that ends at a delimiter or at the end of
the list is the first element of `runs`, the rest being the runs after that delimiter
(`runs_token_append`).
-/

set_option autoImplicit false

namespace Runs

variable {α : Type}

/-- The scan behind `runs`: `cur` is the run collected so far. -/
def runsFrom (isDelim : α → Bool) (cur : List α) : List α → List (List α)
  | [] => if cur.isEmpty then [] else [cur]
  | c :: l =>
      if isDelim c then
        if cur.isEmpty then runsFrom isDelim [] l else cur :: runsFrom isDelim [] l
      else runsFrom isDelim (cur ++ [c]) l

/-- The maximal non-empty runs of non-delimiters of a list, in order. -/
def runs (isDelim : α → Bool) (l : List α) : List (List α) :=
  runsFrom isDelim [] l

@[simp] theorem runs_nil (isDelim : α → Bool) : runs isDelim [] = [] := rfl

/-- A delimiter in front of a list adds no run. -/
theorem runs_cons_of_isDelim (isDelim : α → Bool) (c : α) (l : List α) (hc : isDelim c) :
    runs isDelim (c :: l) = runs isDelim l := by
  simp [runs, runsFrom, hc]

/-- Delimiters in front of a list add no run. -/
theorem runs_append_of_all_isDelim (isDelim : α → Bool) (d l : List α)
    (hd : ∀ c ∈ d, isDelim c) : runs isDelim (d ++ l) = runs isDelim l := by
  induction d with
  | nil => rfl
  | cons c d ih =>
      rw [List.cons_append, runs_cons_of_isDelim isDelim c _ (hd c (by simp))]
      exact ih (fun c' hc' => hd c' (by simp [hc']))

/-- Non-delimiters extend the current run. -/
theorem runsFrom_append_of_not_isDelim (isDelim : α → Bool) (cur t l : List α)
    (ht : ∀ c ∈ t, isDelim c = false) :
    runsFrom isDelim cur (t ++ l) = runsFrom isDelim (cur ++ t) l := by
  induction t generalizing cur with
  | nil => simp
  | cons c t ih =>
      have hc : isDelim c = false := ht c (by simp)
      rw [List.cons_append, runsFrom, if_neg (by simp [hc]),
        ih (cur ++ [c]) (fun c' hc' => ht c' (by simp [hc']))]
      simp

/-- A non-empty run of non-delimiters that ends at the end of the list or at a delimiter
is the first run, and the others are the runs after that delimiter. -/
theorem runs_token_append (isDelim : α → Bool) (t rest : List α) (hne : t ≠ [])
    (ht : ∀ c ∈ t, isDelim c = false)
    (hrest : rest = [] ∨ ∃ c r, rest = c :: r ∧ isDelim c = true) :
    runs isDelim (t ++ rest) = t :: runs isDelim (rest.drop 1) := by
  unfold runs
  rw [runsFrom_append_of_not_isDelim isDelim [] t rest ht, List.nil_append]
  have hne' : t.isEmpty = false := by simpa using hne
  rcases hrest with rfl | ⟨c, r, rfl, hc⟩
  · simp [runsFrom, hne']
  · simp [runsFrom, hc, hne']

/-- A list is its longest prefix that satisfies `p`, then the rest. -/
theorem takeWhile_append_drop (p : α → Bool) (l : List α) :
    l.takeWhile p ++ l.drop (l.takeWhile p).length = l := by
  induction l with
  | nil => rfl
  | cons c l ih => by_cases hc : p c <;> simp [hc, ih]

/-- A list that is all delimiters has no run. -/
theorem runs_of_all_isDelim (isDelim : α → Bool) (d : List α) (hd : ∀ c ∈ d, isDelim c) :
    runs isDelim d = [] := by
  simpa using runs_append_of_all_isDelim isDelim d [] hd

end Runs
