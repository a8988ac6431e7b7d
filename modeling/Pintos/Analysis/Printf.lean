import Pintos.Analysis.PrintfInteger
import Pintos.Analysis.Atoi
import Pintos.Model.Ustar

/-!
# What `printf` prints: the parser, the loop, and `vsnprintf`

`parse_conversion` reads a conversion from its flags to its length modifier; every conversion
it accepts has a width of at least zero, a precision of at least `-1`, no `0` flag with a
precision and no space with `+` (`parseConversion_wellFormed`). The loop of `__vprintf` copies
the characters other than `%` (`vprintf_literal`) and replaces each conversion by what
`doConversion` prints for it (`vprintf_conversion`); it reads at least one character a round,
so the fuel of `vprintf` is never what stops it (`vprintfLoop_eq_vprintf`).

From these, whole formats:

* `%d` of an `int` prints `decimalString`, which `atoi` reads back (`atoi_vprintf_d`), and
  the line `syscall_exit` prints is the thread's name, `: exit(`, the status and `)\n`
  (`vprintf_exit_status`);
* `%0*d` with a negative width argument pads twice, with zeros after the sign and with spaces
  after the digits (`vprintf_zero_star_d`): the `-` of the negative width is set after
  `parse_conversion` has cancelled `0` against `-`;
* `vsnprintf` stores the first `buf_size - 1` characters and a terminator, and returns the
  length of the whole output (`vsnprintf_eq`), as the model of `ustar_make_header` takes
  it; above `2 ^ 31` bytes, `max_length` is negative as an `int` and only the terminator is
  stored;
* the octal fields of a `ustar` header, `%07o` and `%011o`, are `Ustar.formatOctal`
  (`snprintf_octal`), which connects `Pintos.Ustar` to this model of `snprintf`.
-/

set_option autoImplicit false

namespace Pintos.Printf

open Pintos.Stdlib ByteMemory

/-! ## `parse_conversion` -/

theorem parseConversion_eq_some {format rest : List UInt8} {args args' : List Arg}
    {c : PrintfConversion} (h : parseConversion format args = some (c, rest, args')) :
    ∃ w flags f₁ args₁ p f₂,
      parseWidth (normalizeFlags (parseFlags {} format).1) (parseFlags {} format).2 args =
        some (w, flags, f₁, args₁) ∧
      parsePrecision f₁ args₁ = some (p, f₂, args') ∧
      c = ⟨if 0 ≤ p then { flags with zero := false } else flags, w, p, (parseType f₂).1⟩ ∧
      rest = (parseType f₂).2 := by
  unfold parseConversion at h
  simp only [Option.bind_eq_bind, Option.bind_eq_some_iff] at h
  obtain ⟨⟨w, flags, f₁, args₁⟩, hw, ⟨p, f₂, args₂⟩, hp, h⟩ := h
  cases h
  exact ⟨w, flags, f₁, args₁, p, f₂, hw, hp, rfl, rfl⟩

theorem length_parseFlags_le (flags : Flags) :
    ∀ format : List UInt8, (parseFlags flags format).2.length ≤ format.length
  | [] => le_rfl
  | c :: format => by
    have ih := fun f => length_parseFlags_le f format
    rw [parseFlags]
    split_ifs <;> simp only [List.length_cons] <;> first | exact le_rfl | exact Nat.le_succ_of_le (ih _)

theorem length_parseNumber_le :
    ∀ {n m : Int} {format rest : List UInt8}, parseNumber n format = some (m, rest) →
      rest.length ≤ format.length
  | _, _, [], rest, h => by cases h; exact le_rfl
  | n, m, c :: format, rest, h => by
    rw [parseNumber] at h
    split_ifs at h
    · simp only [Option.bind_eq_bind, Option.bind_eq_some_iff] at h
      obtain ⟨_, -, _, -, _, -, h⟩ := h
      exact Nat.le_succ_of_le (length_parseNumber_le h)
    · cases h; exact le_rfl

theorem length_parseField_le {format rest : List UInt8} {args args' : List Arg} {n : Int}
    (h : parseField format args = some (n, rest, args')) : rest.length ≤ format.length := by
  unfold parseField at h
  split at h
  · obtain ⟨_, -, h⟩ := Option.map_eq_some_iff.mp h
    cases h
    simp
  · obtain ⟨⟨_, rest'⟩, h', h⟩ := Option.map_eq_some_iff.mp h
    cases h
    exact length_parseNumber_le h'

theorem parseWidth_eq_some {flags flags' : Flags} {format rest : List UInt8} {args args' : List Arg}
    {w : Int} (h : parseWidth flags format args = some (w, flags', rest, args')) :
    ∃ w₀, parseField format args = some (w₀, rest, args') ∧
      (w₀ < 0 ∧ w = -w₀ ∧ flags' = { flags with minus := true } ∨ 0 ≤ w₀ ∧ w = w₀ ∧ flags' = flags) := by
  unfold parseWidth at h
  simp only [Option.bind_eq_bind, Option.bind_eq_some_iff] at h
  obtain ⟨⟨w₀, f, a⟩, hf, h⟩ := h
  split_ifs at h with hneg
  · obtain ⟨w', hw', h⟩ := Option.map_eq_some_iff.mp h
    cases h
    unfold intOp at hw'
    split_ifs at hw'
    cases hw'
    exact ⟨w₀, hf, .inl ⟨hneg, rfl, rfl⟩⟩
  · cases h
    exact ⟨w₀, hf, .inr ⟨by omega, rfl, rfl⟩⟩

theorem parsePrecision_eq_some {format rest : List UInt8} {args args' : List Arg} {p : Int}
    (h : parsePrecision format args = some (p, rest, args')) :
    (∃ f p₀, format = 46 :: f ∧ parseField f args = some (p₀, rest, args') ∧
      p = if p₀ < 0 then -1 else p₀) ∨ (format.head? ≠ some 46 ∧ p = -1 ∧ rest = format ∧ args' = args) := by
  unfold parsePrecision at h
  split at h
  · rename_i f
    obtain ⟨⟨p₀, r, a⟩, hf, h⟩ := Option.map_eq_some_iff.mp h
    cases h
    exact .inl ⟨f, p₀, rfl, hf, rfl⟩
  · rename_i hf
    cases h
    refine .inr ⟨fun h => ?_, rfl, rfl, rfl⟩
    cases format with
    | nil => cases h
    | cons d f =>
      rw [List.head?_cons, Option.some_inj] at h
      exact hf f (h ▸ rfl)

theorem length_parseType_le (format : List UInt8) : (parseType format).2.length ≤ format.length := by
  unfold parseType
  split <;> simp <;> omega

theorem length_parseConversion_le {format rest : List UInt8} {args args' : List Arg}
    {c : PrintfConversion} (h : parseConversion format args = some (c, rest, args')) :
    rest.length ≤ format.length := by
  obtain ⟨w, flags, f₁, args₁, p, f₂, hw, hp, -, rfl⟩ := parseConversion_eq_some h
  obtain ⟨w₀, hf₁, -⟩ := parseWidth_eq_some hw
  have h₁ := length_parseFlags_le {} format
  have h₂ := length_parseField_le hf₁
  have h₃ := length_parseType_le f₂
  rcases parsePrecision_eq_some hp with ⟨f, p₀, rfl, hf, -⟩ | ⟨-, -, rfl, -⟩
  · have h₄ := length_parseField_le hf
    simp only [List.length_cons] at h₂
    omega
  · omega

/-- A character that is not a flag ends the flags. -/
theorem parseFlags_of_not_flag (flags : Flags) {c : UInt8} (hc : c ∉ [45, 43, 32, 35, 48, 39])
    (s : List UInt8) : parseFlags flags (c :: s) = (flags, c :: s) := by
  simp only [List.mem_cons, List.not_mem_nil, or_false, not_or] at hc
  obtain ⟨h45, h43, h32, h35, h48, h39⟩ := hc
  rw [parseFlags, if_neg h45, if_neg h43, if_neg h32, if_neg h35, if_neg h48, if_neg h39]

/-- A digit other than `0` is not a flag. -/
theorem not_flag_of_digit {c : UInt8} (hc : isdigit c = true) (h0 : c ≠ 48) :
    c ∉ [45, 43, 32, 35, 48, 39] := by
  have hc' := (isdigit_iff c).mp hc
  -- every flag but `0` lies below `'0'`
  have hne : ∀ k : UInt8, k.toNat < 48 → c ≠ k := by
    rintro k hk rfl
    omega
  simp only [List.mem_cons, List.not_mem_nil, or_false]
  rintro (h | h | h | h | h | h)
  · exact hne 45 (by decide) h
  · exact hne 43 (by decide) h
  · exact hne 32 (by decide) h
  · exact hne 35 (by decide) h
  · exact h0 h
  · exact hne 39 (by decide) h

theorem parseField_of_ne_star {format : List UInt8} (h : format.head? ≠ some 42) (args : List Arg) :
    parseField format args = (parseNumber 0 format).map fun (n, format) => (n, format, args) := by
  unfold parseField
  split
  · exact absurd rfl h
  · rfl

/-- The digit loop of a width from `acc`, over digits whose value from `acc`, plus the `'0'`
added before it is taken off, is an `int`: it stops where the digits end, at their value. By
induction on the digits; the bound on each step comes from the final value. -/
theorem parseNumber_digits (r : List UInt8) (hr : ∀ c ∈ r.head?, isdigit c = false)
    (ds : List UInt8) (hdig : ∀ c ∈ ds, isdigit c = true) :
    ∀ acc : Nat, (Digits.readDigits 10 acc (ds.map (·.toNat - 48)) : Int) + 48 ≤ INT_MAX →
      parseNumber acc (ds ++ r) =
        some ((Digits.readDigits 10 acc (ds.map (·.toNat - 48)) : Int), r) := by
  induction ds with
  | nil =>
    intro acc _
    cases r with
    | nil => rfl
    | cons c s =>
      have hc : isdigit c = false := hr c rfl
      simp [parseNumber, hc, Digits.readDigits_nil]
  | cons c ds ih =>
    intro acc hbound
    have hc := (isdigit_iff c).mp (hdig c List.mem_cons_self)
    rw [List.map_cons, Digits.readDigits_cons] at hbound ⊢
    -- the value after this digit is at most the final one
    have hstep : c.toNat - 48 + acc * 10 ≤ Digits.readDigits 10 (c.toNat - 48 + acc * 10)
        (ds.map (·.toNat - 48)) := by
      have hle := Digits.mul_pow_le_readDigits 10 (c.toNat - 48 + acc * 10) (ds.map (·.toNat - 48))
      have hpow : 1 ≤ 10 ^ (ds.map (·.toNat - 48)).length := Nat.one_le_pow _ _ (by decide)
      have hmul := Nat.le_mul_of_pos_right (c.toNat - 48 + acc * 10) hpow
      omega
    simp only [INT_MAX] at hbound
    rw [List.cons_append, parseNumber, if_pos (hdig c List.mem_cons_self)]
    simp only [Option.bind_eq_bind, intOp_of_le (show INT_MIN ≤ (acc : Int) * 10 by
        simp only [INT_MIN]; omega) (show (acc : Int) * 10 ≤ INT_MAX by simp only [INT_MAX]; omega),
      Option.bind_some, intOp_of_le (show INT_MIN ≤ (acc : Int) * 10 + c.toNat by
        simp only [INT_MIN]; omega) (show (acc : Int) * 10 + c.toNat ≤ INT_MAX by
        simp only [INT_MAX]; omega),
      intOp_of_le (show INT_MIN ≤ (acc : Int) * 10 + c.toNat - 48 by simp only [INT_MIN]; omega)
        (show (acc : Int) * 10 + c.toNat - 48 ≤ INT_MAX by simp only [INT_MAX]; omega)]
    rw [show (acc : Int) * 10 + c.toNat - 48 = ((c.toNat - 48 + acc * 10 : Nat) : Int) by omega]
    exact ih (fun d hd => hdig d (List.mem_cons_of_mem c hd)) _ hbound

/-- A conversion character with nothing before it: no flags, no width, no precision and no
length modifier. -/
theorem parseConversion_plain {k : UInt8} (hk : k = 100 ∨ k = 115) (rest : List UInt8)
    (args : List Arg) :
    parseConversion (k :: rest) args = some (⟨{}, 0, -1, .int⟩, k :: rest, args) := by
  rcases hk with rfl | rfl <;> rfl

/-! ## The loop of `__vprintf` -/

theorem vprintfLoop_fuel :
    ∀ (fuel fuel' : Nat) (format : List UInt8) (args : List Arg),
      format.length < fuel → format.length < fuel' →
      vprintfLoop fuel format args = vprintfLoop fuel' format args
  | 0, _, _, _, h, _ => absurd h (Nat.not_lt_zero _)
  | _, 0, _, _, _, h => absurd h (Nat.not_lt_zero _)
  | _ + 1, _ + 1, [], _, _, _ => rfl
  | fuel + 1, fuel' + 1, c :: format, args, h, h' => by
    simp only [List.length_cons] at h h'
    have ih : ∀ f a, f.length ≤ format.length → vprintfLoop fuel f a = vprintfLoop fuel' f a :=
      fun f a hf => vprintfLoop_fuel fuel fuel' f a (by omega) (by omega)
    simp only [vprintfLoop]
    split_ifs
    · rfl
    · rw [ih format args le_rfl]
    · split
      · rename_i f
        rw [ih f args (by simp)]
      · split
        · rename_i conv k rest args' hparse
          have hlen := length_parseConversion_le hparse
          simp only [List.length_cons] at hlen
          split_ifs
          · rfl
          · split
            · rw [ih rest _ (by omega)]
            · rfl
        · rfl

theorem vprintfLoop_eq_vprintf {fuel : Nat} {format : List UInt8} (h : format.length < fuel)
    (args : List Arg) : vprintfLoop fuel format args = vprintf format args :=
  vprintfLoop_fuel fuel _ format args h (Nat.lt_succ_self _)

theorem vprintf_nil (args : List Arg) : vprintf [] args = some [] := rfl

theorem vprintf_cons_of_ne {c : UInt8} (h0 : c ≠ 0) (h37 : c ≠ 37) (format : List UInt8)
    (args : List Arg) : vprintf (c :: format) args = (vprintf format args).map (c :: ·) := by
  rw [vprintf, List.length_cons, vprintfLoop.eq_def]
  simp only [if_neg h0, if_pos h37]
  rfl

/-- Characters other than `%` and the terminator are copied to the output. -/
theorem vprintf_literal (lit : List UInt8) (hlit : ∀ c ∈ lit, c ≠ 0 ∧ c ≠ 37) (rest : List UInt8)
    (args : List Arg) : vprintf (lit ++ rest) args = (vprintf rest args).map (lit ++ ·) := by
  induction lit with
  | nil => simp
  | cons c lit ih =>
    obtain ⟨h0, h37⟩ := hlit c List.mem_cons_self
    rw [List.cons_append, vprintf_cons_of_ne h0 h37, ih (fun d hd => hlit d (List.mem_cons_of_mem c hd)),
      Option.map_map]
    rfl

theorem vprintf_conversion {format rest : List UInt8} {args args' : List Arg}
    {conv : PrintfConversion} {k : UInt8} (hfmt : format.head? ≠ some 37)
    (hparse : parseConversion format args = some (conv, k :: rest, args')) (hk : k ≠ 0) :
    vprintf (37 :: format) args =
      (doConversion conv k args').bind fun r => (vprintf rest r.2).map (r.1 ++ ·) := by
  have hlen := length_parseConversion_le hparse
  simp only [List.length_cons] at hlen
  rw [vprintf, vprintfLoop, if_neg (by decide), if_neg (by decide), hparse]
  · simp only [if_neg hk]
    cases doConversion conv k args' with
    | none => rfl
    | some r =>
      obtain ⟨out, args''⟩ := r
      dsimp only
      rw [vprintfLoop_eq_vprintf (by simp only [List.length_cons]; omega)]
      rfl
  · rintro f rfl
    exact hfmt rfl

/-! ## `%d`, and `atoi` back -/

/-- The `d` conversion of an `int` argument. -/
theorem doConversion_d (c : PrintfConversion) (hc : c.type = .int) {v : Int} (hlo : INT_MIN ≤ v)
    (hhi : v ≤ INT_MAX) (args : List Arg) :
    doConversion c 100 (.int v :: args) = some (formatInteger v.natAbs true (v < 0) baseD c, args) := by
  have hv : v.bmod (2 ^ 32) = v := by
    simp only [INT_MIN, INT_MAX] at hlo hhi
    exact Int.bmod_eq_of_le (by omega) (by omega)
  rw [doConversion, if_pos (Or.inl rfl)]
  simp only [signedArg, hc, vaArgSigned, hv]
  rfl

theorem formatInteger_d (v : Int) :
    formatInteger v.natAbs true (v < 0) baseD ⟨{}, 0, -1, .int⟩ = decimalString v := by
  rw [formatInteger_eq_standardInteger _ _ _ (by decide) (by decide) (by decide) (by decide)]
  by_cases hneg : v < 0 <;> simp [standardInteger, standardDigits, standardSign, decimalString, hneg]

/-- `%d` of an `int` prints `decimalString`. -/
theorem vprintf_d {v : Int} (hlo : INT_MIN ≤ v) (hhi : v ≤ INT_MAX) (rest : List UInt8)
    (args : List Arg) :
    vprintf (37 :: 100 :: rest) (.int v :: args) = (vprintf rest args).map (decimalString v ++ ·) := by
  rw [vprintf_conversion (by simp) (parseConversion_plain (.inl rfl) rest _) (by decide),
    doConversion_d _ rfl hlo hhi, Option.bind_some]
  dsimp only
  rw [formatInteger_d]

/-- `strnlen` of a string with no terminator in it, up to a bound it does not pass, is its
length. -/
theorem strnlen_of_not_mem : ∀ {s : List UInt8}, 0 ∉ s → ∀ {n : Nat}, s.length ≤ n →
    Init.strnlen s n = s.length
  | [], _, _, _ => rfl
  | c :: s, hs, n, hn => by
    have hc : c ≠ 0 := fun h => hs (h ▸ List.mem_cons_self)
    rw [List.length_cons] at hn
    rw [Init.strnlen, if_pos ⟨hc, by omega⟩,
      strnlen_of_not_mem (fun h => hs (List.mem_cons_of_mem c h)) (show s.length ≤ n - 1 by omega),
      List.length_cons]

/-- The `s` conversion of a string, with no width and no precision: the whole string. -/
theorem doConversion_s {s : List UInt8} (hs : 0 ∉ s) (hlen : s.length ≤ SIZE_MAX) (args : List Arg) :
    doConversion ⟨{}, 0, -1, .int⟩ 115 (.str (some s) :: args) = some (s, args) := by
  rw [doConversion, if_neg (by decide), if_neg (by decide), if_neg (by decide), if_pos rfl]
  simp only [vaArgString, Option.map_some, Option.getD_some]
  -- the precision `-1` is `SIZE_MAX` as a `size_t`
  have hmax : ((-1 : Int) % 2 ^ 32).toNat = SIZE_MAX := by decide
  rw [hmax, strnlen_of_not_mem hs hlen]
  simp [formatString]

theorem vprintf_s {s : List UInt8} (hs : 0 ∉ s) (hlen : s.length ≤ SIZE_MAX) (rest : List UInt8)
    (args : List Arg) :
    vprintf (37 :: 115 :: rest) (.str (some s) :: args) = (vprintf rest args).map (s ++ ·) := by
  rw [vprintf_conversion (by simp) (parseConversion_plain (.inr rfl) rest _) (by decide),
    doConversion_s hs hlen, Option.bind_some]

/-- The line `syscall_exit` prints, `"%s: exit(%d)\n"` of the thread's name and the status: the
name, `: exit(`, the status in decimal, and `)\n`. -/
theorem vprintf_exit_status (name : List UInt8) (hname : 0 ∉ name) (hlen : name.length ≤ SIZE_MAX)
    (status : Int) (hlo : INT_MIN ≤ status) (hhi : status ≤ INT_MAX) :
    vprintf [37, 115, 58, 32, 101, 120, 105, 116, 40, 37, 100, 41, 10]
        [.str (some name), .int status] =
      some (name ++ [58, 32, 101, 120, 105, 116, 40] ++ decimalString status ++ [41, 10]) := by
  have htail := vprintf_literal [41, 10] (by simp) [] []
  rw [List.append_nil, vprintf_nil, Option.map_some, List.append_nil] at htail
  rw [vprintf_s hname hlen,
    show ([58, 32, 101, 120, 105, 116, 40, 37, 100, 41, 10] : List UInt8) =
      [58, 32, 101, 120, 105, 116, 40] ++ 37 :: 100 :: [41, 10] from rfl,
    vprintf_literal _ (by simp), vprintf_d hlo hhi, htail]
  simp

theorem vprintf_exit_status_main :
    vprintf [37, 115, 58, 32, 101, 120, 105, 116, 40, 37, 100, 41, 10]
        [.str (some [109, 97, 105, 110]), .int (-1)] =
      some ([109, 97, 105, 110] ++ [58, 32, 101, 120, 105, 116, 40] ++ decimalString (-1) ++ [41, 10]) :=
  vprintf_exit_status [109, 97, 105, 110] (by decide) (by decide) (-1) (by decide) (by decide)

/-! ## `%0*d` with a negative width -/

theorem parseConversion_zero_star {w : Int} (hw : INT_MIN < w) (hneg : w < 0) (args : List Arg) :
    parseConversion [48, 42, 100] (.int w :: args) =
      some (⟨{ zero := true, minus := true }, -w, -1, .int⟩, [100], args) := by
  have hb : w.bmod (2 ^ 32) = w := by
    simp only [INT_MIN] at hw
    exact Int.bmod_eq_of_le (by omega) (by omega)
  have hop : intOp (-w) = some (-w) := intOp_of_le (by simp only [INT_MIN] at hw ⊢; omega)
    (by simp only [INT_MIN, INT_MAX] at hw ⊢; omega)
  have hflags : parseFlags {} [48, 42, 100] = ({ zero := true }, [42, 100]) := rfl
  have hfield : parseField [42, 100] (.int w :: args) = some (w, [100], args) := by
    rw [parseField, vaArgSigned, hb]
    rfl
  -- the negative width is the `-` flag, set after `normalizeFlags` had cancelled `0`
  have hwidth : parseWidth (normalizeFlags { zero := true }) [42, 100] (.int w :: args) =
      some (-w, { zero := true, minus := true }, [100], args) := by
    rw [parseWidth, hfield]
    simp only [Option.bind_eq_bind, Option.bind_some, if_pos hneg, hop, Option.map_some]
    rfl
  rw [parseConversion, hflags]
  dsimp only
  rw [hwidth]
  rfl

/-- `%0*d` with a negative width argument `w`: `-` and `0` both hold, and the padding up to
`|w|` is printed twice, as zeros after the sign and as spaces after the digits, where the
standard prints the spaces alone. -/
theorem vprintf_zero_star_d {w v : Int} (hw : INT_MIN < w) (hneg : w < 0) (hlo : INT_MIN ≤ v)
    (hhi : v ≤ INT_MAX) :
    vprintf [37, 48, 42, 100] [.int w, .int v] =
      some ((if v < 0 then [45] else []) ++
        List.replicate (w.natAbs - ((if v < 0 then [45] else []) ++
          precisionDigits baseD 1 v.natAbs).length) 48 ++
        precisionDigits baseD 1 v.natAbs ++
        List.replicate (w.natAbs - ((if v < 0 then [45] else []) ++
          precisionDigits baseD 1 v.natAbs).length) 32) := by
  rw [vprintf_conversion (by decide) (parseConversion_zero_star hw hneg _) (by decide),
    doConversion_d _ rfl hlo hhi, Option.bind_some, vprintf_nil, Option.map_some, List.append_nil]
  have hbuf := integerBuffer_reverse (b := baseD)
    (c := ⟨{ zero := true, minus := true }, -w, -1, .int⟩) v.natAbs (by simp) (by simp) (by simp)
  have hdigits : standardDigits v.natAbs baseD ⟨{ zero := true, minus := true }, -w, -1, .int⟩ =
      precisionDigits baseD 1 v.natAbs := by
    simp [standardDigits]
  rw [hdigits] at hbuf
  have hlen : (integerBuffer v.natAbs baseD ⟨{ zero := true, minus := true }, -w, -1, .int⟩).length =
      (precisionDigits baseD 1 v.natAbs).length := by
    rw [← hbuf, List.length_reverse]
  dsimp only [formatInteger]
  rw [hbuf, hlen]
  have habs := Int.ofNat_natAbs_of_nonpos hneg.le
  -- the padding after the sign and the digits, put in twice
  by_cases hv : v < 0
  · simp [signChar, hv, outputDup]
    congr 3 <;> split_ifs <;> omega
  · simp [signChar, hv, outputDup]
    congr 3 <;> split_ifs <;> omega

theorem vprintf_zero_star_d_five :
    vprintf [37, 48, 42, 100] [.int (-5), .int 42] =
      some ((if (42 : Int) < 0 then [45] else []) ++
        List.replicate ((-5 : Int).natAbs - ((if (42 : Int) < 0 then [45] else []) ++
          precisionDigits baseD 1 (42 : Int).natAbs).length) 48 ++
        precisionDigits baseD 1 (42 : Int).natAbs ++
        List.replicate ((-5 : Int).natAbs - ((if (42 : Int) < 0 then [45] else []) ++
          precisionDigits baseD 1 (42 : Int).natAbs).length) 32) :=
  vprintf_zero_star_d (by decide) (by decide) (by decide) (by decide)

/-! ## `vsnprintf` -/

/-- `vsnprintf_helper` over an output: the characters are stored one after the other from `p`
while the count is below `max_length`, and all of them are counted. By induction on the
output, the position and the count generalized. -/
theorem helperLoop_eq (maxLength : Int) (out : List UInt8) (p len : Nat) :
    (helperLoop ⟨p, len, maxLength⟩ out).2 =
        ⟨p + min out.length (maxLength - len).toNat, len + out.length, maxLength⟩ ∧
      ∀ m, applyWrites m (helperLoop ⟨p, len, maxLength⟩ out).1 =
        writeBytes m p (out.take (min out.length (maxLength - len).toNat)) := by
  induction out generalizing p len with
  | nil => simp [helperLoop]
  | cons ch out ih =>
    rw [List.length_cons]
    by_cases hlt : (len : Int) < maxLength
    · -- stored: the rest goes on from the next byte
      obtain ⟨ih₁, ih₂⟩ := ih (p + 1) (len + 1)
      have hk : min (out.length + 1) (maxLength - len).toNat =
          min out.length (maxLength - (len + 1 : Nat)).toNat + 1 := by omega
      have hstep : helperLoop ⟨p, len, maxLength⟩ (ch :: out) =
          ((p, [ch]) :: (helperLoop ⟨p + 1, len + 1, maxLength⟩ out).1,
            (helperLoop ⟨p + 1, len + 1, maxLength⟩ out).2) := by
        simp [helperLoop, vsnprintfHelper, hlt]
      refine ⟨?_, fun m => ?_⟩
      · rw [hstep, ih₁, hk]
        simp only [VsnprintfAux.mk.injEq, and_true]
        omega
      · have happ := writeBytes_append m p [ch] (out.take (min out.length (maxLength - (len + 1 : Nat)).toNat))
        rw [List.length_singleton, List.singleton_append] at happ
        rw [hstep, applyWrites_cons, ih₂, hk, List.take_succ_cons, ← happ]
    · -- counted only: nothing is stored from here on
      obtain ⟨ih₁, ih₂⟩ := ih p (len + 1)
      have hk : min (out.length + 1) (maxLength - len).toNat = 0 := by omega
      have hk' : min out.length (maxLength - (len + 1 : Nat)).toNat = 0 := by omega
      have hstep : helperLoop ⟨p, len, maxLength⟩ (ch :: out) =
          ((helperLoop ⟨p, len + 1, maxLength⟩ out).1, (helperLoop ⟨p, len + 1, maxLength⟩ out).2) := by
        simp [helperLoop, vsnprintfHelper, hlt]
      refine ⟨?_, fun m => ?_⟩
      · rw [hstep, ih₁, hk, hk']
        simp only [VsnprintfAux.mk.injEq, add_zero, true_and, and_true]
        omega
      · rw [hstep, ih₂, hk, hk', List.take_zero, List.take_zero]

theorem take_min_length (l : List UInt8) (k : Nat) : l.take (min l.length k) = l.take k := by
  rw [← List.take_take, List.take_of_length_le (List.length_take_le' _ _)]

/-- `vsnprintf` stores what `snprintf` into a buffer of `buf_size` bytes should: the first
`buf_size - 1` characters of the output and a terminator after them, and returns the length of
the whole output. Above `2 ^ 31` bytes, `max_length` is negative as an `int`, and only the
terminator is stored. -/
theorem vsnprintf_eq {format : List UInt8} {args : List Arg} {out : List UInt8}
    (hout : vprintf format args = some out) (buffer bufSize : Nat) (hsize : bufSize ≤ SIZE_MAX) :
    ∃ ws, vsnprintf buffer bufSize format args = some (ws, out.length) ∧
      ∀ m, applyWrites m ws =
        applyWrites m (Ustar.snprintf buffer bufSize (if bufSize ≤ 2 ^ 31 then out else [])) := by
  -- `max_length`: `buf_size - 1` as an `int`, negative above `2 ^ 31` bytes
  have hK : ((if bufSize > 0 then ((bufSize - 1 : Nat) : Int).bmod (2 ^ 32) else 0) -
      ((0 : Nat) : Int)).toNat = if bufSize ≤ 2 ^ 31 then bufSize - 1 else 0 := by
    unfold SIZE_MAX at hsize
    split_ifs with h0 hsmall hsmall
    · rw [Int.bmod_eq_of_le (by omega) (by omega)]
      omega
    · rw [← Int.sub_bmod_right, Int.bmod_eq_of_le (by omega) (by omega)]
      omega
    · omega
    · omega
  unfold vsnprintf
  rw [hout, Option.map_some]
  dsimp only
  generalize (if bufSize > 0 then ((bufSize - 1 : Nat) : Int).bmod (2 ^ 32) else 0) = maxLength at hK
  obtain ⟨h₁, h₂⟩ := helperLoop_eq maxLength out buffer 0
  generalize helperLoop ⟨buffer, 0, maxLength⟩ out = r at h₁ h₂
  obtain ⟨ws, aux⟩ := r
  cases h₁
  refine ⟨_, by rw [Nat.zero_add], fun m => ?_⟩
  rw [applyWrites_append, h₂, hK, Ustar.snprintf]
  dsimp only
  have hlen : ∀ k, (out.take (min out.length k)).length = min out.length k := fun k => by
    rw [List.length_take, Nat.min_comm, ← Nat.min_assoc, Nat.min_self]
  rcases Nat.eq_zero_or_pos bufSize with rfl | h0
  · -- no buffer: nothing is stored
    simp
  -- the terminator right after what was stored
  have hstore := writeBytes_append m buffer
    (out.take (min out.length (if bufSize ≤ 2 ^ 31 then bufSize - 1 else 0))) [0]
  rw [hlen] at hstore
  rw [if_pos h0, if_pos h0, applyWrites_cons, applyWrites_nil, applyWrites_cons, applyWrites_nil]
  dsimp only
  rw [hstore, take_min_length]
  by_cases hsmall : bufSize ≤ 2 ^ 31
  · rw [if_pos hsmall, if_pos hsmall]
  · rw [if_neg hsmall, if_neg hsmall, List.take_zero, List.take_nil]

theorem vsnprintf_eq_short :
    ∃ ws, vsnprintf 100 2 [37, 100] [.int 42] = some (ws, [52, 50].length) ∧
      ∀ m, applyWrites m ws =
        applyWrites m (Ustar.snprintf 100 2 (if 2 ≤ 2 ^ 31 then [52, 50] else [])) :=
  vsnprintf_eq (show vprintf [37, 100] [.int 42] = some [52, 50] by decide) 100 2 (by decide)

/-! ## The octal fields of `ustar` headers -/

/-- `parse_conversion` of `0`, a width in decimal digits, and `o`. -/
theorem parseConversion_zero_octal {ds : List UInt8} (hdig : ∀ c ∈ ds, isdigit c = true)
    (hhead : ds.head? ≠ some 48) (hw : (decimalValue ds : Int) + 48 ≤ INT_MAX)
    (rest : List UInt8) (args : List Arg) :
    parseConversion (48 :: ds ++ 111 :: rest) args =
      some (⟨{ zero := true }, decimalValue ds, -1, .int⟩, 111 :: rest, args) := by
  -- the first character of the width, or the `o`, ends the flags
  have hflags : parseFlags {} (48 :: (ds ++ 111 :: rest)) = ({ zero := true }, ds ++ 111 :: rest) := by
    rw [parseFlags, if_neg (by decide), if_neg (by decide), if_neg (by decide), if_neg (by decide),
      if_pos rfl]
    cases ds with
    | nil => exact parseFlags_of_not_flag _ (by decide) _
    | cons c ds =>
      exact parseFlags_of_not_flag _
        (not_flag_of_digit (hdig c List.mem_cons_self) fun h => hhead (h ▸ rfl)) _
  have hstar : (ds ++ 111 :: rest).head? ≠ some 42 := by
    cases ds with
    | nil => simp
    | cons c ds =>
      rintro ⟨⟩
      have := (isdigit_iff 42).mp (hdig 42 List.mem_cons_self)
      simp only [UInt8.toNat_ofNat] at this
      omega
  have hnum := parseNumber_digits (111 :: rest) (by rintro c ⟨⟩; rfl) ds hdig 0 hw
  rw [Nat.cast_zero] at hnum
  have hfield : parseField (ds ++ 111 :: rest) args = some ((decimalValue ds : Int), 111 :: rest, args) := by
    rw [parseField_of_ne_star hstar, hnum]
    rfl
  have hwidth : parseWidth (normalizeFlags { zero := true }) (ds ++ 111 :: rest) args =
      some ((decimalValue ds : Int), ({ zero := true } : Flags), 111 :: rest, args) := by
    rw [parseWidth, hfield]
    simp only [Option.bind_eq_bind, Option.bind_some]
    rw [if_neg (by omega)]
    rfl
  rw [List.cons_append, parseConversion, hflags]
  dsimp only
  rw [hwidth]
  rfl

theorem baseO_digit {d : Nat} (hd : d < 8) : baseO.digit d = Ustar.octalDigit d := by
  have h : ∀ i : Fin 8, baseO.digit i = Ustar.octalDigit i := by decide
  exact h ⟨d, hd⟩

/-- The octal field of a `ustar` header is what `format_integer` prints for `%0<w>o`. -/
theorem formatOctal_eq (w value : Nat) :
    Ustar.formatOctal w value = formatInteger value false false baseO ⟨{ zero := true }, w, -1, .int⟩ := by
  rw [formatInteger_eq_standardInteger value false false (by simp) (by simp) (by simp)
    (fun _ => ⟨rfl, by simp⟩)]
  have hmap : (Nat.digits 8 value).reverse.map baseO.digit =
      (Nat.digits 8 value).reverse.map Ustar.octalDigit :=
    List.map_congr_left fun d hd => baseO_digit (Nat.digits_lt_base (by decide) (List.mem_reverse.mp hd))
  simp only [Ustar.formatOctal, Digits.numeral, standardInteger, standardDigits, standardSign,
    precisionDigits, show baseO.base = 8 from rfl, hmap]
  have hzero : Ustar.octalDigit 0 = 48 := rfl
  rcases Nat.eq_zero_or_pos value with rfl | hv
  · simp [hzero]
  · -- no zero in front of the digits of a value above zero
    have hlen : 1 ≤ (Nat.digits 8 value).length :=
      List.length_pos_iff.mpr (Nat.digits_ne_nil_iff_ne_zero.mpr (by omega))
    simp [Nat.not_lt.mpr hlen, Nat.sub_eq_zero_of_le hlen, hzero]

/-- The `snprintf` calls of `ustar_make_header`, as `Pintos.Ustar` models them, are what
`snprintf` does: `%0<w>o` of an `unsigned` into a field of up to `2 ^ 31` bytes stores the first
`size - 1` characters of the octal numeral padded to `w` with `0`s, and a terminator. -/
theorem snprintf_octal (dst size : Nat) (ds : List UInt8) (hdig : ∀ c ∈ ds, isdigit c = true)
    (hhead : ds.head? ≠ some 48) (hw : (decimalValue ds : Int) + 48 ≤ INT_MAX) (v : Int)
    (hsize : size ≤ 2 ^ 31) :
    ∃ ws, snprintf dst size (37 :: 48 :: ds ++ [111]) [.int v] =
        some (ws, (Ustar.formatOctal (decimalValue ds) (v % 2 ^ 32).toNat).length) ∧
      ∀ m, applyWrites m ws =
        applyWrites m (Ustar.snprintf dst size (Ustar.formatOctal (decimalValue ds) (v % 2 ^ 32).toNat)) := by
  have hconv : doConversion ⟨{ zero := true }, decimalValue ds, -1, .int⟩ 111 [.int v] =
      some (Ustar.formatOctal (decimalValue ds) (v % 2 ^ 32).toNat, []) := by
    rw [doConversion, if_neg (by decide), if_pos (Or.inl rfl), formatOctal_eq]
    rfl
  have hout : vprintf (37 :: 48 :: ds ++ [111]) [.int v] =
      some (Ustar.formatOctal (decimalValue ds) (v % 2 ^ 32).toNat) := by
    rw [List.cons_append, vprintf_conversion (by simp) (parseConversion_zero_octal hdig hhead hw [] _)
      (by decide), hconv, Option.bind_some, vprintf_nil, Option.map_some, List.append_nil]
  obtain ⟨ws, hws, hwrites⟩ := vsnprintf_eq hout dst size (by unfold SIZE_MAX; omega)
  exact ⟨ws, hws, fun m => by rw [hwrites, if_pos hsize]⟩

/-- `%07o` of the mode `0644` into the 8 bytes of `mode`. -/
theorem snprintf_octal_mode :
    ∃ ws, snprintf 100 8 (37 :: 48 :: [55] ++ [111]) [.int 420] =
        some (ws, (Ustar.formatOctal (decimalValue [55]) ((420 : Int) % 2 ^ 32).toNat).length) ∧
      ∀ m, applyWrites m ws =
        applyWrites m (Ustar.snprintf 100 8
          (Ustar.formatOctal (decimalValue [55]) ((420 : Int) % 2 ^ 32).toNat)) :=
  snprintf_octal 100 8 [55] (by simp [isdigit]) (by decide) (by decide) 420 (by decide)

end Pintos.Printf
