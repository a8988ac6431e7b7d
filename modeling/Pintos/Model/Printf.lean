import Pintos.Model.Stdlib
import Pintos.Model.CommandLine

/-!
# The `printf` engine (`lib/stdio.c`)

`__vprintf` (stdio.c:156-333) copies the format to its output, character by character, up to
the terminator. A `%` starts a conversion, `%%` prints `%`. `parse_conversion`
(stdio.c:339-463) reads the flags `-`, `+`, space, `#`, `0` and `'`, then a field width (digits
or `*`), then a precision (`.` and digits or `*`), then a length modifier. It normalises as it
goes: `-` cancels `0` and `+` cancels space once the flags are read, a negative `*` width is
the `-` flag with its magnitude, a negative precision is none (`-1`), and a precision cancels
`0`. The conversion character selects what is printed.

* `d` and `i` print a signed argument, `o`, `u`, `x` and `X` an unsigned one, read at the
  type of the length modifier. `format_integer` (stdio.c:469-547) writes the digits in reverse
  into a 64-byte buffer with a comma between groups under `'`, adds zeros up to the
  precision (but not beyond 63 characters), and a `0` under `#` in octal. It then prints the
  padding, the sign, the `0x` of `#` in hex, the zeros of the `0` flag, the digits, and the
  padding of `-`.
* `c` and `s` go through `format_string` (stdio.c:561-573), which pads to the width; `s`
  prints at most the precision's characters of the string, or `"(null)"` for `NULL`.
* `p` prints the pointer as `%#x`, with all other flags cleared.
* The floating-point conversions and `n` print a message, and so does any other character.

`vsnprintf` (stdio.c:25-52) stores the first `buf_size - 1` characters of the output through
`vsnprintf_helper` and then a terminator, and returns the length of the whole output.

A string is the list of its bytes; the end of the list reads as the terminator. The variable
arguments are a list of `Arg`: an integer or pointer by its value, or a `char *` by its
string (`none` for `NULL`). `va_arg` of an integer type takes the low bits of the argument
(the machine is i386: `int`, `long`, `ptrdiff_t` and `size_t` are 32 bits, `long long` and
`intmax_t` 64). The result is `none` where C leaves the behaviour undefined: a missing
argument or one of the other kind, an `int` overflow in a width or precision, and a format that
ends inside a conversion, after which the loop steps past the terminator. The messages of the
unsupported conversions are the output of their nested `__printf` calls. An output of more
than `INT_MAX` characters, where `vsnprintf`'s count would overflow, is left out.
-/

set_option autoImplicit false

namespace Pintos.Printf

open Pintos.Stdlib (isdigit intOp)

def SIZE_MAX : Nat := 2 ^ 32 - 1

def PTRDIFF_MAX : Nat := 2 ^ 31 - 1

/-- The flags of `struct printf_conversion` (stdio.c:96-106). -/
structure Flags where
  minus : Bool := false
  plus : Bool := false
  space : Bool := false
  pound : Bool := false
  zero : Bool := false
  group : Bool := false
  deriving DecidableEq, Repr

/-- The length modifiers (stdio.c:116-127): `hh`, `h`, none, `j`, `l`, `ll`, `t`, `z`. -/
inductive ConvType
  | char | short | int | intmax | long | longlong | ptrdifft | sizet
  deriving DecidableEq, Repr

/-- `struct printf_conversion`: the width and the precision are `int`s, `-1` for no precision. -/
structure PrintfConversion where
  flags : Flags
  width : Int
  precision : Int
  type : ConvType
  deriving DecidableEq, Repr

/-- A variable argument: an integer or a pointer by its value, or a string. -/
inductive Arg
  | int (v : Int)
  | str (s : Option (List UInt8))
  deriving DecidableEq, Repr

/-! ## Reading arguments -/

/-- `va_arg (args, T)` of a signed integer type of `bits` bits. -/
def vaArgSigned (bits : Nat) : List Arg → Option (Int × List Arg)
  | .int v :: args => some (v.bmod (2 ^ bits), args)
  | _ => none

/-- `va_arg (args, T)` of an unsigned integer type of `bits` bits. -/
def vaArgUnsigned (bits : Nat) : List Arg → Option (Nat × List Arg)
  | .int v :: args => some ((v % 2 ^ bits).toNat, args)
  | _ => none

/-- `va_arg (args, char *)`. -/
def vaArgString : List Arg → Option (Option (List UInt8) × List Arg)
  | .str s :: args => some (s, args)
  | _ => none

/-- The value of a signed conversion at its length modifier (stdio.c:190-224). -/
def signedArg (type : ConvType) (args : List Arg) : Option (Int × List Arg) :=
  match type with
  | .char => (vaArgSigned 32 args).map fun (v, args) => (v.bmod (2 ^ 8), args)
  | .short => (vaArgSigned 32 args).map fun (v, args) => (v.bmod (2 ^ 16), args)
  | .int => vaArgSigned 32 args
  | .intmax => vaArgSigned 64 args
  | .long => vaArgSigned 32 args
  | .longlong => vaArgSigned 64 args
  | .ptrdifft => vaArgSigned 32 args
  | .sizet => (vaArgUnsigned 32 args).map fun (v, args) =>
    (if v > SIZE_MAX / 2 then (v : Int) - SIZE_MAX - 1 else v, args)

/-- The value of an unsigned conversion at its length modifier (stdio.c:241-274). -/
def unsignedArg (type : ConvType) (args : List Arg) : Option (Nat × List Arg) :=
  match type with
  | .char => (vaArgUnsigned 32 args).map fun (v, args) => (v % 2 ^ 8, args)
  | .short => (vaArgUnsigned 32 args).map fun (v, args) => (v % 2 ^ 16, args)
  | .int => vaArgUnsigned 32 args
  | .intmax => vaArgUnsigned 64 args
  | .long => vaArgUnsigned 32 args
  | .longlong => vaArgUnsigned 64 args
  -- the `ptrdiff_t` widened to `uintmax_t`, then masked: `UINTMAX_MAX != PTRDIFF_MAX`
  | .ptrdifft => (vaArgSigned 32 args).map fun (v, args) =>
    ((v % 2 ^ 64).toNat &&& ((PTRDIFF_MAX <<< 1) ||| 1), args)
  | .sizet => vaArgUnsigned 32 args

/-! ## `parse_conversion` -/

/-- The flag loop (stdio.c:343-369). -/
def parseFlags (flags : Flags) : List UInt8 → Flags × List UInt8
  | c :: format =>
    if c = 45 then parseFlags { flags with minus := true } format         -- '-'
    else if c = 43 then parseFlags { flags with plus := true } format     -- '+'
    else if c = 32 then parseFlags { flags with space := true } format    -- ' '
    else if c = 35 then parseFlags { flags with pound := true } format    -- '#'
    else if c = 48 then parseFlags { flags with zero := true } format     -- '0'
    else if c = 39 then parseFlags { flags with group := true } format    -- the quote
    else (flags, c :: format)
  | [] => (flags, [])

/-- The digit loop of the width and of the precision:
`for (; isdigit (*format); format++) n = n * 10 + *format - '0';`. -/
def parseNumber (n : Int) : List UInt8 → Option (Int × List UInt8)
  | c :: format =>
    if isdigit c then do
      let n ← intOp (n * 10)
      let n ← intOp (n + c.toNat)
      let n ← intOp (n - 48)
      parseNumber n format
    else some (n, c :: format)
  | [] => some (n, [])

/-- A width or a precision: `*` takes an `int` argument, digits are read by `parseNumber`. -/
def parseField (format : List UInt8) (args : List Arg) : Option (Int × List UInt8 × List Arg) :=
  match format with
  | 42 :: format => (vaArgSigned 32 args).map fun (n, args) => (n, format, args)  -- '*'
  | format => (parseNumber 0 format).map fun (n, format) => (n, format, args)

/-- The length modifier (stdio.c:424-460). -/
def parseType : List UInt8 → ConvType × List UInt8
  | 104 :: 104 :: format => (.char, format)       -- "hh"
  | 104 :: format => (.short, format)             -- "h"
  | 106 :: format => (.intmax, format)            -- "j"
  | 108 :: 108 :: format => (.longlong, format)   -- "ll"
  | 108 :: format => (.long, format)              -- "l"
  | 116 :: format => (.ptrdifft, format)          -- "t"
  | 122 :: format => (.sizet, format)             -- "z"
  | format => (.int, format)

/-- The normalisation after the flags (stdio.c:370-373): `-` cancels `0`, `+` cancels space. -/
def normalizeFlags (flags : Flags) : Flags :=
  let flags := if flags.minus then { flags with zero := false } else flags
  if flags.plus then { flags with space := false } else flags

/-- The field width (stdio.c:375-389): a negative width is the `-` flag and its magnitude. -/
def parseWidth (flags : Flags) (format : List UInt8) (args : List Arg) :
    Option (Int × Flags × List UInt8 × List Arg) := do
  let (width, format, args) ← parseField format args
  if width < 0 then (intOp (-width)).map fun w => (w, { flags with minus := true }, format, args)
  else some (width, flags, format, args)

/-- The precision (stdio.c:391-409): `-1` for none, and for a negative one. -/
def parsePrecision (format : List UInt8) (args : List Arg) : Option (Int × List UInt8 × List Arg) :=
  match format with
  | 46 :: format => (parseField format args).map fun (p, format, args) =>   -- '.'
    (if p < 0 then -1 else p, format, args)
  | format => some (-1, format, args)

/-- `parse_conversion (format, c, args)`: the conversion, the format from its conversion
character on, and the arguments left. A precision cancels `0` (stdio.c:410-411). -/
def parseConversion (format : List UInt8) (args : List Arg) :
    Option (PrintfConversion × List UInt8 × List Arg) := do
  let (flags, format) := parseFlags {} format
  let (width, flags, format, args) ← parseWidth (normalizeFlags flags) format args
  let (precision, format, args) ← parsePrecision format args
  let flags := if 0 ≤ precision then { flags with zero := false } else flags
  let (type, format) := parseType format
  some (⟨flags, width, precision, type⟩, format, args)

/-! ## `format_integer` -/

/-- `struct integer_base` (stdio.c:130-136): a base above 1, a digit character for each value
below it, the `x` of `#` (`0` for none), and the size of a group of digits. -/
structure IntegerBase where
  base : Nat
  digits : List UInt8
  x : UInt8
  group : Nat
  one_lt_base : 1 < base
  length_digits : digits.length = base

theorem IntegerBase.mod_lt_length (b : IntegerBase) (value : Nat) :
    value % b.base < b.digits.length := by
  rw [b.length_digits]
  exact Nat.mod_lt _ (by have := b.one_lt_base; omega)

/-- `b->digits[value % b->base]`. -/
def IntegerBase.digit (b : IntegerBase) (value : Nat) : UInt8 :=
  b.digits.get ⟨value % b.base, b.mod_lt_length value⟩

/-- `base_d`: `"0123456789"`. -/
def baseD : IntegerBase := ⟨10, [48, 49, 50, 51, 52, 53, 54, 55, 56, 57], 0, 3, by decide, rfl⟩

/-- `base_o`: `"01234567"`. -/
def baseO : IntegerBase := ⟨8, [48, 49, 50, 51, 52, 53, 54, 55], 0, 3, by decide, rfl⟩

/-- `base_x`: `"0123456789abcdef"`, with `'x'`. -/
def baseX : IntegerBase :=
  ⟨16, [48, 49, 50, 51, 52, 53, 54, 55, 56, 57, 97, 98, 99, 100, 101, 102], 120, 4, by decide, rfl⟩

/-- `base_X`: `"0123456789ABCDEF"`, with `'X'`. -/
def baseUpperX : IntegerBase :=
  ⟨16, [48, 49, 50, 51, 52, 53, 54, 55, 56, 57, 65, 66, 67, 68, 69, 70], 88, 4, by decide, rfl⟩

/-- `output_dup (ch, cnt, output, aux)`. -/
def outputDup (ch : UInt8) (cnt : Nat) : List UInt8 := List.replicate cnt ch

/-- The digit loop of `format_integer` (stdio.c:499-506) from `value`, with `digitCnt` digits
written: the buffer in the order written, least significant digit first. Each round divides
`value` by the base, so `value` rounds of `fuel` are enough. -/
def digitLoop (b : IntegerBase) (group : Bool) : Nat → Nat → Nat → List UInt8 → List UInt8
  | 0, _, _, buf => buf
  | fuel + 1, value, digitCnt, buf =>
    if value > 0 then
      let buf := if group && digitCnt > 0 && digitCnt % b.group = 0 then buf ++ [44] else buf
      digitLoop b group fuel (value / b.base) (digitCnt + 1) (buf ++ [b.digit value])
    else buf

/-- `while (cp - buf < precision && cp < buf + sizeof buf - 1) *cp++ = '0';` with the 64-byte
buffer, which bounds the rounds. -/
def zeroLoop (precision : Int) : Nat → List UInt8 → List UInt8
  | 0, buf => buf
  | fuel + 1, buf =>
    if (buf.length : Int) < precision ∧ buf.length < 63 then zeroLoop precision fuel (buf ++ [48])
    else buf

/-- The sign character of `format_integer`, `0` for none. -/
def signChar (isSigned negative : Bool) (flags : Flags) : UInt8 :=
  if isSigned then
    if flags.plus then (if negative then 45 else 43)
    else if flags.space then (if negative then 45 else 32)
    else if negative then 45 else 0
  else 0

/-- The buffer of `format_integer` (stdio.c:495-517), in the order written: the digits, the
zeros of the precision, and the `0` of `#` in octal. -/
def integerBuffer (value : Nat) (b : IntegerBase) (c : PrintfConversion) : List UInt8 :=
  let buf := digitLoop b c.flags.group value value 0 []
  let precision : Int := if c.precision < 0 then 1 else c.precision
  let buf := zeroLoop precision 64 buf
  -- `cp == buf || cp[-1] != '0'`: the last character written is not a zero
  if c.flags.pound && b.base = 8 && buf.getLast? ≠ some 48 then buf ++ [48] else buf

/-- `format_integer (value, is_signed, negative, b, c, output, aux)`: the characters output. -/
def formatInteger (value : Nat) (isSigned negative : Bool) (b : IntegerBase)
    (c : PrintfConversion) : List UInt8 :=
  let sign := signChar isSigned negative c.flags
  let x : UInt8 := if c.flags.pound && value ≠ 0 then b.x else 0
  let buf := integerBuffer value b c
  let padCnt : Int := c.width - buf.length - (if x ≠ 0 then 2 else 0) - (if sign ≠ 0 then 1 else 0)
  let padCnt := if padCnt < 0 then 0 else padCnt.toNat
  (if !c.flags.minus && !c.flags.zero then outputDup 32 padCnt else []) ++
    (if sign ≠ 0 then [sign] else []) ++
    (if x ≠ 0 then [48, x] else []) ++
    (if c.flags.zero then outputDup 48 padCnt else []) ++
    buf.reverse ++
    (if c.flags.minus then outputDup 32 padCnt else [])

/-- `format_string (string, length, c, output, aux)`. -/
def formatString (string : List UInt8) (length : Nat) (c : PrintfConversion) : List UInt8 :=
  (if c.width > length && !c.flags.minus then outputDup 32 (c.width - length).toNat else []) ++
    string.take length ++
    (if c.width > length && c.flags.minus then outputDup 32 (c.width - length).toNat else [])

/-! ## `__vprintf` -/

/-- `"(null)"`. -/
def nullString : List UInt8 := [40, 110, 117, 108, 108, 41]

/-- The output of `__printf ("<<no %%%c in kernel>>", output, aux, k)`. -/
def noInKernel (k : UInt8) : List UInt8 :=
  [60, 60, 110, 111, 32, 37] ++ [k] ++ [32, 105, 110, 32, 107, 101, 114, 110, 101, 108, 62, 62]

/-- The output of `__printf ("<<no %%%c conversion>>", output, aux, k)`. -/
def noConversion (k : UInt8) : List UInt8 :=
  [60, 60, 110, 111, 32, 37] ++ [k] ++ [32, 99, 111, 110, 118, 101, 114, 115, 105, 111, 110, 62, 62]

/-- The `switch (*format)` of `__vprintf` (stdio.c:183-331) on the conversion character `k`:
the characters output and the arguments left. -/
def doConversion (c : PrintfConversion) (k : UInt8) (args : List Arg) :
    Option (List UInt8 × List Arg) :=
  if k = 100 ∨ k = 105 then                                               -- 'd', 'i'
    (signedArg c.type args).map fun (value, args) =>
      (formatInteger value.natAbs true (value < 0) baseD c, args)
  else if k = 111 ∨ k = 117 ∨ k = 120 ∨ k = 88 then                      -- 'o', 'u', 'x', 'X'
    (unsignedArg c.type args).map fun (value, args) =>
      let b := if k = 111 then baseO else if k = 117 then baseD else if k = 120 then baseX
        else baseUpperX
      (formatInteger value false false b c, args)
  else if k = 99 then                                                     -- 'c'
    (vaArgSigned 32 args).map fun (ch, args) => (formatString [(ch % 256).toNat.toUInt8] 1 c, args)
  else if k = 115 then                                                    -- 's'
    (vaArgString args).map fun (s, args) =>
      let s := s.getD nullString
      -- the `int` precision as `size_t`: `-1` is `SIZE_MAX`
      (formatString s (Init.strnlen s (c.precision % 2 ^ 32).toNat) c, args)
  else if k = 112 then                                                    -- 'p'
    (vaArgUnsigned 32 args).map fun (p, args) =>
      (formatInteger p false false baseX { c with flags := { pound := true } }, args)
  else if k = 102 ∨ k = 101 ∨ k = 69 ∨ k = 103 ∨ k = 71 ∨ k = 110 then  -- 'f' 'e' 'E' 'g' 'G' 'n'
    some (noInKernel k, args)
  else some (noConversion k, args)

/-- The loop of `__vprintf` over the format, with at most `fuel` rounds. -/
def vprintfLoop : Nat → List UInt8 → List Arg → Option (List UInt8)
  | _, [], _ => some []
  | 0, _ :: _, _ => none
  | fuel + 1, c :: format, args =>
    if c = 0 then some []
    else if c ≠ 37 then (vprintfLoop fuel format args).map (c :: ·)
    else
      match format with
      | 37 :: format => (vprintfLoop fuel format args).map (37 :: ·)     -- "%%"
      | format =>
        match parseConversion format args with
        | some (conv, k :: format, args) =>
          -- at the terminator the loop's `format++` steps past the string
          if k = 0 then none
          else
            match doConversion conv k args with
            | some (out, args) => (vprintfLoop fuel format args).map (out ++ ·)
            | none => none
        | _ => none

/-- `__vprintf (format, args, output, aux)`: the characters passed to `output`. Each round
reads at least one character of the format. -/
def vprintf (format : List UInt8) (args : List Arg) : Option (List UInt8) :=
  vprintfLoop (format.length + 1) format args

/-! ## `vsnprintf` -/

/-- `struct vsnprintf_aux`. -/
structure VsnprintfAux where
  p : Nat
  length : Nat
  maxLength : Int

/-- `vsnprintf_helper (ch, aux)`: the byte it stores, if any, and the new `aux`. -/
def vsnprintfHelper (aux : VsnprintfAux) (ch : UInt8) : List (Nat × List UInt8) × VsnprintfAux :=
  if (aux.length : Int) < aux.maxLength then ([(aux.p, [ch])], ⟨aux.p + 1, aux.length + 1, aux.maxLength⟩)
  else ([], ⟨aux.p, aux.length + 1, aux.maxLength⟩)

/-- `vsnprintf_helper` over the output, from `aux`: the stores, in order, and the final `aux`. -/
def helperLoop (aux : VsnprintfAux) : List UInt8 → List (Nat × List UInt8) × VsnprintfAux
  | [] => ([], aux)
  | ch :: out =>
    let (w, aux) := vsnprintfHelper aux ch
    let (ws, aux) := helperLoop aux out
    (w ++ ws, aux)

/-- `vsnprintf (buffer, buf_size, format, args)`: the blocks it stores, in order, and its
result. `max_length` is the `size_t` `buf_size - 1` converted to `int`. -/
def vsnprintf (buffer bufSize : Nat) (format : List UInt8) (args : List Arg) :
    Option (List (Nat × List UInt8) × Nat) :=
  (vprintf format args).map fun out =>
    let aux : VsnprintfAux := ⟨buffer, 0, if bufSize > 0 then ((bufSize - 1 : Nat) : Int).bmod (2 ^ 32) else 0⟩
    let (ws, aux) := helperLoop aux out
    (ws ++ (if bufSize > 0 then [(aux.p, [0])] else []), aux.length)

/-- `snprintf (buffer, buf_size, format, ...)`. -/
def snprintf (buffer bufSize : Nat) (format : List UInt8) (args : List Arg) :
    Option (List (Nat × List UInt8) × Nat) :=
  vsnprintf buffer bufSize format args

end Pintos.Printf
