import Pintos.Model.Printf

/-!
# Integer conversions as the C standard describes them

What `printf` prints for a conversion `d`, `i`, `o`, `u`, `x` or `X` (C99 7.19.6.1), stated
without the reversed buffer of `format_integer`:

* the digits of the value, most significant first, after enough zeros to make the precision
  ("the minimum number of digits to appear", 1 by default); the value zero at precision zero
  has no digits;
* `#` in octal raises the precision just enough for the first digit to be a zero;
* the `'` flag puts a comma between groups of digits counted from the right, 3 in decimal and
  octal and 4 in hexadecimal, as `stdio.c` documents it;
* a signed conversion starts with `-` for a negative value, otherwise with `+` under `+`, with
  a space under the space flag, or with nothing; `#` in hexadecimal puts `0x` or `0X` before a
  nonzero value;
* the width pads on the left with spaces, or on the right under `-`, or with zeros between the
  prefix and the digits under `0`, which is ignored when `-` is given or a precision is.
-/

set_option autoImplicit false

namespace Pintos.Printf

/-- The digits read from the right, from the `i`-th on: each follows a comma when its index
is a positive multiple of `g`. -/
def groupFrom (g : Nat) : Nat → List UInt8 → List UInt8
  | _, [] => []
  | i, d :: ds => (if 0 < i ∧ i % g = 0 then [44, d] else [d]) ++ groupFrom g (i + 1) ds

/-- A comma between each group of `g` digits, counted from the right. -/
def groupDigits (g : Nat) (ds : List UInt8) : List UInt8 := (groupFrom g 0 ds.reverse).reverse

/-- The digits of `value`, most significant first, after enough zeros to make `prec` of them. -/
def precisionDigits (b : IntegerBase) (prec value : Nat) : List UInt8 :=
  let ds := (Nat.digits b.base value).reverse.map b.digit
  List.replicate (prec - ds.length) 48 ++ ds

/-- The digits the standard prints for the value: the precision's, the zero of `#` in octal,
and the commas of `'`. -/
def standardDigits (value : Nat) (b : IntegerBase) (c : PrintfConversion) : List UInt8 :=
  let prec := if c.precision < 0 then 1 else c.precision.toNat
  let digits := precisionDigits b prec value
  let digits := if c.flags.pound && b.base = 8 && digits.head? ≠ some 48 then 48 :: digits else digits
  if c.flags.group then groupDigits b.group digits else digits

/-- The sign of a signed conversion. -/
def standardSign (isSigned negative : Bool) (flags : Flags) : List UInt8 :=
  if !isSigned then [] else if negative then [45] else if flags.plus then [43]
  else if flags.space then [32] else []

/-- The characters the standard prints for the integer conversion `c` in base `b` of `value`
(the magnitude, with `negative` its sign for a signed conversion). -/
def standardInteger (value : Nat) (isSigned negative : Bool) (b : IntegerBase)
    (c : PrintfConversion) : List UInt8 :=
  let digits := standardDigits value b c
  let pre := standardSign isSigned negative c.flags ++
    (if c.flags.pound && value ≠ 0 && b.x ≠ 0 then [48, b.x] else [])
  let pad := c.width.toNat - (pre.length + digits.length)
  if c.flags.minus then pre ++ digits ++ List.replicate pad 32
  else if c.flags.zero && c.precision < 0 then pre ++ List.replicate pad 48 ++ digits
  else List.replicate pad 32 ++ pre ++ digits

/-- What `%d` prints for `v`: a minus sign for a negative value, then its decimal digits. -/
def decimalString (v : Int) : List UInt8 :=
  (if v < 0 then [45] else []) ++ precisionDigits baseD 1 v.natAbs

end Pintos.Printf
