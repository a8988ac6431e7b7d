import Pintos.Model.StringLib
import Pintos.Lib.Digits

/-!
# ustar archive headers

`lib/ustar.c`. A header is the 512 bytes of `struct ustar_header`, a packed struct whose
fields follow each other (`Field`); it is kept as a byte memory of which the addresses
`0 .. 511` are the header. `ustar_make_header` (ustar.c:82-118) clears it with `memset`
and fills in the fields with `strlcpy` and `snprintf`, the checksum last;
`ustar_parse_header` (ustar.c:172-227) checks the end-of-archive marker, the magic, the
version, the checksum, the name's terminator and the type, and reads the size.

* `snprintf (buf, size, ...)` (stdio.c:26-52) stores the first `size - 1` characters of its
  output and a terminator; the `%07o` and `%011o` conversions go through
  `format_integer` (stdio.c:469-547): the digits of the value in base 8, a `0` for the
  value zero, and `0`s in front up to the width (`formatOctal`).
* `calculate_chksum` (ustar.c:36-54) adds the header's bytes as unsigned, with the
  checksum field read as spaces; it stays far below `UINT_MAX`.
* `strip_antisocial_prefixes` (ustar.c:66-74) skips leading `/`, `./` and `../`; `strchr`
  finds the `/` that the test just matched. An empty name or `..` becomes `.`.
* `parse_octal_field` (ustar.c:129-160) reads octal digits up to a space or a null, which
  must not come first, and fails on any other byte, on a field with no terminator, and
  when the value before a digit is above `ULONG_MAX / 8` (32-bit `unsigned long`).

A file name is the list of its bytes, without the terminator. `ustar_make_header` asserts
that the type is a regular file or a directory: its type is `UstarType`. The message it
prints for a long name is left out.
-/

set_option autoImplicit false

namespace Pintos.Ustar

open ByteMemory Pintos.Str

def USTAR_HEADER_SIZE : Nat := 512

/-- `unsigned long` is 32 bits wide. -/
def ULONG_MAX : Nat := 2 ^ 32 - 1

def INT_MAX : Nat := 2 ^ 31 - 1

/-- The header types `ustar_make_header` accepts; `USTAR_EOF` is only a result of parsing. -/
inductive UstarType where
  | regular
  | directory
  deriving DecidableEq, Repr

/-- The byte the type is in the format: `'0'` and `'5'`. -/
def UstarType.byte : UstarType → UInt8
  | .regular => 48
  | .directory => 53

/-- The permissions `ustar_make_header` gives a member of the type. -/
def UstarType.mode : UstarType → Nat
  | .regular => 0o644
  | .directory => 0o755

/-! ## The fields of `struct ustar_header` -/

/-- A field: its offset in the header and its `sizeof`. -/
structure Field where
  ofs : Nat
  len : Nat

def Field.name : Field := ⟨0, 100⟩
def Field.mode : Field := ⟨100, 8⟩
def Field.uid : Field := ⟨108, 8⟩
def Field.gid : Field := ⟨116, 8⟩
def Field.size : Field := ⟨124, 12⟩
def Field.mtime : Field := ⟨136, 12⟩
def Field.chksum : Field := ⟨148, 8⟩
def Field.typeflag : Field := ⟨156, 1⟩
def Field.magic : Field := ⟨257, 6⟩
def Field.version : Field := ⟨263, 2⟩
def Field.uname : Field := ⟨265, 32⟩
def Field.gname : Field := ⟨297, 32⟩
/-- `h->prefix`. -/
def Field.namePrefix : Field := ⟨345, 155⟩

/-- The bytes of a field. -/
def Field.read (f : Field) (h : Memory) : List UInt8 := readBytes h f.ofs f.len

/-! ## Formatting -/

/-- The digit characters `"01234567"` of `base_o`. -/
def octalDigit (d : Nat) : UInt8 := UInt8.ofNat (48 + d)

/-- `format_integer` of an unsigned value in base 8 with the `0` flag and field width
`width`. -/
def formatOctal (width value : Nat) : List UInt8 := (Digits.numeral 8 width value).map octalDigit

/-- `snprintf (dst, size, ...)` of the output `out`, as the block it writes: at most
`size - 1` characters and the terminator. -/
def snprintf (dst size : Nat) (out : List UInt8) : List (Nat × List UInt8) :=
  if size > 0 then [(dst, out.take (size - 1) ++ [0])] else []

/-- `"0000000"`. -/
def zeros7 : List UInt8 := List.replicate 7 48

/-- `"ustar"`. -/
def ustarMagic : List UInt8 := [117, 115, 116, 97, 114]

/-- `"root"`. -/
def root : List UInt8 := [114, 111, 111, 116]

/-- The `mtime` all headers get. -/
def MTIME : Nat := 1136102400

/-! ## Checksum and names -/

def calculateChksum (h : Memory) : Nat :=
  ((List.range USTAR_HEADER_SIZE).map fun i =>
    if Field.chksum.ofs ≤ i ∧ i < Field.chksum.ofs + Field.chksum.len then 32 else (h i).toNat).sum

/-- The loop of `strip_antisocial_prefixes`. -/
def stripLoop : List UInt8 → List UInt8
  | 47 :: s => stripLoop s
  | 46 :: 47 :: s => stripLoop s
  | 46 :: 46 :: 47 :: s => stripLoop s
  | s => s

def stripAntisocialPrefixes (fileName : List UInt8) : List UInt8 :=
  let s := stripLoop fileName
  if s = [] ∨ s = [46, 46] then [46] else s

/-! ## Making a header -/

/-- The writes of `ustar_make_header` before the checksum, in the source's order. -/
def headerWrites (fileName : List UInt8) (type : UstarType) (size : Int32) : List (Nat × List UInt8) :=
  strlcpy Field.name.ofs (fileName ++ [0]) 0 Field.name.len ++
  snprintf Field.mode.ofs Field.mode.len (formatOctal 7 type.mode) ++
  strlcpy Field.uid.ofs (zeros7 ++ [0]) 0 Field.uid.len ++
  strlcpy Field.gid.ofs (zeros7 ++ [0]) 0 Field.gid.len ++
  -- `%o` takes the `int` as `unsigned`
  snprintf Field.size.ofs Field.size.len (formatOctal 11 size.toUInt32.toNat) ++
  -- `sizeof h->size`, which is `sizeof h->mtime`
  snprintf Field.mtime.ofs Field.size.len (formatOctal 11 MTIME) ++
  [(Field.typeflag.ofs, [type.byte])] ++
  strlcpy Field.magic.ofs (ustarMagic ++ [0]) 0 Field.magic.len ++
  -- `h->version[0] = h->version[1] = '0'`
  [(Field.version.ofs + 1, [48]), (Field.version.ofs, [48])] ++
  strlcpy Field.gname.ofs (root ++ [0]) 0 Field.gname.len ++
  strlcpy Field.uname.ofs (root ++ [0]) 0 Field.uname.len

/-- `ustar_make_header`: `none` when the stripped name is longer than 99 bytes. -/
def ustarMakeHeader (fileName : List UInt8) (type : UstarType) (size : Int32) : Option Memory :=
  let fileName := stripAntisocialPrefixes fileName
  if fileName.length > 99 then none
  else
    -- `memset (h, 0, sizeof *h)` and the fields
    let h := applyWrites (fun _ => 0) (headerWrites fileName type size)
    some (applyWrites h (snprintf Field.chksum.ofs Field.chksum.len (formatOctal 7 (calculateChksum h))))

/-! ## Parsing a header -/

/-- The loop of `parse_octal_field` from offset `ofs` with `*value = value`. -/
def parseOctalLoop : List UInt8 → Nat → Nat → Option Nat
  | [], _, _ => none
  | c :: cs, ofs, value =>
      if 48 ≤ c ∧ c ≤ 55 then
        if value > ULONG_MAX / 8 then none
        else parseOctalLoop cs (ofs + 1) ((c - 48).toNat + value * 8)
      else if c = 32 ∨ c = 0 then
        if ofs > 0 then some value else none
      else none

/-- `parse_octal_field (s, size, &value)` on the `size` bytes of the field. -/
def parseOctalField (s : List UInt8) : Option Nat := parseOctalLoop s 0 0

def isAllZeros (h : Memory) (cnt : Nat) : Bool := (List.range cnt).all fun i => h i = 0

/-- What `ustar_parse_header` returns on success: the end of the archive, or a member's
name, type and size. -/
inductive Parsed where
  | eof
  | member (fileName : List UInt8) (type : UstarType) (size : Int32)
  deriving DecidableEq, Repr

/-- `ustar_parse_header`: the member, or the error message. -/
def ustarParseHeader (h : Memory) : Except String Parsed :=
  if isAllZeros h USTAR_HEADER_SIZE then .ok .eof
  else if Field.magic.read h ≠ ustarMagic ++ [0] then .error "not a ustar archive"
  else if h Field.version.ofs ≠ 48 ∨ h (Field.version.ofs + 1) ≠ 48 then .error "invalid ustar version"
  else match parseOctalField (Field.chksum.read h) with
    | none => .error "corrupt chksum field"
    | some chksum =>
        if chksum ≠ calculateChksum h then .error "checksum mismatch"
        else if h (Field.name.ofs + Field.name.len - 1) ≠ 0 ∨ h Field.namePrefix.ofs ≠ 0 then
          .error "file name too long"
        else if h Field.typeflag.ofs ≠ UstarType.regular.byte ∧ h Field.typeflag.ofs ≠ UstarType.directory.byte then
          .error "unimplemented file type"
        else
          let type := if h Field.typeflag.ofs = UstarType.regular.byte then UstarType.regular else .directory
          let sizeUl : Except String Nat :=
            if type = .regular then
              match parseOctalField (Field.size.read h) with
              | none => .error "corrupt file size field"
              | some s => if s > INT_MAX then .error "file too large" else .ok s
            else .ok 0
          sizeUl.map fun s => .member (stripAntisocialPrefixes (cstr (Field.name.read h) 0)) type (Int32.ofNat s)

end Pintos.Ustar
