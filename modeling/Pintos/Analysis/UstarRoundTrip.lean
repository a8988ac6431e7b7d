import Pintos.Model.Ustar
import Mathlib.Algebra.Order.BigOperators.Group.List

/-!
# A header `ustar_make_header` writes is one `ustar_parse_header` accepts

For a name whose stripped form `s` has at most 99 bytes, `ustar_make_header` succeeds, and
`ustar_parse_header` of its header gives back `s`, the type, and the size of a regular file
(`ustar_header_round_trip`). The proof reads each field of the header back from the block
that wrote it.

* Stripping is idempotent (`stripAntisocialPrefixes_idem`): the loop stops at a name it
  would not strip again, and `.` stays `.`. So the name the parser strips is `s` itself.
* The blocks of the header sit in fields that do not overlap (`fieldBlocks_spans`): the
  name and its terminator below offset 100, every other field between 100 and 302, and the
  checksum in 148 .. 155, which no other block touches. Every block therefore reads back
  (`ByteMemory.readBytes_applyWrites_of_mem`), and the bytes no block touches stay 0.
* `%07o` and `%011o` of a value below `8^7` and `8^11` fill their fields exactly, and
  `parse_octal_field` reads the digits back up to the terminator
  (`parseOctalField_formatOctal`); the overflow test never fires because the value before
  a digit is at most the final value over 8.
* The checksum is at most `512 * 255 < 8^7`, and it reads the same on the final header as
  on the one it was computed from, since the two differ only in the checksum field.
-/

set_option autoImplicit false

namespace Pintos.Ustar

open ByteMemory Pintos.Str Digits

/-! ## Stripping prefixes -/

/-- The loop stops at a name it would not strip further. -/
theorem stripLoop_stripLoop (s : List UInt8) : stripLoop (stripLoop s) = stripLoop s := by
  fun_induction stripLoop s with
  | case1 s ih => exact ih
  | case2 s ih => exact ih
  | case3 s ih => exact ih
  | case4 s h1 h2 h3 => rw [stripLoop.eq_4 s h1 h2 h3]

/-- What the loop leaves is a suffix of the name. -/
theorem stripLoop_suffix (s : List UInt8) : stripLoop s <:+ s := by
  fun_induction stripLoop s with
  | case1 s ih => exact ih.trans (List.suffix_cons _ _)
  | case2 s ih => exact ih.trans ((List.suffix_cons _ _).trans (List.suffix_cons _ _))
  | case3 s ih =>
      exact ih.trans ((List.suffix_cons _ _).trans ((List.suffix_cons _ _).trans
        (List.suffix_cons _ _)))
  | case4 s => exact List.suffix_refl s

theorem stripAntisocialPrefixes_idem (s : List UInt8) :
    stripAntisocialPrefixes (stripAntisocialPrefixes s) = stripAntisocialPrefixes s := by
  unfold stripAntisocialPrefixes
  dsimp only
  by_cases ht : stripLoop s = [] ∨ stripLoop s = [46, 46]
  · -- `.` strips to itself
    rw [if_pos ht]
    decide
  · rw [if_neg ht, stripLoop_stripLoop, if_neg ht]

theorem zero_not_mem_stripAntisocialPrefixes {s : List UInt8} (hs : (0 : UInt8) ∉ s) :
    (0 : UInt8) ∉ stripAntisocialPrefixes s := by
  unfold stripAntisocialPrefixes
  dsimp only
  split
  · decide
  · exact fun h => hs ((stripLoop_suffix s).subset h)

/-! ## Octal fields -/

theorem octalDigit_spec : ∀ d < 8,
    48 ≤ octalDigit d ∧ octalDigit d ≤ 55 ∧ (octalDigit d - 48).toNat = d := by
  decide

theorem length_formatOctal {w v : Nat} (hw : 1 ≤ w) (hv : v < 8 ^ w) :
    (formatOctal w v).length = w := by
  rw [formatOctal, List.length_map, length_numeral 8 (by decide) hw hv]

/-- The loop of `parse_octal_field` reads digit characters up to a terminator as the value a
left-to-right reader accumulates, when at least one digit came before the terminator and
the value fits an `unsigned long`. -/
theorem parseOctalLoop_digits (ds : List Nat) (rest : List UInt8) (ofs acc : Nat)
    (hds : ∀ d ∈ ds, d < 8) (hpos : 0 < ofs + ds.length)
    (hmax : readDigits 8 acc ds ≤ ULONG_MAX) :
    parseOctalLoop (ds.map octalDigit ++ 0 :: rest) ofs acc = some (readDigits 8 acc ds) := by
  induction ds generalizing ofs acc with
  | nil =>
      have hofs : 0 < ofs := by simpa using hpos
      simp [parseOctalLoop, readDigits_nil, hofs]
  | cons d ds ih =>
      obtain ⟨hlo, hhi, hval⟩ := octalDigit_spec d (hds d (by simp))
      -- the value before this digit is at most the final value over 8: no overflow
      have hacc : acc * 8 ≤ ULONG_MAX :=
        calc acc * 8 ≤ acc * 8 ^ (d :: ds).length :=
              Nat.mul_le_mul_left acc (Nat.le_self_pow (by simp) 8)
          _ ≤ readDigits 8 acc (d :: ds) := mul_pow_le_readDigits 8 acc (d :: ds)
          _ ≤ ULONG_MAX := hmax
      have hnot : ¬ acc > ULONG_MAX / 8 := by
        rw [gt_iff_lt, Nat.not_lt]
        exact (Nat.le_div_iff_mul_le (by decide)).mpr hacc
      rw [List.map_cons, List.cons_append, parseOctalLoop, if_pos ⟨hlo, hhi⟩, if_neg hnot, hval,
        readDigits_cons]
      exact ih (ofs + 1) (d + acc * 8) (fun d' hd' => hds d' (List.mem_cons_of_mem d hd'))
        (by omega) hmax

/-- `parse_octal_field` of a `%0wo` conversion and its terminator. -/
theorem parseOctalField_formatOctal {w v : Nat} (hw : 1 ≤ w) (hv : v < 8 ^ w)
    (hmax : v ≤ ULONG_MAX) (rest : List UInt8) :
    parseOctalField (formatOctal w v ++ 0 :: rest) = some v := by
  have hlen := length_numeral 8 (by decide) hw hv
  have h := parseOctalLoop_digits (numeral 8 w v) rest 0 0
    (fun d hd => lt_of_mem_numeral 8 (by decide) hd) (by omega)
    (by rwa [readDigits_numeral])
  rwa [readDigits_numeral] at h

/-! ## The blocks of the header -/

/-- `snprintf` of an output that fills the room exactly. -/
theorem snprintf_of_length (dst size : Nat) (out : List UInt8) (h : out.length + 1 = size) :
    snprintf dst size out = [(dst, out ++ [0])] := by
  simp [snprintf, ← h]

/-- The blocks of the name: the string and its terminator. -/
def nameBlocks (s : List UInt8) : List (Nat × List UInt8) :=
  [(0, s), (s.length, [0])]

/-- The blocks of every other field, the checksum `c` last, for a file of `size` bytes. -/
def fieldBlocks (type : UstarType) (size c : Nat) : List (Nat × List UInt8) :=
  [(100, formatOctal 7 type.mode ++ [0]),
    (108, zeros7), (115, [0]), (116, zeros7), (123, [0]),
    (124, formatOctal 11 size ++ [0]),
    (136, formatOctal 11 MTIME ++ [0]),
    (156, [type.byte]),
    (257, ustarMagic), (262, [0]),
    (264, [48]), (263, [48]),
    (297, root), (301, [0]),
    (265, root), (269, [0]),
    (148, formatOctal 7 c ++ [0])]

/-- The writes of `ustar_make_header`, checksum included, are the name's and the other
fields' blocks. -/
theorem headerWrites_eq {s : List UInt8} (type : UstarType) {size : Int32} (c : Nat)
    (hs0 : (0 : UInt8) ∉ s) (hs : s.length ≤ 99) (hsize : size.toUInt32.toNat < 8 ^ 11)
    (hc : c < 8 ^ 7) :
    headerWrites s type size ++ snprintf Field.chksum.ofs Field.chksum.len (formatOctal 7 c) =
      nameBlocks s ++ fieldBlocks type size.toUInt32.toNat c := by
  have hmode : (formatOctal 7 type.mode).length = 7 :=
    length_formatOctal (by decide) (by cases type <;> decide)
  rw [headerWrites,
    strlcpy_append_zero Field.name.ofs s Field.name.len hs0 (by simp [Field.name]; omega),
    snprintf_of_length Field.mode.ofs Field.mode.len _ (by rw [hmode]; rfl),
    strlcpy_append_zero Field.uid.ofs zeros7 Field.uid.len (by decide) (by decide),
    strlcpy_append_zero Field.gid.ofs zeros7 Field.gid.len (by decide) (by decide),
    snprintf_of_length Field.size.ofs Field.size.len (formatOctal 11 size.toUInt32.toNat)
      (by rw [length_formatOctal (by decide) hsize]; rfl),
    snprintf_of_length Field.mtime.ofs Field.size.len (formatOctal 11 MTIME)
      (by rw [length_formatOctal (by decide) (by decide)]; rfl),
    strlcpy_append_zero Field.magic.ofs ustarMagic Field.magic.len (by decide) (by decide),
    strlcpy_append_zero Field.gname.ofs root Field.gname.len (by decide) (by decide),
    strlcpy_append_zero Field.uname.ofs root Field.uname.len (by decide) (by decide),
    snprintf_of_length Field.chksum.ofs Field.chksum.len (formatOctal 7 c)
      (by rw [length_formatOctal (by decide) hc]; rfl)]
  simp only [nameBlocks, fieldBlocks, Field.name, Field.mode, Field.uid, Field.gid, Field.size,
    Field.mtime, Field.typeflag, Field.magic, Field.version, Field.uname, Field.gname,
    Field.chksum, Nat.zero_add, List.cons_append, List.nil_append]
  rfl

/-- Where the blocks of `fieldBlocks` start and how long they are. -/
def fieldSpans : List (Nat × Nat) :=
  [(100, 8), (108, 7), (115, 1), (116, 7), (123, 1), (124, 12), (136, 12), (156, 1),
    (257, 5), (262, 1), (264, 1), (263, 1), (297, 4), (301, 1), (265, 4), (269, 1), (148, 8)]

theorem fieldBlocks_spans (type : UstarType) {size c : Nat} (hsize : size < 8 ^ 11)
    (hc : c < 8 ^ 7) :
    (fieldBlocks type size c).map (fun w => (w.1, w.2.length)) = fieldSpans := by
  have hmode : (formatOctal 7 type.mode).length = 7 :=
    length_formatOctal (by decide) (by cases type <;> decide)
  simp only [fieldBlocks, List.map_cons, List.map_nil, List.length_append, hmode,
    length_formatOctal (by decide) hsize, length_formatOctal (by decide) hc,
    length_formatOctal (by decide) (show MTIME < 8 ^ 11 by decide)]
  rfl

/-- Every block but the name's lies in offsets `100 .. 301`. -/
theorem fieldBlocks_between (type : UstarType) {size c : Nat} (hsize : size < 8 ^ 11)
    (hc : c < 8 ^ 7) {w : Nat × List UInt8} (hw : w ∈ fieldBlocks type size c) :
    100 ≤ w.1 ∧ w.1 + w.2.length ≤ 302 := by
  have hspan : (w.1, w.2.length) ∈ fieldSpans := by
    rw [← fieldBlocks_spans type hsize hc]
    exact List.mem_map_of_mem hw
  have hall : ∀ p ∈ fieldSpans, 100 ≤ p.1 ∧ p.1 + p.2 ≤ 302 := by decide
  exact hall _ hspan

theorem nameBlocks_below {s : List UInt8} (hs : s.length ≤ 99) {w : Nat × List UInt8}
    (hw : w ∈ nameBlocks s) : w.1 + w.2.length ≤ 100 := by
  simp only [nameBlocks, List.mem_cons, List.not_mem_nil, or_false] at hw
  rcases hw with rfl | rfl <;> simp <;> omega

/-- No two blocks of the header overlap. -/
theorem headerBlocks_apart {s : List UInt8} (type : UstarType) {size c : Nat}
    (hs : s.length ≤ 99) (hsize : size < 8 ^ 11) (hc : c < 8 ^ 7) :
    (nameBlocks s ++ fieldBlocks type size c).Pairwise Apart := by
  rw [List.pairwise_append]
  refine ⟨?_, ?_, ?_⟩
  · -- the name and its terminator
    simp [nameBlocks, Apart]
  · rw [pairwise_apart_iff, fieldBlocks_spans type hsize hc]
    decide
  · -- the name lies below every other field
    intro w hw w' hw'
    have h1 := nameBlocks_below hs hw
    have h2 := (fieldBlocks_between type hsize hc hw').1
    exact Or.inl (by omega)

/-! ## Reading the header back -/

/-- The header `ustar_make_header` writes, with checksum `c`, as a memory. -/
def header (s : List UInt8) (type : UstarType) (size c : Nat) : Memory :=
  applyWrites (fun _ => 0) (nameBlocks s ++ fieldBlocks type size c)

section Reading

variable {s : List UInt8} (type : UstarType) {size c : Nat}

/-- A block of the header reads back. -/
theorem readBytes_header (hs : s.length ≤ 99) (hsize : size < 8 ^ 11) (hc : c < 8 ^ 7)
    {a : Nat} {bs : List UInt8} (hw : (a, bs) ∈ fieldBlocks type size c) :
    readBytes (header s type size c) a bs.length = bs :=
  readBytes_applyWrites_of_mem _ (headerBlocks_apart type hs hsize hc)
    (List.mem_append_right _ hw)

/-- The name field holds the name and then zeros. -/
theorem header_name (hsize : size < 8 ^ 11) (hc : c < 8 ^ 7) {j : Nat} (hj : j < 100) : header s type size c j = s.getD j 0 := by
  have hbelow : header s type size c j = applyWrites (fun _ => 0) (nameBlocks s) j := by
    rw [header, applyWrites_append]
    apply applyWrites_of_not_mem
    intro w hw hin
    have := (fieldBlocks_between type hsize hc hw).1
    exact absurd hin.1 (by omega)
  rw [hbelow]
  by_cases hjs : j ≤ s.length
  · -- inside the string or its terminator: `strlcpy` wrote it
    have h := applyWrites_string (fun _ => 0) [] 0 s j hjs
    rwa [List.nil_append, Nat.zero_add, Nat.zero_add] at h
  · -- after the terminator: `memset` left it
    rw [applyWrites_of_not_mem _ _ _ fun w hw hin => by
      simp only [nameBlocks, List.mem_cons, List.not_mem_nil, or_false] at hw
      rcases hw with rfl | rfl <;> simp [InWrite] at hin <;> omega]
    rw [List.getD_eq_default _ _ (by omega)]

theorem header_nameAt99 (hs : s.length ≤ 99) (hsize : size < 8 ^ 11) (hc : c < 8 ^ 7) :
    header s type size c (Field.name.ofs + Field.name.len - 1) = 0 := by
  rw [show Field.name.ofs + Field.name.len - 1 = 99 from rfl,
    header_name type hsize hc (by decide), List.getD_eq_default _ _ (by omega)]

/-- The name `ustar_parse_header` finds is the name. -/
theorem cstr_header_name (hs0 : (0 : UInt8) ∉ s) (hs : s.length ≤ 99) (hsize : size < 8 ^ 11)
    (hc : c < 8 ^ 7) : cstr (Field.name.read (header s type size c)) 0 = s := by
  have hbyte : ∀ j ≤ s.length, byteAt (Field.name.read (header s type size c)) (0 + j) =
      s.getD j 0 := by
    intro j hj
    have hj' : j < (readBytes (header s type size c) Field.name.ofs Field.name.len).length := by
      simp [Field.name]; omega
    rw [Nat.zero_add, byteAt, Field.read, List.getD_eq_getElem _ _ hj', getElem_readBytes,
      show Field.name.ofs = 0 from rfl, Nat.zero_add, header_name type hsize hc (by omega)]
  apply cstr_eq_of_bytes _ 0 s (fun j hj => hbyte j hj.le) hs0
  rw [hbyte s.length le_rfl, List.getD_eq_default _ _ le_rfl]

/-- `h->prefix[0]`: no block reaches it. -/
theorem header_prefix (hs : s.length ≤ 99) (hsize : size < 8 ^ 11) (hc : c < 8 ^ 7) :
    header s type size c Field.namePrefix.ofs = 0 := by
  apply applyWrites_of_not_mem
  intro w hw hin
  simp only [InWrite, Field.namePrefix] at hin
  rcases List.mem_append.mp hw with hw | hw
  · have := nameBlocks_below hs hw
    omega
  · have := fieldBlocks_between type hsize hc hw
    omega

/-- A one-byte block of the header reads back. -/
theorem header_byte (hs : s.length ≤ 99) (hsize : size < 8 ^ 11) (hc : c < 8 ^ 7) {a : Nat}
    {b : UInt8} (hw : (a, [b]) ∈ fieldBlocks type size c) : header s type size c a = b :=
  List.singleton_inj.mp (readBytes_header type hs hsize hc hw)

/-- A field of one block followed by the terminator reads back with it. -/
theorem readBytes_header_terminated (hs : s.length ≤ 99) (hsize : size < 8 ^ 11)
    (hc : c < 8 ^ 7) {a : Nat} {bs : List UInt8} (hw : (a, bs ++ [0]) ∈ fieldBlocks type size c) :
    readBytes (header s type size c) a (bs.length + 1) = bs ++ [0] := by
  have h := readBytes_header type hs hsize hc hw
  rwa [List.length_append, List.length_singleton] at h

theorem header_magic (hs : s.length ≤ 99) (hsize : size < 8 ^ 11) (hc : c < 8 ^ 7) :
    Field.magic.read (header s type size c) = ustarMagic ++ [0] := by
  have hstr := readBytes_header type hs hsize hc
    (show (257, ustarMagic) ∈ fieldBlocks type size c by simp [fieldBlocks])
  have hnul := readBytes_header type hs hsize hc
    (show (262, [(0 : UInt8)]) ∈ fieldBlocks type size c by simp [fieldBlocks])
  -- `strlcpy` wrote the magic in two blocks, the string and its terminator
  calc Field.magic.read (header s type size c)
      = readBytes (header s type size c) 257 ustarMagic.length ++
          readBytes (header s type size c) 262 [(0 : UInt8)].length :=
        readBytes_add _ 257 ustarMagic.length 1
    _ = ustarMagic ++ [0] := by rw [hstr, hnul]

theorem header_chksum (hs : s.length ≤ 99) (hsize : size < 8 ^ 11) (hc : c < 8 ^ 7) :
    Field.chksum.read (header s type size c) = formatOctal 7 c ++ [0] := by
  have h := readBytes_header_terminated type hs hsize hc
    (show (148, formatOctal 7 c ++ [0]) ∈ fieldBlocks type size c by simp [fieldBlocks])
  rwa [length_formatOctal (by decide) hc] at h

theorem header_size (hs : s.length ≤ 99) (hsize : size < 8 ^ 11) (hc : c < 8 ^ 7) :
    Field.size.read (header s type size c) = formatOctal 11 size ++ [0] := by
  have h := readBytes_header_terminated type hs hsize hc
    (show (124, formatOctal 11 size ++ [0]) ∈ fieldBlocks type size c by simp [fieldBlocks])
  rwa [length_formatOctal (by decide) hsize] at h

end Reading

/-! ## The checksum -/

/-- Two headers that differ only in the checksum field have the same checksum. -/
theorem calculateChksum_congr {m m' : Memory}
    (h : ∀ i, ¬ (Field.chksum.ofs ≤ i ∧ i < Field.chksum.ofs + Field.chksum.len) → m i = m' i) :
    calculateChksum m = calculateChksum m' := by
  unfold calculateChksum
  apply congrArg List.sum
  apply List.map_congr_left
  intro i _
  split
  · rfl
  · rw [h i ‹_›]

/-- 512 bytes add up to at most `512 * 255`, which has 7 octal digits. -/
theorem calculateChksum_lt (m : Memory) : calculateChksum m < 8 ^ 7 := by
  have hle : calculateChksum m ≤ USTAR_HEADER_SIZE * 255 := by
    have h := List.sum_le_card_nsmul ((List.range USTAR_HEADER_SIZE).map fun i =>
      if Field.chksum.ofs ≤ i ∧ i < Field.chksum.ofs + Field.chksum.len then 32 else (m i).toNat)
      255 (by
        intro x hx
        obtain ⟨i, -, rfl⟩ := List.mem_map.mp hx
        split
        · decide
        · exact Nat.le_of_lt_succ (UInt8.toNat_lt (m i)))
    unfold calculateChksum
    simpa using h
  exact lt_of_le_of_lt hle (by decide)

/-- Filling in the checksum field leaves the checksum as it was. -/
theorem calculateChksum_snprintf (m : Memory) {v : Nat} (hv : v < 8 ^ 7) :
    calculateChksum (applyWrites m (snprintf Field.chksum.ofs Field.chksum.len (formatOctal 7 v))) =
      calculateChksum m := by
  apply calculateChksum_congr
  intro i hi
  rw [snprintf_of_length _ _ _ (by rw [length_formatOctal (by decide) hv]; rfl)]
  apply applyWrites_of_not_mem
  intro w hw hin
  simp only [List.mem_singleton] at hw
  subst hw
  simp only [InWrite, List.length_append, length_formatOctal (by decide) hv,
    List.length_singleton] at hin
  exact hi hin

/-! ## The round trip -/

/-- `ustar_make_header` of a name that fits writes `header`, with the checksum of what it
wrote before the checksum. -/
theorem ustarMakeHeader_eq (fileName : List UInt8) (type : UstarType) (size : Int32)
    (hname : (0 : UInt8) ∉ fileName) (hs : (stripAntisocialPrefixes fileName).length ≤ 99) :
    ustarMakeHeader fileName type size =
      some (header (stripAntisocialPrefixes fileName) type size.toUInt32.toNat
        (calculateChksum (applyWrites (fun _ => 0)
          (headerWrites (stripAntisocialPrefixes fileName) type size)))) := by
  have hsize : size.toUInt32.toNat < 8 ^ 11 :=
    lt_trans (UInt32.toNat_lt size.toUInt32) (by decide)
  rw [ustarMakeHeader]
  dsimp only
  rw [if_neg (by omega), header, ← headerWrites_eq type _
    (zero_not_mem_stripAntisocialPrefixes hname) hs hsize (calculateChksum_lt _),
    applyWrites_append]

/-- `ustar_parse_header` of `header` with its own checksum gives the name stripped, the
type and, for a regular file, the size. -/
theorem ustarParseHeader_header {s : List UInt8} (type : UstarType) {size c : Nat}
    (hs0 : (0 : UInt8) ∉ s) (hs : s.length ≤ 99) (hsize : size ≤ INT_MAX) (hc : c < 8 ^ 7)
    (hchk : calculateChksum (header s type size c) = c) :
    ustarParseHeader (header s type size c) =
      .ok (.member (stripAntisocialPrefixes s) type
        (Int32.ofNat (if type = .regular then size else 0))) := by
  have hsize' : size < 8 ^ 11 := lt_of_le_of_lt hsize (by decide)
  have hzeros : isAllZeros (header s type size c) USTAR_HEADER_SIZE = false := by
    rw [isAllZeros, List.all_eq_false]
    refine ⟨263, by simp [USTAR_HEADER_SIZE], ?_⟩
    rw [header_byte type hs hsize' hc (show (263, [(48 : UInt8)]) ∈ fieldBlocks type size c by
      simp [fieldBlocks])]
    decide
  have hv0 : header s type size c Field.version.ofs = 48 :=
    header_byte type hs hsize' hc (by simp [fieldBlocks, Field.version])
  have hv1 : header s type size c (Field.version.ofs + 1) = 48 :=
    header_byte type hs hsize' hc (by simp [fieldBlocks, Field.version])
  have hchkField : parseOctalField (Field.chksum.read (header s type size c)) = some c := by
    rw [header_chksum type hs hsize' hc]
    exact parseOctalField_formatOctal (by decide) hc (by unfold ULONG_MAX; omega) []
  have htype : header s type size c Field.typeflag.ofs = type.byte :=
    header_byte type hs hsize' hc (by simp [fieldBlocks, Field.typeflag])
  simp only [ustarParseHeader, hzeros, header_magic type hs hsize' hc, hv0, hv1, hchkField,
    hchk, header_nameAt99 type hs hsize' hc, header_prefix type hs hsize' hc, htype,
    cstr_header_name type hs0 hs hsize' hc, Bool.false_eq_true, if_false, ne_eq,
    not_true_eq_false, or_self]
  cases type with
  | regular =>
      -- the size field: `%011o` of the size
      have hsizeField : parseOctalField (Field.size.read (header s .regular size c)) = some size := by
        rw [header_size .regular hs hsize' hc]
        exact parseOctalField_formatOctal (by decide) hsize' (by unfold ULONG_MAX INT_MAX at *; omega) []
      simp [UstarType.byte, hsizeField, Nat.not_lt.mpr hsize]
      rfl
  | directory =>
      simp [UstarType.byte]
      rfl

/-- A size in `0 .. INT_MAX`, passed to `%o` as `unsigned`, is its own value. -/
theorem toNat_toUInt32_of_nonneg {size : Int32} (h : 0 ≤ size.toInt) :
    size.toUInt32.toNat ≤ INT_MAX ∧ Int32.ofNat size.toUInt32.toNat = size := by
  have h0 : (0 : Int32) ≤ size := by
    rw [Int32.le_iff_toInt_le]
    simpa using h
  have hlt := Int32.toInt_lt size
  rw [Int32.toNat_toUInt32_of_le h0, Int32.ofNat_toNatClampNeg size h0, ← Int32.toNat_toInt]
  refine ⟨?_, rfl⟩
  unfold INT_MAX
  omega

/-- A name that fits and a size in `0 .. INT_MAX` make a header that parses back as the name
stripped, the type and, for a regular file, the size. -/
theorem ustarParseHeader_ustarMakeHeader (fileName : List UInt8) (type : UstarType) (size : Int32)
    (hname : (0 : UInt8) ∉ fileName) (hs : (stripAntisocialPrefixes fileName).length ≤ 99)
    (hsize : 0 ≤ size.toInt) :
    ∃ h, ustarMakeHeader fileName type size = some h ∧
      ustarParseHeader h = .ok (.member (stripAntisocialPrefixes fileName) type
        (if type = .regular then size else 0)) := by
  obtain ⟨hmax, hofNat⟩ := toNat_toUInt32_of_nonneg hsize
  have hs0 := zero_not_mem_stripAntisocialPrefixes hname
  refine ⟨_, ustarMakeHeader_eq fileName type size hname hs, ?_⟩
  have hc := calculateChksum_lt (applyWrites (fun _ => 0)
    (headerWrites (stripAntisocialPrefixes fileName) type size))
  -- the header's checksum is the one computed before the checksum field was filled in
  have hchk : calculateChksum (header (stripAntisocialPrefixes fileName) type
      size.toUInt32.toNat (calculateChksum (applyWrites (fun _ => 0)
        (headerWrites (stripAntisocialPrefixes fileName) type size)))) =
      calculateChksum (applyWrites (fun _ => 0)
        (headerWrites (stripAntisocialPrefixes fileName) type size)) := by
    rw [header, ← headerWrites_eq type _ hs0 hs
      (lt_of_le_of_lt hmax (by decide)) hc, applyWrites_append, calculateChksum_snprintf _ hc]
  rw [ustarParseHeader_header type hs0 hs hmax hc hchk, stripAntisocialPrefixes_idem]
  cases type <;> simp [hofNat]

theorem ustar_header_round_trip (fileName : List UInt8) (type : UstarType) (size : Int32)
    (hname : (0 : UInt8) ∉ fileName) :
    (ustarMakeHeader fileName type size = none ↔
        99 < (stripAntisocialPrefixes fileName).length) ∧
      ((stripAntisocialPrefixes fileName).length ≤ 99 → 0 ≤ size.toInt →
        ∃ h, ustarMakeHeader fileName type size = some h ∧
          ustarParseHeader h = .ok (.member (stripAntisocialPrefixes fileName) type
            (if type = .regular then size else 0))) := by
  refine ⟨?_, ustarParseHeader_ustarMakeHeader fileName type size hname⟩
  -- the only failure is the length test
  rw [ustarMakeHeader]
  dsimp only
  split
  · simpa using ‹_›
  · simp only [reduceCtorEq, false_iff]
    omega

/-- `/a` is stored as `a` and read back as `a`. -/
theorem ustar_header_round_trip_slash_a :
    (0 : UInt8) ∉ [47, 97] ∧
      ((ustarMakeHeader [47, 97] .regular 5 = none ↔
          99 < (stripAntisocialPrefixes [47, 97]).length) ∧
        ((stripAntisocialPrefixes [47, 97]).length ≤ 99 → 0 ≤ (5 : Int32).toInt →
          ∃ h, ustarMakeHeader [47, 97] .regular 5 = some h ∧
            ustarParseHeader h = .ok (.member (stripAntisocialPrefixes [47, 97]) .regular
              (if UstarType.regular = .regular then 5 else 0)))) :=
  ⟨by decide, ustar_header_round_trip [47, 97] .regular 5 (by decide)⟩

end Pintos.Ustar
