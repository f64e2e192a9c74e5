import Mathlib.Algebra.Order.BigOperators.Group.List
import Mathlib.Data.List.GetD
import Mathlib.Data.List.TakeWhile
import Pintos.Lib.Stdio

/-!
# `lib/ustar.c`: ustar archive headers

`ustar_make_header` fills a 512-byte `struct ustar_header` (a packed struct: its fields are the
consecutive byte ranges of `layout`) for a file name stripped by `strip_antisocial_prefixes`,
writing the octal fields with `snprintf` and the checksum last; `ustar_parse_header` validates
such a block (magic, version, checksum, name termination, type, size) and returns the stripped
name, the type and the size, or an error message.

Bytes are natural numbers, a header is the list of its bytes, and a C string is the list of
its bytes before the terminator.

* `readField_flatMap`: a header laid out field by field reads back field by field.
* `snprintfField_octal`, `parseOctalField_octalRender`: `parse_octal_field` reads back what
  `snprintf` writes with `%07o` and `%011o` (through the `printf` model of `lib/stdio.c`).
* `stripAntisocialPrefixes_spec`, `stripAntisocialPrefixes_idem`: the stripped name does not
  start with `/`, `./` or `../`, is not `..`, and stripping it again changes nothing.
* `calculateChksum_lt`, `calculateChksum_makeFields`: the checksum fits in its field and does not
  depend on it.
* `ustar_header_round_trip`: `ustar_make_header` fails exactly on stripped names of more than
  99 bytes, and otherwise `ustar_parse_header` gives back the stripped name, the type and (for a
  regular file) the size.
* `ustarParseHeader_not_antisocial`: the names the parser returns are stripped, but only at
  their start: a name such as `a/../../x` is accepted as it is and climbs above the extraction
  directory (`parse_accepts_climbing_name`).
-/

set_option autoImplicit false

namespace Pintos.Ustar

open Pintos.Stdio

/-! ## The header layout -/

/-- `USTAR_HEADER_SIZE`. -/
def USTAR_HEADER_SIZE : Nat := 512

/-- `INT_MAX`. -/
def INT_MAX : Nat := 2 ^ 31 - 1

/-- `ULONG_MAX` (32-bit `unsigned long`). -/
def ULONG_MAX : Nat := 2 ^ 32 - 1

/-- The fields of `struct ustar_header`, in order. -/
inductive Field
  | name | mode | uid | gid | size | mtime | chksum | typeflag | linkname | magic | version
  | uname | gname | devmajor | devminor | namePrefix | padding
  deriving DecidableEq, Repr

/-- The size of each field. -/
def Field.length : Field → Nat
  | .name => 100
  | .mode => 8
  | .uid => 8
  | .gid => 8
  | .size => 12
  | .mtime => 12
  | .chksum => 8
  | .typeflag => 1
  | .linkname => 100
  | .magic => 6
  | .version => 2
  | .uname => 32
  | .gname => 32
  | .devmajor => 8
  | .devminor => 8
  | .namePrefix => 155
  | .padding => 12

/-- The fields in the order `struct ustar_header` lays them out. -/
def layout : List Field :=
  [.name, .mode, .uid, .gid, .size, .mtime, .chksum, .typeflag, .linkname, .magic, .version,
    .uname, .gname, .devmajor, .devminor, .namePrefix, .padding]

/-- `offsetof (struct ustar_header, f)`: the sizes of the fields before `f`. -/
def Field.offset (f : Field) : Nat := ((layout.takeWhile (· ≠ f)).map Field.length).sum

example : Field.offset .chksum = 148 ∧ Field.offset .magic = 257 ∧
    (layout.map Field.length).sum = USTAR_HEADER_SIZE := by decide

/-- `h->f`: the bytes of field `f` of the header `h`. -/
def readField (h : List Nat) (f : Field) : List Nat := (h.drop f.offset).take f.length

/-! ## The C library calls -/

/-- The bytes of a field of `n` bytes, zeroed by `memset`, after `bytes` are written at its
start. -/
def fieldOf (n : Nat) (bytes : List Nat) : List Nat :=
  bytes.take n ++ List.replicate (n - bytes.length) 0

/-- `strlcpy (dst, src, n)` into a zeroed field of `n` bytes. -/
def strlcpyField (n : Nat) (src : List Nat) : List Nat := fieldOf n (src.take (n - 1) ++ [0])

/-- `snprintf (dst, n, format, args)` into a zeroed field of `n` bytes. -/
def snprintfField (n : Nat) (format : List Char) (args : List PrintfArg) : Option (List Nat) :=
  (vsnprintf n format args).map fun (buf, _) => fieldOf n (buf.map Char.toNat)

/-- The bytes of a string literal. -/
def bytesOf (s : String) : List Nat := s.toList.map Char.toNat

/-- A C string: the bytes before the first null byte. -/
def cString (s : List Nat) : List Nat := s.takeWhile (· ≠ 0)

/-! ## `strip_antisocial_prefixes` -/

/-- The loop test of `strip_antisocial_prefixes`: the name starts with `/`, `./` or `../`. -/
def antisocial (fileName : List Nat) : Prop :=
  fileName.head? = some 47 ∨ fileName.take 2 = [46, 47] ∨ fileName.take 3 = [46, 46, 47]

instance (fileName : List Nat) : Decidable (antisocial fileName) :=
  inferInstanceAs (Decidable (_ ∨ _ ∨ _))

theorem length_tail_dropWhile_lt {fileName : List Nat} (h : antisocial fileName) :
    ((fileName.dropWhile (· ≠ 47)).tail).length < fileName.length := by
  have hne : fileName ≠ [] := by
    rintro rfl
    simp [antisocial] at h
  have hle := List.length_dropWhile_le (fun c => decide (c ≠ 47)) fileName
  have hpos : 0 < fileName.length := List.length_pos_of_ne_nil hne
  rw [List.length_tail]
  omega

/-- `strip_antisocial_prefixes (file_name)`: drop leading `/`, `./` and `../` (each time up to
the first `/`), and give `.` for an empty name or `..`.  Each pass drops at least one byte, so
the loop ends on every input. -/
def stripAntisocialPrefixes (fileName : List Nat) : List Nat :=
  if antisocial fileName then
    stripAntisocialPrefixes (fileName.dropWhile (· ≠ 47)).tail
  else if fileName = [] ∨ fileName = [46, 46] then [46] else fileName
termination_by fileName.length
decreasing_by exact length_tail_dropWhile_lt ‹_›

/-! ## `ustar_make_header` -/

/-- `enum ustar_type`. -/
inductive UstarType
  | regular | directory | eof
  deriving DecidableEq, Repr

/-- The `typeflag` byte of a type: `'0'` and `'5'`. -/
def UstarType.flag : UstarType → Nat
  | .regular => 48
  | .directory => 53
  | .eof => 255

/-- `calculate_chksum (h)`: the sum of the header's bytes, with the `chksum` field counted as
spaces. -/
def calculateChksum (header : List Nat) : Nat :=
  ((List.range USTAR_HEADER_SIZE).map fun i =>
    if Field.offset .chksum ≤ i ∧ i < Field.offset .chksum + Field.length .chksum then 32
    else header.getD i 0).sum

/-- The fields `ustar_make_header` writes, with the `snprintf` outputs `mode`, `size`, `mtime`
and `chksum`. -/
def makeFields (fileName : List Nat) (type : UstarType) (mode size mtime chksum : List Nat) :
    Field → List Nat
  | .name => strlcpyField 100 fileName
  | .mode => mode
  | .uid => strlcpyField 8 (bytesOf "0000000")
  | .gid => strlcpyField 8 (bytesOf "0000000")
  | .size => size
  | .mtime => mtime
  | .chksum => chksum
  | .typeflag => [type.flag]
  | .magic => strlcpyField 6 (bytesOf "ustar")
  | .version => [48, 48]
  | .uname => strlcpyField 32 (bytesOf "root")
  | .gname => strlcpyField 32 (bytesOf "root")
  | f => List.replicate f.length 0

/-- `ustar_make_header (file_name, type, size, header)`: the header, or `none` when the
stripped name is longer than 99 bytes (`false`, after a message) or `type` is neither
`USTAR_REGULAR` nor `USTAR_DIRECTORY` (the `ASSERT`). -/
def ustarMakeHeader (fileName : List Nat) (type : UstarType) (size : Int) : Option (List Nat) :=
  if type = .eof then none else
  let fileName := stripAntisocialPrefixes fileName
  if 99 < fileName.length then none
  else do
    let mode ← snprintfField 8 "%07o".toList [.int (if type = .regular then 0o644 else 0o755)]
    let sizeField ← snprintfField 12 "%011o".toList [.int size]
    let mtime ← snprintfField 12 "%011o".toList [.int 1136102400]
    let h := layout.flatMap (makeFields fileName type mode sizeField mtime
      (List.replicate 8 0))
    let chksum ← snprintfField 8 "%07o".toList [.int (calculateChksum h)]
    pure (layout.flatMap (makeFields fileName type mode sizeField mtime chksum))

section
-- the equation lemmas, generated once here rather than by each proof below that unfolds
-- these definitions
attribute [local simp] makeFields
end

/-! ## `ustar_parse_header` -/

/-- The loop of `parse_octal_field` from offset `ofs` with the value read so far: octal digits
until a space or null byte, failing on overflow of `unsigned long`, on another byte, on an
empty field, and when the field ends first. -/
def parseOctalLoop : List Nat → Nat → Nat → Option Nat
  | [], _, _ => none
  | c :: s, ofs, value =>
    if 48 ≤ c ∧ c ≤ 55 then
      if ULONG_MAX / 8 < value then none else parseOctalLoop s (ofs + 1) (c - 48 + value * 8)
    else if c = 32 ∨ c = 0 then (if 0 < ofs then some value else none)
    else none

/-- `parse_octal_field (s, size, value)` on the `size` bytes `s`. -/
def parseOctalField (s : List Nat) : Option Nat := parseOctalLoop s 0 0

/-- `is_all_zeros (block, cnt)`. -/
def isAllZeros (block : List Nat) : Bool := block.all (· = 0)

/-- The validation of `ustar_parse_header`: the type and size of a valid header, or the error
message of the first check that fails. -/
def checkHeader (header : List Nat) : Except String (UstarType × Nat) :=
  if readField header .magic ≠ bytesOf "ustar" ++ [0] then .error "not a ustar archive"
  else if readField header .version ≠ [48, 48] then .error "invalid ustar version"
  else match parseOctalField (readField header .chksum) with
  | none => .error "corrupt chksum field"
  | some chksum =>
    if chksum ≠ calculateChksum header then .error "checksum mismatch"
    else if (readField header .name).getD 99 0 ≠ 0 ∨ (readField header .namePrefix).getD 0 0 ≠ 0
    then .error "file name too long"
    else
      let typeflag := (readField header .typeflag).getD 0 0
      if typeflag ≠ UstarType.regular.flag ∧ typeflag ≠ UstarType.directory.flag then
        .error "unimplemented file type"
      else if typeflag = UstarType.regular.flag then
        match parseOctalField (readField header .size) with
        | none => .error "corrupt file size field"
        | some size => if INT_MAX < size then .error "file too large" else .ok (.regular, size)
      else .ok (.directory, 0)

/-- `ustar_parse_header (header, file_name, type, size)`: the file name (none at the end of
the archive), the type and the size, or the error message. -/
def ustarParseHeader (header : List Nat) : Except String (Option (List Nat) × UstarType × Nat) :=
  if isAllZeros (header.take USTAR_HEADER_SIZE) then .ok (none, .eof, 0)
  else (checkHeader header).map fun (type, size) =>
    (some (stripAntisocialPrefixes (cString (readField header .name))), type, size)

/-! ## Reading the fields back -/

/-- In the concatenation of the blocks `g a` of the items of `L`, the block of `a` starts after
the blocks of the items before its first occurrence. -/
theorem take_drop_flatMap {α β : Type} [DecidableEq α] (L : List α) (g : α → List β)
    (len : α → Nat) (hg : ∀ a ∈ L, (g a).length = len a) {a : α} (ha : a ∈ L) :
    ((L.flatMap g).drop ((L.takeWhile (· ≠ a)).map len).sum).take (len a) = g a := by
  induction L with
  | nil => simp at ha
  | cons b L ih =>
    by_cases hb : b = a
    · subst hb
      simp [← hg b (by simp)]
    · have ha' : a ∈ L := by simpa [Ne.symm hb] using ha
      rw [List.flatMap_cons, List.takeWhile_cons_of_pos (by simpa using hb), List.map_cons,
        List.sum_cons, ← hg b (by simp), List.drop_append, List.drop_eq_nil_of_le (by omega),
        List.nil_append, Nat.add_sub_cancel_left]
      exact ih (fun c hc => hg c (by simp [hc])) ha'

theorem mem_layout (f : Field) : f ∈ layout := by cases f <;> decide

/-- The field `f` of a header laid out from the blocks `g` is `g f`. -/
theorem readField_flatMap {g : Field → List Nat} (hg : ∀ f, (g f).length = f.length)
    (f : Field) : readField (layout.flatMap g) f = g f :=
  take_drop_flatMap layout g Field.length (fun f _ => hg f) (mem_layout f)

theorem length_flatMap_layout {g : Field → List Nat} (hg : ∀ f, (g f).length = f.length) :
    (layout.flatMap g).length = USTAR_HEADER_SIZE := by
  simp only [List.length_flatMap, hg]
  decide

/-! ## Fields written by `memset`, `strlcpy` and `snprintf` -/

@[simp] theorem length_fieldOf (n : Nat) (bytes : List Nat) : (fieldOf n bytes).length = n := by
  simp [fieldOf]; omega

theorem fieldOf_of_length {n : Nat} {bytes : List Nat} (h : bytes.length = n) :
    fieldOf n bytes = bytes := by
  simp [fieldOf, h]

theorem strlcpyField_of_lt {n : Nat} {src : List Nat} (h : src.length < n) :
    strlcpyField n src = src ++ 0 :: List.replicate (n - 1 - src.length) 0 := by
  have hsrc : src.take (n - 1) = src := List.take_of_length_le (by omega)
  have hall : (src ++ [0]).take n = src ++ [0] := List.take_of_length_le (by simp; omega)
  rw [strlcpyField, fieldOf, hsrc, hall]
  simp [show n - (src.length + 1) = n - 1 - src.length by omega]
/-! ## Octal fields -/

/-- The value of octal digit bytes, most significant first, after the value `acc`. -/
def octalValue (ds : List Nat) (acc : Nat) : Nat := ds.foldl (fun v c => c - 48 + v * 8) acc

section
-- the equation lemmas, generated once here rather than by each proof below that unfolds
-- these definitions
attribute [local simp] octalValue
end

theorem le_octalValue (ds : List Nat) (acc : Nat) : acc ≤ octalValue ds acc := by
  induction ds generalizing acc with
  | nil => simp [octalValue]
  | cons c ds ih =>
    have h := ih (c - 48 + acc * 8)
    simp only [octalValue, List.foldl_cons] at h ⊢
    omega

/-- `parse_octal_field` reads octal digits up to a space or null byte; the overflow test never
fails while the value stays below `2^32`. -/
theorem parseOctalLoop_digits {ds : List Nat} (hd : ∀ c ∈ ds, 48 ≤ c ∧ c ≤ 55) {t : Nat}
    (ht : t = 0 ∨ t = 32) (rest : List Nat) {ofs value : Nat}
    (hv : octalValue ds value < 2 ^ 32) :
    parseOctalLoop (ds ++ t :: rest) ofs value =
      if 0 < ofs + ds.length then some (octalValue ds value) else none := by
  induction ds generalizing ofs value with
  | nil =>
    have ht' : ¬(48 ≤ t ∧ t ≤ 55) := by omega
    rw [List.nil_append, parseOctalLoop, if_neg ht', if_pos ht.symm]
    simp [octalValue]
  | cons c ds ih =>
    obtain ⟨hc1, hc2⟩ := hd c (by simp)
    -- the value before this digit is at most an eighth of the final one
    have hle := le_octalValue ds (c - 48 + value * 8)
    have hfinal : octalValue (c :: ds) value = octalValue ds (c - 48 + value * 8) := rfl
    have hov : ¬ULONG_MAX / 8 < value := by
      simp only [ULONG_MAX]; omega
    rw [List.cons_append, parseOctalLoop, if_pos ⟨hc1, hc2⟩, if_neg hov,
      ih (fun c hc => hd c (by simp [hc])) (by omega), hfinal]
    simp only [List.length_cons]
    rw [if_pos (by omega), if_pos (by omega)]

theorem baseO_digit {d : Nat} (hd : d < 8) : (baseO.digits.getD d '0').toNat = 48 + d := by
  have h : ∀ d < 8, (baseO.digits.getD d '0').toNat = 48 + d := by decide
  exact h d hd

/-- The octal digits `format_integer` writes are the bytes `'0'` to `'7'`. -/
theorem digitsOrZero_baseO_bytes (v : Nat) :
    ∀ c ∈ digitsOrZero baseO v, 48 ≤ c.toNat ∧ c.toNat ≤ 55 := by
  unfold digitsOrZero digitChars
  split
  · simp
  · intro c hc
    obtain ⟨d, hd, rfl⟩ := List.mem_map.mp hc
    have hd8 : d < 8 := Nat.digits_lt_base (by decide) hd
    rw [baseO_digit hd8]
    omega

theorem octalValue_append (ds es : List Nat) (acc : Nat) :
    octalValue (ds ++ es) acc = octalValue es (octalValue ds acc) := by
  simp [octalValue, List.foldl_append]

/-- Digits `L` (least significant first) written most significant first read back as their
value after `acc`. -/
theorem octalValue_reverse (L : List Nat) (acc : Nat) :
    octalValue ((L.map (48 + ·)).reverse) acc = acc * 8 ^ L.length + Nat.ofDigits 8 L := by
  induction L generalizing acc with
  | nil => simp [octalValue]
  | cons d L ih =>
    rw [List.map_cons, List.reverse_cons, octalValue_append, ih, Nat.ofDigits_cons]
    simp only [octalValue, List.foldl_cons, List.foldl_nil, List.length_cons, Nat.pow_succ]
    ring_nf
    omega

theorem octalValue_digitsOrZero (v : Nat) :
    octalValue ((digitsOrZero baseO v).reverse.map Char.toNat) 0 = v := by
  unfold digitsOrZero
  split
  · subst v; rfl
  · have hmap : (digitChars baseO v).reverse.map Char.toNat =
        ((Nat.digits 8 v).map (48 + ·)).reverse := by
      rw [List.map_reverse, digitChars, List.map_map]
      congr 1
      apply List.map_congr_left
      intro d hd
      exact baseO_digit (Nat.digits_lt_base (by decide) hd)
    rw [hmap, octalValue_reverse]
    simp [Nat.ofDigits_digits]

theorem octalValue_zeros (k : Nat) (ds : List Nat) :
    octalValue (List.replicate k 48 ++ ds) 0 = octalValue ds 0 := by
  induction k with
  | zero => rfl
  | succ k ih => simpa [octalValue, List.replicate_succ] using ih

theorem length_digitsOrZero_le {v w : Nat} (hv : v < 8 ^ w) (hw : 1 ≤ w) :
    (digitsOrZero baseO v).length ≤ w := by
  unfold digitsOrZero digitChars
  split
  · simpa using hw
  · rw [List.length_map]
    exact (Nat.digits_length_le_iff (by decide) v).2 hv

/-- The octal rendering `%0wo` of `v`: its digits, zeros in front up to `w`. -/
def octalRender (w v : Nat) : List Nat :=
  (List.replicate (w - (digitsOrZero baseO v).length) '0' ++ (digitsOrZero baseO v).reverse).map
    Char.toNat

/-- `__vprintf` on the two octal formats of `ustar_make_header`. -/
theorem vprintf_zero_octal (v : Int) :
    vprintf "%07o".toList [.int v] = some (formatInteger (unsignedValue .int v) false false baseO
      ⟨{ Flags.empty with zero := true }, 7, -1, .int⟩) ∧
    vprintf "%011o".toList [.int v] = some (formatInteger (unsignedValue .int v) false false baseO
      ⟨{ Flags.empty with zero := true }, 11, -1, .int⟩) := by
  -- the loop appends the conversion's output to the (empty) output of the rest of the format
  have h7 : vprintf "%07o".toList [.int v] = some (formatInteger (unsignedValue .int v) false
      false baseO ⟨{ Flags.empty with zero := true }, 7, -1, .int⟩ ++ []) := rfl
  have h11 : vprintf "%011o".toList [.int v] = some (formatInteger (unsignedValue .int v) false
      false baseO ⟨{ Flags.empty with zero := true }, 11, -1, .int⟩ ++ []) := rfl
  rw [h7, h11, List.append_nil, List.append_nil]
  exact ⟨rfl, rfl⟩

/-- `snprintf (field, w + 1, "%0wo", v)` for the two octal formats of `ustar_make_header`. -/
theorem snprintfField_octal {format : List Char} {w : Nat}
    (hfmt : format = "%07o".toList ∧ w = 7 ∨ format = "%011o".toList ∧ w = 11) {v : Int}
    (hv0 : 0 ≤ v) (hv : v < 8 ^ w) (hv32 : v < 2 ^ 32) :
    snprintfField (w + 1) format [.int v] = some (octalRender w v.toNat ++ [0]) := by
  have hu : unsignedValue .int v = v.toNat := by
    simp only [unsignedValue]; omega
  have hvprintf : vprintf format [.int v] = some (formatInteger v.toNat false false baseO
      ⟨{ Flags.empty with zero := true }, w, -1, .int⟩) := by
    rcases hfmt with ⟨rfl, rfl⟩ | ⟨rfl, rfl⟩
    · rw [(vprintf_zero_octal v).1, hu]; rfl
    · rw [(vprintf_zero_octal v).2, hu]; rfl
  have hw : 1 ≤ w := by omega
  have hlen := length_digitsOrZero_le (v := v.toNat) (w := w) (by
    rcases hfmt with ⟨-, rfl⟩ | ⟨-, rfl⟩ <;> omega) hw
  rw [snprintfField, vsnprintf_eq, hvprintf, Option.map_some, Option.map_some,
    formatInteger_zeroPad _ _ (by decide)]
  -- the rendering is exactly `w` characters, which the field holds with its terminator
  have hout : (List.replicate (((w : Int) - ((digitsOrZero baseO v.toNat).length : Int)).toNat) '0' ++
      (digitsOrZero baseO v.toNat).reverse) =
      List.replicate (w - (digitsOrZero baseO v.toNat).length) '0' ++
        (digitsOrZero baseO v.toNat).reverse := by
    congr 2; omega
  rw [hout]
  simp only [if_pos (show 0 < w + 1 by omega), Nat.add_sub_cancel]
  rw [List.take_of_length_le (by simp; omega), octalRender, fieldOf_of_length (by simp; omega)]
  simp

theorem octalRender_digits (w v : Nat) : ∀ c ∈ octalRender w v, 48 ≤ c ∧ c ≤ 55 := by
  intro c hc
  simp only [octalRender, List.map_append, List.mem_append, List.map_replicate, List.mem_map,
    List.mem_reverse] at hc
  rcases hc with hc | ⟨ch, hch, rfl⟩
  · rw [(List.mem_replicate.mp hc).2]; decide
  · exact digitsOrZero_baseO_bytes v ch hch

theorem length_octalRender {w v : Nat} (hv : v < 8 ^ w) (hw : 1 ≤ w) :
    (octalRender w v).length = w := by
  have := length_digitsOrZero_le hv hw
  simp [octalRender]; omega

/-- `parse_octal_field` reads back what `%0wo` wrote. -/
theorem parseOctalField_octalRender {w v : Nat} (hw : 1 ≤ w) (hv : v < 8 ^ w)
    (hv32 : v < 2 ^ 32) (rest : List Nat) :
    parseOctalField (octalRender w v ++ 0 :: rest) = some v := by
  have hval : octalValue (octalRender w v) 0 = v := by
    rw [octalRender, List.map_append, List.map_replicate, octalValue_append,
      show Char.toNat '0' = 48 from rfl]
    rw [show octalValue (List.replicate (w - (digitsOrZero baseO v).length) 48) 0 = 0 by
      rw [← List.append_nil (List.replicate _ 48), octalValue_zeros]; rfl,
      octalValue_digitsOrZero]
  rw [parseOctalField, parseOctalLoop_digits (octalRender_digits w v) (Or.inl rfl) rest
    (by rw [hval]; exact hv32), hval, length_octalRender hv hw, if_pos (by omega)]

/-! ## The stripped name -/

/-- What `strip_antisocial_prefixes` returns does not start with `/`, `./` or `../`, is not
empty or `..`, and is `.` or a suffix of its argument. -/
theorem stripAntisocialPrefixes_spec (fileName : List Nat) :
    ¬antisocial (stripAntisocialPrefixes fileName) ∧ stripAntisocialPrefixes fileName ≠ [] ∧
      stripAntisocialPrefixes fileName ≠ [46, 46] ∧
      (stripAntisocialPrefixes fileName = [46] ∨
        stripAntisocialPrefixes fileName <:+ fileName) := by
  fun_induction stripAntisocialPrefixes fileName with
  | case1 fileName h ih =>
    -- one pass of the loop: the rest is a suffix of the name
    obtain ⟨h1, h2, h3, h4⟩ := ih
    refine ⟨h1, h2, h3, h4.imp_right fun hs => hs.trans ?_⟩
    exact (List.tail_suffix _).trans (List.dropWhile_suffix _)
  | case2 fileName h h' => exact ⟨by decide, by simp, by simp, .inl rfl⟩
  | case3 fileName h h' =>
    simp only [not_or] at h'
    exact ⟨h, h'.1, h'.2, .inr (List.suffix_refl _)⟩

theorem stripAntisocialPrefixes_idem (fileName : List Nat) :
    stripAntisocialPrefixes (stripAntisocialPrefixes fileName) =
      stripAntisocialPrefixes fileName := by
  obtain ⟨h1, h2, h3, -⟩ := stripAntisocialPrefixes_spec fileName
  rw [stripAntisocialPrefixes, if_neg h1, if_neg (by simp [h2, h3])]

/-- The stripped name keeps the bytes of a C string. -/
theorem stripAntisocialPrefixes_bytes {fileName : List Nat}
    (h : ∀ c ∈ fileName, 0 < c ∧ c < 256) :
    ∀ c ∈ stripAntisocialPrefixes fileName, 0 < c ∧ c < 256 := by
  intro c hc
  rcases (stripAntisocialPrefixes_spec fileName).2.2.2 with he | hs
  · rw [he] at hc
    simp at hc; omega
  · exact h c (hs.subset hc)

/-- The name field `strlcpy` writes reads back as the name, and its last byte is null. -/
theorem strlcpyField_name {fileName : List Nat} (h : ∀ c ∈ fileName, 0 < c ∧ c < 256)
    (hlen : fileName.length ≤ 99) :
    cString (strlcpyField 100 fileName) = fileName ∧ (strlcpyField 100 fileName).getD 99 0 = 0 := by
  rw [strlcpyField_of_lt (by omega)]
  constructor
  · rw [cString, List.takeWhile_append_of_pos (fun c hc => by simpa using (h c hc).1.ne')]
    simp
  · -- byte 99 is the terminator or one of the zeros after it
    rw [List.getD_append_right _ _ _ _ hlen, ← List.replicate_succ, List.getD_eq_getElem?_getD,
      List.getElem?_getD_replicate_default_eq]

/-! ## The checksum -/

/-- The checksum of a header of bytes is below `8^7`, so `%07o` writes it in full. -/
theorem calculateChksum_lt {header : List Nat} (hb : ∀ b ∈ header, b < 256) :
    calculateChksum header < 2 ^ 21 := by
  -- each of the 512 terms is a byte or the 32 of a space
  have hterm : ∀ x ∈ (List.range USTAR_HEADER_SIZE).map fun i =>
      (if Field.offset .chksum ≤ i ∧ i < Field.offset .chksum + Field.length .chksum then 32
        else header.getD i 0), x ≤ 255 := by
    intro x hx
    obtain ⟨i, -, rfl⟩ := List.mem_map.mp hx
    split
    · omega
    · rw [List.getD_eq_getElem?_getD]
      cases hi : header[i]? with
      | none => simp
      | some b => have := hb b (List.mem_of_getElem? hi); simp; omega
  have hsum := List.sum_le_card_nsmul _ 255 hterm
  rw [List.length_map, List.length_range] at hsum
  change _ ≤ 512 * 255 at hsum
  unfold calculateChksum
  omega

/-- The checksum does not read the bytes of the `chksum` field. -/
theorem calculateChksum_append {A X Y B : List Nat} (hA : A.length = 148) (hX : X.length = 8)
    (hY : Y.length = 8) : calculateChksum (A ++ X ++ B) = calculateChksum (A ++ Y ++ B) := by
  unfold calculateChksum
  apply congrArg List.sum
  apply List.map_congr_left
  intro i _
  have hofs : Field.offset .chksum = 148 := rfl
  rw [hofs, show Field.length .chksum = 8 from rfl]
  split
  · rfl
  · rw [List.append_assoc, List.append_assoc]
    rcases Nat.lt_or_ge i 148 with hi | hi
    · rw [List.getD_append _ _ _ _ (by omega), List.getD_append _ _ _ _ (by omega)]
    · rw [List.getD_append_right _ _ _ _ (by omega), List.getD_append_right _ _ _ _ (by omega),
        List.getD_append_right _ _ _ _ (by omega), List.getD_append_right _ _ _ _ (by omega), hX,
        hY]

/-! ## The header `ustar_make_header` builds -/

theorem mem_fieldOf {n : Nat} {bytes : List Nat} {b : Nat} (h : b ∈ fieldOf n bytes) :
    b ∈ bytes ∨ b = 0 := by
  rcases List.mem_append.mp h with h | h
  · exact .inl (List.mem_of_mem_take h)
  · exact .inr (List.mem_replicate.mp h).2

section MakeFields

variable {fileName mode size mtime chksum : List Nat} {type : UstarType}

theorem length_makeFields (hm : mode.length = 8)
    (hs : size.length = 12) (hmt : mtime.length = 12) (hc : chksum.length = 8) (f : Field) :
    (makeFields fileName type mode size mtime chksum f).length = f.length := by
  cases f <;> simp [makeFields, strlcpyField, Field.length, hm, hs, hmt, hc]

theorem makeFields_bytes (hn : ∀ c ∈ fileName, c < 256) (hm : ∀ b ∈ mode, b < 256)
    (hs : ∀ b ∈ size, b < 256) (hmt : ∀ b ∈ mtime, b < 256) (hc : ∀ b ∈ chksum, b < 256)
    (htype : type.flag < 256) :
    ∀ b ∈ layout.flatMap (makeFields fileName type mode size mtime chksum), b < 256 := by
  -- a `strlcpy` field holds bytes of its source and zeros
  have hstr : ∀ (n : Nat) (src : List Nat), (∀ c ∈ src, c < 256) →
      ∀ b ∈ strlcpyField n src, b < 256 := by
    intro n src hsrc b hb
    rcases mem_fieldOf hb with hb | rfl
    · rcases List.mem_append.mp hb with hb | hb
      · exact hsrc b (List.mem_of_mem_take hb)
      · simp at hb; omega
    · omega
  have hlit : ∀ s ∈ ["0000000", "ustar", "root"], ∀ c ∈ bytesOf s, c < 256 := by decide
  intro b hb
  obtain ⟨f, -, hf⟩ := List.mem_flatMap.mp hb
  cases f <;> simp only [makeFields] at hf
  case name => exact hstr _ _ hn b hf
  case mode => exact hm b hf
  case uid | gid => exact hstr _ _ (hlit "0000000" (by simp)) b hf
  case size => exact hs b hf
  case mtime => exact hmt b hf
  case chksum => exact hc b hf
  case typeflag => simp at hf; omega
  case magic => exact hstr _ _ (hlit "ustar" (by simp)) b hf
  case version => simp at hf; omega
  case uname | gname => exact hstr _ _ (hlit "root" (by simp)) b hf
  all_goals simp at hf; omega

/-- Only the `chksum` field of the header changes when the checksum is written. -/
theorem calculateChksum_makeFields (hm : mode.length = 8)
    (hs : size.length = 12) (hmt : mtime.length = 12) {chksum' : List Nat}
    (hc : chksum.length = 8) (hc' : chksum'.length = 8) :
    calculateChksum (layout.flatMap (makeFields fileName type mode size mtime chksum)) =
      calculateChksum (layout.flatMap (makeFields fileName type mode size mtime chksum')) := by
  let before : List Field := [.name, .mode, .uid, .gid, .size, .mtime]
  let after : List Field := [.typeflag, .linkname, .magic, .version, .uname, .gname, .devmajor,
    .devminor, .namePrefix, .padding]
  have hsplit : ∀ c, layout.flatMap (makeFields fileName type mode size mtime c) =
      before.flatMap (makeFields fileName type mode size mtime c) ++ c ++
        after.flatMap (makeFields fileName type mode size mtime c) := by
    intro c; simp [layout, before, after, makeFields]
  have hbefore : (before.flatMap (makeFields fileName type mode size mtime chksum)).length = 148 := by
    simp only [List.length_flatMap, before, length_makeFields hm hs hmt hc]; rfl
  rw [hsplit, hsplit]
  exact calculateChksum_append hbefore hc hc'

end MakeFields

section RoundTrip

variable {fileName : List Nat} {type : UstarType} {size : Int}

/-- The fields of the header `ustar_make_header` writes for the stripped name, with the
checksum field `chksum`. -/
def madeFields (fileName : List Nat) (type : UstarType) (size : Int) (chksum : List Nat) :
    Field → List Nat :=
  makeFields (stripAntisocialPrefixes fileName) type
    (octalRender 7 (if type = .regular then 0o644 else 0o755) ++ [0])
    (octalRender 11 size.toNat ++ [0]) (octalRender 11 1136102400 ++ [0]) chksum

/-- The checksum `ustar_make_header` computes, over the header with a zeroed `chksum` field. -/
def madeChksum (fileName : List Nat) (type : UstarType) (size : Int) : Nat :=
  calculateChksum (layout.flatMap (madeFields fileName type size (List.replicate 8 0)))

theorem length_octalField {w v : Nat} (hv : v < 8 ^ w) (hw : 1 ≤ w) :
    (octalRender w v ++ [0]).length = w + 1 := by
  rw [List.length_append, length_octalRender hv hw, List.length_singleton]

theorem length_madeFields (hs0 : 0 ≤ size) (hs : size ≤ INT_MAX) {chksum : List Nat}
    (hc : chksum.length = 8) (f : Field) :
    (madeFields fileName type size chksum f).length = f.length :=
  length_makeFields (length_octalField (by split <;> decide) (by decide))
    (length_octalField (by simp only [INT_MAX] at hs; omega) (by decide))
    (length_octalField (by decide) (by decide)) hc f

/-- The checksum of a header of bytes fits in the 7 octal digits of its field. -/
theorem madeChksum_lt (hname : ∀ c ∈ fileName, 0 < c ∧ c < 256) :
    madeChksum fileName type size < 2 ^ 21 := by
  have hoct : ∀ w v, ∀ b ∈ octalRender w v ++ [0], b < 256 := by
    intro w v b hb
    rcases List.mem_append.mp hb with hb | hb
    · have := octalRender_digits w v b hb; omega
    · simp at hb; omega
  apply calculateChksum_lt
  apply makeFields_bytes (fun c hc => (stripAntisocialPrefixes_bytes hname c hc).2) (hoct _ _)
    (hoct _ _) (hoct _ _) (by simp) (by cases type <;> decide)

/-- `ustar_make_header` on a name whose stripped form fits, for a regular file or a directory
of at most `INT_MAX` bytes. -/
theorem ustarMakeHeader_eq (hname : ∀ c ∈ fileName, 0 < c ∧ c < 256) (htype : type ≠ .eof)
    (hlen : (stripAntisocialPrefixes fileName).length ≤ 99) (hs0 : 0 ≤ size)
    (hs : size ≤ INT_MAX) :
    ustarMakeHeader fileName type size = some (layout.flatMap (madeFields fileName type size
      (octalRender 7 (madeChksum fileName type size) ++ [0]))) := by
  have hmode : snprintfField 8 "%07o".toList [.int (if type = .regular then 0o644 else 0o755)] =
      some (octalRender 7 (if type = .regular then 0o644 else 0o755) ++ [0]) := by
    have h := snprintfField_octal (w := 7) (.inl ⟨rfl, rfl⟩)
      (v := if type = .regular then 0o644 else 0o755) (by split <;> decide) (by split <;> decide)
      (by split <;> decide)
    rw [show (if type = .regular then (0o644 : Int) else 0o755).toNat =
      if type = .regular then 0o644 else 0o755 by split <;> rfl] at h
    exact h
  have hsize : snprintfField 12 "%011o".toList [.int size] =
      some (octalRender 11 size.toNat ++ [0]) :=
    snprintfField_octal (w := 11) (.inr ⟨rfl, rfl⟩) hs0 (by simp only [INT_MAX] at hs; omega)
      (by simp only [INT_MAX] at hs; omega)
  have hmtime : snprintfField 12 "%011o".toList [.int 1136102400] =
      some (octalRender 11 1136102400 ++ [0]) :=
    snprintfField_octal (w := 11) (.inr ⟨rfl, rfl⟩) (by decide) (by decide) (by decide)
  unfold ustarMakeHeader
  rw [if_neg htype]
  simp only
  rw [if_neg (by omega)]
  simp only [hmode, hsize, hmtime, Option.bind_eq_bind, Option.bind_some, ← madeFields.eq_1,
    ← madeChksum.eq_1]
  have hlt : madeChksum fileName type size < 2 ^ 21 := madeChksum_lt hname
  have hchk : snprintfField 8 "%07o".toList [.int (madeChksum fileName type size)] =
      some (octalRender 7 (madeChksum fileName type size) ++ [0]) := by
    have h := snprintfField_octal (w := 7) (.inl ⟨rfl, rfl⟩)
      (v := (madeChksum fileName type size : Int)) (by omega) (by omega) (by omega)
    rwa [Int.toNat_natCast] at h
  rw [hchk, Option.bind_some]
  rfl

/-- `ustar_parse_header` accepts the header `ustar_make_header` builds and returns its stripped
name, its type and, for a regular file, its size. -/
theorem ustarParseHeader_made (hname : ∀ c ∈ fileName, 0 < c ∧ c < 256)
    (htype : type ≠ .eof) (hlen : (stripAntisocialPrefixes fileName).length ≤ 99)
    (hs0 : 0 ≤ size) (hs : size ≤ INT_MAX) :
    ustarParseHeader (layout.flatMap (madeFields fileName type size
      (octalRender 7 (madeChksum fileName type size) ++ [0]))) =
      .ok (some (stripAntisocialPrefixes fileName), type,
        if type = .regular then size.toNat else 0) := by
  have hlt : madeChksum fileName type size < 2 ^ 21 := madeChksum_lt hname
  have hchklen : (octalRender 7 (madeChksum fileName type size) ++ [0]).length = 8 := by
    rw [List.length_append, length_octalRender (by omega) (by decide)]; rfl
  have hsized := @length_madeFields fileName type size hs0 hs _ hchklen
  have hread := readField_flatMap hsized
  generalize hh : layout.flatMap (madeFields fileName type size
    (octalRender 7 (madeChksum fileName type size) ++ [0])) = h at hread
  have h512 : h.length = USTAR_HEADER_SIZE := hh ▸ length_flatMap_layout hsized
  -- the magic bytes make the block nonzero
  have hz : isAllZeros (h.take USTAR_HEADER_SIZE) = false := by
    rw [List.take_of_length_le h512.le, isAllZeros, List.all_eq_false]
    refine ⟨117, ?_, by decide⟩
    rw [← hh]
    exact List.mem_flatMap.mpr ⟨.magic, mem_layout _, show 117 ∈ strlcpyField 6 (bytesOf "ustar")
      by decide⟩
  have hchk : parseOctalField (readField h .chksum) = some (madeChksum fileName type size) := by
    rw [hread]
    exact parseOctalField_octalRender (by decide) (by omega) (by omega) []
  have hsum : calculateChksum h = madeChksum fileName type size := by
    rw [← hh]
    exact calculateChksum_makeFields (length_octalField (by split <;> decide) (by decide))
      (length_octalField (by simp only [INT_MAX] at hs; omega) (by decide))
      (length_octalField (by decide) (by decide)) hchklen (by simp)
  have hbytes := stripAntisocialPrefixes_bytes hname
  have hname99 : (readField h .name).getD 99 0 = 0 := by
    rw [hread]; exact (strlcpyField_name hbytes hlen).2
  have hnm : stripAntisocialPrefixes (cString (readField h .name)) =
      stripAntisocialPrefixes fileName := by
    rw [hread]
    simp only [madeFields, makeFields]
    rw [(strlcpyField_name hbytes hlen).1, stripAntisocialPrefixes_idem]
  have hpfx : (readField h .namePrefix).getD 0 0 = 0 := by rw [hread]; rfl
  have htf : (readField h .typeflag).getD 0 0 = type.flag := by rw [hread]; rfl
  rw [ustarParseHeader, if_neg (by simp [hz]), checkHeader,
    if_neg (by rw [hread]; exact fun h => h rfl), if_neg (by rw [hread]; exact fun h => h rfl),
    hchk]
  simp only
  rw [if_neg (by rw [hsum]; exact fun h => h rfl), if_neg (by rw [hname99, hpfx]; simp), htf, hnm]
  cases type with
  | regular =>
    -- a regular file's size field reads back as the size
    have hsz : parseOctalField (readField h .size) = some size.toNat := by
      rw [hread]
      exact parseOctalField_octalRender (by decide) (by simp only [INT_MAX] at hs; omega)
        (by simp only [INT_MAX] at hs; omega) []
    have hmax : ¬INT_MAX < size.toNat := by omega
    simp [UstarType.flag, hsz, hmax, Except.map]
  | directory => simp [UstarType.flag, Except.map]
  | eof => exact absurd rfl htype

end RoundTrip

/-! ## The round trip -/

theorem ustar_header_round_trip (fileName : List Nat) (hname : ∀ c ∈ fileName, 0 < c ∧ c < 256)
    (type : UstarType) (htype : type = .regular ∨ type = .directory) (size : Int)
    (hs0 : 0 ≤ size) (hs : size ≤ INT_MAX) :
    ((ustarMakeHeader fileName type size).isSome ↔
      (stripAntisocialPrefixes fileName).length ≤ 99) ∧
    ((stripAntisocialPrefixes fileName).length ≤ 99 →
      ∃ h, ustarMakeHeader fileName type size = some h ∧ h.length = USTAR_HEADER_SIZE ∧
        ustarParseHeader h = .ok (some (stripAntisocialPrefixes fileName), type,
          if type = .regular then size.toNat else 0)) := by
  have htype' : type ≠ .eof := by rcases htype with rfl | rfl <;> decide
  have hround : (stripAntisocialPrefixes fileName).length ≤ 99 →
      ∃ h, ustarMakeHeader fileName type size = some h ∧ h.length = USTAR_HEADER_SIZE ∧
        ustarParseHeader h = .ok (some (stripAntisocialPrefixes fileName), type,
          if type = .regular then size.toNat else 0) := fun hlen =>
    ⟨_, ustarMakeHeader_eq hname htype' hlen hs0 hs,
      length_flatMap_layout (length_madeFields hs0 hs
        (length_octalField (madeChksum_lt hname) (by decide))),
      ustarParseHeader_made hname htype' hlen hs0 hs⟩
  refine ⟨⟨fun hsome => ?_, fun hlen => ?_⟩, hround⟩
  · -- a name too long makes `ustar_make_header` return false
    by_contra hlong
    rw [ustarMakeHeader, if_neg htype'] at hsome
    simp only [if_pos (show 99 < (stripAntisocialPrefixes fileName).length by omega)] at hsome
    cases hsome
  · obtain ⟨h, hmake, -⟩ := hround hlen
    rw [hmake]; rfl

theorem ustar_header_round_trip_dir :
    (∀ c ∈ bytesOf "tmp/dir", 0 < c ∧ c < 256) ∧ (0 : Int) ≤ 4096 ∧ (4096 : Int) ≤ INT_MAX ∧
    (UstarType.directory = .regular ∨ UstarType.directory = .directory) ∧
    (((ustarMakeHeader (bytesOf "tmp/dir") .directory 4096).isSome ↔
      (stripAntisocialPrefixes (bytesOf "tmp/dir")).length ≤ 99) ∧
    ((stripAntisocialPrefixes (bytesOf "tmp/dir")).length ≤ 99 →
      ∃ h, ustarMakeHeader (bytesOf "tmp/dir") .directory 4096 = some h ∧
        h.length = USTAR_HEADER_SIZE ∧
        ustarParseHeader h = .ok (some (stripAntisocialPrefixes (bytesOf "tmp/dir")), .directory,
          if UstarType.directory = .regular then (4096 : Int).toNat else 0))) :=
  ⟨by decide, by decide, by decide, .inr rfl,
    ustar_header_round_trip (bytesOf "tmp/dir") (by decide) .directory (.inr rfl) 4096 (by decide)
      (by decide)⟩

/-! ## The names `ustar_parse_header` returns -/

/-- Every name `ustar_parse_header` returns is the stripped name field. -/
theorem ustarParseHeader_name {header name : List Nat} {type : UstarType} {size : Nat}
    (h : ustarParseHeader header = .ok (some name, type, size)) :
    name = stripAntisocialPrefixes (cString (readField header .name)) := by
  unfold ustarParseHeader at h
  split at h
  · cases h
  · -- past the end-of-archive test, the name is set only on success
    cases hc : checkHeader header with
    | error e => rw [hc] at h; cases h
    | ok r =>
      rw [hc] at h
      simp only [Except.map, Except.ok.injEq, Prod.mk.injEq, Option.some.injEq] at h
      exact h.1.symm

/-- The names `ustar_parse_header` returns do not start with `/`, `./` or `../`, and are not
`..`: what `strip_antisocial_prefixes` removes. -/
theorem ustarParseHeader_not_antisocial {header name : List Nat} {type : UstarType}
    {size : Nat} (h : ustarParseHeader header = .ok (some name, type, size)) :
    ¬antisocial name ∧ name ≠ [46, 46] := by
  rw [ustarParseHeader_name h]
  exact ⟨(stripAntisocialPrefixes_spec _).1, (stripAntisocialPrefixes_spec _).2.2.1⟩

/-! ## Names that climb out of the extraction directory -/

/-- Following the components of a relative path from depth `depth`: whether a `..` is met at
depth zero. -/
def climbs : List (List Nat) → Nat → Bool
  | [], _ => false
  | c :: cs, depth =>
    if c = [46, 46] then depth == 0 || climbs cs (depth - 1)
    else if c = [] ∨ c = [46] then climbs cs depth
    else climbs cs (depth + 1)

/-- The path, read from its starting directory, goes above it. -/
def climbsAbove (path : List Nat) : Bool := climbs (path.splitOn 47) 0

theorem parse_accepts_climbing_name :
    ∃ h, ustarMakeHeader (bytesOf "a/../../x") .regular 0 = some h ∧
      h.length = USTAR_HEADER_SIZE ∧
      ustarParseHeader h = .ok (some (bytesOf "a/../../x"), .regular, 0) ∧
      climbsAbove (bytesOf "a/../../x") = true := by
  have hname : ∀ c ∈ bytesOf "a/../../x", 0 < c ∧ c < 256 := by decide
  -- the name starts with neither `/` nor `.`, so nothing is stripped
  have hstrip : stripAntisocialPrefixes (bytesOf "a/../../x") = bytesOf "a/../../x" := by
    rw [stripAntisocialPrefixes, if_neg (by decide), if_neg (by decide)]
  have hlen : (stripAntisocialPrefixes (bytesOf "a/../../x")).length ≤ 99 := by
    rw [hstrip]; decide
  refine ⟨_, ustarMakeHeader_eq hname (by decide) hlen le_rfl (by decide),
    length_flatMap_layout (length_madeFields le_rfl (by decide)
      (length_octalField (madeChksum_lt hname) (by decide))), ?_, by decide⟩
  rw [ustarParseHeader_made hname (by decide) hlen le_rfl (by decide), hstrip]
  rfl

end Pintos.Ustar
