import Mathlib.Data.Nat.Digits.Lemmas

/-!
# `lib/stdio.c`: `printf` formatting

`__vprintf` copies the format to the output, and at each `%` calls `parse_conversion` (flags,
field width, precision, length modifier, with `*` taking the width or precision from the
arguments) and then converts the next argument: integers through `format_integer`, strings and
characters through `format_string`.  `vsnprintf` counts every output character and stores the
first `buf_size - 1` of them, then a null terminator.

The output is a list of characters.  A `va_list` is the list of the arguments, each an integer
or a string pointer, read in order by `va_arg` (`none` when the next argument is not of the
kind the conversion reads, which C leaves undefined); `int`, `long`, `size_t` and `ptrdiff_t`
are 32 bits and `long long` and `intmax_t` 64, as on 32-bit x86.  `%f` is not modelled (`none`).
`vprintfLoop` runs on fuel, one unit per format character, which `vprintf` gives in full.

* `foldl_vsnprintfHelper`, `vsnprintf_eq`: `vsnprintf` returns the length of the whole output
  and stores its first `buf_size - 1` characters and a null terminator.
* `accumulateDigits_eq`: without the `'` flag the digit loop produces the base-`b` digits of
  the value, least significant first.
* `formatInteger_zeroPad`: an unsigned conversion with the `0` flag and a width alone pads the
  digits with zeros on the left to the width (`%07o`, `%011o` in `lib/ustar.c`).
* `formatInteger_length`: `format_integer` outputs its padding once, or twice when both `-` and
  `0` are set.  `parse_conversion` drops `0` when `-` is present, but the `-` that a negative
  `*` width adds comes after that check (`parseConversion_zero_star`), so
  `printf ("%0*d", -5, 42)` prints `00042   `, eight characters for a width of five, where
  `%-5d` prints `42   ` (`snprintf_zero_star_negative_width`).
-/

set_option autoImplicit false

namespace Pintos.Stdio

/-! ## Conversions and bases -/

/-- The flags of a conversion: `MINUS`, `PLUS`, `SPACE`, `POUND`, `ZERO` and `GROUP`. -/
structure Flags where
  minus : Bool
  plus : Bool
  space : Bool
  pound : Bool
  zero : Bool
  group : Bool
  deriving DecidableEq, Repr

/-- `c->flags = 0`. -/
def Flags.empty : Flags := ⟨false, false, false, false, false, false⟩

/-- The type of the argument, from the length modifier. -/
inductive ArgType
  | char | short | int | intmax | long | longlong | ptrdifft | sizet
  deriving DecidableEq, Repr

/-- `struct printf_conversion`; a precision of `-1` means none was given. -/
structure PrintfConversion where
  flags : Flags
  width : Int
  precision : Int
  type : ArgType
  deriving DecidableEq, Repr

/-- `struct integer_base`; `x` is the character after `0` in the `#` prefix, if any. -/
structure IntegerBase where
  base : Nat
  digits : List Char
  x : Option Char
  group : Nat

/-- `base_d`. -/
def baseD : IntegerBase := ⟨10, "0123456789".toList, none, 3⟩

/-- `base_o`. -/
def baseO : IntegerBase := ⟨8, "01234567".toList, none, 3⟩

/-- `base_x`. -/
def baseX : IntegerBase := ⟨16, "0123456789abcdef".toList, some 'x', 4⟩

/-- `base_X`. -/
def baseXUpper : IntegerBase := ⟨16, "0123456789ABCDEF".toList, some 'X', 4⟩

/-! ## `format_integer` and `format_string` -/

/-- The digit loop of `format_integer`: while `value > 0`, a `,` before every `group`-th digit
under the `'` flag, then the digit of `value % base`.  The buffer is in reverse order.  The loop
runs at most `value` times, which `fuel` bounds. -/
def accumulateDigits (b : IntegerBase) (grouped : Bool) :
    Nat → Nat → Nat → List Char → List Char
  | 0, _, _, buf => buf
  | fuel + 1, value, digitCnt, buf =>
    if 0 < value then
      let buf := if grouped ∧ 0 < digitCnt ∧ digitCnt % b.group = 0 then buf ++ [','] else buf
      accumulateDigits b grouped fuel (value / b.base) (digitCnt + 1)
        (buf ++ [b.digits.getD (value % b.base) '0'])
    else buf

/-- The sign character of `format_integer`: `+` over ` `, and none for an unsigned conversion. -/
def signChar (isSigned negative : Bool) (f : Flags) : Option Char :=
  if isSigned then
    if f.plus then some (if negative then '-' else '+')
    else if f.space then some (if negative then '-' else ' ')
    else if negative then some '-' else none
  else none

/-- The buffer of `format_integer`, in reverse order: the digits, zeros up to the precision
within the 64-byte buffer, and the leading `0` that `#` requires in octal. -/
def digitBuffer (value : Nat) (b : IntegerBase) (c : PrintfConversion) : List Char :=
  let buf := accumulateDigits b c.flags.group (value + 1) value 0 []
  let precision : Int := if c.precision < 0 then 1 else c.precision
  let buf := buf ++ List.replicate ((min precision 63).toNat - buf.length) '0'
  if c.flags.pound ∧ b.base = 8 ∧ (buf = [] ∨ buf.getLast? ≠ some '0') then buf ++ ['0'] else buf

/-- `format_integer (value, is_signed, negative, b, c)`: the characters it outputs. -/
def formatInteger (value : Nat) (isSigned negative : Bool) (b : IntegerBase)
    (c : PrintfConversion) : List Char :=
  let sign := signChar isSigned negative c.flags
  let x : Option Char := if c.flags.pound ∧ 0 < value then b.x else none
  let buf := digitBuffer value b c
  let padCnt : Nat :=
    (c.width - buf.length - (if x.isSome then 2 else 0) - (if sign.isSome then 1 else 0)).toNat
  (if c.flags.minus = false ∧ c.flags.zero = false then List.replicate padCnt ' ' else []) ++
    sign.toList ++ (match x with | some ch => ['0', ch] | none => []) ++
    (if c.flags.zero then List.replicate padCnt '0' else []) ++ buf.reverse ++
    (if c.flags.minus then List.replicate padCnt ' ' else [])

/-- `format_string (string, length, c)`. -/
def formatString (s : List Char) (length : Nat) (c : PrintfConversion) : List Char :=
  (if length < c.width ∧ c.flags.minus = false then List.replicate (c.width - length).toNat ' '
    else []) ++ s.take length ++
  (if length < c.width ∧ c.flags.minus then List.replicate (c.width - length).toNat ' ' else [])

/-! ## Arguments -/

/-- An argument in the `va_list`: an integer, as the caller passed it, or a string pointer
(`none` is `NULL`). -/
inductive PrintfArg
  | int (v : Int)
  | str (s : Option (List Char))
  deriving DecidableEq, Repr

/-- `va_arg` of an integer type. -/
def vaArgInt : List PrintfArg → Option (Int × List PrintfArg)
  | .int v :: args => some (v, args)
  | _ => none

/-- `va_arg (args, char *)`. -/
def vaArgStr : List PrintfArg → Option (Option (List Char) × List PrintfArg)
  | .str s :: args => some (s, args)
  | _ => none

/-- An `int` (32 bits). -/
def toInt32 (v : Int) : Int := Int.bmod v (2 ^ 32)

/-- The value of a signed conversion, as `__vprintf` reads it for each type. -/
def signedValue (t : ArgType) (v : Int) : Int :=
  match t with
  | .char => Int.bmod (toInt32 v) (2 ^ 8)
  | .short => Int.bmod (toInt32 v) (2 ^ 16)
  | .int | .long | .ptrdifft => toInt32 v
  | .intmax | .longlong => Int.bmod v (2 ^ 64)
  | .sizet =>
    -- `size_t` read unsigned, then moved down by `SIZE_MAX + 1` above `SIZE_MAX / 2`
    let value : Int := v % 2 ^ 32
    if (2 ^ 32 - 1) / 2 < value then value - (2 ^ 32 - 1) - 1 else value

/-- The value of an unsigned conversion, as `__vprintf` reads it for each type. -/
def unsignedValue (t : ArgType) (v : Int) : Nat :=
  match t with
  | .char => (v % 2 ^ 32).toNat % 2 ^ 8
  | .short => (v % 2 ^ 32).toNat % 2 ^ 16
  | .int | .long | .sizet => (v % 2 ^ 32).toNat
  | .intmax | .longlong => (v % 2 ^ 64).toNat
  -- a `ptrdiff_t` widened to `uintmax_t`, then masked with `(PTRDIFF_MAX << 1) | 1`
  | .ptrdifft => (toInt32 v % 2 ^ 64).toNat % 2 ^ 32

/-! ## `parse_conversion` -/

/-- The flag loop of `parse_conversion`. -/
def parseFlags : List Char → Flags → Flags × List Char
  | '-' :: format, f => parseFlags format { f with minus := true }
  | '+' :: format, f => parseFlags format { f with plus := true }
  | ' ' :: format, f => parseFlags format { f with space := true }
  | '#' :: format, f => parseFlags format { f with pound := true }
  | '0' :: format, f => parseFlags format { f with zero := true }
  | ch :: format, f =>
    -- the `'` flag
    if ch = Char.ofNat 39 then parseFlags format { f with group := true } else (f, ch :: format)
  | [], f => (f, [])

/-- A decimal field: `for (; isdigit (*format); format++) n = n * 10 + *format - '0'`. -/
def parseDigits : List Char → Int → Int × List Char
  | ch :: format, n =>
    if ch.isDigit then parseDigits format (n * 10 + (ch.toNat - 48 : Nat)) else (n, ch :: format)
  | [], n => (n, [])

/-- The length modifier. -/
def parseType : List Char → ArgType × List Char
  | 'h' :: 'h' :: format => (.char, format)
  | 'h' :: format => (.short, format)
  | 'j' :: format => (.intmax, format)
  | 'l' :: 'l' :: format => (.longlong, format)
  | 'l' :: format => (.long, format)
  | 't' :: format => (.ptrdifft, format)
  | 'z' :: format => (.sizet, format)
  | format => (.int, format)

/-- `parse_conversion (format, c, args)`: the conversion, the rest of the format from the
conversion character on, and the arguments left. -/
def parseConversion (format : List Char) (args : List PrintfArg) :
    Option (PrintfConversion × List Char × List PrintfArg) := do
  let (flags, format) := parseFlags format Flags.empty
  let flags := if flags.minus then { flags with zero := false } else flags
  let flags := if flags.plus then { flags with space := false } else flags
  let (width, format, args) ← match format with
    | '*' :: format => (vaArgInt args).map fun (w, args) => (toInt32 w, format, args)
    | format => some ((parseDigits format 0).1, (parseDigits format 0).2, args)
  let (width, flags) := if width < 0 then (-width, { flags with minus := true }) else (width, flags)
  let (precision, format, args) ← match format with
    | '.' :: '*' :: format => (vaArgInt args).map fun (p, args) => (toInt32 p, format, args)
    | '.' :: format => some ((parseDigits format 0).1, (parseDigits format 0).2, args)
    | format => some (-1, format, args)
  let precision := if precision < 0 then -1 else precision
  let flags := if 0 ≤ precision then { flags with zero := false } else flags
  let (type, format) := parseType format
  pure (⟨flags, width, precision, type⟩, format, args)

/-! ## `__vprintf` and `vsnprintf` -/

/-- One conversion of `__vprintf`: the output of conversion character `ch` under `c`, and the
arguments left. -/
def convert (ch : Char) (c : PrintfConversion) (args : List PrintfArg) :
    Option (List Char × List PrintfArg) :=
  match ch with
  | 'd' | 'i' => (vaArgInt args).map fun (v, args) =>
    let value := signedValue c.type v
    (formatInteger value.natAbs true (decide (value < 0)) baseD c, args)
  | 'o' | 'u' | 'x' | 'X' => (vaArgInt args).map fun (v, args) =>
    let b := match ch with
      | 'o' => baseO
      | 'u' => baseD
      | 'x' => baseX
      | _ => baseXUpper
    (formatInteger (unsignedValue c.type v) false false b c, args)
  | 'c' => (vaArgInt args).map fun (v, args) =>
    (formatString [Char.ofNat (v % 256).toNat] 1 c, args)
  | 's' => (vaArgStr args).map fun (s, args) =>
    let s := s.getD "(null)".toList
    -- `strnlen (s, c.precision)`, where a precision of `-1` is `SIZE_MAX`
    let length := if c.precision < 0 then s.length else min s.length c.precision.toNat
    (formatString s length c, args)
  | 'p' => (vaArgInt args).map fun (v, args) =>
    (formatInteger (v % 2 ^ 32).toNat false false baseX
      { c with flags := { Flags.empty with pound := true } }, args)
  | 'f' => none
  | 'e' | 'E' | 'g' | 'G' | 'n' => some ("<<no %".toList ++ [ch] ++ " in kernel>>".toList, args)
  | _ => some ("<<no %".toList ++ [ch] ++ " conversion>>".toList, args)

/-- The loop of `__vprintf`, one unit of fuel per step.  A format that ends inside a
conversion makes `__vprintf` read past its terminator (`none`). -/
def vprintfLoop : Nat → List Char → List PrintfArg → Option (List Char)
  | 0, _, _ => none
  | _ + 1, [], _ => some []
  | fuel + 1, '%' :: '%' :: format, args => (vprintfLoop fuel format args).map ('%' :: ·)
  | fuel + 1, '%' :: format, args => do
    let (c, format, args) ← parseConversion format args
    match format with
    | [] => none
    | ch :: format =>
      let (out, args) ← convert ch c args
      (vprintfLoop fuel format args).map (out ++ ·)
  | fuel + 1, ch :: format, args => (vprintfLoop fuel format args).map (ch :: ·)

/-- `__vprintf (format, args, output, aux)`: the characters it outputs. -/
def vprintf (format : List Char) (args : List PrintfArg) : Option (List Char) :=
  vprintfLoop (format.length + 1) format args

/-- `struct vsnprintf_aux`: the characters stored so far, the output length, and the most that
may be stored. -/
structure VsnprintfAux where
  buffer : List Char
  length : Nat
  maxLength : Nat

/-- `vsnprintf_helper`: count the character, and store it while there is room. -/
def vsnprintfHelper (aux : VsnprintfAux) (ch : Char) : VsnprintfAux :=
  { aux with
    buffer := if aux.length < aux.maxLength then aux.buffer ++ [ch] else aux.buffer
    length := aux.length + 1 }

/-- `vsnprintf (buffer, buf_size, format, args)`: what it writes to `buffer`, and what it
returns. -/
def vsnprintf (bufSize : Nat) (format : List Char) (args : List PrintfArg) :
    Option (List Char × Nat) :=
  (vprintf format args).map fun out =>
    let aux := out.foldl vsnprintfHelper ⟨[], 0, if 0 < bufSize then bufSize - 1 else 0⟩
    (if 0 < bufSize then aux.buffer ++ [Char.ofNat 0] else aux.buffer, aux.length)

/-! ## `vsnprintf` stores a prefix of the output -/
/-- `vsnprintf_helper` over an output: the stored prefix grows to `maxLength` characters, and
the length counts them all. -/
theorem foldl_vsnprintfHelper (out : List Char) (aux : VsnprintfAux)
    (h : aux.buffer.length = min aux.length aux.maxLength) :
    out.foldl vsnprintfHelper aux =
      ⟨aux.buffer ++ out.take (aux.maxLength - aux.length), aux.length + out.length,
        aux.maxLength⟩ := by
  induction out generalizing aux with
  | nil => simp
  | cons ch out ih =>
    have hstep : (vsnprintfHelper aux ch).buffer.length =
        min (vsnprintfHelper aux ch).length (vsnprintfHelper aux ch).maxLength := by
      unfold vsnprintfHelper
      split <;> simp <;> omega
    rw [List.foldl_cons, ih _ hstep]
    unfold vsnprintfHelper
    simp only [VsnprintfAux.mk.injEq, List.length_cons]
    split
    · -- room left: `ch` is stored
      rw [show aux.maxLength - aux.length = aux.maxLength - (aux.length + 1) + 1 by omega]
      simp; omega
    · -- full: nothing more is stored
      rw [show aux.maxLength - aux.length = 0 by omega,
        show aux.maxLength - (aux.length + 1) = 0 by omega]
      simp; omega

/-- `vsnprintf` returns the length of the whole output and stores its first `buf_size - 1`
characters and a null terminator. -/
theorem vsnprintf_eq (bufSize : Nat) (format : List Char) (args : List PrintfArg) :
    vsnprintf bufSize format args = (vprintf format args).map fun out =>
      (if 0 < bufSize then out.take (bufSize - 1) ++ [Char.ofNat 0] else [], out.length) := by
  unfold vsnprintf
  congr 1
  funext out
  rw [foldl_vsnprintfHelper _ _ (by simp)]
  by_cases h : 0 < bufSize
  · simp [h]
  · simp [h]

/-! ## The digits and the padding of `format_integer` -/

/-- The digits of `value` in base `b`, least significant first, as the digit loop writes them
(`0` is written as no digit). -/
def digitChars (b : IntegerBase) (value : Nat) : List Char :=
  (Nat.digits b.base value).map (b.digits.getD · '0')

/-- Without the `'` flag the digit loop writes the digits of `value`. -/
theorem accumulateDigits_eq (b : IntegerBase) (hb : 2 ≤ b.base) {fuel value : Nat}
    (hv : value ≤ fuel) (digitCnt : Nat) (buf : List Char) :
    accumulateDigits b false fuel value digitCnt buf = buf ++ digitChars b value := by
  induction fuel generalizing value digitCnt buf with
  | zero =>
    obtain rfl : value = 0 := by omega
    simp [accumulateDigits, digitChars]
  | succ fuel ih =>
    unfold accumulateDigits
    split
    · -- one more digit, `value % base`, then the digits of `value / base`
      rename_i hpos
      have hdiv : value / b.base ≤ fuel := by
        have hlt : value / b.base < value := Nat.div_lt_self hpos (by omega)
        omega
      rw [ih hdiv, digitChars, digitChars, Nat.digits_def' (by omega) hpos]
      simp only [Bool.false_eq_true, false_and, if_false, List.map_cons, List.append_assoc,
        List.singleton_append]
    · obtain rfl : value = 0 := by omega
      simp [digitChars]
/-- The padding of `format_integer`: `padCnt` characters to reach the width, output once, or
twice (zeros before the digits and spaces after them) when both `-` and `0` are set. -/
theorem formatInteger_length (value : Nat) (isSigned negative : Bool) (b : IntegerBase)
    (c : PrintfConversion) :
    (formatInteger value isSigned negative b c).length =
      (formatInteger value isSigned negative b { c with width := 0 }).length +
        (if c.flags.minus ∧ c.flags.zero then 2 else 1) *
          (c.width - (formatInteger value isSigned negative b { c with width := 0 }).length).toNat := by
  have hbuf : digitBuffer value b { c with width := 0 } = digitBuffer value b c := rfl
  simp only [formatInteger, hbuf]
  generalize digitBuffer value b c = buf
  generalize signChar isSigned negative c.flags = sign
  generalize (if c.flags.pound = true ∧ 0 < value then b.x else none) = x
  -- one case for each shape of the output around the digits
  cases x <;> cases sign <;> cases c.flags.minus <;> cases c.flags.zero <;> simp <;> omega
/-- The digits `format_integer` writes with no precision: those of `value`, or `0`. -/
def digitsOrZero (b : IntegerBase) (value : Nat) : List Char :=
  if value = 0 then ['0'] else digitChars b value

/-- With no `'` or `#` flag and no precision, the buffer holds the digits of `value`, or `0`. -/
theorem digitBuffer_eq (value : Nat) (b : IntegerBase) (hb : 2 ≤ b.base) (c : PrintfConversion)
    (hg : c.flags.group = false) (hp : c.flags.pound = false) (hprec : c.precision < 0) :
    digitBuffer value b c = digitsOrZero b value := by
  unfold digitBuffer digitsOrZero
  rw [hg, accumulateDigits_eq b hb (Nat.le_succ value)]
  simp only [hp, Bool.false_eq_true, false_and, if_false, if_pos hprec, List.nil_append]
  by_cases hv : value = 0
  · subst hv
    simp [digitChars]
  · -- a nonzero value has at least one digit, which meets the precision of one
    have hlen : 0 < (digitChars b value).length := by
      simp [digitChars, Nat.digits_def' (by omega : 1 < b.base) (Nat.pos_of_ne_zero hv)]
    rw [if_neg hv, show (min (1 : Int) 63).toNat - (digitChars b value).length = 0 by omega]
    simp

/-- `%0Wo`-style conversions: an unsigned conversion with the `0` flag alone, a width and no
precision pads the digits of `value` with zeros on the left to the width. -/
theorem formatInteger_zeroPad (value : Nat) (b : IntegerBase) (hb : 2 ≤ b.base) (width : Int)
    (t : ArgType) :
    formatInteger value false false b ⟨{ Flags.empty with zero := true }, width, -1, t⟩ =
      List.replicate (width - (digitsOrZero b value).length).toNat '0' ++
        (digitsOrZero b value).reverse := by
  rw [formatInteger, digitBuffer_eq value b hb _ rfl rfl (by simp)]
  simp [signChar, Flags.empty]

/-! ## A negative `*` width with the `0` flag -/

/-- A negative `*` width after the `0` flag sets `-` once `0` has already been checked, so the
conversion keeps both. -/
theorem parseConversion_zero_star (rest : List Char) (args : List PrintfArg) {w : Int}
    (hw : toInt32 w < 0) (hrest : rest.head? ≠ some '.') :
    parseConversion ('0' :: '*' :: rest) (.int w :: args) =
      some (⟨⟨true, false, false, false, true, false⟩, -toInt32 w, -1, (parseType rest).1⟩,
        (parseType rest).2, args) := by
  rcases rest with _ | ⟨ch, rest⟩
  · simp [parseConversion, parseFlags, vaArgInt, Flags.empty, hw]
  · have hch : ch ≠ '.' := fun h => hrest (by simp [h])
    simp [parseConversion, parseFlags, vaArgInt, Flags.empty, hw, hch]

theorem snprintf_zero_star_negative_width :
    vsnprintf 16 "%0*d".toList [.int (-5), .int 42] =
      some ("00042   ".toList ++ [Char.ofNat 0], 8) ∧
    vsnprintf 16 "%-5d".toList [.int 42] = some ("42   ".toList ++ [Char.ofNat 0], 5) := by
  decide

end Pintos.Stdio
