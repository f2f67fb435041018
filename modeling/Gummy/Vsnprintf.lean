import Gummy.Lib.ByteMem
import Gummy.Lib.CWord

/-!
`vsnprintf` and `itoa`.

Addresses in the output are counted from `s`, and `none` is a null pointer.  A format is
the list of its characters; what lies behind the end of the list is the NUL.  The arguments
are the words that `va_list` points to, a `long long` taking two of them.  A run has no
result once `itoa` was asked for more bytes than the buffer of `put_number` has, since
nothing is known about the memory after that.
-/

namespace Gummy

open CWord

/-! ### `itoa` -/

/-- `chars` and `CHARS`. -/
def itoaChars (upper : Bool) : List UInt8 :=
  if upper then [48, 49, 50, 51, 52, 53, 54, 55, 56, 57, 65, 66, 67, 68, 69, 70]
  else [48, 49, 50, 51, 52, 53, 54, 55, 56, 57, 97, 98, 99, 100, 101, 102]

/-- The digit loop of `itoa`, the least significant digit first.  64 passes are enough for any
`uint64_t`. -/
def itoaDigits (chs : List UInt8) (base : ℕ) : ℕ → ℕ → List UInt8
  | 0, _ => []
  | fuel + 1, num =>
    if num = 0 then [] else chs.getD (num % base) 0 :: itoaDigits chs base fuel (num / base)

/-- `itoa`: the bytes stored from `out` on, and the result. -/
def itoa (base num : ℕ) (signal upper : Bool) (zeroPad : ℕ) : List UInt8 × ℕ :=
  if base < 2 ∨ 16 < base then ([], 0)
  else
    let chs := itoaChars upper
    let digits := if num = 0 then [48] else itoaDigits chs base 64 num
    let buffer := digits ++ if signal then [45] else []
    let len := buffer.length
    let padding := if len < zeroPad then zeroPad - len else 0
    -- the numbers of characters up to `start`
    let count := if signal then len - 1 else len
    let out := (if signal then [45] else []) ++ List.replicate padding 48
      ++ (buffer.take count).reverse
    (out ++ [0], out.length)

/-! ### The output -/

/-- `struct string_formatter`, with the memory at `out`. -/
structure Formatter where
  out : Option ByteMem
  index : ℕ
  limit : ℕ
  /-- The indices that were written, the last one first. -/
  stores : List ℕ

/-- `f->out[i] = c`. -/
def Formatter.store (f : Formatter) (i : ℕ) (c : UInt8) : Formatter :=
  { f with out := f.out.map (·.write8 i c), stores := i :: f.stores }

/-- `put_char`. -/
def putChar (f : Formatter) (c : UInt8) : Formatter :=
  let f' := if f.out.isSome ∧ 0 < f.limit ∧ f.index < f.limit - 1 then f.store f.index c else f
  { f' with index := u32 (f'.index + 1) }

/-- `put_string` of the first `n` characters. -/
def putString (f : Formatter) (str : List UInt8) (n : ℕ) : Formatter :=
  (str.take n).foldl putChar f

/-- The size of the buffer in `put_number`. -/
def numberBufferSize : ℕ := 66

/-- `put_number`; `none` if `itoa` leaves the buffer. -/
def putNumber (f : Formatter) (base num : ℕ) (signal upper : Bool) (zeroPad : ℕ) :
    Option Formatter :=
  let (buffer, len) := itoa base num signal upper zeroPad
  if numberBufferSize < buffer.length then none
  else if 0 < len then some (putString f buffer len) else some f

/-! ### Conversions -/

/-- `format_size_t`. -/
inductive FormatSize
  | normal | h | hh | l | ll
deriving DecidableEq

/-- The words from a `va_list` on. -/
abbrev VaList := ℕ → UInt32

/-- The `va_list` after `k` words. -/
def VaList.skip (arg : VaList) (k : ℕ) : VaList := fun i => arg (i + k)

/-- A word of arguments, as an unsigned number. -/
def VaList.word (arg : VaList) : ℕ := (arg 0).toNat

/-- Two words of arguments, as an unsigned number. -/
def VaList.longLong (arg : VaList) : ℕ := (arg 0).toNat + 2 ^ 32 * (arg 1).toNat

/-- `value` of the conversions `d` and `i`. -/
def signedArg (size : FormatSize) (arg : VaList) : ℤ × VaList :=
  match size with
  | .hh => ((arg.word : ℤ).bmod (2 ^ 8), arg.skip 1)
  | .h => ((arg.word : ℤ).bmod (2 ^ 16), arg.skip 1)
  | .l => ((arg.word : ℤ).bmod (2 ^ 32), arg.skip 1)
  | .ll => ((arg.longLong : ℤ).bmod (2 ^ 64), arg.skip 2)
  | .normal => ((arg.word : ℤ).bmod (2 ^ 32), arg.skip 1)

/-- `num` of the conversions `u`, `x`, `X` and `o`. -/
def unsignedArg (size : FormatSize) (arg : VaList) : ℕ × VaList :=
  match size with
  | .hh => (arg.word % 2 ^ 8, arg.skip 1)
  | .h => (arg.word % 2 ^ 16, arg.skip 1)
  | .l => (arg.word, arg.skip 1)
  | .ll => (arg.longLong, arg.skip 2)
  | .normal => (arg.word, arg.skip 1)

/-- The variables of a number conversion. -/
structure NumberArgs where
  base : ℕ
  num : ℕ
  signal : Bool
  upper : Bool
  /-- `prefix`. -/
  hexLead : Bool

/-- What the `switch` does: it puts characters, or it sets `is_number`. -/
inductive Converted where
  | chars (l : List UInt8)
  | number (x : NumberArgs)

/-- The string at a pointer, up to its NUL; `"(null)"` for a null pointer. -/
def stringAt (strings : UInt32 → List UInt8) (str : UInt32) : List UInt8 :=
  if str = 0 then [40, 110, 117, 108, 108, 41] else (strings str).takeWhile (· ≠ 0)

/-- The `switch` over the conversion `conv`. -/
def switchConversion (strings : UInt32 → List UInt8) (size : FormatSize) (conv : UInt8)
    (arg : VaList) : Converted × VaList :=
  if conv = 37 then (.chars [37], arg)
  else if conv = 99 then (.chars [UInt8.ofNat arg.word], arg.skip 1)
  else if conv = 115 then (.chars (stringAt strings (arg 0)), arg.skip 1)
  else if conv = 112 then (.number ⟨16, arg.word, false, false, true⟩, arg.skip 1)
  else if conv = 100 ∨ conv = 105 then
    let (value, arg) := signedArg size arg
    let num := if value < 0 then ((-(value + 1)).toNat + 1) % 2 ^ 64 else value.toNat
    (.number ⟨10, num, value < 0, false, false⟩, arg)
  else if conv = 117 ∨ conv = 120 ∨ conv = 88 ∨ conv = 111 then
    let (num, arg) := unsignedArg size arg
    let base := if conv = 120 ∨ conv = 88 then 16 else if conv = 111 then 8 else 10
    (.number ⟨base, num, false, conv = 88, false⟩, arg)
  else (.chars [37, conv], arg)

/-- `digit_width`. -/
def digitWidth (zeroFlag : Bool) (width : ℕ) (x : NumberArgs) : ℕ :=
  if zeroFlag ∧ 0 < width then
    let extra := (if x.signal then 1 else 0) + if x.hexLead then 2 else 0
    if extra < width then width - extra else 0
  else 0

/-- The characters that the `switch` puts, or the number output behind it. -/
def putConverted (f : Formatter) (zeroFlag : Bool) (width : ℕ) : Converted → Option Formatter
  | .chars l => some (l.foldl putChar f)
  | .number x =>
    let f := if x.hexLead then putChar (putChar f 48) 120 else f
    putNumber f x.base x.num x.signal x.upper (digitWidth zeroFlag width x)

/-! ### The format -/

/-- The flag of a conversion, and `format` behind it. -/
def parseFlag (format : List UInt8) : Bool × List UInt8 :=
  if format.headD 0 = 48 then (true, format.tail) else (false, format)

/-- The loop over the digits of the width. -/
def parseWidth : ℕ → List UInt8 → ℕ × List UInt8
  | width, [] => (width, [])
  | width, c :: format =>
    if 48 ≤ c ∧ c ≤ 57 then
      let digit := c.toNat - 48
      parseWidth (if width ≤ (2 ^ 32 - 1 - digit) / 10 then width * 10 + digit else 2 ^ 32 - 1) format
    else (width, c :: format)

/-- The length modifier. -/
def parseSize (format : List UInt8) : FormatSize × List UInt8 :=
  if format.headD 0 = 104 then
    let format := format.tail
    if format.headD 0 = 104 then (.hh, format.tail) else (.h, format)
  else if format.headD 0 = 108 then
    let format := format.tail
    if format.headD 0 = 108 then (.ll, format.tail) else (.l, format)
  else (.normal, format)

/-- The loop of `vsnprintf`.  Each pass consumes a character, so that the length of the format
is enough fuel. -/
def vsnprintfLoop (strings : UInt32 → List UInt8) :
    ℕ → Formatter → List UInt8 → VaList → Option Formatter
  | 0, f, _, _ => some f
  | fuel + 1, f, format, arg =>
    if format.headD 0 = 0 then some f
    else if format.headD 0 ≠ 37 then
      vsnprintfLoop strings fuel (putChar f (format.headD 0)) format.tail arg
    else
      let format := format.tail
      if format.headD 0 = 0 then some f
      else
        let (zeroFlag, format) := parseFlag format
        let (width, format) := parseWidth 0 format
        let (size, format) := parseSize format
        if format.headD 0 = 0 then some f
        else
          let (converted, arg) := switchConversion strings size (format.headD 0) arg
          match putConverted f zeroFlag width converted with
          | none => none
          | some f => vsnprintfLoop strings fuel f format.tail arg

/-- `vsnprintf`: the result, and the output when it returns. -/
def vsnprintf (strings : UInt32 → List UInt8) (s : Option ByteMem) (n : UInt32)
    (format : Option (List UInt8)) (arg : VaList) : Option (ℤ × Formatter) :=
  let f : Formatter := ⟨s, 0, n.toNat, []⟩
  match format with
  | none => some (-1, f)
  | some format =>
    if s.isNone ∧ n ≠ 0 then some (-1, f)
    else
      match vsnprintfLoop strings format.length f format arg with
      | none => none
      | some f =>
        let f' := if s.isSome ∧ 0 < n.toNat then
          f.store (if f.index < n.toNat then f.index else n.toNat - 1) 0 else f
        some ((f.index : ℤ).bmod (2 ^ 32), f')

end Gummy
