import PageLog.Bytes

/-!
# Numbers, bytes and times as text

The forms in which numbers, byte strings and lengths of time appear in messages and reports.

## Main definitions

* `hexDigits` — a number in lower-case hexadecimal with a least count of digits.
* `Bytes.toHex`, `Bytes.ofHex?` — a byte string as pairs of hexadecimal digits, and back.
* `Duration` and `Duration.text` — a length of time, written in the largest unit it fills.
-/

namespace PageLog

/-! ### Hexadecimal -/

/-- The lower-case hexadecimal digit of a number below sixteen. -/
def hexDigit (n : Nat) : Char :=
  if n < 10 then Char.ofNat (48 + n) else Char.ofNat (87 + n)

/-- The value of a hexadecimal digit of either case. -/
def hexValue? (c : Char) : Option Nat :=
  if '0' ≤ c ∧ c ≤ '9' then some (c.toNat - 48)
  else if 'a' ≤ c ∧ c ≤ 'f' then some (c.toNat - 87)
  else if 'A' ≤ c ∧ c ≤ 'F' then some (c.toNat - 55)
  else none

/-- `n` in lower-case hexadecimal, filled up with zeros to `width` digits. -/
def hexDigits (width n : Nat) : String :=
  let digits := Nat.toDigits 16 n
  String.ofList (List.replicate (width - digits.length) '0' ++ digits)

/-- Two lower-case hexadecimal digits for each byte. -/
def Bytes.toHex (bs : Bytes) : String :=
  String.ofList (bs.flatMap fun b => [hexDigit (b.toNat / 16), hexDigit (b.toNat % 16)])

/-- The bytes given by pairs of hexadecimal digits; nothing else is accepted. -/
def Bytes.ofHexChars? : List Char → Option Bytes
  | [] => some []
  | hi :: lo :: rest => do
      let h ← hexValue? hi
      let l ← hexValue? lo
      let bs ← Bytes.ofHexChars? rest
      return UInt8.ofNat (16 * h + l) :: bs
  | [_] => none

/-- The bytes written in `s` as pairs of hexadecimal digits. -/
def Bytes.ofHex? (s : String) : Option Bytes := Bytes.ofHexChars? s.toList

/-- Puts the eight-byte words of `bs` that are not all zeros in front of `texts`, the last word
first, each in hexadecimal behind its offset; `off` is the offset of the first word. -/
def Bytes.wordTextsFrom (off : Nat) (bs : Bytes) (texts : List String) : List String :=
  if _ : bs = [] then texts
  else
    let word := bs.take 8
    wordTextsFrom (off + 8) (bs.drop 8)
      (if word.all (· == 0) then texts else (toString off ++ ":" ++ Bytes.toHex word) :: texts)
termination_by bs.length
decreasing_by
  have hpos := List.length_pos_iff.2 ‹¬bs = []›
  simp only [List.length_drop]
  omega

/-- The eight-byte words of `bs` that are not all zeros, each in hexadecimal behind its offset. -/
def Bytes.wordTexts (bs : Bytes) : List String := (Bytes.wordTextsFrom 0 bs []).reverse

/-! ### Lengths of time -/

/-- A length of time, in nanoseconds. -/
structure Duration where
  /-- The count of nanoseconds. -/
  nanos : Nat
  deriving DecidableEq, Repr, Inhabited

/-- `n` microseconds. -/
def Duration.ofMicros (n : Nat) : Duration := ⟨n * 1000⟩

/-- `n` milliseconds. -/
def Duration.ofMillis (n : Nat) : Duration := ⟨n * 1000000⟩

/-- The decimal digits of a fraction `part / 10 ^ places`, without the zeros at its end. -/
def fractionDigits (places part : Nat) : List Char :=
  let digits := Nat.toDigits 10 part
  let padded := List.replicate (places - digits.length) '0' ++ digits
  (padded.reverse.dropWhile (· = '0')).reverse

/-- A count of `10 ^ places` parts of a unit, as a decimal number of units. -/
def unitsText (places amount : Nat) : String :=
  let whole := toString (amount / Nat.pow 10 places)
  match fractionDigits places (amount % Nat.pow 10 places) with
  | [] => whole
  | digits => whole ++ "." ++ String.ofList digits

/-- A length of time in the largest of seconds, milliseconds, microseconds and nanoseconds of
which it holds at least one, with no more decimal places than it needs. -/
def Duration.text (d : Duration) : String :=
  if 1000000000 ≤ d.nanos then unitsText 9 d.nanos ++ "s"
  else if 1000000 ≤ d.nanos then unitsText 6 d.nanos ++ "ms"
  else if 1000 ≤ d.nanos then unitsText 3 d.nanos ++ "µs"
  else toString d.nanos ++ "ns"

end PageLog
