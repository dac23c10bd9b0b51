import PageLog.Text
import PageLog.Toml.Value

/-!
# Scalars without quotes

Numbers, truth values and moments are written without quotes, as one run of letters, digits and a
few signs; only a date may be followed by a blank and the time of day.  Here such a run is
recognised as a whole.  Integers have 64 bits with a sign, and a number with a fraction must not be
so large that it rounds to infinity.

## Main definitions

* `integer?` — integers in decimal, hexadecimal, octal and binary.
* `isFloat` — numbers with a fraction or an exponent.
* `isDate`, `isTime` — dates and times.
* `scalar` — the scalar at the beginning of a text.
-/

namespace PageLog.Toml

/-! ### Integers -/

/-- Whether a character is a digit of a base up to sixteen. -/
def isDigitIn (base : Nat) (c : Char) : Bool := (hexValue? c).any (· < base)

/-- Whether `cs` is a number in which single underscores may stand between digits. -/
def isGrouped (base : Nat) : List Char → Bool
  | [] => false
  | [c] => isDigitIn base c
  | c :: '_' :: rest => isDigitIn base c && isGrouped base rest
  | c :: rest => isDigitIn base c && isGrouped base rest

/-- The digits of a number in which single underscores may stand between digits, without the
underscores. -/
def ungrouped (base : Nat) (cs : List Char) : Option (List Char) :=
  if isGrouped base cs then some (cs.filter (· != '_')) else none

/-- The number that digits stand for. -/
def digitsValue (base : Nat) (digits : List Char) : Nat :=
  digits.foldl (fun n c => n * base + (hexValue? c).getD 0) 0

/-- The number that digits stand for, or `limit` if it is greater. -/
def limitedValue (limit base : Nat) (digits : List Char) : Nat :=
  digits.foldl (fun n c => min limit (n * base + (hexValue? c).getD 0)) 0

/-- The least number that 64 bits do not hold. -/
def wordLimit : Nat := 18446744073709551616

/-- The natural number written in `cs`, or the least that 64 bits do not hold if it is greater. -/
def natural? (base : Nat) (cs : List Char) : Option Nat :=
  limitedValue wordLimit base <$> ungrouped base cs

/-- The natural number written in `cs` in decimal, without needless zeros in front. -/
def decimal? (cs : List Char) : Option Nat :=
  if cs.head? = some '0' ∧ cs ≠ ['0'] then none else natural? 10 cs

/-- The integer `n`, if 64 bits hold it. -/
def inRange (n : Int) : Option Int :=
  if -9223372036854775808 ≤ n ∧ n ≤ 9223372036854775807 then some n else none

/-- The integer written in `cs`.  Only decimal ones have a sign. -/
def integer? (cs : List Char) : Option Int :=
  let number : Option Int :=
    match cs with
    | '0' :: 'x' :: digits => (natural? 16 digits).map Int.ofNat
    | '0' :: 'o' :: digits => (natural? 8 digits).map Int.ofNat
    | '0' :: 'b' :: digits => (natural? 2 digits).map Int.ofNat
    | '-' :: digits => (decimal? digits).map fun n => -Int.ofNat n
    | '+' :: digits => (decimal? digits).map Int.ofNat
    | digits => (decimal? digits).map Int.ofNat
  number.bind inRange

/-! ### Numbers with a fraction -/

/-- A run of characters without its sign, and whether the sign is a minus. -/
def unsigned : List Char → Bool × List Char
  | '-' :: cs => (true, cs)
  | '+' :: cs => (false, cs)
  | cs => (false, cs)

/-- Whether the number of the given decimal digits, moved by `exponent` places, rounds to a finite
number of 64 bits.  The least number that does not is half a step above the greatest one, and an
integer, so that a fraction does not count. -/
def isFinite (digits : List Char) (exponent : Int) : Bool :=
  let digits := digits.dropWhile (· == '0')
  let places := Int.ofNat digits.length + exponent
  if digits = [] ∨ places < 309 then true
  else if 309 < places then false
  else
    let whole := digitsValue 10 (digits.take 309) * Nat.pow 10 (309 - digits.length)
    whole < Nat.pow 2 1024 - Nat.pow 2 970

/-- The number that the digits of an exponent stand for.  Once they make up 65536 or more, further
digits do not count. -/
def exponentValue (digits : List Char) : Nat :=
  digits.foldl (fun n c => if n < 65536 then n * 10 + (hexValue? c).getD 0 else n) 0

/-- The exponent written in `cs` behind its mark, or zero if there is nothing. -/
def exponent? : List Char → Option Int
  | [] => some 0
  | c :: cs =>
      if c = 'e' ∨ c = 'E' then
        let (negative, digits) := unsigned cs
        (exponentValue <$> ungrouped 10 digits).map fun n =>
          if negative then -Int.ofNat n else Int.ofNat n
      else none

/-- Whether `cs` is a finite number with a fraction, an exponent or both; only for numbers above
zero the size is limited. -/
def isFiniteFloat (cs : List Char) : Bool :=
  let isPart := fun c => isDigitIn 10 c || c == '_'
  let (negative, cs) := unsigned cs
  let whole := cs.takeWhile isPart
  let finite (fraction : List Char) (rest : List Char) : Bool :=
    match ungrouped 10 whole, exponent? rest with
    | some ds, some e =>
        negative || isFinite (ds ++ fraction) (e - Int.ofNat fraction.length)
    | _, _ => false
  (decimal? whole).isSome &&
    match cs.dropWhile isPart with
    | [] => false
    | '.' :: rest =>
        match ungrouped 10 (rest.takeWhile isPart) with
        | some fraction => finite fraction (rest.dropWhile isPart)
        | none => false
    | rest => finite [] rest

/-- Whether `cs` is a number with a fraction or an exponent, or none of the finite ones. -/
def isFloat (cs : List Char) : Bool :=
  let name := (unsigned cs).2
  name == ['i', 'n', 'f'] || name == ['n', 'a', 'n'] || isFiniteFloat cs

/-! ### Moments -/

/-- The number written in exactly `n` decimal digits at the beginning of `cs`, and what follows. -/
def fixed? (n : Nat) (cs : List Char) : Option (Nat × List Char) :=
  let digits := cs.take n
  if digits.length = n ∧ digits.all (isDigitIn 10) then some (digitsValue 10 digits, cs.drop n)
  else none

/-- The days of a month. -/
def daysOf (year month : Nat) : Nat :=
  if month = 2 then
    if year % 4 = 0 ∧ (year % 100 ≠ 0 ∨ year % 400 = 0) then 29 else 28
  else if month ∈ [4, 6, 9, 11] then 30
  else 31

/-- What follows a date at the beginning of `cs`. -/
def afterDate? (cs : List Char) : Option (List Char) := do
  let (year, cs) ← fixed? 4 cs
  let '-' :: cs := cs | none
  let (month, cs) ← fixed? 2 cs
  let '-' :: cs := cs | none
  let (day, cs) ← fixed? 2 cs
  if 1 ≤ month ∧ month ≤ 12 ∧ 1 ≤ day ∧ day ≤ daysOf year month then some cs else none

/-- What follows an hour and a minute at the beginning of `cs`. -/
def afterMinute? (cs : List Char) : Option (List Char) := do
  let (hour, cs) ← fixed? 2 cs
  let ':' :: cs := cs | none
  let (minute, cs) ← fixed? 2 cs
  if hour ≤ 23 ∧ minute ≤ 59 then some cs else none

/-- What follows a time of day at the beginning of `cs`; a minute may have a leap second. -/
def afterTime? (cs : List Char) : Option (List Char) := do
  let ':' :: cs ← afterMinute? cs | none
  let (second, cs) ← fixed? 2 cs
  if 60 < second then none
  match cs with
  | '.' :: rest =>
      let fraction := rest.takeWhile (isDigitIn 10)
      if fraction = [] then none else some (rest.dropWhile (isDigitIn 10))
  | _ => some cs

/-- Whether `cs` is a distance from universal time, or nothing. -/
def isOffset : List Char → Bool
  | [] | ['Z'] | ['z'] => true
  | c :: cs => (c == '+' || c == '-') && afterMinute? cs == some []

/-- Whether `cs` is a date. -/
def isDate (cs : List Char) : Bool := afterDate? cs == some []

/-- Whether `cs` is a time of day. -/
def isTime (cs : List Char) : Bool := afterTime? cs == some []

/-- Whether `cs` is a time of day, with a distance from universal time or without. -/
def isZonedTime (cs : List Char) : Bool := (afterTime? cs).any isOffset

/-- Whether `cs` is a date and a time of day with a letter between them. -/
def isDateTime (cs : List Char) : Bool :=
  match afterDate? cs with
  | some (c :: cs) => (c == 'T' || c == 't') && isZonedTime cs
  | _ => false

/-! ### Scalars -/

/-- Whether a character may stand in a scalar without quotes. -/
def isScalarChar (c : Char) : Bool := c.isAlphanum || "_+-.:".toList.contains c

/-- The value that a run of such characters stands for. -/
def Value.ofRun? (cs : List Char) : Option Value :=
  let s := String.ofList cs
  if s = "true" then some (.boolean true)
  else if s = "false" then some (.boolean false)
  else if isDate cs || isTime cs || isDateTime cs then some (.moment s)
  else if isFloat cs then some (.float s)
  else (integer? cs).map .integer

/-- The scalar without quotes at the beginning of `cs`, and what follows.  A digit after a date
and a blank begins the time of day. -/
def scalar (cs : List Char) : Option (Value × List Char) := do
  let run := cs.takeWhile isScalarChar
  let rest := cs.dropWhile isScalarChar
  let value ← Value.ofRun? run
  match rest with
  | ' ' :: c :: _ =>
      if isDate run && isDigitIn 10 c then
        let time := rest.tail.takeWhile isScalarChar
        if isZonedTime time then
          some (.moment (String.ofList (run ++ ' ' :: time)), rest.tail.dropWhile isScalarChar)
        else none
      else some (value, rest)
  | _ => some (value, rest)

end PageLog.Toml
