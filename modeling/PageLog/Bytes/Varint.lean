import PageLog.Error

/-!
# Variable-length numbers

A number is cut into groups of seven bits, least significant first, one group to a byte; every
byte but the last has its top bit set.  A 64-bit number takes at most ten bytes, and the tenth may
hold a single bit.  Groups of zeros at the end are allowed when reading.

## Main definitions

* `Varint.encode` — the shortest form of a number.
* `Varint.decode` — the number at the beginning of a byte string, and what is left of the string.
-/

namespace PageLog.Varint

/-- The shortest form of `n`. -/
def encode (n : Nat) : Bytes :=
  if n < 128 then [UInt8.ofNat n] else UInt8.ofNat (n % 128 + 128) :: encode (n / 128)
termination_by n
decreasing_by omega

/-- What came of reading a number: the number or the damage met, and the bytes not consumed.  Bytes
read before damage is met count as consumed. -/
structure Reading where
  /-- The number, or why there is none. -/
  value : Except Damage Nat
  /-- The bytes that follow. -/
  rest : Bytes
  deriving Inhabited

/-- The most bytes a number may take. -/
def maxLength : Nat := 10

/-- Reads further groups into `acc`, where `left` more bytes are allowed and the next group counts
`2 ^ shift`. -/
def decodeFrom : (left shift acc : Nat) → Bytes → Reading
  | 0, _, _, bs => ⟨.error .varintTooLong, bs⟩
  | _ + 1, _, _, [] => ⟨.error .varintTruncated, []⟩
  | left + 1, shift, acc, b :: rest =>
      if left = 0 ∧ 1 < b.toNat % 128 then ⟨.error .varintOverflow, rest⟩
      else
        let acc' := acc + (b.toNat % 128) <<< shift
        if b.toNat < 128 then ⟨.ok acc', rest⟩ else decodeFrom left (shift + 7) acc' rest

/-- The number at the beginning of `bs`. -/
def decode (bs : Bytes) : Reading := decodeFrom maxLength 0 0 bs

theorem encode_of_lt {n : Nat} (h : n < 128) : encode n = [UInt8.ofNat n] := by
  rw [encode, if_pos h]

theorem encode_of_ge {n : Nat} (h : 128 ≤ n) :
    encode n = UInt8.ofNat (n % 128 + 128) :: encode (n / 128) := by
  rw [encode, if_neg (Nat.not_lt.2 h)]

end PageLog.Varint
