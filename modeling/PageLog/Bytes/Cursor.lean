import PageLog.Bytes.Varint

/-!
# Reading a record field by field

A cursor stands somewhere in a byte string.  Each reading step takes the next field and moves the
cursor behind it; a step that does not find enough bytes leaves the cursor where it is.  A
variable-length number is the exception: it consumes the bytes it looked at even when it fails.

## Main definitions

* `Cursor` — a position in a byte string.
* `Cursor.take`, `Cursor.u8`, `Cursor.u16`, `Cursor.i32`, `Cursor.u64`, `Cursor.varint` — the
  fields.
* `Cursor.finish` — nothing may be left over.
-/

namespace PageLog

/-- A position in a byte string. -/
structure Cursor where
  /-- How many bytes have been consumed. -/
  off : Nat
  /-- The bytes still to read. -/
  rest : Bytes
  deriving DecidableEq, Repr, Inhabited

namespace Cursor

/-- The cursor at the beginning of `bs`. -/
def start (bs : Bytes) : Cursor := ⟨0, bs⟩

/-- How many bytes are still to read. -/
def remaining (c : Cursor) : Nat := c.rest.length

/-- The cursor with its position and what lies ahead of it, for people to read. -/
def text (c : Cursor) : String :=
  "Cursor \x7b off: " ++ toString c.off ++ ", remaining: " ++ toString c.remaining ++ " \x7d"

/-- The next `n` bytes. -/
def take (n : Nat) : Act Cursor Bytes := fun c =>
  if n ≤ c.rest.length then .ok (c.rest.take n) ⟨c.off + n, c.rest.drop n⟩
  else .error (.corruption .recordTruncated) c

/-- The next byte. -/
def u8 : Act Cursor UInt8 := (fun bs => UInt8.ofNat (Bytes.toNat bs)) <$> take 1

/-- The next two bytes as a number. -/
def u16 : Act Cursor UInt16 := Bytes.toU16 <$> take 2

/-- The next four bytes as a signed number. -/
def i32 : Act Cursor Int32 := Bytes.toI32 <$> take 4

/-- The next eight bytes as a number. -/
def u64 : Act Cursor UInt64 := Bytes.toU64 <$> take 8

/-- The next variable-length number. -/
def varint : Act Cursor UInt64 := fun c =>
  let reading := Varint.decode c.rest
  let c' : Cursor := ⟨c.off + (c.rest.length - reading.rest.length), reading.rest⟩
  match reading.value with
  | .ok n => .ok (UInt64.ofNat n) c'
  | .error damage => .error (.corruption damage) c'

/-- The record must end here. -/
def finish : Act Cursor Unit := fun c =>
  if c.rest.isEmpty then .ok () c else .error (.corruption .trailingBytes) c

end Cursor

end PageLog
