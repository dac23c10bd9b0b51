/-!
# Byte strings

Everything stored here (the log file, the pages, the records, the messages between servers) is a
string of bytes, and every number in it is written with the most significant byte first.  This
module fixes the representation, the big-endian numerals, and the two ways a stretch of bytes is
addressed: reading a window and writing over one.

## Main definitions

* `bigEndian`, `Bytes.toNat` — a number as a given count of bytes, and back.
* `Bytes.window` — the bytes at an offset, if they are all there.
* `Bytes.overwrite` — the same string with other bytes at an offset.
-/

namespace PageLog

/-- A byte string. -/
abbrev Bytes := List UInt8

/-! ### Big-endian numerals -/

/-- The `width` low-order base-256 digits of `n`, most significant first.  Digits above are
dropped. -/
def bigEndian : (width n : Nat) → Bytes
  | 0, _ => []
  | width + 1, n => bigEndian width (n / 256) ++ [UInt8.ofNat n]

/-- The number whose base-256 digits are `bs`, most significant first. -/
def Bytes.toNat (bs : Bytes) : Nat :=
  bs.foldl (fun acc b => acc * 256 + b.toNat) 0

@[simp] theorem bigEndian_zero (n : Nat) : bigEndian 0 n = [] := rfl

@[simp] theorem length_bigEndian (width n : Nat) : (bigEndian width n).length = width := by
  induction width generalizing n with
  | zero => rfl
  | succ width ih => simp [bigEndian, ih]

@[simp] theorem Bytes.toNat_nil : Bytes.toNat [] = 0 := rfl

/-- Two bytes, most significant first. -/
def bytesOfU16 (v : UInt16) : Bytes := bigEndian 2 v.toNat

/-- Four bytes, most significant first. -/
def bytesOfU32 (v : UInt32) : Bytes := bigEndian 4 v.toNat

/-- Four bytes in two's complement, most significant first. -/
def bytesOfI32 (v : Int32) : Bytes := bytesOfU32 v.toUInt32

/-- Eight bytes, most significant first. -/
def bytesOfU64 (v : UInt64) : Bytes := bigEndian 8 v.toNat

@[simp] theorem length_bytesOfU16 (v : UInt16) : (bytesOfU16 v).length = 2 := by
  simp [bytesOfU16]

@[simp] theorem length_bytesOfU32 (v : UInt32) : (bytesOfU32 v).length = 4 := by
  simp [bytesOfU32]

@[simp] theorem length_bytesOfI32 (v : Int32) : (bytesOfI32 v).length = 4 := by
  simp [bytesOfI32]

@[simp] theorem length_bytesOfU64 (v : UInt64) : (bytesOfU64 v).length = 8 := by
  simp [bytesOfU64]

/-- The 16-bit number written in `bs`. -/
def Bytes.toU16 (bs : Bytes) : UInt16 := UInt16.ofNat (Bytes.toNat bs)

/-- The 32-bit number written in `bs`. -/
def Bytes.toU32 (bs : Bytes) : UInt32 := UInt32.ofNat (Bytes.toNat bs)

/-- The signed 32-bit number written in `bs`. -/
def Bytes.toI32 (bs : Bytes) : Int32 := (Bytes.toU32 bs).toInt32

/-- The 64-bit number written in `bs`. -/
def Bytes.toU64 (bs : Bytes) : UInt64 := UInt64.ofNat (Bytes.toNat bs)

/-! ### Addressing -/

/-- The `width` bytes of `bs` from offset `off`, if the string reaches that far.  What lies behind
them is not looked at, so that reading near the beginning of a long string is cheap. -/
def Bytes.window (bs : Bytes) (off width : Nat) : Option Bytes :=
  let w := (bs.drop off).take width
  if w.length < width ∨ (width = 0 ∧ bs.length < off) then none else some w

/-- A window is there just when the string reaches to its end. -/
theorem Bytes.window_eq (bs : Bytes) (off width : Nat) :
    Bytes.window bs off width =
      if off + width ≤ bs.length then some ((bs.drop off).take width) else none := by
  have hlen : ((bs.drop off).take width).length = min width (bs.length - off) := by
    rw [List.length_take, List.length_drop]
  simp only [Bytes.window, hlen]
  split <;> split
  · omega
  · rfl
  · rfl
  · omega

theorem Bytes.window_eq_some {bs : Bytes} {off width : Nat} (h : off + width ≤ bs.length) :
    Bytes.window bs off width = some ((bs.drop off).take width) := by
  rw [Bytes.window_eq, if_pos h]

theorem Bytes.window_eq_none {bs : Bytes} {off width : Nat} (h : bs.length < off + width) :
    Bytes.window bs off width = none := by
  rw [Bytes.window_eq, if_neg (Nat.not_le.2 h)]

theorem Bytes.length_window {bs w : Bytes} {off width : Nat}
    (h : Bytes.window bs off width = some w) : w.length = width := by
  rw [Bytes.window_eq] at h
  split at h
  · cases h
    simp only [List.length_take, List.length_drop]
    omega
  · cases h

/-- `bs` with `data` in place of the bytes from offset `off` on.  It is meant for windows inside
`bs`; there the length stays. -/
def Bytes.overwrite (bs : Bytes) (off : Nat) (data : Bytes) : Bytes :=
  bs.take off ++ (data ++ bs.drop (off + data.length))

theorem Bytes.length_overwrite {bs : Bytes} {off : Nat} {data : Bytes}
    (h : off + data.length ≤ bs.length) : (Bytes.overwrite bs off data).length = bs.length := by
  simp only [Bytes.overwrite, List.length_append, List.length_take, List.length_drop]
  omega

/-- `n` zero bytes. -/
def Bytes.zeros (n : Nat) : Bytes := List.replicate n 0

@[simp] theorem Bytes.length_zeros (n : Nat) : (Bytes.zeros n).length = n := by
  simp [Bytes.zeros]

/-- The first `n` bytes of `bs`, filled up with zeros when there are fewer. -/
def Bytes.resize (bs : Bytes) (n : Nat) : Bytes :=
  bs.take n ++ Bytes.zeros (n - bs.length)

@[simp] theorem Bytes.length_resize (bs : Bytes) (n : Nat) : (Bytes.resize bs n).length = n := by
  simp only [Bytes.resize, List.length_append, List.length_take, Bytes.length_zeros]
  omega

end PageLog
