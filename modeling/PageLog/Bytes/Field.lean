import PageLog.Error

/-!
# Numbers at fixed places of a page

Pages come from a disk, so a field that lies outside the page is an error and never assumed away.
Reading outside the page means that the page is damaged; writing outside it means that the caller
asked for too much.

## Main definitions

* `Field.readU16`, `Field.readU32`, `Field.readU64` — the number at an offset.
* `Field.writeU16`, `Field.writeU32`, `Field.writeU64` — putting a number at an offset.
-/

namespace PageLog.Field

/-- The bytes of a field. -/
def read (page : Bytes) (off width : Nat) : Result Bytes :=
  match Bytes.window page off width with
  | some bs => .ok bs
  | none => .error (.corruption .fieldOutOfBounds)

/-- Puts `data` into a field of the page. -/
def write (off : Nat) (data : Bytes) : Act Bytes Unit := fun page =>
  match Bytes.window page off data.length with
  | some _ => .ok () (Bytes.overwrite page off data)
  | none => .error (.invalid .fieldOutOfBounds) page

/-- The 16-bit number at `off`. -/
def readU16 (page : Bytes) (off : Nat) : Result UInt16 := (read page off 2).map Bytes.toU16

/-- The 32-bit number at `off`. -/
def readU32 (page : Bytes) (off : Nat) : Result UInt32 := (read page off 4).map Bytes.toU32

/-- The 64-bit number at `off`. -/
def readU64 (page : Bytes) (off : Nat) : Result UInt64 := (read page off 8).map Bytes.toU64

/-- Puts a 16-bit number at `off`. -/
def writeU16 (off : Nat) (v : UInt16) : Act Bytes Unit := write off (bytesOfU16 v)

/-- Puts a 32-bit number at `off`. -/
def writeU32 (off : Nat) (v : UInt32) : Act Bytes Unit := write off (bytesOfU32 v)

/-- Puts a 64-bit number at `off`. -/
def writeU64 (off : Nat) (v : UInt64) : Act Bytes Unit := write off (bytesOfU64 v)

theorem read_eq_ok {page : Bytes} {off width : Nat} (h : off + width ≤ page.length) :
    read page off width = .ok ((page.drop off).take width) := by
  simp [read, Bytes.window_eq_some h]

theorem write_eq_ok {page data : Bytes} {off : Nat} (h : off + data.length ≤ page.length) :
    write off data page = .ok () (Bytes.overwrite page off data) := by
  simp [write, Bytes.window_eq_some h]

end PageLog.Field
