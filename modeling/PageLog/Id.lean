import PageLog.Text

/-!
# Groups, pages and places in the log

A page belongs to a cache group and carries a 64-bit number in it; a record of the log carries a
sequence number and lies at a place in the file.

## Main definitions

* `GroupId`, `PageId`, `Lsn` — the three kinds of number.
* `PageId.null` — the page number that names no page.
* `LogPointer` — where a frame of the log lies.
-/

namespace PageLog

/-- A cache group: a set of pages of one size. -/
abbrev GroupId := Int32

/-- A page of a cache group. -/
abbrev PageId := UInt64

/-- The sequence number of a log record. -/
abbrev Lsn := UInt64

/-- The number that names no page. -/
def PageId.null : PageId := 0

/-- Page numbers are written in hexadecimal with all sixteen digits. -/
def PageId.text (p : PageId) : String := "0x" ++ hexDigits 16 p.toNat

/-- Groups are written in decimal. -/
def GroupId.text (g : GroupId) : String := toString g.toInt

/-- Sequence numbers are written in decimal. -/
def Lsn.text (l : Lsn) : String := toString l.toNat

/-- Where a frame lies in the log file. -/
structure LogPointer where
  /-- The sequence number of the record in the frame. -/
  lsn : Lsn
  /-- The offset of the frame's first byte. -/
  offset : Nat
  /-- The count of bytes of the whole frame. -/
  len : Nat
  deriving DecidableEq, Repr, Inhabited

/-- A pointer as it is written in reports. -/
def LogPointer.text (p : LogPointer) : String :=
  s!"lsn={Lsn.text p.lsn} off={p.offset} len={p.len}"

end PageLog
