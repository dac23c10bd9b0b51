import PageLog.Record.Basic
import PageLog.Bytes.Cursor

/-!
# Records as bytes

A record is written as the code of its kind in variable length, followed by fields of fixed
length.  The page of a change comes before what is set; the two numbers of its format take four
bytes each, although only two of them may be in use.

## Main definitions

* `Record.encode` — the bytes of a record.
* `Record.decode` — the record that just these bytes are.
-/

namespace PageLog

/-! ### Writing -/

/-- The bytes of a page and its format. -/
def PageTarget.encode (t : PageTarget) : Bytes :=
  bytesOfI32 t.group ++ bytesOfU64 t.page ++ bigEndian 4 t.ioType.toNat ++
    bigEndian 4 t.ioVersion.toNat

/-- The bytes of what a change sets. -/
def PageChange.encode : PageChange → Bytes
  | .init prev data => bytesOfU64 prev ++ bytesOfU64 data
  | .setNext next => bytesOfU64 next
  | .setPrev prev => bytesOfU64 prev
  | .add slot data => bytesOfU16 slot ++ bytesOfU64 data
  | .remove slot data => bytesOfU16 slot ++ bytesOfU64 data

namespace Record

/-- The fields of a record, which follow the code of its kind. -/
def fields : Record → Bytes
  | .snapshot id full => bytesOfU64 id ++ [if full then 1 else 0]
  | .checkpoint id => bytesOfU64 id
  | .delta d => d.target.encode ++ d.change.encode

/-- The bytes of a record. -/
def encode (r : Record) : Bytes := Varint.encode r.recordType.code ++ r.fields

end Record

/-! ### Reading -/

/-- A four-byte number of which only 16 bits may be in use. -/
def Cursor.narrow (damage : Damage) : Act Cursor UInt16 := do
  let v ← Cursor.i32
  if v.toInt < 0 ∨ 65536 ≤ v.toInt then throw (.corruption damage)
  return UInt16.ofNat v.toInt.toNat

/-- Reads a page and its format. -/
def PageTarget.read : Act Cursor PageTarget := do
  let group ← Cursor.i32
  let page ← Cursor.u64
  let ioType ← Cursor.narrow .recordIoType
  let ioVersion ← Cursor.narrow .recordIoVersion
  return ⟨group, page, ioType, ioVersion⟩

namespace Record

/-- Reads the flag of a snapshot. -/
def readFlag : Act Cursor Bool := do
  match ← Cursor.u8 with
  | 0 => return false
  | 1 => return true
  | _ => throw (.corruption .snapshotFlag)

/-- Reads the fields of a change of a page. -/
def readDelta (change : Act Cursor PageChange) : Act Cursor Record := do
  let target ← PageTarget.read
  let change ← change
  return .delta ⟨target, change⟩

/-- Reads the fields of a record of a given kind. -/
def readFields : RecordType → Act Cursor Record
  | .snapshot => do
      let id ← Cursor.u64
      let full ← readFlag
      return .snapshot id full
  | .checkpoint => do
      let id ← Cursor.u64
      return .checkpoint id
  | .initNewPage => readDelta do
      let prev ← Cursor.u64
      let data ← Cursor.u64
      return .init prev data
  | .setNext => readDelta do
      let next ← Cursor.u64
      return .setNext next
  | .setPrevious => readDelta do
      let prev ← Cursor.u64
      return .setPrev prev
  | .addPage => readDelta do
      let slot ← Cursor.u16
      let data ← Cursor.u64
      return .add slot data
  | .removePage => readDelta do
      let slot ← Cursor.u16
      let data ← Cursor.u64
      return .remove slot data

/-- Reads a record up to the end of its bytes. -/
def read : Act Cursor Record := do
  let code ← Cursor.varint
  match RecordType.ofCode? code.toNat with
  | none => throw (.corruption .unknownRecordType)
  | some kind =>
      let r ← readFields kind
      Cursor.finish
      return r

/-- The record that just the bytes `bs` are. -/
def decode (bs : Bytes) : Result Record :=
  match read (Cursor.start bs) with
  | .ok r _ => .ok r
  | .error e _ => .error e

end Record

end PageLog
