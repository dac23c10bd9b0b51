import PageLog.Log.Scan
import PageLog.Record.Codec
import PageLog.Report.Json

/-!
# Listing a log

A listing shows every frame of a log file with the record in it, without changing the file.  A
frame whose payload is no record is shown all the same, with what is wrong with it.

## Main definitions

* `Listing` and `Listing.ofDisk` — what a log file holds.
* `Listing.lines`, `Listing.json` — a listing for people and for programs.
-/

namespace PageLog

open Report (Json)

/-- What a log file holds. -/
structure Listing where
  /-- Whose log it is. -/
  salt : UInt64
  /-- How far the log is valid. -/
  validUpTo : Nat
  /-- The length of the file. -/
  fileLen : Nat
  /-- The frames. -/
  frames : List Frame
  deriving DecidableEq, Repr, Inhabited

/-- The listing of the log in a file. -/
def Listing.ofDisk : Act Disk Listing := do
  let fileLen ← Disk.len
  let scan ← Scan.existing
  let (scan, frames) ← fun d =>
    match scan.forEach (fun f => modify (f :: ·)) (d, []) with
    | .ok scan (d, frames) => .ok (scan, frames.reverse) d
    | .error e (d, _) => .error e d
  return ⟨scan.header.salt, scan.validUpTo, fileLen, frames⟩

/-- The record in a frame, or what is wrong with its payload. -/
def Frame.record (f : Frame) : Result Record := Record.decode f.payload

/-! ### For people -/

/-- A frame for people to read, with its bytes if asked for. -/
def Frame.lines (hex : Bool) (f : Frame) : List String :=
  let record :=
    match f.record with
    | .ok r => r.text
    | .error e => s!"<undecodable: {e.message}>"
  s!"  {f.pointer.text} {record}" :: if hex then ["    " ++ Bytes.toHex f.payload] else []

/-- The lines of a listing for people to read. -/
def Listing.lines (hex : Bool) (l : Listing) : List String :=
  ["WAL salt=0x" ++ hexDigits 1 l.salt.toNat ++
      s!" valid_up_to={l.validUpTo} file_len={l.fileLen}"] ++
    l.frames.flatMap (Frame.lines hex) ++
    if l.validUpTo < l.fileLen then
      [s!"  torn tail: {l.fileLen - l.validUpTo} byte(s) past the last valid frame"]
    else []

/-! ### For programs -/

/-- What a change sets. -/
def PageChange.jsonFields : PageChange → List (String × Json)
  | .init prev data => [("prev_page_id", .word prev), ("add_data_page_id", .word data)]
  | .setNext next => [("next_page_id", .word next)]
  | .setPrev prev => [("prev_page_id", .word prev)]
  | .add slot data => [("slot", .number slot.toNat), ("data_page_id", .word data)]
  | .remove slot data => [("slot", .number slot.toNat), ("data_page_id", .word data)]

/-- A page and its format. -/
def PageTarget.json (t : PageTarget) : Json :=
  .record [("group_id", .number t.group.toInt), ("page_id", .word t.page),
    ("io_type", .number t.ioType.toNat), ("io_version", .number t.ioVersion.toNat)]

/-- What a record says. -/
def Record.jsonFields : Record → List (String × Json)
  | .snapshot id full => [("snapshot_id", .word id), ("full", .boolean full)]
  | .checkpoint id => [("checkpoint_id", .word id)]
  | .delta d => ("delta", d.target.json) :: d.change.jsonFields

/-- A record. -/
def Record.json (r : Record) : Json :=
  .record (("type", .text r.recordType.name) :: r.jsonFields)

/-- Where a frame lies. -/
def LogPointer.json (p : LogPointer) : Json :=
  .record [("lsn", .word p.lsn), ("offset", .number p.offset), ("len", .number p.len)]

/-- A frame, with its bytes if asked for. -/
def Frame.json (hex : Bool) (f : Frame) : Json :=
  let content : String × Json :=
    match f.record with
    | .ok r => ("record", r.json)
    | .error e => ("decode_error", .text e.message)
  .record ([("pointer", f.pointer.json), content] ++
    if hex then [("payload_hex", .text (Bytes.toHex f.payload))] else [])

/-- A listing. -/
def Listing.json (hex : Bool) (l : Listing) : Json :=
  .record [("salt", .word l.salt), ("valid_up_to", .number l.validUpTo),
    ("file_len", .number l.fileLen), ("records", .list (l.frames.map (Frame.json hex)))]

end PageLog
