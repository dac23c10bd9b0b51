import PageLog.Log.Scan

/-!
# The log

An open log knows where its last valid frame ends and writes the next one there.  Records are
appended in batches; a batch goes to the file in pieces of a bounded number of frames, and the
numbering and the chain run on through all of them.  Opening a file that is too short for a header
begins a new log in it; opening any other file reads it up to the end of its valid frames.

## Main definitions

* `SyncMode`, `LogOptions`, `LogStats` — how a log is used, and what was done with it.
* `Writer`, `Writer.ofDisk` — an open log without its file.
* `Log` — an open log.
* `Log.append`, `Log.appendBatch`, `Log.sync`, `Log.truncateTo`, `Log.scan` — the operations.
-/

namespace PageLog

/-- When appended records are made durable. -/
inductive SyncMode where
  /-- With every append. -/
  | immediate
  /-- When asked for. -/
  | deferred
  /-- Never. -/
  | off
  deriving DecidableEq, Repr, Inhabited

/-- The mode as it is named in reports. -/
def SyncMode.name : SyncMode → String
  | .immediate => "Immediate"
  | .deferred => "Deferred"
  | .off => "Off"

/-- The mode as it is named in settings. -/
def SyncMode.setting : SyncMode → String
  | .immediate => "immediate"
  | .deferred => "deferred"
  | .off => "off"

/-- The mode that a setting names. -/
def SyncMode.ofSetting? : String → Option SyncMode
  | "immediate" => some .immediate
  | "deferred" => some .deferred
  | "off" => some .off
  | _ => none

/-- How a log is opened.  The number of the first record counts only for a new log. -/
structure LogOptions where
  /-- Whose log it is. -/
  salt : UInt64
  /-- The number of the first record. -/
  startLsn : Lsn
  /-- When appended records are made durable. -/
  mode : SyncMode
  deriving DecidableEq, Repr, Inhabited

/-- What was done with a log since it was opened. -/
structure LogStats where
  /-- Records appended. -/
  records : Nat
  /-- Bytes of the frames of these records. -/
  bytes : Nat
  /-- Times the file was made durable on append or on request. -/
  syncs : Nat
  /-- Pieces in which frames were written. -/
  coalescedWrites : Nat
  deriving DecidableEq, Repr, Inhabited

/-- Nothing was done yet. -/
def LogStats.zero : LogStats := ⟨0, 0, 0, 0⟩

/-! ### Opening -/

/-- An open log without its file. -/
structure Writer where
  /-- When appended records are made durable. -/
  mode : SyncMode
  /-- The header of the file. -/
  header : FileHeader
  /-- The state behind the last frame. -/
  tail : Tail
  /-- What was done so far. -/
  stats : LogStats
  deriving DecidableEq, Repr, Inhabited

namespace Writer

/-- Begins a new log in the file. -/
def create (h : FileHeader) : Act Disk Unit := do
  Disk.write 0 h.encode
  Disk.truncate FileHeader.size

/-- Reads the header of the log in the file, which must be the one expected. -/
def recognize (salt : UInt64) : Act Disk FileHeader := do
  let h ← Scan.readHeader
  if h.salt ≠ salt then throw (.corruption .logSalt)
  return h

/-- Opens the log in the file, beginning one if the file is too short to hold any. -/
def ofDisk (options : LogOptions) : Act Disk Writer := do
  let len ← Disk.len
  let fresh : FileHeader := ⟨options.salt, options.startLsn⟩
  let h ←
    if len < FileHeader.size then do
      create fresh
      pure fresh
    else recognize options.salt
  let scan ← Scan.ofHeader h
  let scan ← scan.toEnd
  return ⟨options.mode, h, scan.tail, .zero⟩

/-- Whether the file holds no byte behind the header of a log. -/
def fileIsEmpty : Act Disk Bool := (· ≤ FileHeader.size) <$> Disk.len

/-- The log without its contents, for people to read. -/
def text (w : Writer) : String :=
  "Wal \x7b sync_mode: " ++ w.mode.name ++ ", append_offset: " ++ toString w.tail.offset ++
    ", next_lsn: Lsn(" ++ Lsn.text w.tail.nextLsn ++ ") \x7d"

end Writer

/-- An open log. -/
structure Log where
  /-- The file. -/
  disk : Disk
  /-- What is known of the log in it. -/
  writer : Writer

namespace Log

/-- A call to the file. -/
def onDisk {α : Type} (act : Act Disk α) : Act Log α :=
  Act.on Log.disk (fun log disk => { log with disk }) act

/-- The number of the next record. -/
def nextLsn (log : Log) : Lsn := log.writer.tail.nextLsn

/-- Changes what is known of the log. -/
def updateWriter (f : Writer → Writer) : Act Log Unit :=
  modify fun log => { log with writer := f log.writer }

/-! ### Appending -/

/-- The most frames that are written in one piece. -/
def pieceLength : Nat := 256

/-- A list cut into pieces of `n + 1` elements, the last of which may be shorter. -/
def pieces {α : Type} (n : Nat) : List α → List (List α)
  | [] => []
  | x :: xs => (x :: xs.take n) :: pieces n (xs.drop n)
termination_by xs => xs.length
decreasing_by
  simp only [List.length_drop, List.length_cons]
  omega

/-- A payload that a frame can carry. -/
def admissible (payload : Bytes) : Bool := !payload.isEmpty && payload.length ≤ maxPayload

/-- Writes one piece.  The numbering and the chain move on before the file is written to, and stay
there if it refuses; the place of the next frame moves only when the piece was written. -/
def appendPiece (piece : List Bytes) : Act Log (List LogPointer) := do
  let tail := (← get).writer.tail
  let tail' := tail.pushAll piece
  updateWriter fun w => { w with tail := { tail' with offset := tail.offset } }
  onDisk (Disk.writeParts tail.offset (tail.parts piece))
  updateWriter fun w => { w with
    tail := tail'
    stats := { w.stats with
      records := w.stats.records + piece.length
      bytes := w.stats.bytes + (tail'.offset - tail.offset)
      coalescedWrites := w.stats.coalescedWrites + 1 } }
  return tail.pointers piece

/-- Writes several pieces in order. -/
def appendPieces : List (List Bytes) → Act Log (List LogPointer)
  | [] => pure []
  | piece :: rest => do
      let first ← appendPiece piece
      let others ← appendPieces rest
      return first ++ others

/-- Makes the file durable. -/
def makeDurable : Act Log Unit := do
  onDisk Disk.sync
  updateWriter fun w => { w with stats := { w.stats with syncs := w.stats.syncs + 1 } }

/-- Appends records in order, and tells where their frames lie. -/
def appendBatch (payloads : List Bytes) : Act Log (List LogPointer) := do
  if payloads.isEmpty then return []
  if payloads.any (fun p => !admissible p) then throw (.invalid .payloadSize)
  let pointers ← appendPieces (pieces (pieceLength - 1) payloads)
  if (← get).writer.mode = .immediate then makeDurable
  return pointers

/-- Appends one record. -/
def append (payload : Bytes) : Act Log LogPointer := do
  match (← appendBatch [payload]).getLast? with
  | some pointer => return pointer
  | none => throw (.invalid .noFrame)

/-- Makes the file durable, unless the log is never to be. -/
def sync : Act Log Unit := do
  if (← get).writer.mode ≠ .off then makeDurable

/-! ### Reading and cutting -/

/-- A scan of the whole log. -/
def scan : Act Log Scan := do
  let h := (← get).writer.header
  onDisk (Scan.ofHeader h)

/-- Cuts the log behind a frame, or behind its header. -/
def truncateTo (off : Nat) : Act Log Unit := do
  if off < FileHeader.size then throw (.invalid .truncateBelowHeader)
  let scan ← scan
  let tail ← onDisk (scan.seek off)
  onDisk (Disk.truncate off)
  updateWriter fun w => { w with tail }
  if (← get).writer.mode ≠ .off then onDisk Disk.sync

/-- The length of the file. -/
def len : Act Log Nat := onDisk Disk.len

/-- Whether the log holds no byte behind its header. -/
def isEmpty : Act Log Bool := onDisk Writer.fileIsEmpty

end Log

end PageLog
