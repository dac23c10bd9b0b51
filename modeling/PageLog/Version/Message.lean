import PageLog.Version.Basic

/-!
# Versions as messages

Servers send each other versions as messages: a header that names the type of the message and
counts its fields, then the fields.  A message may be cut anywhere into the chunks that the
transport takes.  Both sides therefore keep a position, and each call goes on exactly where the
last one stopped.

## Main definitions

* `MessageWriter` — the position of the sender, with `writeHeader`, `writeU64`, `writeI32`.
* `MessageReader` — the position of the receiver, with `readHeader`, `readU64`, `readI32`.
* `Version.writeTo`, `Version.readFrom` — one chunk of a version.
* `Version.encode`, `Version.decode` — a version in a single chunk.
-/

namespace PageLog

/-- The type of messages that carry a version. -/
def versionMessageType : Int16 := 148

/-- How many fields such messages have. -/
def versionMessageFields : UInt8 := 3

/-- The header of a message. -/
structure MessageHeader where
  /-- The type of the message. -/
  type : Int16
  /-- How many fields follow. -/
  fields : UInt8
  deriving DecidableEq, Repr, Inhabited

namespace MessageHeader

/-- The length of a header. -/
def size : Nat := 3

/-- The bytes of a header. -/
def encode (h : MessageHeader) : Bytes := bytesOfU16 h.type.toUInt16 ++ [h.fields]

/-- The header in three bytes. -/
def ofBytes (bs : Bytes) : MessageHeader :=
  ⟨(Bytes.toU16 (bs.take 2)).toInt16, UInt8.ofNat (Bytes.toNat ((bs.drop 2).take 1))⟩

end MessageHeader

/-! ### Sending -/

/-- A chunk that is being filled. -/
structure Outgoing where
  /-- The bytes put into it. -/
  bytes : Bytes
  /-- How many more it takes. -/
  room : Nat
  deriving DecidableEq, Repr, Inhabited

/-- The position of a sender. -/
structure MessageWriter where
  /-- Whether the header is out. -/
  headerWritten : Bool
  /-- How many fields are out. -/
  field : UInt8
  /-- How many bytes of the current field are out. -/
  offset : Nat
  deriving DecidableEq, Repr, Inhabited

namespace MessageWriter

/-- Nothing is out yet. -/
def fresh : MessageWriter := ⟨false, 0, 0⟩

/-- The current field is out. -/
def incField (w : MessageWriter) : MessageWriter := { w with field := w.field + 1 }

/-- Puts out as much of the current field, the bytes `raw`, as there is room for.  Tells whether
the field is out. -/
def writeRaw (w : MessageWriter) (raw : Bytes) (chunk : Outgoing) :
    Bool × MessageWriter × Outgoing :=
  let part := (raw.drop w.offset).take chunk.room
  let chunk' : Outgoing := ⟨chunk.bytes ++ part, chunk.room - part.length⟩
  if w.offset + part.length = raw.length then (true, { w with offset := 0 }, chunk')
  else (false, { w with offset := w.offset + part.length }, chunk')

/-- Puts out the header, unless it is out.  Tells whether it is. -/
def writeHeader (w : MessageWriter) (h : MessageHeader) (chunk : Outgoing) :
    Bool × MessageWriter × Outgoing :=
  if w.headerWritten then (true, w, chunk)
  else
    let (done, w, chunk) := w.writeRaw h.encode chunk
    (done, { w with headerWritten := done }, chunk)

/-- Puts out a field of eight bytes. -/
def writeU64 (w : MessageWriter) (v : UInt64) (chunk : Outgoing) :
    Bool × MessageWriter × Outgoing :=
  w.writeRaw (bytesOfU64 v) chunk

/-- Puts out a signed field of four bytes. -/
def writeI32 (w : MessageWriter) (v : Int32) (chunk : Outgoing) :
    Bool × MessageWriter × Outgoing :=
  w.writeRaw (bytesOfI32 v) chunk

/-- Puts out fields one after the other as long as there is room.  Tells whether all are out. -/
def writeFields (w : MessageWriter) (chunk : Outgoing) :
    List Bytes → Bool × MessageWriter × Outgoing
  | [] => (true, w, chunk)
  | raw :: rest =>
      match w.writeRaw raw chunk with
      | (true, w, chunk) => w.incField.writeFields chunk rest
      | (false, w, chunk) => (false, w, chunk)

end MessageWriter

/-- The fields of a version in the order of the message. -/
def Version.messageFields (v : Version) : List Bytes :=
  [bytesOfU64 v.counter, bytesOfU64 v.coordinator, bytesOfU32 v.operation]

/-- Puts out what there is room for of a version.  Tells whether all of it is out. -/
def Version.writeTo (v : Version) (w : MessageWriter) (chunk : Outgoing) :
    Bool × MessageWriter × Outgoing :=
  match w.writeHeader ⟨versionMessageType, versionMessageFields⟩ chunk with
  | (false, w, chunk) => (false, w, chunk)
  | (true, w, chunk) => w.writeFields chunk (v.messageFields.drop w.field.toNat)

/-- The whole message of a version. -/
def Version.encode (v : Version) : Bytes :=
  MessageHeader.encode ⟨versionMessageType, versionMessageFields⟩ ++ v.messageFields.flatten

/-! ### Receiving -/

/-- The position of a receiver. -/
structure MessageReader where
  /-- The header, once it is in. -/
  header : Option MessageHeader
  /-- How many fields are in. -/
  field : UInt8
  /-- The bytes of the current field that are in. -/
  partialField : Bytes
  /-- Whether the last attempt to read a field found all of it. -/
  lastRead : Bool
  deriving DecidableEq, Repr, Inhabited

namespace MessageReader

/-- Nothing is in yet. -/
def fresh : MessageReader := ⟨none, 0, [], false⟩

/-- The current field is in. -/
def incField (r : MessageReader) : MessageReader := { r with field := r.field + 1 }

/-- Takes in what the chunk has of the current field, which has `width` bytes.  Gives the bytes of
the field if that completes it, and what is left of the chunk. -/
def readRaw (r : MessageReader) (width : Nat) (chunk : Bytes) :
    Option Bytes × MessageReader × Bytes :=
  let wanted := width - r.partialField.length
  let bytes := r.partialField ++ chunk.take wanted
  let rest := chunk.drop wanted
  if bytes.length < width then
    (none, { r with partialField := bytes, lastRead := false }, rest)
  else
    (some (bytes.take width), { r with partialField := [], lastRead := true }, rest)

/-- Takes in the header, unless it is in. -/
def readHeader (r : MessageReader) (chunk : Bytes) :
    Option MessageHeader × MessageReader × Bytes :=
  match r.header with
  | some h => (some h, { r with lastRead := true }, chunk)
  | none =>
      match r.readRaw MessageHeader.size chunk with
      | (none, r, rest) => (none, r, rest)
      | (some bytes, r, rest) =>
          let h := MessageHeader.ofBytes bytes
          (some h, { r with header := some h }, rest)

/-- Takes in a field of eight bytes. -/
def readU64 (r : MessageReader) (chunk : Bytes) : Option UInt64 × MessageReader × Bytes :=
  let (bytes, r, rest) := r.readRaw 8 chunk
  (bytes.map Bytes.toU64, r, rest)

/-- Takes in a signed field of four bytes. -/
def readI32 (r : MessageReader) (chunk : Bytes) : Option Int32 × MessageReader × Bytes :=
  let (bytes, r, rest) := r.readRaw 4 chunk
  (bytes.map Bytes.toI32, r, rest)

end MessageReader

/-- A field of a message: its width, and what its bytes set. -/
structure FieldSlot where
  /-- How many bytes the field has. -/
  width : Nat
  /-- The version with the field set. -/
  set : Version → Bytes → Version

/-- The fields of a version in the order of the message. -/
def Version.fieldSlots : List FieldSlot :=
  [⟨8, fun v bs => { v with counter := Bytes.toU64 bs }⟩,
   ⟨8, fun v bs => { v with coordinator := Bytes.toU64 bs }⟩,
   ⟨4, fun v bs => { v with operation := Bytes.toU32 bs }⟩]

/-- What one chunk brought: whether the message is complete, or what is wrong with it; the version
as far as it is in; the position; and what is left of the chunk. -/
structure Incoming where
  /-- Whether the message is complete. -/
  result : Result Bool
  /-- The version as far as it is in. -/
  version : Version
  /-- The position. -/
  reader : MessageReader
  /-- What is left of the chunk. -/
  rest : Bytes

/-- Takes in fields one after the other as far as the chunk reaches. -/
def Version.readFields (v : Version) (r : MessageReader) (chunk : Bytes) :
    List FieldSlot → Incoming
  | [] => ⟨.ok true, v, r, chunk⟩
  | slot :: slots =>
      match r.readRaw slot.width chunk with
      | (none, r, rest) => ⟨.ok false, v, r, rest⟩
      | (some bytes, r, rest) => (slot.set v bytes).readFields r.incField rest slots

/-- Takes in what a chunk has of a version. -/
def Version.readFrom (v : Version) (r : MessageReader) (chunk : Bytes) : Incoming :=
  match r.readHeader chunk with
  | (none, r, rest) => ⟨.ok false, v, r, rest⟩
  | (some h, r, rest) =>
      if h.type ≠ versionMessageType then ⟨.error (.corruption .messageType), v, r, rest⟩
      else if h.fields ≠ versionMessageFields then
        ⟨.error (.corruption .messageFields), v, r, rest⟩
      else v.readFields r rest (fieldSlots.drop r.field.toNat)

/-- The version at the beginning of `bs`, which must hold its whole message. -/
def Version.decode (bs : Bytes) : Result Version :=
  let incoming := Version.absent.readFrom .fresh bs
  match incoming.result with
  | .error e => .error e
  | .ok false => .error (.corruption .messageTruncated)
  | .ok true => .ok incoming.version

end PageLog
