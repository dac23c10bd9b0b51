import PageLog.Checksum
import PageLog.Error

/-!
# What a log file consists of

A log file begins with a header of 32 bytes that says whose log it is and with which number it
starts.  Frames follow, each a header of 32 bytes and a payload.  The header of a frame carries
the number of its record, the length and check value of the payload, and the chain value of all
frames before it, so that a frame left over from an earlier log does not pass for a successor of
the frames in front of it.

## Main definitions

* `FileHeader.encode`, `FileHeader.decode` — the header of the file.
* `FrameHeader.encode`, `FrameHeader.decode?` — the header of a frame.
* `Tail` and `Tail.push` — the state of a log after its last frame, and after one more.
* `Frame` — a frame as read.
-/

namespace PageLog

/-! ### The header of the file -/

/-- Whose log it is, and the number of its first record. -/
structure FileHeader where
  /-- The number that tells this store's log from others'. -/
  salt : UInt64
  /-- The number of the first record. -/
  startLsn : Lsn
  deriving DecidableEq, Repr, Inhabited

namespace FileHeader

/-- The length of the header. -/
def size : Nat := 32

/-- The mark at the beginning of every log. -/
def magic : Bytes := [0x4B, 0x4E, 0x44, 0x57]

/-- The version of the format. -/
def version : UInt16 := 1

/-- The part of the header that its checksum covers. -/
def body (h : FileHeader) : Bytes :=
  magic ++ bytesOfU16 version ++ Bytes.zeros 6 ++ bytesOfU64 h.salt ++ bytesOfU64 h.startLsn

/-- The header as it stands in the file. -/
def encode (h : FileHeader) : Bytes := h.body ++ bytesOfU32 (crc32 h.body)

@[simp] theorem length_body (h : FileHeader) : h.body.length = 28 := by
  simp [body, magic]

@[simp] theorem length_encode (h : FileHeader) : h.encode.length = 32 := by
  simp [encode]

/-- The header at the beginning of `bs`. -/
def decode (bs : Bytes) : Result FileHeader :=
  if bs.length < size then .error (.corruption .logHeaderTruncated)
  else if bs.take 4 ≠ magic then .error (.corruption .logMagic)
  else if Bytes.toU16 ((bs.drop 4).take 2) ≠ version then .error (.corruption .logVersion)
  else if (bs.drop 6).take 6 ≠ Bytes.zeros 6 then .error (.corruption .logReserved)
  else if crc32 (bs.take 28) ≠ Bytes.toU32 ((bs.drop 28).take 4) then
    .error (.corruption .logHeaderCrc)
  else .ok ⟨Bytes.toU64 ((bs.drop 12).take 8), Bytes.toU64 ((bs.drop 20).take 8)⟩

end FileHeader

/-! ### The header of a frame -/

/-- The header of a frame. -/
structure FrameHeader where
  /-- The number of the record. -/
  lsn : Lsn
  /-- The length of the payload. -/
  payloadLen : UInt32
  /-- The chain value of the frames before. -/
  chain : UInt64
  /-- The check value of the payload. -/
  payloadCrc : UInt32
  deriving DecidableEq, Repr, Inhabited

namespace FrameHeader

/-- The length of the header. -/
def size : Nat := 32

/-- The part of the header that its checksum covers. -/
def body (h : FrameHeader) : Bytes :=
  bytesOfU64 h.lsn ++ bytesOfU32 h.payloadLen ++ Bytes.zeros 4 ++ bytesOfU64 h.chain ++
    bytesOfU32 h.payloadCrc

/-- The header as it stands in the file. -/
def encode (h : FrameHeader) : Bytes := h.body ++ bytesOfU32 (crc32 h.body)

@[simp] theorem length_body (h : FrameHeader) : h.body.length = 28 := by
  simp [body]

@[simp] theorem length_encode (h : FrameHeader) : h.encode.length = 32 := by
  simp [encode]

/-- The header in the 32 bytes `bs`, unless its checksum or its reserved bytes give it away. -/
def decode? (bs : Bytes) : Option FrameHeader :=
  if crc32 (bs.take 28) ≠ Bytes.toU32 ((bs.drop 28).take 4) then none
  else if Bytes.toU32 ((bs.drop 12).take 4) ≠ 0 then none
  else some {
    lsn := Bytes.toU64 (bs.take 8)
    payloadLen := Bytes.toU32 ((bs.drop 8).take 4)
    chain := Bytes.toU64 ((bs.drop 16).take 8)
    payloadCrc := Bytes.toU32 ((bs.drop 24).take 4) }

end FrameHeader

/-! ### The end of a log -/

/-- The longest payload of a frame. -/
def maxPayload : Nat := 1048576

/-- The state of a log behind its last frame: where the next frame goes, which chain value it must
carry, and its number. -/
structure Tail where
  /-- Where the next frame begins. -/
  offset : Nat
  /-- The chain value of all frames. -/
  chain : UInt64
  /-- The number of the next record. -/
  nextLsn : Lsn
  deriving DecidableEq, Repr, Inhabited

namespace Tail

/-- The state of a log without frames. -/
def start (h : FileHeader) : Tail := ⟨FileHeader.size, 0, h.startLsn⟩

/-- The header of the next frame if it carries `payload`. -/
def header (t : Tail) (payload : Bytes) : FrameHeader :=
  ⟨t.nextLsn, UInt32.ofNat payload.length, t.chain, crc32 payload⟩

/-- The pointer to the next frame if it carries `payload`. -/
def pointer (t : Tail) (payload : Bytes) : LogPointer :=
  ⟨t.nextLsn, t.offset, FrameHeader.size + payload.length⟩

/-- The state behind a frame with the given header bytes and payload. -/
def pass (t : Tail) (header payload : Bytes) : Tail :=
  ⟨t.offset + (FrameHeader.size + payload.length), chainValue t.chain header payload,
    t.nextLsn + 1⟩

/-- The state after one more frame. -/
def push (t : Tail) (payload : Bytes) : Tail := t.pass (t.header payload).encode payload

/-- The state after more frames. -/
def pushAll (t : Tail) (payloads : List Bytes) : Tail := payloads.foldl push t

/-- The bytes of further frames: for each, its header and its payload. -/
def parts (t : Tail) : List Bytes → List Bytes
  | [] => []
  | payload :: payloads =>
      (t.header payload).encode :: payload :: (t.push payload).parts payloads

/-- The pointers to further frames. -/
def pointers (t : Tail) : List Bytes → List LogPointer
  | [] => []
  | payload :: payloads => t.pointer payload :: (t.push payload).pointers payloads

@[simp] theorem pushAll_nil (t : Tail) : t.pushAll [] = t := rfl

@[simp] theorem pushAll_cons (t : Tail) (payload : Bytes) (payloads : List Bytes) :
    t.pushAll (payload :: payloads) = (t.push payload).pushAll payloads := rfl

@[simp] theorem pushAll_append (t : Tail) (ps qs : List Bytes) :
    t.pushAll (ps ++ qs) = (t.pushAll ps).pushAll qs := by
  simp [pushAll, List.foldl_append]

@[simp] theorem length_pointers (t : Tail) (payloads : List Bytes) :
    (t.pointers payloads).length = payloads.length := by
  induction payloads generalizing t with
  | nil => rfl
  | cons payload payloads ih => simp [pointers, ih]

end Tail

/-! ### Frames -/

/-- A frame as read. -/
structure Frame where
  /-- Where it lies. -/
  pointer : LogPointer
  /-- What it carries. -/
  payload : Bytes
  deriving DecidableEq, Repr, Inhabited

namespace Frame

/-- The offset behind the frame. -/
def stop (f : Frame) : Nat := f.pointer.offset + f.pointer.len

/-- A frame without its bytes, for people to read. -/
def text (f : Frame) : String :=
  let p := f.pointer
  "WalFrame \x7b pointer: WalPointer \x7b lsn: Lsn(" ++ Lsn.text p.lsn ++ "), offset: " ++
    toString p.offset ++ ", len: " ++ toString p.len ++ " \x7d, payload_len: " ++
    toString f.payload.length ++ " \x7d"

end Frame

end PageLog
