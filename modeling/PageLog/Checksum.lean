import PageLog.Bytes

/-!
# Checksums

The 32-bit cyclic redundancy check with the reflected polynomial `0xEDB88320`, and the value that
ties each frame of the log to all frames before it.

## Main definitions

* `Crc.step`, `Crc.feed` — the register after one byte, after a byte string.
* `crc32` — the check value of a byte string.
* `chainValue` — the value of a frame that its successor must carry.
-/

namespace PageLog

/-- The check register. -/
abbrev Crc := UInt32

/-- The register before any byte. -/
def Crc.initial : Crc := 0xFFFFFFFF

/-- The register moved down by one bit; the bit that falls out decides whether the polynomial is
added. -/
def Crc.shift (c : Crc) : Crc :=
  if c &&& 1 = 1 then (c >>> 1) ^^^ 0xEDB88320 else c >>> 1

/-- The register moved down by eight bits. -/
def Crc.shift8 (c : Crc) : Crc :=
  Crc.shift (Crc.shift (Crc.shift (Crc.shift
    (Crc.shift (Crc.shift (Crc.shift (Crc.shift c)))))))

/-- The register after one more byte. -/
def Crc.step (c : Crc) (b : UInt8) : Crc :=
  Crc.shift8 (c ^^^ b.toUInt32)

/-- The register after more bytes. -/
def Crc.feed (c : Crc) (bs : Bytes) : Crc := bs.foldl Crc.step c

/-- The check value that a register stands for. -/
def Crc.value (c : Crc) : UInt32 := c ^^^ 0xFFFFFFFF

@[simp] theorem Crc.feed_nil (c : Crc) : Crc.feed c [] = c := rfl

@[simp] theorem Crc.feed_cons (c : Crc) (b : UInt8) (bs : Bytes) :
    Crc.feed c (b :: bs) = Crc.feed (Crc.step c b) bs := rfl

@[simp] theorem Crc.feed_append (c : Crc) (as bs : Bytes) :
    Crc.feed c (as ++ bs) = Crc.feed (Crc.feed c as) bs := by
  simp [Crc.feed, List.foldl_append]

/-- The check value of a byte string. -/
def crc32 (bs : Bytes) : UInt32 := Crc.value (Crc.feed Crc.initial bs)

/-- The chain value of a frame: its length in the upper half, and in the lower half the check
value of the chain value before it, its header and its payload. -/
def chainValue (previous : UInt64) (header payload : Bytes) : UInt64 :=
  UInt64.ofNat (header.length + payload.length) <<< 32 |||
    (crc32 (bytesOfU64 previous ++ header ++ payload)).toUInt64

/-- The chain values of frames one after the other, each given by its header and its payload. -/
def chainValues (previous : UInt64) : List Bytes → List UInt64
  | header :: payload :: frames =>
      let value := chainValue previous header payload
      value :: chainValues value frames
  | _ => []

/-- The registers after each of several byte strings. -/
def Crc.running (c : Crc) : List Bytes → List Crc
  | [] => []
  | chunk :: chunks => c.feed chunk :: Crc.running (c.feed chunk) chunks

end PageLog
