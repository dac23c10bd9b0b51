import PageLog.Log.Frame
import PageLog.Proofs.Bytes

/-!
# The headers of a log as bytes

The header of a log file and the header of a frame are each told by just one string of 32 bytes:
what is written is read back, and what is read is what would be written.

## Main results

* `FileHeader.decode_encode`, `FileHeader.encode_of_decode` — the header of the file.
* `FrameHeader.decode?_encode`, `FrameHeader.encode_of_decode?` — the header of a frame.
-/

namespace PageLog

theorem bytesOfU32_zero : bytesOfU32 0 = Bytes.zeros 4 := rfl

/-- The check value at the end of a header of 32 bytes. -/
theorem Bytes.split_check {bs : Bytes} (h : bs.length = 32) :
    bs = bs.take 28 ++ bytesOfU32 (Bytes.toU32 ((bs.drop 28).take 4)) := by
  have hlen : (bs.drop 28).length = 4 := by rw [List.length_drop, h]
  rw [List.take_of_length_le (Nat.le_of_eq hlen), bytesOfU32_toU32 hlen, List.take_append_drop]

/-! ### The header of a frame -/

namespace FrameHeader

/-- The header of a frame is read back. -/
theorem decode?_encode (h : FrameHeader) : decode? h.encode = some h := by
  have hbody : h.encode.take 28 = h.body := List.take_left' h.length_body
  have hcrc : (h.encode.drop 28).take 4 = bytesOfU32 (crc32 h.body) := by
    rw [encode, List.drop_left' h.length_body, List.take_of_length_le (by simp)]
  have hlsn : h.encode.take 8 = bytesOfU64 h.lsn := by simp [encode, body]
  have hlen : (h.encode.drop 8).take 4 = bytesOfU32 h.payloadLen := by simp [encode, body]
  have hreserved : (h.encode.drop 12).take 4 = bytesOfU32 0 := by
    simp [encode, body, bytesOfU32_zero, List.drop_append, List.drop_of_length_le]
  have hchain : (h.encode.drop 16).take 8 = bytesOfU64 h.chain := by
    simp [encode, body, List.drop_append, List.drop_of_length_le]
  have hpayload : (h.encode.drop 24).take 4 = bytesOfU32 h.payloadCrc := by
    simp [encode, body, List.drop_append, List.drop_of_length_le]
  simp [decode?, hbody, hcrc, hlsn, hlen, hreserved, hchain, hpayload]

/-- A header that was read is the only one that reads so. -/
theorem encode_of_decode? {bs : Bytes} {h : FrameHeader} (hlen : bs.length = 32)
    (hd : decode? bs = some h) : bs = h.encode := by
  unfold decode? at hd
  split at hd
  · cases hd
  rename_i hcrc
  split at hd
  · cases hd
  rename_i hreserved
  rw [not_not] at hcrc hreserved
  cases hd
  have hzero : (bs.drop 12).take 4 = Bytes.zeros 4 := by
    rw [← bytesOfU32_zero, ← hreserved, bytesOfU32_toU32]
    rw [List.length_take, List.length_drop]
    omega
  have hbody : body ⟨Bytes.toU64 (bs.take 8), Bytes.toU32 ((bs.drop 8).take 4),
      Bytes.toU64 ((bs.drop 16).take 8), Bytes.toU32 ((bs.drop 24).take 4)⟩ = bs.take 28 := by
    simp only [body]
    rw [bytesOfU64_toU64 (by simp [hlen]), bytesOfU32_toU32 (by simp [hlen]),
      bytesOfU64_toU64 (by simp [hlen]), bytesOfU32_toU32 (by simp [hlen]), ← hzero]
    rw [show 28 = 8 + 4 + 4 + 8 + 4 from rfl]
    simp only [List.take_add, List.append_assoc]
  rw [encode, hbody, hcrc]
  exact Bytes.split_check hlen

end FrameHeader

/-! ### The header of the file -/

namespace FileHeader

/-- The header of a log file is read back. -/
theorem decode_encode (h : FileHeader) : decode h.encode = .ok h := by
  have hbody : h.encode.take 28 = h.body := List.take_left' h.length_body
  have hcrc : (h.encode.drop 28).take 4 = bytesOfU32 (crc32 h.body) := by
    rw [encode, List.drop_left' h.length_body, List.take_of_length_le (by simp)]
  have hmagic : h.encode.take 4 = magic := by simp [encode, body, magic]
  have hversion : (h.encode.drop 4).take 2 = bytesOfU16 version := by simp [encode, body, magic]
  have hreserved : (h.encode.drop 6).take 6 = Bytes.zeros 6 := by simp [encode, body, magic]
  have hsalt : (h.encode.drop 12).take 8 = bytesOfU64 h.salt := by
    simp [encode, body, magic, List.drop_append, List.drop_of_length_le]
  have hstart : (h.encode.drop 20).take 8 = bytesOfU64 h.startLsn := by
    simp [encode, body, magic, List.drop_append, List.drop_of_length_le]
  simp [decode, size, hbody, hcrc, hmagic, hversion, hreserved, hsalt, hstart]

/-- A header that was read is the only one that reads so. -/
theorem encode_of_decode {bs : Bytes} {h : FileHeader} (hlen : bs.length = 32)
    (hd : decode bs = .ok h) : bs = h.encode := by
  unfold decode at hd
  split at hd
  · cases hd
  split at hd
  · cases hd
  rename_i hmagic
  split at hd
  · cases hd
  rename_i hversion
  split at hd
  · cases hd
  rename_i hreserved
  split at hd
  · cases hd
  rename_i hcrc
  rw [not_not] at hmagic hversion hreserved hcrc
  cases hd
  -- each field is where it was read from
  have hbody : body ⟨Bytes.toU64 ((bs.drop 12).take 8), Bytes.toU64 ((bs.drop 20).take 8)⟩ =
      bs.take 28 := by
    simp only [body]
    rw [bytesOfU64_toU64 (by simp [hlen]), bytesOfU64_toU64 (by simp [hlen]), ← hmagic,
      ← hversion, ← hreserved, bytesOfU16_toU16 (by simp [hlen])]
    rw [show 28 = 4 + 2 + 6 + 8 + 8 from rfl]
    simp only [List.take_add, List.append_assoc]
  rw [encode, hbody, hcrc]
  exact Bytes.split_check hlen

/-- A file begins with one header only. -/
theorem eq_of_begins {bs : Bytes} {h h' : FileHeader} (hbs : h.encode <+: bs)
    (hbs' : h'.encode <+: bs) : h = h' := by
  have hfront := List.prefix_of_prefix_length_le hbs hbs' (by simp)
  have hencode := hfront.eq_of_length (by simp)
  have hdecode := h.decode_encode
  rw [hencode, h'.decode_encode, Except.ok.injEq] at hdecode
  exact hdecode.symm

/-- A file that begins with a header reads so. -/
theorem decode_of_prefix {bs : Bytes} {h : FileHeader} (hfront : h.encode <+: bs) :
    decode (bs.take size) = .ok h := by
  have htake := List.prefix_iff_eq_take.1 hfront
  rw [h.length_encode] at htake
  rw [size, ← htake, decode_encode]

end FileHeader
end PageLog
