import PageLog.Log.Basic
import PageLog.Record.Codec
import PageLog.Proofs.Act
import PageLog.Proofs.Bytes

/-!
# Records are read back from their bytes

A reading step matches some bytes if it takes just these, whatever comes after them, and gives a
certain value.  Steps that match put together match the bytes put together, so that the reader of a
record is matched with its writer field by field.

## Main definitions

* `Cursor.Reads` — a step takes certain bytes and gives a certain value.

## Main results

* `Record.decode_encode` — a record is read back from its bytes.
* `Record.admissible_encode` — the bytes of a record can be carried by a frame.
-/

namespace PageLog

/-! ### Reading steps -/

namespace Cursor

variable {α β : Type}

/-- The step takes just the bytes `bs` and gives `a`. -/
def Reads (act : Act Cursor α) (bs : Bytes) (a : α) : Prop :=
  ∀ off rest, act ⟨off, bs ++ rest⟩ = .ok a ⟨off + bs.length, rest⟩

theorem Reads.pure (a : α) : Reads (pure a) [] a := fun _ _ => rfl

theorem Reads.bind {act : Act Cursor α} {next : α → Act Cursor β} {bs cs : Bytes} {a : α} {b : β}
    (h : Reads act bs a) (h' : Reads (next a) cs b) : Reads (act >>= next) (bs ++ cs) b := by
  intro off rest
  rw [List.append_assoc, Act.bind_of_ok (h ..), h', List.length_append, Nat.add_assoc]

/-- A step behind the last field takes no bytes. -/
theorem Reads.bind_pure {act : Act Cursor α} {f : α → β} {bs : Bytes} {a : α}
    (h : Reads act bs a) : Reads (act >>= fun a => Pure.pure (f a)) bs (f a) := by
  have hbind : Reads (act >>= fun a => Pure.pure (f a)) (bs ++ []) (f a) :=
    h.bind (Reads.pure (f a))
  rwa [List.append_nil] at hbind

theorem Reads.map {act : Act Cursor α} {bs : Bytes} {a : α} (f : α → β) (h : Reads act bs a) :
    Reads (f <$> act) bs (f a) :=
  fun off rest => Act.map_of_ok (h off rest)

theorem reads_take (bs : Bytes) : Reads (take bs.length) bs bs := by
  intro off rest
  rw [take, if_pos (by rw [List.length_append]; omega), List.take_left' rfl, List.drop_left' rfl]

theorem reads_u8 (b : UInt8) : Reads u8 [b] b := by
  have h := (reads_take [b]).map fun bs => UInt8.ofNat (Bytes.toNat bs)
  have hb : UInt8.ofNat (Bytes.toNat [b]) = b := by simp [Bytes.toNat]
  rwa [hb] at h

theorem reads_u16 (v : UInt16) : Reads u16 (bytesOfU16 v) v := by
  have h := (reads_take (bytesOfU16 v)).map Bytes.toU16
  rwa [length_bytesOfU16, Bytes.toU16_bytesOfU16] at h

theorem reads_i32 (v : Int32) : Reads i32 (bytesOfI32 v) v := by
  have h := (reads_take (bytesOfI32 v)).map Bytes.toI32
  rwa [length_bytesOfI32, Bytes.toI32_bytesOfI32] at h

theorem reads_u64 (v : UInt64) : Reads u64 (bytesOfU64 v) v := by
  have h := (reads_take (bytesOfU64 v)).map Bytes.toU64
  rwa [length_bytesOfU64, Bytes.toU64_bytesOfU64] at h

/-- A number of 16 bits is read back from four bytes. -/
theorem reads_narrow (damage : Damage) (v : UInt16) :
    Reads (narrow damage) (bigEndian 4 v.toNat) v := by
  have hlt : v.toNat < 65536 := v.toNat_lt
  have hbytes : bigEndian 4 v.toNat = bytesOfI32 v.toUInt32.toInt32 := by
    simp [bytesOfI32, bytesOfU32]
  have hvalue : v.toUInt32.toInt32.toInt = (v.toNat : Int) := by
    refine (BitVec.toInt_eq_toNat_of_lt ?_).trans ?_
    · simp
      omega
    · simp
  rw [hbytes, ← List.append_nil (bytesOfI32 _), narrow]
  refine (reads_i32 _).bind ?_
  simp only [hvalue]
  rw [if_neg (by omega)]
  have hback : UInt16.ofNat (v.toNat : Int).toNat = v := by simp
  rw [hback]
  exact Reads.pure v

/-- A small number is read back from its single byte. -/
theorem reads_varint {n : Nat} (hn : n < 128) :
    Reads varint (Varint.encode n) (UInt64.ofNat n) := by
  intro off rest
  have hbyte : (UInt8.ofNat n).toNat = n :=
    UInt8.toNat_ofNat_of_lt' (by simp only [UInt8.size]; omega)
  have hdecode : Varint.decode (UInt8.ofNat n :: rest) = ⟨.ok n, rest⟩ := by
    simp [Varint.decode, Varint.maxLength, Varint.decodeFrom, hbyte, hn, Nat.mod_eq_of_lt hn]
  simp [varint, Varint.encode_of_lt hn, hdecode]

end Cursor

/-! ### Records -/

open Cursor

theorem PageTarget.reads_encode (t : PageTarget) : Reads PageTarget.read t.encode t := by
  simp only [encode, List.append_assoc]
  exact (reads_i32 _).bind ((reads_u64 _).bind ((reads_narrow _ _).bind
    (reads_narrow _ _).bind_pure))

namespace Record

theorem code_lt (t : RecordType) : t.code < 128 := by
  cases t <;> decide

theorem reads_flag (full : Bool) : Reads readFlag [if full then 1 else 0] full := by
  rw [← List.append_nil [_], readFlag]
  refine (reads_u8 _).bind ?_
  cases full with
  | true => exact Reads.pure true
  | false => exact Reads.pure false

theorem reads_delta {t : PageTarget} {c : PageChange} {act : Act Cursor PageChange}
    (h : Reads act c.encode c) :
    Reads (readDelta act) (Record.delta ⟨t, c⟩).fields (.delta ⟨t, c⟩) :=
  t.reads_encode.bind h.bind_pure

/-- The fields of a record are read back by the reader for its kind. -/
theorem reads_fields (r : Record) : Reads (readFields r.recordType) r.fields r := by
  cases r with
  | snapshot id full => exact (reads_u64 id).bind (reads_flag full).bind_pure
  | checkpoint id => exact (reads_u64 id).bind_pure
  | delta d =>
    obtain ⟨t, c⟩ := d
    cases c with
    | init prev data => exact reads_delta ((reads_u64 prev).bind (reads_u64 data).bind_pure)
    | setNext next => exact reads_delta (reads_u64 next).bind_pure
    | setPrev prev => exact reads_delta (reads_u64 prev).bind_pure
    | add slot data => exact reads_delta ((reads_u16 slot).bind (reads_u64 data).bind_pure)
    | remove slot data => exact reads_delta ((reads_u16 slot).bind (reads_u64 data).bind_pure)

/-- A record is read back from its bytes. -/
theorem decode_encode (r : Record) : decode r.encode = .ok r := by
  have hcode : (UInt64.ofNat r.recordType.code).toNat = r.recordType.code :=
    UInt64.toNat_ofNat_of_lt' (Nat.lt_trans (code_lt _) (by decide))
  have hvarint := reads_varint (code_lt r.recordType) 0 r.fields
  have hfields := reads_fields r (0 + (Varint.encode r.recordType.code).length) []
  rw [List.append_nil] at hfields
  have hread : read (Cursor.start r.encode) =
      .ok r ⟨0 + (Varint.encode r.recordType.code).length + r.fields.length, []⟩ := by
    rw [read, Cursor.start, encode, Act.bind_of_ok hvarint, hcode, RecordType.ofCode?_code]
    simp only
    rw [Act.bind_of_ok hfields]
    rfl
  rw [decode, hread]

/-- The bytes of a record can be carried by a frame. -/
theorem admissible_encode (r : Record) : Log.admissible r.encode = true := by
  have hlen : r.fields.length ≤ 40 := by
    cases r with
    | snapshot id full => simp [fields]
    | checkpoint id => simp [fields]
    | delta d =>
      obtain ⟨t, c⟩ := d
      cases c <;> simp [fields, PageTarget.encode, PageChange.encode]
  simp only [Log.admissible, encode, Varint.encode_of_lt (code_lt _), List.cons_append,
    List.nil_append, List.isEmpty_cons, List.length_cons, maxPayload, Bool.and_eq_true,
    Bool.not_false, decide_eq_true_eq, true_and]
  omega

theorem admissible_map_encode (rs : List Record) :
    ∀ p ∈ rs.map encode, Log.admissible p = true := by
  intro p hp
  obtain ⟨r, -, rfl⟩ := List.mem_map.1 hp
  exact r.admissible_encode

end Record

end PageLog
