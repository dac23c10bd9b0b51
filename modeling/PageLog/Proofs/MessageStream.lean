import Mathlib.Algebra.GroupWithZero.Nat
import Mathlib.Data.List.Forall2
import PageLog.Version.Message
import PageLog.Proofs.Bytes

/-!
# Versions over chunks

A message is a list of raw fields, the header first, put one behind the other.  Wherever a call
stops, the sender stands inside the first field that is not out, and the receiver inside the first
one that is not in; what is still to come is the rest of this field and the fields behind it.  A
call goes on from there as far as its chunk reaches, so that the chunks of either side decide when
bytes move but not which.

## Main definitions

* `MessageWriter.Stands`, `MessageReader.Stands` — the raw fields ahead of either side.
* `Version.Unsent`, `Version.Unread` — the bytes of a message that are still to come.
* `Version.sends`, `Version.receive`, `receiveAll` — calls over the chunks of a stream.
* `Version.SentBy`, `Version.ReceivedBy` — what the calls for one message do.

## Main results

* `Version.writeTo_of_unsent`, `Version.readFrom_of_more`, `Version.readFrom_of_rest` — one call.
* `Version.sentBy_sends`, `Version.receive_eq` — the calls for one message.
* `Version.decode_eq_ok_iff` — a version is decoded from what begins with its message.
* `messages_over_chunks` — **what is sent over any chunks is received over any chunks**.
-/

namespace PageLog

/-- The header of every message that carries a version. -/
def versionHeader : MessageHeader := ⟨versionMessageType, versionMessageFields⟩

/-- No message has so many fields that their count would turn over. -/
theorem toNat_field_add {field : UInt8} {k : Nat} (h : field.toNat + k ≤ 3) :
    (field + UInt8.ofNat k).toNat = field.toNat + k := by
  rw [UInt8.toNat_add, UInt8.toNat_ofNat']
  omega

/-- A chunk ends inside the bytes `todo`, or it has all of them. -/
theorem Bytes.cut_cases {chunk more todo rest : Bytes} (h : chunk ++ more = todo ++ rest) :
    (∃ todo', todo' ≠ [] ∧ todo = chunk ++ todo' ∧ more = todo' ++ rest) ∨
      ∃ chunk', chunk = todo ++ chunk' ∧ rest = chunk' ++ more := by
  rcases List.append_eq_append_iff.1 h with ⟨todo', htodo, hmore⟩ | ⟨chunk', hchunk, hrest⟩
  · by_cases hnil : todo' = []
    · subst hnil
      exact .inr ⟨[], by simpa using htodo.symm, by simpa using hmore.symm⟩
    · exact .inl ⟨todo', hnil, htodo, hmore⟩
  · exact .inr ⟨chunk', hchunk, hrest⟩

/-! ### Fields that are being put out -/

/-- The chunk once it took what it has room for of the bytes `todo`. -/
def Outgoing.after (chunk : Outgoing) (todo : Bytes) : Outgoing :=
  ⟨chunk.bytes ++ todo.take chunk.room, chunk.room - todo.length⟩

theorem Outgoing.after_append (chunk : Outgoing) (part todo : Bytes) :
    chunk.after (part ++ todo) = (chunk.after part).after todo := by
  simp [after, List.take_append, List.append_assoc, Nat.sub_sub]

theorem Outgoing.length_le_after {chunk : Outgoing} {part : Bytes} (h : part.length ≤ chunk.room)
    (todo : Bytes) :
    todo.length ≤ (chunk.after part).room ↔ (part ++ todo).length ≤ chunk.room := by
  rw [after, List.length_append]
  show todo.length ≤ chunk.room - part.length ↔ _
  omega

theorem Outgoing.drop_after {chunk : Outgoing} {part : Bytes} (h : part.length ≤ chunk.room)
    (todo : Bytes) : todo.drop (chunk.after part).room = (part ++ todo).drop chunk.room := by
  rw [List.drop_append, List.drop_of_length_le h, List.nil_append]
  rfl

namespace MessageWriter

/-- The fields `raws` lie ahead of the sender, which stands inside the first; the bytes `todo` are
still to be put out. -/
structure Stands (w : MessageWriter) (raws : List Bytes) (todo : Bytes) : Prop where
  /-- No more of the first field is out than it has. -/
  inside : w.offset ≤ (raws.headD []).length
  /-- What is out is left away. -/
  ahead : raws.flatten.drop w.offset = todo

variable {w : MessageWriter} {raw todo : Bytes} {raws : List Bytes} {chunk : Outgoing}

/-- The sender stands at the beginning of a field. -/
theorem Stands.of_zero (h : w.offset = 0) (raws : List Bytes) : w.Stands raws raws.flatten :=
  ⟨by omega, by rw [h, List.drop_zero]⟩

theorem Stands.cons_eq (hs : w.Stands (raw :: raws) todo) :
    todo = raw.drop w.offset ++ raws.flatten := by
  have hinside : w.offset ≤ raw.length := hs.inside
  rw [← hs.ahead, List.flatten_cons, List.drop_append_of_le_length hinside]

/-- A chunk with room for the rest of the field completes it. -/
theorem writeRaw_of_le (hs : w.Stands (raw :: raws) todo)
    (h : (raw.drop w.offset).length ≤ chunk.room) :
    w.writeRaw raw chunk = (true, { w with offset := 0 }, chunk.after (raw.drop w.offset)) := by
  have hinside : w.offset ≤ raw.length := hs.inside
  have hall : w.offset + (raw.drop w.offset).length = raw.length := by
    rw [List.length_drop]
    omega
  simp only [writeRaw, Outgoing.after, List.take_of_length_le h, if_pos hall]

/-- A chunk with less room is filled, and the sender stays inside the field. -/
theorem writeRaw_of_lt (hs : w.Stands (raw :: raws) todo)
    (h : chunk.room < (raw.drop w.offset).length) :
    w.writeRaw raw chunk = (false, { w with offset := w.offset + chunk.room }, chunk.after todo) ∧
      Stands { w with offset := w.offset + chunk.room } (raw :: raws) (todo.drop chunk.room) := by
  have hlen : chunk.room < raw.length - w.offset := by rwa [List.length_drop] at h
  have hpart : ((raw.drop w.offset).take chunk.room).length = chunk.room := by
    rw [List.length_take]
    omega
  refine ⟨?_, ⟨?_, ?_⟩⟩
  · have hopen : w.offset + chunk.room ≠ raw.length := by omega
    have hfull : chunk.room - todo.length = 0 := by
      rw [hs.cons_eq, List.length_append]
      omega
    rw [Outgoing.after, hfull, hs.cons_eq, List.take_append_of_le_length (Nat.le_of_lt h)]
    simp only [writeRaw, hpart, if_neg hopen, Nat.sub_self]
  · show w.offset + chunk.room ≤ raw.length
    omega
  · rw [← hs.ahead, List.drop_drop]

/-- Fields are put out as far as there is room. -/
theorem writeFields_of_stands (hs : w.Stands raws todo) (chunk : Outgoing) :
    ∃ w' k, w.writeFields chunk raws =
        (decide (todo.length ≤ chunk.room), w', chunk.after todo) ∧
      k ≤ raws.length ∧ w'.headerWritten = w.headerWritten ∧
      w'.field = w.field + UInt8.ofNat k ∧
      w'.Stands (raws.drop k) (todo.drop chunk.room) := by
  induction raws generalizing w todo chunk with
  | nil =>
    have htodo : todo = [] := by rw [← hs.ahead, List.flatten_nil, List.drop_nil]
    subst htodo
    have hzero : w.offset = 0 := Nat.le_zero.1 hs.inside
    refine ⟨w, 0, by simp [writeFields, Outgoing.after], Nat.le_refl _, rfl, by simp, ?_⟩
    simpa using Stands.of_zero hzero []
  | cons raw raws ih =>
    have hcons := hs.cons_eq
    by_cases hroom : (raw.drop w.offset).length ≤ chunk.room
    · -- the field is completed, and the next ones share what is left of the room
      rcases ih (Stands.of_zero (w := incField { w with offset := 0 }) rfl raws)
        (chunk.after (raw.drop w.offset)) with ⟨w', k, hrun, hk, hheader, hfield, hstands⟩
      refine ⟨w', k + 1, ?_, Nat.succ_le_succ hk, hheader, ?_, ?_⟩
      · simp only [writeFields, writeRaw_of_le hs hroom, hrun, Outgoing.length_le_after hroom]
        rw [hcons, Outgoing.after_append]
      · rw [hfield, UInt8.ofNat_add, UInt8.add_comm (UInt8.ofNat k), ← UInt8.add_assoc]
        rfl
      · rwa [List.drop_succ_cons, hcons, ← Outgoing.drop_after hroom]
    · -- the chunk ends inside the field
      rcases writeRaw_of_lt hs (Nat.not_le.1 hroom) with ⟨hrun, hstands⟩
      have hlong : ¬todo.length ≤ chunk.room := by
        rw [hcons, List.length_append]
        omega
      refine ⟨{ w with offset := w.offset + chunk.room }, 0, ?_, Nat.zero_le _, rfl, by simp,
        hstands⟩
      simp only [writeFields, hrun, decide_eq_false hlong]

end MessageWriter

/-- The fields of a message, the header first. -/
def Version.raws (v : Version) : List Bytes := versionHeader.encode :: v.messageFields

theorem Version.encode_eq (v : Version) : v.encode = v.raws.flatten := rfl

@[simp] theorem Version.length_encode (v : Version) : v.encode.length = 23 := by
  simp [encode, messageFields, MessageHeader.encode]

/-- The bytes `todo` of the message of `v` are still to be put out: the sender stands inside the
header, or inside a field or behind the last one. -/
inductive Version.Unsent (v : Version) (w : MessageWriter) (todo : Bytes) : Prop where
  | header (hheader : w.headerWritten = false) (hfield : w.field = 0) (hs : w.Stands v.raws todo)
  | fields (hheader : w.headerWritten = true) (hfield : w.field.toNat ≤ 3)
      (hs : w.Stands (v.messageFields.drop w.field.toNat) todo)

namespace Version

variable {v : Version} {w : MessageWriter} {todo : Bytes}

theorem Unsent.fresh (v : Version) : v.Unsent .fresh v.encode :=
  .header rfl rfl (.of_zero rfl _)

/-- Once the header is out, the fields go out as far as there is room. -/
theorem writeTo_of_header (hheader : w.headerWritten = true) (hfield : w.field.toNat ≤ 3)
    (hs : w.Stands (v.messageFields.drop w.field.toNat) todo) (chunk : Outgoing) :
    ∃ w', v.writeTo w chunk = (decide (todo.length ≤ chunk.room), w', chunk.after todo) ∧
      v.Unsent w' (todo.drop chunk.room) := by
  rcases MessageWriter.writeFields_of_stands hs chunk with
    ⟨w', k, hrun, hk, hheader', hfield', hstands⟩
  have hleft : k ≤ 3 - w.field.toNat := by simpa [messageFields] using hk
  have hposition : w'.field.toNat = w.field.toNat + k := by
    rw [hfield', toNat_field_add (by omega)]
  refine ⟨w', ?_, .fields (hheader'.trans hheader) (by omega) ?_⟩
  · simp only [writeTo, MessageWriter.writeHeader, hheader, if_true, hrun]
  · rwa [hposition, ← List.drop_drop]

/-- **A call puts out what there is room for**, tells whether that was all, and leaves the rest to
the calls behind it. -/
theorem writeTo_of_unsent (hs : v.Unsent w todo) (chunk : Outgoing) :
    ∃ w', v.writeTo w chunk = (decide (todo.length ≤ chunk.room), w', chunk.after todo) ∧
      v.Unsent w' (todo.drop chunk.room) := by
  cases hs with
  | fields hheader hfield hs => exact writeTo_of_header hheader hfield hs chunk
  | header hheader hfield hs =>
    have hcons := hs.cons_eq
    by_cases hroom : (versionHeader.encode.drop w.offset).length ≤ chunk.room
    · -- the call goes on as if the header had been out before
      rcases writeTo_of_header (v := v) (w := { w with headerWritten := true, offset := 0 }) rfl
        (by simp [hfield]) (.of_zero rfl _) (chunk.after (versionHeader.encode.drop w.offset)) with
        ⟨w', hrun, hunsent⟩
      have hgo : v.writeTo w chunk = v.writeTo { w with headerWritten := true, offset := 0 }
          (chunk.after (versionHeader.encode.drop w.offset)) := by
        have hraw := MessageWriter.writeRaw_of_le hs hroom
        rw [versionHeader] at hraw
        simp [writeTo, MessageWriter.writeHeader, hheader, hraw, versionHeader]
      have hfields : v.messageFields.drop w.field.toNat = v.messageFields := by simp [hfield]
      simp only [hfields, Outgoing.length_le_after hroom, ← Outgoing.after_append, ← hcons] at hrun
      rw [hfields, Outgoing.drop_after hroom, ← hcons] at hunsent
      exact ⟨w', hgo.trans hrun, hunsent⟩
    · -- the chunk ends inside the header
      rcases MessageWriter.writeRaw_of_lt hs (Nat.not_le.1 hroom) with ⟨hraw, hs'⟩
      have hlong : ¬todo.length ≤ chunk.room := by
        rw [hcons, List.length_append]
        omega
      refine ⟨{ w with offset := w.offset + chunk.room }, ?_, .header hheader hfield hs'⟩
      rw [versionHeader] at hraw
      simp [writeTo, MessageWriter.writeHeader, hheader, hraw, hlong]

end Version

/-! ### Fields that are being taken in -/

namespace MessageReader

/-- The fields `raws` lie ahead of the receiver, which stands inside the first; the bytes `todo` are
still to be taken in. -/
structure Stands (r : MessageReader) (raws : List Bytes) (todo : Bytes) : Prop where
  /-- No more of the first field is in than it has. -/
  inside : r.partialField.length ≤ (raws.headD []).length
  /-- What is in goes on with what is to come. -/
  ahead : r.partialField ++ todo = raws.flatten

variable {r : MessageReader} {raw part rest todo chunk : Bytes} {raws : List Bytes}

/-- The receiver stands at the beginning of a field. -/
theorem Stands.of_nil (h : r.partialField = []) (raws : List Bytes) :
    r.Stands raws raws.flatten := by
  constructor
  · rw [h]
    exact Nat.zero_le _
  · rw [h, List.nil_append]

/-- What is to come is the rest of the first field and the fields behind it. -/
theorem Stands.cons_eq (hs : r.Stands (raw :: raws) todo) :
    ∃ part, r.partialField ++ part = raw ∧ todo = part ++ raws.flatten := by
  rcases List.append_eq_append_iff.1 hs.ahead with ⟨part, hraw, htodo⟩ | ⟨extra, hpartial, hflat⟩
  · exact ⟨part, hraw.symm, htodo⟩
  · have hinside : r.partialField.length ≤ raw.length := hs.inside
    have hextra : extra = [] := by
      rw [hpartial, List.length_append] at hinside
      exact List.length_eq_zero_iff.1 (by omega)
    subst hextra
    exact ⟨[], by rw [hpartial]; simp, by simpa using hflat.symm⟩

/-- A chunk ends inside the first field, or it has the rest of it. -/
theorem Stands.chunk_cases (hs : r.Stands (raw :: raws) (chunk ++ todo)) :
    (∃ part, part ≠ [] ∧ r.partialField ++ (chunk ++ part) = raw) ∨
      ∃ part chunk', r.partialField ++ part = raw ∧ chunk = part ++ chunk' ∧
        raws.flatten = chunk' ++ todo := by
  rcases hs.cons_eq with ⟨part, hraw, hsplit⟩
  rcases Bytes.cut_cases hsplit with ⟨part', hpart, rfl, -⟩ | ⟨chunk', hchunk, hflat⟩
  · exact .inl ⟨part', hpart, hraw⟩
  · exact .inr ⟨part, chunk', hraw, hchunk, hflat⟩

/-- A chunk that has the rest of the field completes it. -/
theorem readRaw_of_rest (h : r.partialField ++ part = raw) (rest : Bytes) :
    r.readRaw raw.length (part ++ rest) =
      (some raw, { r with partialField := [], lastRead := true }, rest) := by
  have hwanted : raw.length - r.partialField.length = part.length := by
    rw [← h, List.length_append]
    omega
  simp [readRaw, hwanted, h]

/-- A chunk that ends inside the field is used up. -/
theorem readRaw_of_more (h : r.partialField ++ (chunk ++ part) = raw) (hpart : part ≠ []) :
    r.readRaw raw.length chunk =
      (none, { r with partialField := r.partialField ++ chunk, lastRead := false }, []) := by
  have hlen := congrArg List.length h
  have hpos := List.length_pos_iff.2 hpart
  simp only [List.length_append] at hlen
  have hshort : chunk.length ≤ raw.length - r.partialField.length := by omega
  simp only [readRaw, List.take_of_length_le hshort, List.drop_of_length_le hshort,
    List.length_append]
  rw [if_pos (by omega)]

/-- The receiver once the header of a version is in. -/
def pastHeader (r : MessageReader) : MessageReader :=
  { r with header := some versionHeader, partialField := [], lastRead := true }

@[simp] theorem header_pastHeader (r : MessageReader) :
    r.pastHeader.header = some versionHeader := rfl

@[simp] theorem field_pastHeader (r : MessageReader) : r.pastHeader.field = r.field := rfl

@[simp] theorem partialField_pastHeader (r : MessageReader) : r.pastHeader.partialField = [] := rfl

end MessageReader

/-- The bytes of a field have the width of its slot. -/
def FieldSlot.Fits (slot : FieldSlot) (raw : Bytes) : Prop := slot.width = raw.length

namespace Version

open MessageReader

/-- Fills slots with the bytes of their fields. -/
def fill (v : Version) (slots : List FieldSlot) (raws : List Bytes) : Version :=
  (slots.zip raws).foldl (fun v filled => filled.1.set v filled.2) v

@[simp] theorem fill_cons (v : Version) (slot : FieldSlot) (slots : List FieldSlot) (raw : Bytes)
    (raws : List Bytes) : v.fill (slot :: slots) (raw :: raws) = (slot.set v raw).fill slots raws :=
  rfl

variable {v : Version} {r : MessageReader} {slots : List FieldSlot} {raws : List Bytes}
  {part todo chunk : Bytes}

/-- The fields are completed by a chunk that has all of what is to come. -/
theorem readFields_of_rest (hfit : List.Forall₂ FieldSlot.Fits slots raws) (hs : r.Stands raws todo)
    (rest : Bytes) :
    ∃ r', v.readFields r (todo ++ rest) slots = ⟨.ok true, v.fill slots raws, r', rest⟩ := by
  induction hfit generalizing v r todo with
  | nil =>
    have htodo : todo = [] := (List.append_eq_nil_iff.1 hs.ahead).2
    exact ⟨r, by rw [htodo]; rfl⟩
  | @cons slot raw slots raws hfits hfit ih =>
    rcases hs.cons_eq with ⟨part, hraw, rfl⟩
    have hwidth : slot.width = raw.length := hfits
    rcases ih (v := slot.set v raw)
      (Stands.of_nil (r := incField { r with partialField := [], lastRead := true }) rfl raws) with
      ⟨r', hrun⟩
    refine ⟨r', ?_⟩
    simp only [readFields, hwidth, List.append_assoc, readRaw_of_rest hraw, hrun, fill_cons]

/-- A chunk that ends before the fields do is used up, and the receiver stands behind it. -/
theorem readFields_of_more (hfit : List.Forall₂ FieldSlot.Fits slots raws)
    (hs : r.Stands raws (chunk ++ todo)) (hmore : todo ≠ []) :
    ∃ v' r' k, v.readFields r chunk slots = ⟨.ok false, v', r', []⟩ ∧
      k ≤ slots.length ∧ r'.header = r.header ∧ r'.field = r.field + UInt8.ofNat k ∧
      r'.Stands (raws.drop k) todo ∧
      v'.fill (slots.drop k) (raws.drop k) = v.fill slots raws := by
  induction hfit generalizing v r chunk with
  | nil =>
    have hnil : chunk ++ todo = [] := (List.append_eq_nil_iff.1 hs.ahead).2
    exact absurd (List.append_eq_nil_iff.1 hnil).2 hmore
  | @cons slot raw slots raws hfits hfit ih =>
    have hwidth : slot.width = raw.length := hfits
    rcases hs.chunk_cases with ⟨part, hpart, hraw⟩ | ⟨part, chunk', hraw, rfl, hflat⟩
    · -- the chunk ends inside the field
      refine ⟨v, { r with partialField := r.partialField ++ chunk, lastRead := false }, 0, ?_,
        Nat.zero_le _, rfl, by simp, ⟨?_, ?_⟩, rfl⟩
      · simp only [readFields, hwidth, readRaw_of_more hraw hpart]
      · rw [← hraw]
        simp
      · rw [List.append_assoc]
        exact hs.ahead
    · -- the field is completed, and the next ones share what is left of the chunk
      have hnext := Stands.of_nil
        (r := incField { r with partialField := [], lastRead := true }) rfl raws
      rw [hflat] at hnext
      rcases ih (v := slot.set v raw) hnext with
        ⟨v', r', k, hrun, hk, hheader, hfield, hstands, hfill⟩
      refine ⟨v', r', k + 1, ?_, Nat.succ_le_succ hk, hheader, ?_, hstands, hfill⟩
      · simp only [readFields, hwidth, readRaw_of_rest hraw, hrun]
      · rw [hfield, UInt8.ofNat_add, UInt8.add_comm (UInt8.ofNat k), ← UInt8.add_assoc]
        rfl

/-- The bytes `todo` of the message of `x` are still to be taken in, and `v` is as much of `x` as is
in: the receiver stands inside the header, or inside a field. -/
inductive Unread (x v : Version) (r : MessageReader) (todo : Bytes) : Prop where
  | header (hheader : r.header = none) (hfield : r.field = 0) (hs : r.Stands x.raws todo)
  | fields (hheader : r.header = some versionHeader) (hfield : r.field.toNat ≤ 3)
      (hs : r.Stands (x.messageFields.drop r.field.toNat) todo)
      (hfill : v.fill (fieldSlots.drop r.field.toNat) (x.messageFields.drop r.field.toNat) = x)

variable {x : Version}

theorem Unread.fresh (x v : Version) : x.Unread v .fresh x.encode :=
  .header rfl rfl (.of_nil rfl _)

theorem fits_messageFields (x : Version) :
    List.Forall₂ FieldSlot.Fits fieldSlots x.messageFields := by
  simp [fieldSlots, messageFields, FieldSlot.Fits]

/-- The fields of a version fill all of any other one. -/
@[simp] theorem fill_messageFields (v x : Version) : v.fill fieldSlots x.messageFields = x := by
  simp [fill, fieldSlots, messageFields]

@[simp] theorem ofBytes_versionHeader :
    MessageHeader.ofBytes versionHeader.encode = versionHeader := by
  decide

/-- Once the header is in, a call takes in the fields. -/
theorem readFrom_of_header (hheader : r.header = some versionHeader) (chunk : Bytes) :
    v.readFrom r chunk = v.readFields { r with lastRead := true } chunk
      (fieldSlots.drop r.field.toNat) := by
  simp [readFrom, readHeader, hheader, versionHeader]

/-- A call that completes the header goes on with the fields. -/
theorem readFrom_of_versionHeader (hheader : r.header = none)
    (hraw : r.partialField ++ part = versionHeader.encode) (rest : Bytes) :
    v.readFrom r (part ++ rest) =
      v.readFields r.pastHeader rest (fieldSlots.drop r.field.toNat) := by
  have hrun : r.readRaw MessageHeader.size (part ++ rest) = _ := readRaw_of_rest hraw rest
  have hread : r.readHeader (part ++ rest) = (some versionHeader, r.pastHeader, rest) := by
    simp [readHeader, hheader, hrun, pastHeader]
  simp [readFrom, hread, versionHeader]

/-- Once the header is in, a chunk that ends before the message does leaves the rest of it. -/
theorem Unread.readFields (hheader : r.header = some versionHeader) (hfield : r.field.toNat ≤ 3)
    (hs : r.Stands (x.messageFields.drop r.field.toNat) (chunk ++ todo))
    (hfill : v.fill (fieldSlots.drop r.field.toNat) (x.messageFields.drop r.field.toNat) = x)
    (hmore : todo ≠ []) :
    ∃ v' r', v.readFields r chunk (fieldSlots.drop r.field.toNat) = ⟨.ok false, v', r', []⟩ ∧
      x.Unread v' r' todo := by
  rcases readFields_of_more (v := v) (List.forall₂_drop r.field.toNat (fits_messageFields x)) hs
    hmore with ⟨v', r', k, hrun, hk, hheader', hfield', hs', hfill'⟩
  have hleft : k ≤ 3 - r.field.toNat := by simpa [fieldSlots] using hk
  have hposition : r'.field.toNat = r.field.toNat + k := by
    rw [hfield', toNat_field_add (by omega)]
  refine ⟨v', r', hrun, .fields (hheader'.trans hheader) (by omega) ?_ ?_⟩
  · rwa [hposition, ← List.drop_drop]
  · rw [hposition, ← List.drop_drop, ← List.drop_drop, hfill', hfill]

/-- **A call that supplies the rest of a message completes it** and leaves what comes behind. -/
theorem readFrom_of_rest (hs : x.Unread v r todo) (rest : Bytes) :
    ∃ r', v.readFrom r (todo ++ rest) = ⟨.ok true, x, r', rest⟩ := by
  cases hs with
  | fields hheader hfield hs hfill =>
    rcases readFields_of_rest (v := v) (r := { r with lastRead := true })
      (List.forall₂_drop r.field.toNat (fits_messageFields x)) ⟨hs.inside, hs.ahead⟩ rest with
      ⟨r', hrun⟩
    exact ⟨r', by rw [readFrom_of_header hheader, hrun, hfill]⟩
  | header hheader hfield hs =>
    rcases hs.cons_eq with ⟨part, hraw, rfl⟩
    rcases readFields_of_rest (v := v) (fits_messageFields x) (.of_nil r.partialField_pastHeader _)
      rest with ⟨r', hrun⟩
    refine ⟨r', ?_⟩
    rw [List.append_assoc, readFrom_of_versionHeader hheader hraw]
    simpa [hfield] using hrun

/-- **A call that supplies less is used up**, and the next one goes on behind it. -/
theorem readFrom_of_more (hs : x.Unread v r (chunk ++ todo)) (hmore : todo ≠ []) :
    ∃ v' r', v.readFrom r chunk = ⟨.ok false, v', r', []⟩ ∧ x.Unread v' r' todo := by
  cases hs with
  | fields hheader hfield hs hfill =>
    rw [readFrom_of_header hheader]
    exact Unread.readFields (r := { r with lastRead := true }) hheader hfield
      ⟨hs.inside, hs.ahead⟩ hfill hmore
  | header hheader hfield hs =>
    rcases hs.chunk_cases with ⟨part, hpart, hraw⟩ | ⟨part, chunk', hraw, rfl, hflat⟩
    · -- the chunk ends inside the header
      have hrun : r.readRaw MessageHeader.size chunk = _ := readRaw_of_more hraw hpart
      refine ⟨v, { r with partialField := r.partialField ++ chunk, lastRead := false }, ?_,
        .header hheader hfield ⟨?_, ?_⟩⟩
      · simp [readFrom, readHeader, hheader, hrun]
      · show (r.partialField ++ chunk).length ≤ versionHeader.encode.length
        rw [← hraw]
        simp
      · rw [List.append_assoc]
        exact hs.ahead
    · -- the header is completed, and the fields share what is left of the chunk
      rw [readFrom_of_versionHeader hheader hraw]
      have hs' := Stands.of_nil r.partialField_pastHeader x.messageFields
      rw [hflat] at hs'
      exact Unread.readFields r.header_pastHeader (by simp [hfield]) (by simpa [hfield] using hs')
        (by simp [hfield]) hmore

/-! ### Messages in one chunk -/

theorem encode_ofBytes {bs : Bytes} (h : bs.length = 3) :
    (MessageHeader.ofBytes bs).encode = bs := by
  rcases List.length_eq_three.1 h with ⟨a, b, c, rfl⟩
  have htype : bytesOfU16 (Bytes.toU16 [a, b]) = [a, b] := bytesOfU16_toU16 rfl
  simp [MessageHeader.ofBytes, MessageHeader.encode, Bytes.toNat, htype]

/-- Any bytes of the right length are the fields of a version. -/
theorem exists_messageFields (bs : Bytes) (h : bs.length = 20) :
    ∃ x : Version, x.messageFields.flatten = bs := by
  refine ⟨⟨Bytes.toU64 ((bs.drop 8).take 8), Bytes.toU64 (bs.take 8), Bytes.toU32 (bs.drop 16)⟩, ?_⟩
  have hcounter : (bs.take 8).length = 8 := by simp [h]
  have hcoordinator : ((bs.drop 8).take 8).length = 8 := by simp [h]
  have hoperation : (bs.drop 16).length = 4 := by simp [h]
  have hbehind : (bs.drop 8).take 8 ++ bs.drop 16 = bs.drop 8 := by
    have hdrop : (bs.drop 8).drop 8 = bs.drop 16 := List.drop_drop
    rw [← hdrop, List.take_append_drop]
  simp [messageFields, bytesOfU64_toU64 hcounter, bytesOfU64_toU64 hcoordinator,
    bytesOfU32_toU32 hoperation, hbehind]

theorem decode_encode_append (v : Version) (rest : Bytes) : decode (v.encode ++ rest) = .ok v := by
  rcases readFrom_of_rest (Unread.fresh v absent) rest with ⟨r', hrun⟩
  simp [decode, hrun]

/-- What is shorter than a message is not decoded. -/
theorem decode_of_more {bs : Bytes} (h : bs ++ todo = x.encode) (hmore : todo ≠ []) :
    decode bs = .error (.corruption .messageTruncated) := by
  have hs : x.Unread absent .fresh (bs ++ todo) := h ▸ Unread.fresh x absent
  rcases readFrom_of_more hs hmore with ⟨v', r', hrun, -⟩
  simp [decode, hrun]

/-- What is decoded begins with the header of a version. -/
theorem header_of_decode {bs : Bytes} (h : decode bs = .ok v) : versionHeader.encode <+: bs := by
  by_cases hlen : bs.length < 3
  · have hread : ∃ r rest, fresh.readHeader bs = (none, r, rest) := by
      simp only [readHeader, readRaw, fresh, MessageHeader.size, List.nil_append, List.length_take,
        List.length_nil]
      rw [if_pos (by omega)]
      exact ⟨_, _, rfl⟩
    rcases hread with ⟨r, rest, hread⟩
    simp [decode, readFrom, hread] at h
  · have hread : ∃ r rest, fresh.readHeader bs = (some (.ofBytes (bs.take 3)), r, rest) := by
      simp only [readHeader, readRaw, fresh, MessageHeader.size, List.nil_append, List.length_take,
        List.length_nil]
      rw [if_neg (by omega)]
      exact ⟨_, _, by rw [Nat.sub_zero, List.take_take, Nat.min_self]⟩
    rcases hread with ⟨r, rest, hread⟩
    have hheader : MessageHeader.ofBytes (bs.take 3) = versionHeader := by
      -- any other header is refused at once
      generalize MessageHeader.ofBytes (bs.take 3) = header at hread
      by_cases htype : header.type = versionMessageType
      · by_cases hfields : header.fields = versionMessageFields
        · rw [versionHeader, ← htype, ← hfields]
        · simp [decode, readFrom, hread, htype, hfields] at h
      · simp [decode, readFrom, hread, htype] at h
    refine ⟨bs.drop 3, ?_⟩
    rw [← hheader, encode_ofBytes (by simp; omega), List.take_append_drop]

/-- **A version is decoded from just what begins with its message**. -/
theorem decode_eq_ok_iff {bs : Bytes} : decode bs = .ok v ↔ v.encode <+: bs := by
  constructor
  · intro h
    rcases header_of_decode h with ⟨rest, rfl⟩
    by_cases hlen : 20 ≤ rest.length
    · rcases exists_messageFields (rest.take 20) (by simp [hlen]) with ⟨x, hx⟩
      have hbegin : versionHeader.encode ++ rest = x.encode ++ rest.drop 20 := by
        rw [encode_eq, raws, List.flatten_cons, hx, List.append_assoc, List.take_append_drop]
      rw [hbegin, decode_encode_append] at h
      cases h
      exact ⟨rest.drop 20, hbegin.symm⟩
    · -- with zeros for the fields that are not there, it would be a message
      rcases exists_messageFields (rest ++ Bytes.zeros (20 - rest.length)) (by simp; omega) with
        ⟨x, hx⟩
      have hshort :
          (versionHeader.encode ++ rest) ++ Bytes.zeros (20 - rest.length) = x.encode := by
        rw [encode_eq, raws, List.flatten_cons, hx, List.append_assoc]
      have hmore : Bytes.zeros (20 - rest.length) ≠ [] := by
        simp [Bytes.zeros]
        omega
      rw [decode_of_more hshort hmore] at h
      cases h
  · rintro ⟨rest, rfl⟩
    exact decode_encode_append v rest

end Version

/-! ### Calls over chunks -/

/-- One call of a sender. -/
structure SendCall where
  /-- The chunk it was offered. -/
  offered : Outgoing
  /-- Whether it told that the message is out. -/
  done : Bool
  /-- The chunk as it left it. -/
  filled : Outgoing
  deriving DecidableEq, Repr

/-- The bytes that a call put out. -/
def SendCall.put (call : SendCall) : Bytes := call.filled.bytes.drop call.offered.bytes.length

/-- How much room calls were offered. -/
def roomOf (calls : List SendCall) : Nat := (calls.map fun call => call.offered.room).sum

/-- One call of a receiver. -/
structure ReceiveCall where
  /-- The chunk it was offered. -/
  offered : Bytes
  /-- What it answered. -/
  answer : Result Bool
  /-- What it left of the chunk. -/
  rest : Bytes

namespace Version

/-- The calls that send a version, one for each chunk. -/
def sends (v : Version) (w : MessageWriter) : List Outgoing → List SendCall
  | [] => []
  | chunk :: chunks =>
      let (done, w, filled) := v.writeTo w chunk
      ⟨chunk, done, filled⟩ :: v.sends w chunks

/-- The calls put out the message of a version: each as much as there is room for from where the
ones before it stopped, and each tells whether the last byte of the message is out. -/
def SentBy (v : Version) (calls : List SendCall) : Prop :=
  ∀ before call after, calls = before ++ call :: after →
    call.done = decide (23 ≤ roomOf before + call.offered.room) ∧
      call.filled = call.offered.after (v.encode.drop (roomOf before))

/-- The calls that receive a version, up to the first one that does not ask for more.  They give the
version as it is then, and the chunks that are left, the rest of the last one first. -/
def receive (v : Version) (r : MessageReader) : List Bytes → List ReceiveCall × Version × List Bytes
  | [] => ([], v, [])
  | chunk :: chunks =>
      let incoming := v.readFrom r chunk
      let call : ReceiveCall := ⟨chunk, incoming.result, incoming.rest⟩
      match incoming.result with
      | .ok false =>
          let (calls, x, left) := incoming.version.receive incoming.reader chunks
          (call :: calls, x, left)
      | _ => ([call], incoming.version, incoming.rest :: chunks)

/-- The calls take in the message of a version: all but the last one ask for more and leave nothing,
though the message is not there yet, and the last one leaves just what comes behind the message. -/
def ReceivedBy (x : Version) (calls : List ReceiveCall) : Prop :=
  ∃ before last, calls = before ++ [last] ∧
    (∀ call ∈ before, call.answer = .ok false ∧ call.rest = []) ∧
    (before.flatMap ReceiveCall.offered).length < 23 ∧
    last.answer = .ok true ∧
    before.flatMap ReceiveCall.offered ++ last.offered = x.encode ++ last.rest

variable {v x : Version} {w : MessageWriter} {r : MessageReader} {todo : Bytes}
  {chunks : List Outgoing}

@[simp] theorem roomOf_cons (call : SendCall) (calls : List SendCall) :
    roomOf (call :: calls) = call.offered.room + roomOf calls := rfl

/-- Each call puts out what there is room for of what the ones before it left. -/
theorem sends_of_unsent (hs : v.Unsent w todo) {before after : List SendCall} {call : SendCall}
    (hcalls : v.sends w chunks = before ++ call :: after) :
    call.done = decide (todo.length ≤ roomOf before + call.offered.room) ∧
      call.filled = call.offered.after (todo.drop (roomOf before)) := by
  induction before generalizing w todo chunks with
  | nil =>
    cases chunks with
    | nil => cases hcalls
    | cons chunk chunks =>
      rcases writeTo_of_unsent hs chunk with ⟨w', hrun, -⟩
      simp only [sends, hrun, List.nil_append, List.cons.injEq] at hcalls
      rcases hcalls with ⟨rfl, -⟩
      simp [roomOf]
  | cons first before ih =>
    cases chunks with
    | nil => cases hcalls
    | cons chunk chunks =>
      rcases writeTo_of_unsent hs chunk with ⟨w', hrun, hs'⟩
      simp only [sends, hrun, List.cons_append, List.cons.injEq] at hcalls
      rcases hcalls with ⟨rfl, hcalls⟩
      rcases ih hs' hcalls with ⟨hdone, hfilled⟩
      refine ⟨?_, ?_⟩
      · rw [hdone, decide_eq_decide, List.length_drop, roomOf_cons]
        show todo.length - chunk.room ≤ _ ↔ todo.length ≤ chunk.room + _ + _
        omega
      · rw [hfilled, List.drop_drop]
        rfl

/-- **The calls for a version put out its message**, whatever the chunks are. -/
theorem sentBy_sends (v : Version) (chunks : List Outgoing) :
    v.SentBy (v.sends .fresh chunks) := by
  intro before call after hcalls
  have h := sends_of_unsent (.fresh v) hcalls
  rwa [length_encode] at h

/-- What the calls put out is as much of the message as there is room for. -/
theorem put_of_unsent (hs : v.Unsent w todo) :
    (v.sends w chunks).flatMap SendCall.put = todo.take (chunks.map Outgoing.room).sum := by
  induction chunks generalizing w todo with
  | nil => simp [sends]
  | cons chunk chunks ih =>
    rcases writeTo_of_unsent hs chunk with ⟨w', hrun, hs'⟩
    have hput : (⟨chunk, decide (todo.length ≤ chunk.room), chunk.after todo⟩ : SendCall).put =
        todo.take chunk.room := by
      simp [SendCall.put, Outgoing.after]
    rw [sends, hrun]
    simp only [List.flatMap_cons, hput, ih hs', List.map_cons, List.sum_cons]
    rw [← List.take_add]

/-- **The calls for a version receive it** from any chunks that begin with its message. -/
theorem receive_of_unread (hs : x.Unread v r todo) (htodo : todo ≠ []) {chunks : List Bytes}
    {more : Bytes} (hchunks : chunks.flatten = todo ++ more) :
    ∃ before last left, v.receive r chunks = (before ++ [last], x, last.rest :: left) ∧
      (last.rest :: left).flatten = more ∧
      (∀ call ∈ before, call.answer = .ok false ∧ call.rest = []) ∧
      (before.flatMap ReceiveCall.offered).length < todo.length ∧
      last.answer = .ok true ∧
      before.flatMap ReceiveCall.offered ++ last.offered = todo ++ last.rest := by
  induction chunks generalizing v r todo with
  | nil => exact absurd (List.append_eq_nil_iff.1 hchunks.symm).1 htodo
  | cons chunk chunks ih =>
    rcases Bytes.cut_cases hchunks with ⟨todo', hmore, rfl, hchunks'⟩ | ⟨rest, rfl, rfl⟩
    · rcases readFrom_of_more hs hmore with ⟨v', r', hrun, hs'⟩
      rcases ih hs' hmore hchunks' with
        ⟨before, last, left, hreceive, hleft, hbefore, hlen, hanswer, hbytes⟩
      refine ⟨⟨chunk, .ok false, []⟩ :: before, last, left, ?_, hleft, ?_, ?_, hanswer, ?_⟩
      · simp only [receive, hrun, hreceive, List.cons_append]
      · intro call hcall
        rcases List.mem_cons.1 hcall with rfl | hcall
        · exact ⟨rfl, rfl⟩
        · exact hbefore call hcall
      · simp only [List.flatMap_cons, List.length_append]
        omega
      · simp only [List.flatMap_cons, List.append_assoc, hbytes]
    · rcases readFrom_of_rest hs rest with ⟨r', hrun⟩
      refine ⟨[], ⟨todo ++ rest, .ok true, rest⟩, chunks, ?_, rfl, ?_, ?_, rfl, rfl⟩
      · simp only [receive, hrun, List.nil_append]
      · intro call hcall
        cases hcall
      · exact List.length_pos_iff.2 htodo

end Version

/-- The calls that receive messages one after the other, each with a receiver of its own and into a
version that is there already. -/
def receiveAll : List Version → List Bytes → List (Version × List ReceiveCall) × List Bytes
  | [], chunks => ([], chunks)
  | v :: starts, chunks =>
      let (calls, x, left) := v.receive .fresh chunks
      let (messages, left) := receiveAll starts left
      ((x, calls) :: messages, left)

/-- Messages that follow each other are received one after the other. -/
theorem receiveAll_of_messages {versions starts : List Version} {chunks : List Bytes} {more : Bytes}
    (hlen : starts.length = versions.length)
    (hchunks : chunks.flatten = versions.flatMap Version.encode ++ more) :
    List.Forall₂ (fun v got => got.1 = v ∧ v.ReceivedBy got.2) versions
        (receiveAll starts chunks).1 ∧
      (receiveAll starts chunks).2.flatten = more := by
  induction versions generalizing starts chunks with
  | nil =>
    cases List.length_eq_zero_iff.1 hlen
    exact ⟨.nil, hchunks⟩
  | cons x versions ih =>
    cases starts with
    | nil => cases hlen
    | cons v starts =>
      have hne : x.encode ≠ [] := List.ne_nil_of_length_pos (by simp)
      rw [List.flatMap_cons, List.append_assoc] at hchunks
      rcases Version.receive_of_unread (.fresh x v) hne hchunks with
        ⟨before, last, left, hreceive, hleft, hbefore, hshort, hanswer, hbytes⟩
      rcases ih (Nat.succ.inj hlen) hleft with ⟨hgot, hrest⟩
      rw [Version.length_encode] at hshort
      simp only [receiveAll, hreceive]
      exact ⟨.cons ⟨rfl, before, last, rfl, hbefore, hshort, hanswer, hbytes⟩ hgot, hrest⟩

/-- The bytes that come out when versions are sent, each over chunks of its own. -/
def wire (sent : List (Version × List Outgoing)) : Bytes :=
  sent.flatMap fun message => (message.1.sends .fresh message.2).flatMap SendCall.put

/-- What goes over the wire is the messages one behind the other. -/
theorem wire_eq {sent : List (Version × List Outgoing)}
    (h : ∀ message ∈ sent, 23 ≤ (message.2.map Outgoing.room).sum) :
    wire sent = (sent.map Prod.fst).flatMap Version.encode := by
  induction sent with
  | nil => rfl
  | cons message sent ih =>
    have hroom := h message List.mem_cons_self
    have hrest := ih fun message' hmessage => h message' (List.mem_cons_of_mem _ hmessage)
    rw [wire] at hrest
    rw [wire, List.flatMap_cons, hrest, Version.put_of_unsent (.fresh _), List.map_cons,
      List.flatMap_cons, List.take_of_length_le (by rwa [Version.length_encode])]

/-- **What is sent over any chunks is received over any chunks.**  The calls for a version put out
its message as far as there is room, and tell when it is out; with room for all messages, the wire
carries one behind the other.  However these bytes, and any behind them, are cut into chunks, the
receivers take in one version each, tell when it is there, and leave what is not theirs.  And a
version is decoded from just what begins with its message. -/
theorem messages_over_chunks (sent : List (Version × List Outgoing)) :
    (∀ message ∈ sent, message.1.SentBy (message.1.sends .fresh message.2)) ∧
      ((∀ message ∈ sent, 23 ≤ (message.2.map Outgoing.room).sum) →
        wire sent = (sent.map Prod.fst).flatMap Version.encode ∧
        ∀ starts chunks more, starts.length = sent.length → chunks.flatten = wire sent ++ more →
          List.Forall₂ (fun message got => got.1 = message.1 ∧ message.1.ReceivedBy got.2) sent
              (receiveAll starts chunks).1 ∧
            (receiveAll starts chunks).2.flatten = more) ∧
      ∀ bs v, Version.decode bs = .ok v ↔ v.encode <+: bs := by
  refine ⟨fun message _ => Version.sentBy_sends _ _, ?_, fun _ _ => Version.decode_eq_ok_iff⟩
  intro henough
  refine ⟨wire_eq henough, ?_⟩
  intro starts chunks more hlen hchunks
  rw [wire_eq henough] at hchunks
  rcases receiveAll_of_messages (by rw [hlen, List.length_map]) hchunks with ⟨hgot, hrest⟩
  exact ⟨List.forall₂_map_left_iff.1 hgot, hrest⟩

/-- Two messages over four chunks, received from three that cut the second one. -/
theorem messages_over_chunks_of_two :
    let sent : List (Version × List Outgoing) :=
      [(⟨2, 1, 3⟩, [⟨[], 0⟩, ⟨[9], 1⟩, ⟨[], 22⟩]), (⟨0, 7, 4294967295⟩, [⟨[], 30⟩])]
    (∀ message ∈ sent, 23 ≤ (message.2.map Outgoing.room).sum) ∧
      List.Forall₂ (fun message got => got.1 = message.1 ∧ message.1.ReceivedBy got.2) sent
        (receiveAll [.absent, .absent] [(wire sent).take 25, [], (wire sent).drop 25]).1 := by
  intro sent
  have henough : ∀ message ∈ sent, 23 ≤ (message.2.map Outgoing.room).sum := by decide
  refine ⟨henough, ?_⟩
  exact (((messages_over_chunks sent).2.1 henough).2 _ _ [] rfl (by simp)).1

end PageLog
