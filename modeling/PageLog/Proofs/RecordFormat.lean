import PageLog.Proofs.RecordCodec
import PageLog.Proofs.VarintForms

/-!
# The bytes that are records

A record is read from a form of the code of its kind and from its fields, and from no other bytes.
That the reader takes the bytes of the writer is proved field by field, and here the converse: with
every step the bytes taken so far are those that the writer puts there for what was read so far.

## Main definitions

* `Cursor.Completes` — a step takes what the writer puts behind certain bytes.
* `Record.OutOfRange` — bytes with a field that no record has.

## Main results

* `Record.completes_readFields` — the reader of fields takes what the writer of records puts there.
* `Record.decode_append` — a record is not read from its bytes and more.
* `Record.decode_format` — **just the bytes in the format of records are read, as what they are**.
-/

namespace PageLog

/-! ### Reading steps, backwards -/

namespace Cursor

variable {α β : Type} {front : Bytes} {spell : α → Bytes}

/-- When the bytes `front` were taken already, the step takes the rest of what the writer puts down
for its value. -/
structure Completes (front : Bytes) (act : Act Cursor α) (spell : α → Bytes) : Prop where
  taken : ∀ {c c' a}, act c = .ok a c' → front ++ c.rest = spell a ++ c'.rest

theorem Completes.pure {a : α} (h : front = spell a) : Completes front (pure a) spell := by
  constructor
  intro c c' b hrun
  cases hrun
  rw [h]

theorem Completes.throw (e : Error) : Completes front (throw e) spell := by
  constructor
  intro c c' b hrun
  cases hrun

/-- Behind a step that completes a field the bytes of the field are taken, too. -/
theorem Completes.bind {act : Act Cursor α} {next : α → Act Cursor β} {spell' : β → Bytes}
    (h : Completes [] act spell) (h' : ∀ a, Completes (front ++ spell a) (next a) spell') :
    Completes front (act >>= next) spell' := by
  constructor
  intro c c' b hrun
  obtain ⟨a, c₁, hfirst, hrest⟩ := Act.bind_eq_ok.1 hrun
  have htaken := h.taken hfirst
  rw [List.nil_append] at htaken
  rw [htaken, ← List.append_assoc]
  exact (h' a).taken hrest

/-- The last field completes what is made of it. -/
theorem Completes.bind_pure {act : Act Cursor α} {f : α → β} {spell' : β → Bytes}
    (h : Completes [] act spell) (hspell : ∀ a, front ++ spell a = spell' (f a)) :
    Completes front (act >>= fun a => Pure.pure (f a)) spell' :=
  h.bind fun a => Completes.pure (hspell a)

theorem take_eq_ok {n : Nat} {c c' : Cursor} {bs : Bytes} (h : take n c = .ok bs c') :
    bs.length = n ∧ c.rest = bs ++ c'.rest := by
  rw [take] at h
  split at h
  · rename_i hroom
    cases h
    exact ⟨List.length_take_of_le hroom, (List.take_append_drop n c.rest).symm⟩
  · cases h

/-- Bytes of a fixed number are taken, and what is made of them is written as just these. -/
theorem completes_map_take {n : Nat} {f : Bytes → α}
    (hspell : ∀ bs : Bytes, bs.length = n → spell (f bs) = bs) :
    Completes [] (f <$> take n) spell := by
  constructor
  intro c c' a hrun
  cases htake : take n c with
  | error e c₁ =>
    have hfailed : (f <$> take n) c = .error e c₁ := Act.map_of_error htake
    rw [hfailed] at hrun
    cases hrun
  | ok bs c₁ =>
    have hdone : (f <$> take n) c = .ok (f bs) c₁ := Act.map_of_ok htake
    rw [hdone] at hrun
    cases hrun
    obtain ⟨hlength, htaken⟩ := take_eq_ok htake
    rw [hspell bs hlength, List.nil_append, htaken]

theorem completes_u8 : Completes [] u8 fun b => [b] := by
  refine completes_map_take ?_
  intro bs hlength
  obtain ⟨b, rfl⟩ := List.length_eq_one_iff.1 hlength
  simp [Bytes.toNat]

theorem completes_u16 : Completes [] u16 bytesOfU16 :=
  completes_map_take fun _ => bytesOfU16_toU16

theorem completes_i32 : Completes [] i32 bytesOfI32 := by
  refine completes_map_take ?_
  intro bs hlength
  have hsame : (Bytes.toI32 bs).toUInt32 = Bytes.toU32 bs := rfl
  rw [bytesOfI32, hsame, bytesOfU32_toU32 hlength]

theorem completes_u64 : Completes [] u64 bytesOfU64 :=
  completes_map_take fun _ => bytesOfU64_toU64

/-- A number of four bytes is not negative just when its top bit is not set. -/
theorem toNat_of_toInt_nonneg {v : Int32} (h : 0 ≤ v.toInt) : v.toInt = v.toUInt32.toNat := by
  have hcases := BitVec.toInt_eq_toNat_cond v.toBitVec
  have hlt := v.toBitVec.isLt
  have hint : v.toInt = v.toBitVec.toInt := rfl
  have hnat : v.toUInt32.toNat = v.toBitVec.toNat := rfl
  split at hcases <;> omega

theorem completes_narrow (damage : Damage) :
    Completes [] (narrow damage) fun v => bigEndian 4 v.toNat := by
  refine completes_i32.bind ?_
  intro v
  refine ⟨fun hrun => ?_⟩
  split at hrun
  · cases hrun
  · rename_i hrange
    have hnat := toNat_of_toInt_nonneg (v := v) (by omega)
    have hback : (UInt16.ofNat v.toInt.toNat).toNat = v.toUInt32.toNat := by
      rw [UInt16.toNat_ofNat_of_lt' (by simp only [UInt16.size]; omega)]
      omega
    cases hrun
    show _ = bigEndian 4 (UInt16.ofNat v.toInt.toNat).toNat ++ _
    rw [hback]
    rfl

/-- Any form of a number is read. -/
theorem reads_form {tag : Bytes} {n : Nat} (h : Varint.Form tag n) :
    Reads varint tag (UInt64.ofNat n) := by
  intro off rest
  have hdecode : Varint.decode (tag ++ rest) = ⟨.ok n, rest⟩ :=
    Varint.decode_eq_ok_iff.2 ⟨tag, h, rfl⟩
  simp only [varint, hdecode, List.length_append, Nat.add_sub_cancel]

/-- A number is read from a form of it. -/
theorem form_of_varint {c c' : Cursor} {v : UInt64} (h : varint c = .ok v c') :
    ∃ tag, Varint.Form tag v.toNat ∧ c.rest = tag ++ c'.rest := by
  rw [varint] at h
  cases hreading : Varint.decode c.rest with
  | mk value rest =>
    rw [hreading] at h
    cases value with
    | error damage => cases h
    | ok n =>
      cases h
      obtain ⟨tag, hform, hbytes⟩ := Varint.decode_eq_ok_iff.1 hreading
      refine ⟨tag, ?_, hbytes⟩
      rwa [UInt64.toNat_ofNat_of_lt' hform.bits]

end Cursor

open Cursor

theorem PageTarget.completes_read : Completes [] PageTarget.read PageTarget.encode := by
  refine completes_i32.bind fun group => completes_u64.bind fun page => ?_
  refine (completes_narrow _).bind fun ioType => (completes_narrow _).bind_pure fun ioVersion => ?_
  rfl

namespace Record

theorem completes_readFlag : Completes [] readFlag fun full => [if full then 1 else 0] := by
  refine completes_u8.bind fun b => ⟨fun hrun => ?_⟩
  split at hrun
  · cases hrun
    rfl
  · cases hrun
    rfl
  · cases hrun

theorem encode_code (t : RecordType) : Varint.encode t.code = [UInt8.ofNat t.code] :=
  Varint.encode_of_lt (code_lt t)

theorem code_injective {t t' : RecordType} (h : t.code = t'.code) : t = t' := by
  have hback := RecordType.ofCode?_code t
  rw [h, RecordType.ofCode?_code, Option.some.injEq] at hback
  exact hback.symm

/-- Kinds are told apart by the byte their records begin with. -/
theorem code_append_inj {t t' : RecordType} {bs bs' : Bytes}
    (h : Varint.encode t.code ++ bs = Varint.encode t'.code ++ bs') : t = t' ∧ bs = bs' := by
  rw [encode_code, encode_code, List.singleton_append, List.singleton_append,
    List.cons.injEq] at h
  obtain ⟨hbyte, hbs⟩ := h
  have hlt := code_lt t
  have hlt' := code_lt t'
  have hcode := congrArg UInt8.toNat hbyte
  rw [Varint.toNat_byte (by omega), Varint.toNat_byte (by omega)] at hcode
  exact ⟨code_injective hcode, hbs⟩

/-- A change is read behind its page.  That it is of the kind that the record announced is seen by
putting the code of the kind in front of it. -/
theorem completes_readDelta {change : Act Cursor PageChange} {t : RecordType}
    (h : Completes (Varint.encode t.code) change fun c =>
      Varint.encode c.recordType.code ++ c.encode) :
    Completes (Varint.encode t.code) (readDelta change) encode := by
  refine PageTarget.completes_read.bind fun target => ⟨fun {c c' r} hrun => ?_⟩
  obtain ⟨change, c₁, hchange, hpure⟩ := Act.bind_eq_ok.1 hrun
  cases hpure
  have htaken := h.taken hchange
  rw [List.append_assoc] at htaken
  obtain ⟨rfl, hrest⟩ := code_append_inj htaken
  show _ = Varint.encode change.recordType.code ++ (target.encode ++ change.encode) ++ _
  rw [hrest]
  simp only [List.append_assoc]

/-- The reader for a kind takes, behind the code of the kind, what the writer of records puts down
for the record that it gives. -/
theorem completes_readFields (t : RecordType) :
    Completes (Varint.encode t.code) (readFields t) encode := by
  cases t with
  | snapshot =>
    refine completes_u64.bind fun id => completes_readFlag.bind_pure fun full => ?_
    exact List.append_assoc ..
  | checkpoint => exact completes_u64.bind_pure fun id => rfl
  | initNewPage =>
    refine completes_readDelta (completes_u64.bind fun prev =>
      completes_u64.bind_pure fun data => ?_)
    exact List.append_assoc ..
  | setNext => exact completes_readDelta (completes_u64.bind_pure fun next => rfl)
  | setPrevious => exact completes_readDelta (completes_u64.bind_pure fun prev => rfl)
  | addPage =>
    refine completes_readDelta (completes_u16.bind fun slot =>
      completes_u64.bind_pure fun data => ?_)
    exact List.append_assoc ..
  | removePage =>
    refine completes_readDelta (completes_u16.bind fun slot =>
      completes_u64.bind_pure fun data => ?_)
    exact List.append_assoc ..

/-! ### Whole records -/

theorem code_of_ofCode? {n : Nat} {t : RecordType} (h : RecordType.ofCode? n = some t) :
    n = t.code := by
  unfold RecordType.ofCode? at h
  split at h <;> cases h <;> rfl

/-- Behind any form of its code and its fields a record is read; nothing may be left over then. -/
theorem decode_append {r : Record} {tag : Bytes} (h : Varint.Form tag r.recordType.code)
    (extra : Bytes) :
    decode (tag ++ (r.fields ++ extra)) =
      if extra = [] then .ok r else .error (.corruption .trailingBytes) := by
  have hcode : (UInt64.ofNat r.recordType.code).toNat = r.recordType.code :=
    UInt64.toNat_ofNat_of_lt' h.bits
  have hfields := reads_fields r (0 + tag.length) extra
  rw [decode, read, Cursor.start, Act.bind_of_ok (reads_form h 0 _), hcode,
    RecordType.ofCode?_code]
  simp only
  rw [Act.bind_of_ok hfields, Act.bind_apply, finish]
  cases extra with
  | nil => rfl
  | cons b extra => rfl

/-- A record is read from a form of its code followed by its fields, and from nothing else. -/
theorem decode_eq_ok_iff {b : Bytes} {r : Record} :
    decode b = .ok r ↔ ∃ tag, Varint.Form tag r.recordType.code ∧ b = tag ++ r.fields := by
  constructor
  · intro h
    rw [decode] at h
    cases hread : read (Cursor.start b) with
    | error e c =>
      rw [hread] at h
      cases h
    | ok r' c =>
      rw [hread] at h
      cases h
      obtain ⟨v, c₁, hcode, hrest⟩ := Act.bind_eq_ok.1 hread
      obtain ⟨tag, hform, htaken⟩ := form_of_varint hcode
      cases ht : RecordType.ofCode? v.toNat with
      | none =>
        rw [ht] at hrest
        cases hrest
      | some t =>
        rw [ht] at hrest
        obtain ⟨r₁, c₂, hfields, hend⟩ := Act.bind_eq_ok.1 hrest
        obtain ⟨_, c₃, hfinish, hpure⟩ := Act.bind_eq_ok.1 hend
        cases hpure
        -- nothing may be left behind the fields
        have hempty : c₂.rest = [] := by
          rw [finish] at hfinish
          split at hfinish
          · rename_i hnone
            exact List.isEmpty_iff.1 hnone
          · cases hfinish
        have hspelled := (completes_readFields t).taken hfields
        rw [hempty, List.append_nil] at hspelled
        -- the code tells the kind of record, and so which fields were read
        obtain ⟨rfl, hbytes⟩ := code_append_inj hspelled
        rw [code_of_ofCode? ht] at hform
        refine ⟨tag, hform, ?_⟩
        rw [← hbytes, ← htaken]
        rfl
  · rintro ⟨tag, hform, rfl⟩
    have hdecode := decode_append hform []
    rwa [List.append_nil, if_pos rfl] at hdecode

theorem exists_error {b : Bytes} (h : ∀ r, decode b ≠ .ok r) : ∃ e, decode b = .error e := by
  cases hdecode : decode b with
  | ok r => exact absurd hdecode (h r)
  | error e => exact ⟨e, rfl⟩

/-- No record is read from the bytes of a record and more, or less. -/
theorem decode_of_prefix {b b' : Bytes} {r : Record} (h : decode b = .ok r) (hle : b <+: b')
    (hne : b' ≠ b) : decode b' = .error (.corruption .trailingBytes) := by
  obtain ⟨extra, rfl⟩ := hle
  obtain ⟨tag, hform, rfl⟩ := decode_eq_ok_iff.1 h
  have hextra : extra ≠ [] := by
    rintro rfl
    exact hne (List.append_nil _)
  rw [List.append_assoc, decode_append hform, if_neg hextra]

/-- What stands behind the form of a code are the fields of a record of this kind. -/
theorem fields_of_decode {tag rest : Bytes} {t : RecordType} {r : Record}
    (htag : Varint.Form tag t.code) (h : decode (tag ++ rest) = .ok r) :
    r.recordType = t ∧ rest = r.fields := by
  obtain ⟨tag', hform, hbytes⟩ := decode_eq_ok_iff.1 h
  have hread : Varint.decode (tag ++ rest) = ⟨.ok t.code, rest⟩ :=
    Varint.decode_eq_ok_iff.2 ⟨tag, htag, rfl⟩
  have hread' : Varint.decode (tag ++ rest) = ⟨.ok r.recordType.code, r.fields⟩ :=
    Varint.decode_eq_ok_iff.2 ⟨tag', hform, hbytes⟩
  rw [hread, Varint.Reading.mk.injEq, Except.ok.injEq] at hread'
  exact ⟨code_injective hread'.1.symm, hread'.2⟩

/-- A field has a value that no record has there: the type or the version of a page's format does
not fit in 16 bits, or the flag of a snapshot is neither 0 nor 1.  What follows may be anything. -/
inductive OutOfRange : Bytes → Prop
  | ioType {t : RecordType} {tag front number rest : Bytes} (hdelta : t.isPageDelta = true)
      (htag : Varint.Form tag t.code) (hfront : front.length = 12) (hnumber : number.length = 4)
      (hlarge : 2 ^ 16 ≤ Bytes.toNat number) : OutOfRange (tag ++ (front ++ (number ++ rest)))
  | ioVersion {t : RecordType} {tag front number rest : Bytes} (hdelta : t.isPageDelta = true)
      (htag : Varint.Form tag t.code) (hfront : front.length = 16) (hnumber : number.length = 4)
      (hlarge : 2 ^ 16 ≤ Bytes.toNat number) : OutOfRange (tag ++ (front ++ (number ++ rest)))
  | flag {tag id rest : Bytes} {b : UInt8} (htag : Varint.Form tag RecordType.snapshot.code)
      (hid : id.length = 8) (hlarge : 2 ≤ b.toNat) : OutOfRange (tag ++ (id ++ b :: rest))

theorem delta_of_isPageDelta {r : Record} (h : r.recordType.isPageDelta = true) :
    ∃ d, r = .delta d := by
  cases r with
  | snapshot id full => cases h
  | checkpoint id => cases h
  | delta d => exact ⟨d, rfl⟩

/-- A number that was written with four bytes out of 16 bits has 16 bits. -/
theorem toNat_lt_of_append_eq {front number rest front' rest' : Bytes} {v : UInt16}
    (hfront : front.length = front'.length) (hnumber : number.length = 4)
    (h : front ++ (number ++ rest) = front' ++ (bigEndian 4 v.toNat ++ rest')) :
    Bytes.toNat number < 2 ^ 16 := by
  obtain ⟨-, hback⟩ := List.append_inj h hfront
  obtain ⟨rfl, -⟩ := List.append_inj hback (by rw [hnumber, length_bigEndian])
  have hlt := v.toNat_lt
  rw [Bytes.toNat_bigEndian]
  omega

theorem OutOfRange.decode_ne {b : Bytes} (h : OutOfRange b) (r : Record) : decode b ≠ .ok r := by
  intro hdecode
  cases h with
  | ioType hdelta htag hfront hnumber hlarge =>
    obtain ⟨rfl, hfields⟩ := fields_of_decode htag hdecode
    obtain ⟨⟨target, change⟩, rfl⟩ := delta_of_isPageDelta hdelta
    simp only [fields, PageTarget.encode, List.append_assoc] at hfields
    rw [← List.append_assoc (bytesOfI32 _)] at hfields
    exact absurd (toNat_lt_of_append_eq (by simp [hfront]) hnumber hfields) (Nat.not_lt.2 hlarge)
  | ioVersion hdelta htag hfront hnumber hlarge =>
    obtain ⟨rfl, hfields⟩ := fields_of_decode htag hdecode
    obtain ⟨⟨target, change⟩, rfl⟩ := delta_of_isPageDelta hdelta
    simp only [fields, PageTarget.encode, List.append_assoc] at hfields
    rw [← List.append_assoc (bytesOfU64 _), ← List.append_assoc (bytesOfI32 _)] at hfields
    exact absurd (toNat_lt_of_append_eq (by simp [hfront]) hnumber hfields) (Nat.not_lt.2 hlarge)
  | @flag tag id rest b htag hid hlarge =>
    obtain ⟨hkind, hfields⟩ := fields_of_decode htag hdecode
    cases r with
    | snapshot id' full =>
      obtain ⟨-, hback⟩ := List.append_inj hfields (by rw [hid, length_bytesOfU64])
      rw [List.cons.injEq] at hback
      obtain ⟨rfl, -⟩ := hback
      cases full <;> exact absurd hlarge (by decide)
    | checkpoint id' => cases hkind
    | delta d =>
      obtain ⟨target, change⟩ := d
      cases change <;> cases hkind

/-- **Just the bytes in the format of records are read, as what they are.**  The bytes that a record
is read from are a form of its code, of ten bytes at most, followed by its fields.  So every record
is read back from its bytes, a byte more or less makes them unreadable, fields out of range are
never read, and bytes that are read as the same record differ only in the groups of zeros behind the
code. -/
theorem decode_format (b : Bytes) (r : Record) :
    (decode b = .ok r ↔ ∃ tag, Varint.Form tag r.recordType.code ∧ b = tag ++ r.fields) ∧
      (r.encode = Varint.padded r.recordType.code 0 ++ r.fields ∧ decode r.encode = .ok r) ∧
      (decode b = .ok r → ∀ b', b <+: b' ∨ b' <+: b → b' ≠ b → ∃ e, decode b' = .error e) ∧
      (OutOfRange b → ∃ e, decode b = .error e) ∧
      ∀ b', decode b = .ok r → decode b' = .ok r → ∃ k k', k < 10 ∧ k' < 10 ∧
        b = Varint.padded r.recordType.code k ++ r.fields ∧
        b' = Varint.padded r.recordType.code k' ++ r.fields := by
  -- a form of a code is its shortest form with groups of zeros behind
  have hpadded : ∀ {b}, decode b = .ok r →
      ∃ k, k < 10 ∧ b = Varint.padded r.recordType.code k ++ r.fields := by
    intro b h
    obtain ⟨tag, hform, rfl⟩ := decode_eq_ok_iff.1 h
    obtain ⟨k, hk, rfl⟩ := (Varint.form_iff_padded (code_lt _)).1 hform
    exact ⟨k, hk, rfl⟩
  refine ⟨decode_eq_ok_iff, ⟨?_, decode_encode r⟩, ?_, ?_, ?_⟩
  · rw [encode, encode_code, Varint.padded]
  · rintro h b' (hle | hle) hne
    · exact ⟨_, decode_of_prefix h hle hne⟩
    · refine exists_error fun r' h' => ?_
      have hrefused := decode_of_prefix h' hle hne.symm
      rw [h] at hrefused
      cases hrefused
  · intro h
    exact exists_error h.decode_ne
  · intro b' h h'
    obtain ⟨k, hk, hb⟩ := hpadded h
    obtain ⟨k', hk', hb'⟩ := hpadded h'
    exact ⟨k, k', hk, hk', hb, hb'⟩

/-- A snapshot with two groups of zeros behind its code, with a byte added, with one left away, and
with another flag. -/
theorem decode_format_of_padded_snapshot :
    let r : Record := .snapshot 5 true
    let b : Bytes := [129, 128, 0] ++ r.fields
    decode b = .ok r ∧ (∃ e, decode (b ++ [0]) = .error e) ∧ (∃ e, decode (b.take 11) = .error e) ∧
      ∃ e, decode ([129, 128, 0] ++ (bytesOfU64 5 ++ [2])) = .error e := by
  intro r b
  have hform : Varint.Form [129, 128, 0] RecordType.snapshot.code :=
    (Varint.form_iff_padded (by decide)).2 ⟨2, by decide, by decide⟩
  have hdecode : decode b = .ok r := (decode_format b r).1.2 ⟨_, hform, rfl⟩
  have hother := (decode_format b r).2.2.1 hdecode
  refine ⟨hdecode, hother _ (.inl (List.prefix_append _ _)) ?_,
    hother _ (.inr (List.take_prefix _ _)) (by decide), ?_⟩
  · simp
  · exact (decode_format _ r).2.2.2.1 (.flag hform (by decide) (by decide))

end Record

end PageLog
