import Mathlib.Tactic.Ring
import PageLog.Bytes.Varint

/-!
# The forms of a variable-length number

The bytes of a number are described here without reference to a reader: a last byte stands for
itself, and any other byte gives seven bits and is followed by the form of what is left.  A number
has many forms, since groups of zeros may follow; the reader takes all of them that have ten bytes
at most and a number of 64 bits, takes nothing else, and stops behind the form.

## Main definitions

* `Varint.Spells` — bytes that stand for a number.
* `Varint.Form` — those a reader takes.
* `Varint.padded` — a small number followed by groups of zeros.

## Main results

* `Varint.decode_eq_ok_iff` — what is read.
* `Varint.form_iff_padded` — the forms of a number of seven bits.
-/

namespace PageLog.Varint

/-- The bytes stand for the number: seven bits from each byte, least significant first, and the top
bit set in all bytes but the last. -/
inductive Spells : Bytes → Nat → Prop
  | last {b : UInt8} (hb : b.toNat < 128) : Spells [b] b.toNat
  | more {b : UInt8} {bs : Bytes} {n : Nat} (hb : 128 ≤ b.toNat) (rest : Spells bs n) :
      Spells (b :: bs) (b.toNat % 128 + 128 * n)

/-- The bytes are a form of the number that a reader takes. -/
structure Form (bs : Bytes) (n : Nat) : Prop where
  spells : Spells bs n
  short : bs.length ≤ maxLength
  bits : n < 2 ^ 64

section Reading

variable {bs tag rest : Bytes} {n m left shift acc : Nat} {b : UInt8}

theorem Spells.ne_nil (h : Spells bs n) : bs ≠ [] := by
  cases h with
  | last hb => exact List.cons_ne_nil _ _
  | more hb rest => exact List.cons_ne_nil _ _

/-- One byte is looked at. -/
theorem decodeFrom_cons (left shift acc : Nat) (b : UInt8) (bs : Bytes) :
    decodeFrom (left + 1) shift acc (b :: bs) =
      if left = 0 ∧ 1 < b.toNat % 128 then ⟨.error .varintOverflow, bs⟩
      else if b.toNat < 128 then ⟨.ok (acc + (b.toNat % 128) <<< shift), bs⟩
      else decodeFrom left (shift + 7) (acc + (b.toNat % 128) <<< shift) bs := rfl

/-- A form is read to its end, whatever follows.  The bound on the number says that the last byte
that may be read holds a single bit; for forms that end earlier it says nothing. -/
theorem decodeFrom_of_spells (h : Spells tag n) (hshort : tag.length ≤ left + 1)
    (hbits : n < 2 * 128 ^ left) :
    decodeFrom (left + 1) shift acc (tag ++ rest) = ⟨.ok (acc + n * 2 ^ shift), rest⟩ := by
  induction h generalizing left shift acc with
  | @last b hb =>
    have hfits : ¬(left = 0 ∧ 1 < b.toNat % 128) := by
      rintro ⟨rfl, hbyte⟩
      omega
    rw [List.cons_append, List.nil_append, decodeFrom_cons, if_neg hfits, if_pos hb,
      Nat.mod_eq_of_lt hb, Nat.shiftLeft_eq]
  | @more b bs n hb hrest ih =>
    have hlength : 0 < bs.length := List.length_pos_iff.2 hrest.ne_nil
    obtain ⟨k, rfl⟩ : ∃ k, left = k + 1 := ⟨left - 1, by grind⟩
    have hfits : ¬(k + 1 = 0 ∧ 1 < b.toNat % 128) := by omega
    have hsum : acc + (b.toNat % 128) * 2 ^ shift + n * 2 ^ (shift + 7) =
        acc + (b.toNat % 128 + 128 * n) * 2 ^ shift := by ring
    rw [List.cons_append, decodeFrom_cons, if_neg hfits, if_neg (Nat.not_lt.2 hb),
      Nat.shiftLeft_eq, ih (by grind) (by grind), hsum]

/-- What is read is a form. -/
theorem spells_of_decodeFrom (h : decodeFrom (left + 1) shift acc bs = ⟨.ok m, rest⟩) :
    ∃ tag n, Spells tag n ∧ tag.length ≤ left + 1 ∧ n < 2 * 128 ^ left ∧
      m = acc + n * 2 ^ shift ∧ bs = tag ++ rest := by
  induction bs generalizing left shift acc with
  | nil => simp only [decodeFrom, Reading.mk.injEq, reduceCtorEq, false_and] at h
  | cons b bs ih =>
    rw [decodeFrom_cons] at h
    split at h
    · simp only [Reading.mk.injEq, reduceCtorEq, false_and] at h
    rename_i hfits
    split at h
    · rename_i hb
      simp only [Reading.mk.injEq, Except.ok.injEq, Nat.shiftLeft_eq, Nat.mod_eq_of_lt hb] at h
      obtain ⟨rfl, rfl⟩ := h
      refine ⟨[b], b.toNat, .last hb, by simp, ?_, rfl, rfl⟩
      cases left with
      | zero => omega
      | succ k =>
        have hpos : 0 < 128 ^ k := Nat.pow_pos (by decide)
        grind
    · rename_i hb
      cases left with
      | zero => simp only [decodeFrom, Reading.mk.injEq, reduceCtorEq, false_and] at h
      | succ k =>
        obtain ⟨tag, n, htag, hshort, hbits, rfl, rfl⟩ := ih h
        refine ⟨b :: tag, b.toNat % 128 + 128 * n, .more (Nat.not_lt.1 hb) htag, ?_, ?_, ?_, rfl⟩
        · grind
        · grind
        · rw [Nat.shiftLeft_eq]
          ring

/-- The reader takes the forms, and nothing else. -/
theorem decode_eq_ok_iff :
    decode bs = ⟨.ok n, rest⟩ ↔ ∃ tag, Form tag n ∧ bs = tag ++ rest := by
  have hbound : (2 : Nat) * 128 ^ 9 = 2 ^ 64 := by norm_num
  constructor
  · intro h
    have hread : decodeFrom (9 + 1) 0 0 bs = ⟨.ok n, rest⟩ := h
    obtain ⟨tag, m, htag, hshort, hbits, hn, rfl⟩ := spells_of_decodeFrom hread
    obtain rfl : n = m := by omega
    exact ⟨tag, ⟨htag, hshort, hbound ▸ hbits⟩, rfl⟩
  · rintro ⟨tag, h, rfl⟩
    have hread : decodeFrom (9 + 1) 0 0 (tag ++ rest) = ⟨.ok (0 + n * 2 ^ 0), rest⟩ :=
      decodeFrom_of_spells h.spells h.short (hbound.symm ▸ h.bits)
    rw [Nat.zero_add, Nat.pow_zero, Nat.mul_one] at hread
    exact hread

end Reading

/-! ### Shortest and longer forms -/

/-- The number in its shortest form, if it has seven bits, with `k` groups of zeros behind it. -/
def padded (n : Nat) : (k : Nat) → Bytes
  | 0 => [UInt8.ofNat n]
  | k + 1 => UInt8.ofNat (n + 128) :: padded 0 k

theorem length_padded (n k : Nat) : (padded n k).length = k + 1 := by
  induction k generalizing n with
  | zero => rfl
  | succ k ih => rw [padded, List.length_cons, ih]

theorem toNat_byte {n : Nat} (hn : n < 256) : (UInt8.ofNat n).toNat = n :=
  UInt8.toNat_ofNat_of_lt' hn

theorem spells_padded {n : Nat} (k : Nat) (hn : n < 128) : Spells (padded n k) n := by
  induction k generalizing n with
  | zero =>
    have hbyte := toNat_byte (n := n) (by omega)
    have hlast := Spells.last (b := UInt8.ofNat n) (by omega)
    rwa [hbyte] at hlast
  | succ k ih =>
    have hbyte := toNat_byte (n := n + 128) (by omega)
    have hmore := Spells.more (b := UInt8.ofNat (n + 128)) (by omega) (ih (n := 0) (by decide))
    have hvalue : (UInt8.ofNat (n + 128)).toNat % 128 + 128 * 0 = n := by omega
    rwa [hvalue] at hmore

/-- Nothing but groups of zeros can follow a number of seven bits. -/
theorem Spells.eq_padded {bs : Bytes} {n : Nat} (h : Spells bs n) (hn : n < 128) :
    ∃ k, bs = padded n k := by
  induction h with
  | @last b hb => exact ⟨0, by rw [padded, UInt8.ofNat_toNat]⟩
  | @more b bs n hb hrest ih =>
    obtain rfl : n = 0 := by omega
    obtain ⟨k, rfl⟩ := ih (by decide)
    have hbyte : b.toNat % 128 + 128 * 0 + 128 = b.toNat := by
      have hlt := b.toNat_lt
      omega
    exact ⟨k + 1, by rw [padded, hbyte, UInt8.ofNat_toNat]⟩

/-- The forms of a number of seven bits differ in their groups of zeros. -/
theorem form_iff_padded {bs : Bytes} {n : Nat} (hn : n < 128) :
    Form bs n ↔ ∃ k, k < maxLength ∧ bs = padded n k := by
  constructor
  · intro h
    obtain ⟨k, rfl⟩ := h.spells.eq_padded hn
    have hshort := h.short
    rw [length_padded] at hshort
    exact ⟨k, hshort, rfl⟩
  · rintro ⟨k, hk, rfl⟩
    refine ⟨spells_padded k hn, ?_, by omega⟩
    rw [length_padded]
    exact hk

end PageLog.Varint
