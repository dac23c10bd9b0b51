import Mathlib.Data.Nat.Bitwise
import PageLog.Checksum
import PageLog.Proofs.Bytes

/-!
# What a check value notices

Nothing is lost in the check register: moving it down by one bit can be undone, since the polynomial
that is added when a bit falls out sets the top bit, and no other bit gets there.  So registers that
differ are led to registers that differ by any bytes, and a register is led to registers that differ
by bytes that differ.  Therefore a byte string with one byte changed has another check value.

## Main results

* `Crc.shift_injective` — moving the register down by one bit can be undone.
* `Crc.step_injective`, `Crc.step_byte_injective`, `Crc.feed_injective` — a difference stays.
* `crc32_set_ne` — **a changed byte changes the check value**.
* `Bytes.check_set` — a check value that stands behind what it covers notices every changed byte.
-/

namespace PageLog

namespace Crc

/-! ### One bit -/

theorem toNat_half (c : Crc) : (c >>> 1).toNat = c.toNat / 2 := by
  simp [UInt32.toNat_shiftRight, Nat.shiftRight_eq_div_pow]

theorem low_bit_iff (c : Crc) : c &&& 1 = 1 ↔ c.toNat % 2 = 1 := by
  rw [← UInt32.toNat_inj, UInt32.toNat_and, UInt32.toNat_one, Nat.and_one_is_mod]

/-- A register is told by its upper bits and the lowest one. -/
theorem eq_of_half {c d : Crc} (hhalf : c >>> 1 = d >>> 1) (hlow : c.toNat % 2 = d.toNat % 2) :
    c = d := by
  have hnat := congrArg UInt32.toNat hhalf
  rw [toNat_half, toNat_half] at hnat
  rw [← UInt32.toNat_inj]
  omega

/-- With the polynomial added, the top bit is set, which is clear otherwise. -/
theorem half_xor_ne (c d : Crc) : (c >>> 1) ^^^ (0xEDB88320 : Crc) ≠ d >>> 1 := by
  intro h
  have hpoly : (c >>> 1) ^^^ (d >>> 1) = (0xEDB88320 : Crc) := by
    rw [← h, ← UInt32.xor_assoc, UInt32.xor_self, UInt32.zero_xor]
  have hhalf : ∀ e : Crc, (e >>> 1).toNat < 2 ^ 31 := by
    intro e
    have hlt := e.toNat_lt
    rw [toNat_half]
    omega
  have hlt := Nat.xor_lt_two_pow (hhalf c) (hhalf d)
  rw [← UInt32.toNat_xor, hpoly] at hlt
  exact absurd hlt (by decide)

theorem shift_injective : Function.Injective shift := by
  intro c d h
  unfold shift at h
  split at h <;> rename_i hc <;> split at h <;> rename_i hd <;> rw [low_bit_iff] at hc hd
  · exact eq_of_half ((UInt32.xor_left_inj _).1 h) (hc.trans hd.symm)
  · exact absurd h (half_xor_ne c d)
  · exact absurd h.symm (half_xor_ne d c)
  · exact eq_of_half h (by omega)

/-! ### Bytes -/

theorem shift8_injective : Function.Injective shift8 := by
  intro c d h
  unfold shift8 at h
  iterate 8 replace h := shift_injective h
  exact h

/-- A byte does not hide that registers differ. -/
theorem step_injective (b : UInt8) : Function.Injective (step · b) := by
  intro c d h
  exact (UInt32.xor_left_inj _).1 (shift8_injective h)

/-- Bytes that differ lead to registers that differ. -/
theorem step_byte_injective (c : Crc) : Function.Injective (step c) := by
  intro b b' h
  exact UInt8.toUInt32_inj.1 ((UInt32.xor_right_inj _).1 (shift8_injective h))

theorem feed_injective (bs : Bytes) : Function.Injective (feed · bs) := by
  induction bs with
  | nil => exact fun _ _ h => h
  | cons b bs ih => exact fun _ _ h => step_injective b (ih h)

theorem value_injective : Function.Injective value := by
  intro c d h
  exact (UInt32.xor_left_inj _).1 h

end Crc

/-! ### Byte strings -/

/-- **A changed byte changes the check value** of a byte string. -/
theorem crc32_set_ne {bs : Bytes} {i : Nat} {b : UInt8} (hi : i < bs.length) (hb : b ≠ bs[i]) :
    crc32 (bs.set i b) ≠ crc32 bs := by
  have hcut : bs = bs.take i ++ bs[i] :: bs.drop (i + 1) := by
    rw [← List.drop_eq_getElem_cons hi, List.take_append_drop]
  intro h
  rw [List.set_eq_take_append_cons_drop, if_pos hi] at h
  conv_rhs at h => rw [hcut]
  unfold crc32 at h
  rw [Crc.feed_append, Crc.feed_append, Crc.feed_cons, Crc.feed_cons] at h
  exact hb (Crc.step_byte_injective _ (Crc.feed_injective _ (Crc.value_injective h)))

theorem Bytes.toU32_injective {as bs : Bytes} (has : as.length = 4) (hbs : bs.length = 4)
    (h : Bytes.toU32 as = Bytes.toU32 bs) : as = bs := by
  rw [← bytesOfU32_toU32 has, h, bytesOfU32_toU32 hbs]

/-- A check value that stands behind the 28 bytes it covers does not fit any more when one of the 32
bytes is changed. -/
theorem Bytes.check_set {bs : Bytes} {i : Nat} {b : UInt8} (hlen : bs.length = 32)
    (hcheck : crc32 (bs.take 28) = Bytes.toU32 ((bs.drop 28).take 4)) (hi : i < bs.length)
    (hb : b ≠ bs[i]) :
    crc32 ((bs.set i b).take 28) ≠ Bytes.toU32 (((bs.set i b).drop 28).take 4) := by
  rw [List.take_set, List.drop_set]
  by_cases hcovered : i < 28
  · rw [if_pos hcovered, ← hcheck]
    refine crc32_set_ne (by rw [List.length_take]; omega) ?_
    rwa [List.getElem_take]
  · rw [if_neg hcovered, List.set_eq_of_length_le (by rw [List.length_take]; omega), hcheck]
    have hfour : (bs.drop 28).length = 4 := by
      rw [List.length_drop]
      omega
    have hfour' : ((bs.drop 28).set (i - 28) b).length = 4 := by rw [List.length_set, hfour]
    rw [List.take_of_length_le hfour.le, List.take_of_length_le hfour'.le]
    intro h
    have hbyte := congrArg (·[i - 28]?) (Bytes.toU32_injective hfour hfour' h)
    simp only [List.getElem?_set_self (show i - 28 < (bs.drop 28).length by omega),
      List.getElem?_drop, Nat.add_sub_cancel' (Nat.not_lt.1 hcovered), List.getElem?_eq_getElem hi,
      Option.some.injEq] at hbyte
    exact hb hbyte.symm

end PageLog
