import Mathlib.Algebra.Group.Nat.Defs
import Mathlib.Data.List.Induction
import PageLog.Bytes.Field

/-!
# Numerals and windows

A number written with enough bytes is read back, and bytes read as a number are written back.  A
window is told apart from the bytes written over a string by where the two lie.

## Main results

* `Bytes.toNat_bigEndian`, `bigEndian_toNat` — writing and reading a number.
* `Bytes.toU16_bytesOfU16`, `Bytes.toU32_bytesOfU32`, `Bytes.toU64_bytesOfU64`, and the other way
  round — the same for words.
* `Bytes.slice_overwrite_self`, `Bytes.slice_overwrite_of_disjoint` — windows of a string that was
  written over.
-/

namespace PageLog

/-! ### Numerals -/

theorem Bytes.toNat_append (as bs : Bytes) :
    Bytes.toNat (as ++ bs) = Bytes.toNat as * 256 ^ bs.length + Bytes.toNat bs := by
  induction bs using List.reverseRecOn with
  | nil => simp
  | append_singleton bs b ih =>
    have hsnoc : ∀ xs : Bytes, Bytes.toNat (xs ++ [b]) = Bytes.toNat xs * 256 + b.toNat := by
      intro xs
      simp only [Bytes.toNat, List.foldl_append, List.foldl_cons, List.foldl_nil]
    rw [← List.append_assoc, hsnoc, hsnoc, ih, List.length_append, List.length_singleton,
      Nat.pow_succ, Nat.add_mul, Nat.mul_assoc, Nat.add_assoc]

theorem Bytes.toNat_snoc (bs : Bytes) (b : UInt8) :
    Bytes.toNat (bs ++ [b]) = Bytes.toNat bs * 256 + b.toNat := by
  rw [Bytes.toNat_append]
  simp [Bytes.toNat]

/-- A number written with `width` bytes is read back up to the bytes that were dropped. -/
theorem Bytes.toNat_bigEndian (width n : Nat) :
    Bytes.toNat (bigEndian width n) = n % 256 ^ width := by
  induction width generalizing n with
  | zero => simp [Nat.mod_one]
  | succ width ih =>
    have hbyte : (UInt8.ofNat n).toNat = n % 256 := by simp
    rw [bigEndian, Bytes.toNat_snoc, ih, hbyte, Nat.pow_succ, Nat.mul_comm (256 ^ width) 256,
      Nat.mod_mul]
    omega

theorem Bytes.toNat_lt (bs : Bytes) : Bytes.toNat bs < 256 ^ bs.length := by
  induction bs using List.reverseRecOn with
  | nil => simp
  | append_singleton bs b ih =>
    have hb : b.toNat < 256 := b.toNat_lt
    rw [Bytes.toNat_snoc, List.length_append, List.length_singleton, Nat.pow_succ]
    omega

/-- Bytes read as a number are written back. -/
theorem bigEndian_toNat (bs : Bytes) : bigEndian bs.length (Bytes.toNat bs) = bs := by
  induction bs using List.reverseRecOn with
  | nil => rfl
  | append_singleton bs b ih =>
    have hb : b.toNat < 256 := b.toNat_lt
    have hdiv : (Bytes.toNat bs * 256 + b.toNat) / 256 = Bytes.toNat bs := by omega
    have hbyte : UInt8.ofNat (Bytes.toNat bs * 256 + b.toNat) = b := by
      apply UInt8.toNat.inj
      rw [UInt8.toNat_ofNat']
      omega
    rw [List.length_append, List.length_singleton, bigEndian, Bytes.toNat_snoc, hdiv, ih, hbyte]

@[simp] theorem Bytes.toU16_bytesOfU16 (v : UInt16) : Bytes.toU16 (bytesOfU16 v) = v := by
  have hv : v.toNat < 256 ^ 2 := v.toNat_lt
  rw [Bytes.toU16, bytesOfU16, Bytes.toNat_bigEndian, Nat.mod_eq_of_lt hv, UInt16.ofNat_toNat]

@[simp] theorem Bytes.toU32_bytesOfU32 (v : UInt32) : Bytes.toU32 (bytesOfU32 v) = v := by
  have hv : v.toNat < 256 ^ 4 := v.toNat_lt
  rw [Bytes.toU32, bytesOfU32, Bytes.toNat_bigEndian, Nat.mod_eq_of_lt hv, UInt32.ofNat_toNat]

@[simp] theorem Bytes.toU64_bytesOfU64 (v : UInt64) : Bytes.toU64 (bytesOfU64 v) = v := by
  have hv : v.toNat < 256 ^ 8 := v.toNat_lt
  rw [Bytes.toU64, bytesOfU64, Bytes.toNat_bigEndian, Nat.mod_eq_of_lt hv, UInt64.ofNat_toNat]

@[simp] theorem Bytes.toI32_bytesOfI32 (v : Int32) : Bytes.toI32 (bytesOfI32 v) = v := by
  rw [Bytes.toI32, bytesOfI32, Bytes.toU32_bytesOfU32]
  rfl

theorem bytesOfU32_toU32 {bs : Bytes} (h : bs.length = 4) : bytesOfU32 (Bytes.toU32 bs) = bs := by
  have hlt : Bytes.toNat bs < 2 ^ 32 := by simpa [h] using Bytes.toNat_lt bs
  rw [bytesOfU32, Bytes.toU32, UInt32.toNat_ofNat_of_lt' hlt, ← h, bigEndian_toNat]

theorem bytesOfU64_toU64 {bs : Bytes} (h : bs.length = 8) : bytesOfU64 (Bytes.toU64 bs) = bs := by
  have hlt : Bytes.toNat bs < 2 ^ 64 := by simpa [h] using Bytes.toNat_lt bs
  rw [bytesOfU64, Bytes.toU64, UInt64.toNat_ofNat_of_lt' hlt, ← h, bigEndian_toNat]

theorem bytesOfU16_toU16 {bs : Bytes} (h : bs.length = 2) : bytesOfU16 (Bytes.toU16 bs) = bs := by
  have hlt : Bytes.toNat bs < 2 ^ 16 := by simpa [h] using Bytes.toNat_lt bs
  rw [bytesOfU16, Bytes.toU16, UInt16.toNat_ofNat_of_lt' hlt, ← h, bigEndian_toNat]

/-! ### Windows -/

/-- The byte at a place of a window. -/
theorem Bytes.getElem?_slice (bs : Bytes) (off width i : Nat) :
    ((bs.drop off).take width)[i]? = if i < width then bs[off + i]? else none := by
  rw [List.getElem?_take, List.getElem?_drop]

/-- The byte at a place of a string that was written over. -/
theorem Bytes.getElem?_overwrite {bs : Bytes} {off : Nat} {data : Bytes}
    (h : off ≤ bs.length) (i : Nat) :
    (Bytes.overwrite bs off data)[i]? =
      if i < off then bs[i]?
      else if i < off + data.length then data[i - off]? else bs[i]? := by
  have hoff : (bs.take off).length = off := by rw [List.length_take]; omega
  rw [Bytes.overwrite, List.getElem?_append, hoff]
  split
  · rw [List.getElem?_take, if_pos ‹_›]
  · rw [List.getElem?_append]
    split
    · rw [if_pos (by omega)]
    · rw [if_neg (by omega), List.getElem?_drop]
      congr 1
      omega

/-- What was written is found again. -/
theorem Bytes.slice_overwrite_self {bs : Bytes} {off : Nat} {data : Bytes}
    (h : off ≤ bs.length) :
    ((Bytes.overwrite bs off data).drop off).take data.length = data := by
  apply List.ext_getElem?
  intro i
  rw [Bytes.getElem?_slice, Bytes.getElem?_overwrite h]
  split
  · rw [if_neg (by omega), if_pos (by omega), Nat.add_sub_cancel_left]
  · rw [List.getElem?_eq_none (by omega)]

/-- Writing over a string leaves the windows alone that lie in front or behind. -/
theorem Bytes.slice_overwrite_of_disjoint {bs : Bytes} {off : Nat} {data : Bytes}
    (h : off ≤ bs.length) {o w : Nat} (hdisj : o + w ≤ off ∨ off + data.length ≤ o) :
    ((Bytes.overwrite bs off data).drop o).take w = (bs.drop o).take w := by
  apply List.ext_getElem?
  intro i
  rw [Bytes.getElem?_slice, Bytes.getElem?_slice, Bytes.getElem?_overwrite h]
  split
  · split
    · rfl
    · rw [if_neg (by omega)]
  · rfl

/-- The length of a string that was written over, perhaps past its end. -/
theorem Bytes.length_overwrite_eq_max {bs : Bytes} {off : Nat} (data : Bytes)
    (h : off ≤ bs.length) :
    (Bytes.overwrite bs off data).length = max bs.length (off + data.length) := by
  simp only [Bytes.overwrite, List.length_append, List.length_take, List.length_drop]
  omega

/-- Writing a string in two parts, one behind the other, is writing it at once. -/
theorem Bytes.overwrite_overwrite {bs : Bytes} {off : Nat} (first second : Bytes)
    (h : off ≤ bs.length) :
    Bytes.overwrite (Bytes.overwrite bs off first) (off + first.length) second =
      Bytes.overwrite bs off (first ++ second) := by
  have hlen := Bytes.length_overwrite_eq_max first h
  apply List.ext_getElem?
  intro i
  rw [Bytes.getElem?_overwrite (by omega), Bytes.getElem?_overwrite h,
    Bytes.getElem?_overwrite h, List.length_append]
  by_cases h₁ : i < off + first.length
  · rw [if_pos h₁]
    by_cases h₂ : i < off
    · rw [if_pos h₂, if_pos h₂]
    · rw [if_neg h₂, if_neg h₂, if_pos h₁, if_pos (by omega),
        List.getElem?_append_left (by omega)]
  · rw [if_neg h₁, if_neg (by omega : ¬i < off), if_neg (by omega : ¬i < off)]
    by_cases h₃ : i < off + first.length + second.length
    · rw [if_pos h₃, if_pos (by omega), List.getElem?_append_right (by omega)]
      congr 1
      omega
    · rw [if_neg h₃, if_neg (by omega), if_neg (by omega)]

/-- Writing over the end of a string drops what stood there. -/
theorem Bytes.overwrite_append (as bs data : Bytes) :
    Bytes.overwrite (as ++ bs) as.length data = as ++ (data ++ bs.drop data.length) := by
  rw [Bytes.overwrite, List.take_left', List.drop_append]
  · simp
  · rfl

theorem Bytes.resize_append (as bs : Bytes) : Bytes.resize (as ++ bs) as.length = as := by
  rw [Bytes.resize, List.take_left' rfl, Nat.sub_eq_zero_of_le (by simp), Bytes.zeros,
    List.replicate_zero, List.append_nil]

/-- `bs`, filled up with zeros to `n` bytes if it is shorter. -/
def Bytes.fillTo (bs : Bytes) (n : Nat) : Bytes := bs ++ Bytes.zeros (n - bs.length)

theorem Bytes.fillTo_of_le {bs : Bytes} {n : Nat} (h : n ≤ bs.length) : bs.fillTo n = bs := by
  rw [fillTo, Nat.sub_eq_zero_of_le h]
  exact List.append_nil bs

theorem Bytes.length_fillTo (bs : Bytes) (n : Nat) : (bs.fillTo n).length = max bs.length n := by
  rw [fillTo, List.length_append, Bytes.length_zeros]
  omega

theorem Bytes.le_length_fillTo (bs : Bytes) (n : Nat) : n ≤ (bs.fillTo n).length := by
  rw [length_fillTo]
  exact Nat.le_max_right ..

/-- Writing behind the end of a string fills the gap. -/
theorem Bytes.overwrite_fillTo (bs : Bytes) (off : Nat) (data : Bytes) :
    Bytes.overwrite (bs.fillTo off) off data =
      bs.take off ++ (Bytes.zeros (off - bs.length) ++ (data ++ bs.drop (off + data.length))) := by
  by_cases h : off ≤ bs.length
  · rw [fillTo_of_le h, Nat.sub_eq_zero_of_le h]
    rfl
  · have hlen : (bs.fillTo off).length = off := by
      rw [length_fillTo]
      omega
    rw [Bytes.overwrite, List.take_of_length_le (Nat.le_of_eq hlen),
      List.take_of_length_le (by omega), List.drop_of_length_le (by omega),
      List.drop_of_length_le (by omega), fillTo, List.append_assoc]

/-! ### Fields -/

namespace Field

theorem read_overwrite_self {page data : Bytes} {off : Nat} (h : off + data.length ≤ page.length) :
    read (Bytes.overwrite page off data) off data.length = .ok data := by
  rw [read_eq_ok (by rw [Bytes.length_overwrite h]; exact h),
    Bytes.slice_overwrite_self (by omega)]

theorem read_overwrite_of_disjoint {page data : Bytes} {off : Nat}
    (h : off + data.length ≤ page.length) {o w : Nat}
    (hdisj : o + w ≤ off ∨ off + data.length ≤ o) :
    read (Bytes.overwrite page off data) o w = read page o w := by
  simp only [read, Bytes.window_eq, Bytes.length_overwrite h,
    Bytes.slice_overwrite_of_disjoint (by omega : off ≤ page.length) hdisj]

end Field

end PageLog
