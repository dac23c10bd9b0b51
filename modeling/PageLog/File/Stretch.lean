import PageLog.Bytes

/-!
# Stretches of a file

A file may be long and have wide gaps that nothing was written to.  Such a file is made up of
stretches: bytes that are kept packed, and gaps, of which only the length is kept.

## Main definitions

* `Stretch`, `Stretch.bytes` — a stretch, and its bytes as a list.
* `Stretch.slice` — some of the bytes.
* `Stretch.take`, `Stretch.drop` — the beginning and the rest of a stretch.
* `Stretch.join` — stretches put one after the other, as few as may be.

## Main results

* `Stretch.slice_eq`, `Stretch.bytes_take`, `Stretch.bytes_drop`, `Stretch.flatMap_join` — the
  operations on the bytes as a list.
-/

namespace PageLog

/-- A part of a file. -/
inductive Stretch where
  /-- So many zeros. -/
  | gap (n : Nat)
  /-- These bytes. -/
  | packed (bs : ByteArray)

namespace Stretch

/-- The bytes of a stretch. -/
def bytes : Stretch → Bytes
  | gap n => Bytes.zeros n
  | packed bs => bs.data.toList

/-- The count of bytes. -/
def size : Stretch → Nat
  | gap n => n
  | packed bs => bs.size

@[simp] theorem length_bytes (s : Stretch) : s.bytes.length = s.size := by
  cases s with
  | gap n => exact Bytes.length_zeros n
  | packed bs => rfl

/-- A stretch that holds the bytes of a list. -/
def ofBytes (bs : Bytes) : Stretch := packed bs.toByteArray

@[simp] theorem bytes_ofBytes (bs : Bytes) : (ofBytes bs).bytes = bs :=
  List.toList_data_toByteArray

/-! ### Parts of a stretch -/

/-- The `width` bytes from offset `off` on, or as many of them as there are. -/
def slice (off width : Nat) : Stretch → Bytes
  | gap n => Bytes.zeros (min width (n - off))
  | packed bs => (bs.extract off (off + width)).data.toList

theorem slice_eq (off width : Nat) (s : Stretch) :
    s.slice off width = (s.bytes.drop off).take width := by
  cases s with
  | gap n => simp [slice, bytes, Bytes.zeros]
  | packed bs => simp [slice, bytes, ByteArray.data_extract, List.extract_eq_take_drop]

/-- The first `n` bytes. -/
def take (n : Nat) : Stretch → Stretch
  | gap m => gap (min n m)
  | packed bs => packed (bs.extract 0 n)

@[simp] theorem bytes_take (n : Nat) (s : Stretch) : (s.take n).bytes = s.bytes.take n := by
  cases s with
  | gap m => simp [take, bytes, Bytes.zeros]
  | packed bs => simp [take, bytes, ByteArray.data_extract, List.extract_eq_take_drop]

/-- The bytes behind the first `n`. -/
def drop (n : Nat) : Stretch → Stretch
  | gap m => gap (m - n)
  | packed bs => packed (bs.extract n bs.size)

@[simp] theorem bytes_drop (n : Nat) (s : Stretch) : (s.drop n).bytes = s.bytes.drop n := by
  cases s with
  | gap m => simp [drop, bytes, Bytes.zeros]
  | packed bs =>
      have h : (bs.data.toList.drop n).length ≤ bs.size - n := by
        rw [List.length_drop]
        exact Nat.le_refl _
      simp only [drop, bytes, ByteArray.data_extract, Array.toList_extract,
        List.extract_eq_take_drop]
      exact List.take_of_length_le h

/-! ### Stretches in a row -/

/-- A stretch in front of others.  Two of one kind become one, and an empty one is left out. -/
def cons : Stretch → List Stretch → List Stretch
  | gap m, gap n :: rest => gap (m + n) :: rest
  | packed a, packed b :: rest => packed (a ++ b) :: rest
  | s, rest => if s.size = 0 then rest else s :: rest

theorem flatMap_cons (s : Stretch) (rest : List Stretch) :
    (s.cons rest).flatMap bytes = s.bytes ++ rest.flatMap bytes := by
  unfold cons
  split
  · simp [bytes, Bytes.zeros, ← List.append_assoc]
  · simp [bytes]
  · split
    · rename_i h
      rw [List.eq_nil_of_length_eq_zero ((length_bytes s).trans h), List.nil_append]
    · exact List.flatMap_cons

/-- Stretches, and then others. -/
def join (ss rest : List Stretch) : List Stretch := ss.foldr cons rest

@[simp] theorem flatMap_join (ss rest : List Stretch) :
    (join ss rest).flatMap bytes = ss.flatMap bytes ++ rest.flatMap bytes := by
  induction ss with
  | nil => rfl
  | cons s ss ih => simp only [join, List.foldr_cons, flatMap_cons] at ih ⊢; simp [ih]

end Stretch

end PageLog
