import PageLog.File.Stretch

/-!
# The content of a file

The content of a file is a row of stretches.  What an operation means is said by what it does to
the bytes as a list, in one lemma for each operation.

## Main definitions

* `Content`, `Content.bytes`, `Content.ofBytes` — the content, and its bytes as a list.
* `Content.slice`, `Content.window` — the bytes at an offset, as far as there are any, or if all of
  them are there.
* `Content.put`, `Content.resize`, `Content.flip` — changes.

## Main results

* `Content.slice_eq`, `Content.window_eq`, `Content.bytes_put`, `Content.bytes_resize`,
  `Content.bytes_flip` — the operations on the bytes as a list.
-/

namespace PageLog

/-- The bytes of a file. -/
structure Content where
  /-- The parts of the file, in order. -/
  stretches : List Stretch

namespace Content

/-- The bytes as a list. -/
def bytes (c : Content) : Bytes := c.stretches.flatMap Stretch.bytes

/-- The content with the bytes of a list. -/
def ofBytes (bs : Bytes) : Content := ⟨[.ofBytes bs]⟩

/-- The count of bytes in a row of stretches. -/
def lengthOf : List Stretch → Nat
  | [] => 0
  | s :: rest => s.size + lengthOf rest

@[simp] theorem length_flatMap_bytes (ss : List Stretch) :
    (ss.flatMap Stretch.bytes).length = lengthOf ss := by
  induction ss with
  | nil => rfl
  | cons s rest ih => simp [lengthOf, ih]

/-- The count of bytes. -/
def size (c : Content) : Nat := lengthOf c.stretches

@[simp] theorem bytes_ofBytes (bs : Bytes) : (ofBytes bs).bytes = bs := by
  simp [bytes, ofBytes]

@[simp] theorem length_bytes (c : Content) : c.bytes.length = c.size :=
  length_flatMap_bytes c.stretches

/-! ### Parts of a row -/

/-- The `width` bytes from offset `off` on in a row of stretches, or as many as there are. -/
def sliceOf (off width : Nat) : List Stretch → Bytes
  | [] => []
  | s :: rest =>
      if s.size ≤ off then sliceOf (off - s.size) width rest
      else if off + width ≤ s.size then s.slice off width
      else s.slice off width ++ sliceOf 0 (width - (s.size - off)) rest

theorem sliceOf_eq (off width : Nat) (ss : List Stretch) :
    sliceOf off width ss = ((ss.flatMap Stretch.bytes).drop off).take width := by
  induction ss generalizing off width with
  | nil => simp [sliceOf]
  | cons s rest ih =>
      rw [sliceOf, List.flatMap_cons, List.drop_append, List.take_append, Stretch.length_bytes]
      split
      · rename_i h
        simp [ih, List.drop_eq_nil_of_le, h]
      · rename_i h
        have hoff : off - s.size = 0 := by omega
        split
        · rename_i hwidth
          have hrest : width - (s.size - off) = 0 := by omega
          simp [Stretch.slice_eq, hrest]
        · simp [ih, Stretch.slice_eq, hoff]

/-- The first `n` bytes of a row of stretches. -/
def takeOf (n : Nat) : List Stretch → List Stretch
  | [] => []
  | s :: rest => if n < s.size then [s.take n] else s :: takeOf (n - s.size) rest

theorem flatMap_takeOf (n : Nat) (ss : List Stretch) :
    (takeOf n ss).flatMap Stretch.bytes = (ss.flatMap Stretch.bytes).take n := by
  induction ss generalizing n with
  | nil => simp [takeOf]
  | cons s rest ih =>
      rw [takeOf, List.flatMap_cons, List.take_append, Stretch.length_bytes]
      split
      · rename_i h
        have hrest : n - s.size = 0 := by omega
        simp [hrest]
      · rename_i h
        have hall : s.bytes.length ≤ n := by rw [Stretch.length_bytes]; omega
        simp [ih, List.take_of_length_le hall]

/-- The bytes behind the first `n` of a row of stretches. -/
def dropOf (n : Nat) : List Stretch → List Stretch
  | [] => []
  | s :: rest => if n < s.size then s.drop n :: rest else dropOf (n - s.size) rest

theorem flatMap_dropOf (n : Nat) (ss : List Stretch) :
    (dropOf n ss).flatMap Stretch.bytes = (ss.flatMap Stretch.bytes).drop n := by
  induction ss generalizing n with
  | nil => simp [dropOf]
  | cons s rest ih =>
      rw [dropOf, List.flatMap_cons, List.drop_append, Stretch.length_bytes]
      split
      · rename_i h
        have hrest : n - s.size = 0 := by omega
        simp [hrest]
      · rename_i h
        have hall : s.bytes.length ≤ n := by rw [Stretch.length_bytes]; omega
        simp [ih, List.drop_eq_nil_of_le hall]

/-! ### Reading -/

/-- The `width` bytes from offset `off` on, or as many of them as there are. -/
def slice (c : Content) (off width : Nat) : Bytes := sliceOf off width c.stretches

theorem slice_eq (c : Content) (off width : Nat) :
    c.slice off width = (c.bytes.drop off).take width := sliceOf_eq off width c.stretches

/-- The `width` bytes from offset `off` on, if the file reaches that far. -/
def window (c : Content) (off width : Nat) : Option Bytes :=
  if off + width ≤ c.size then some (c.slice off width) else none

theorem window_eq (c : Content) (off width : Nat) :
    c.window off width = Bytes.window c.bytes off width := by
  rw [window, slice_eq, Bytes.window_eq, length_bytes]

/-! ### Changing -/

/-- The content with `data` at offset `off`.  A gap before `off` is filled with zeros. -/
def put (c : Content) (off : Nat) (data : Bytes) : Content :=
  ⟨Stretch.join (takeOf off c.stretches)
    (Stretch.join [.gap (off - c.size), .ofBytes data] (dropOf (off + data.length) c.stretches))⟩

theorem bytes_put (c : Content) (off : Nat) (data : Bytes) :
    (c.put off data).bytes =
      c.bytes.take off ++ (Bytes.zeros (off - c.bytes.length) ++
        (data ++ c.bytes.drop (off + data.length))) := by
  simp only [put, bytes, Stretch.flatMap_join, flatMap_takeOf, flatMap_dropOf,
    List.flatMap_cons, List.flatMap_nil, List.append_nil, Stretch.bytes_ofBytes, List.append_assoc]
  rw [← length_bytes c]
  rfl

/-- The content cut, or filled up with zeros, to `n` bytes. -/
def resize (c : Content) (n : Nat) : Content :=
  ⟨Stretch.join (takeOf n c.stretches) (Stretch.join [.gap (n - c.size)] [])⟩

theorem bytes_resize (c : Content) (n : Nat) : (c.resize n).bytes = Bytes.resize c.bytes n := by
  simp only [resize, bytes, Stretch.flatMap_join, flatMap_takeOf, List.flatMap_cons,
    List.flatMap_nil, List.append_nil, Bytes.resize]
  rw [← length_bytes c]
  rfl

/-- The content with the byte at offset `off` inverted, if there is one. -/
def flip (c : Content) (off : Nat) : Content :=
  match c.slice off 1 with
  | [b] => c.put off [~~~b]
  | _ => c

theorem bytes_flip (c : Content) (off : Nat) :
    (c.flip off).bytes = c.bytes.modify off (~~~ ·) := by
  rw [flip, slice_eq]
  by_cases h : off < c.bytes.length
  · have hoff : off - c.bytes.length = 0 := Nat.sub_eq_zero_of_le (Nat.le_of_lt h)
    have hdrop := List.drop_eq_getElem_cons h
    simp only [hdrop, List.take_succ_cons, List.take_zero]
    rw [bytes_put, List.modify_eq_take_cons_drop h]
    simp only [hoff, Bytes.zeros, List.replicate_zero, List.nil_append, List.cons_append,
      List.length_cons, List.length_nil, Nat.zero_add]
  · rw [List.modify_eq_self (Nat.le_of_not_lt h), List.drop_eq_nil_of_le (Nat.le_of_not_lt h)]
    rfl

end Content

end PageLog
