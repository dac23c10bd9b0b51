import PageLog.File.Disk
import PageLog.Proofs.Act
import PageLog.Proofs.Bytes

/-!
# Files that answer every call

Whatever keeps a file, and however far each of its transfers gets, a whole read finds the bytes of
the file and a whole write puts its bytes in place.  A disk that refuses no call is therefore
described by the bytes of its file alone.

## Main definitions

* `Disk.Calm` — the disk refuses no call.
* `Disk.Holds` — the disk refuses no call, and its file has certain bytes.

## Main results

* `File.read_eq`, `File.bytes_write` — reads and writes by the bytes of the file.
* `Disk.Holds.read`, `Disk.Holds.write`, `Disk.Holds.writeParts`, `Disk.Holds.len`,
  `Disk.Holds.truncate`, `Disk.Holds.sync` — the calls.
* `Disk.Holds.write_gap`, `Disk.Holds.writeParts_gap` — writes behind the end of the file.
-/

namespace PageLog

/-! ### Whole reads and writes -/

namespace Transfer

/-- However far each transfer gets, a whole read gives the bytes asked for, or fails where the file
ends before them. -/
theorem readAll_eq (pace : Pace) (content : Content) (n off len : Nat) :
    (readAll pace content n off len).1 =
      if len = 0 ∨ off + len ≤ content.size then .ok ((content.bytes.drop off).take len)
      else .error .pastEnd := by
  fun_induction readAll pace content n off len with
  | case1 => simp
  | case2 n off len hlen chunk hchunk =>
    -- nothing was moved, so the file ends at or before `off`
    have hpos := pace.moved_pos (Nat.pos_of_ne_zero hlen) (n := n)
    have hempty : chunk.length = 0 := by rw [hchunk]; rfl
    simp only [chunk, Content.slice_eq, List.length_take, List.length_drop,
      Content.length_bytes] at hempty
    rw [if_neg (by omega)]
  | case3 n off len hlen chunk hchunk rest n' hrest ih =>
    -- what was moved is a front part of what is asked for
    have hle := pace.moved_le n len
    have hclen : chunk.length = min (pace.moved n len) (content.size - off) := by
      simp only [chunk, Content.slice_eq, List.length_take, List.length_drop,
        Content.length_bytes]
    have hceq : chunk = (content.bytes.drop off).take chunk.length := by
      rw [hclen, ← Content.length_bytes, ← List.length_drop, ← List.take_eq_take_min]
      exact Content.slice_eq ..
    rw [hrest] at ih
    split at ih
    · rename_i hin
      have hall : len = chunk.length + (len - chunk.length) := by omega
      cases ih
      rw [if_pos (by omega)]
      conv_rhs => rw [hall, List.take_add, List.drop_drop, ← hceq]
    · cases ih
  | case4 n off len hlen chunk hchunk fault n' hrest ih =>
    -- the rest fails, so the file ends before the whole
    have hle := pace.moved_le n len
    have hpos := List.length_pos_iff.2 hchunk
    have hclen : chunk.length = min (pace.moved n len) (content.size - off) := by
      simp only [chunk, Content.slice_eq, List.length_take, List.length_drop,
        Content.length_bytes]
    rw [hrest] at ih
    split at ih
    · cases ih
    · rename_i hout
      cases ih
      rw [if_neg (by omega)]

/-- However far each transfer gets, a whole write puts the bytes in place. -/
theorem bytes_writeAll (pace : Pace) (content : Content) (n off : Nat) (data : Bytes)
    (hoff : off ≤ content.size) :
    (writeAll pace content n off data).1.bytes = Bytes.overwrite content.bytes off data := by
  fun_induction writeAll pace content n off data with
  | case1 content n off => simp [Bytes.overwrite]
  | case2 content n off data hdata k ih =>
    have hk : k ≤ data.length := pace.moved_le n data.length
    have htake : (data.take k).length = k := by rw [List.length_take]; omega
    have hput : (content.put off (data.take k)).bytes =
        Bytes.overwrite content.bytes off (data.take k) := by
      rw [Content.bytes_put, Content.length_bytes, Nat.sub_eq_zero_of_le hoff]
      rfl
    have hlen := Bytes.length_overwrite_eq_max (data.take k)
      (show off ≤ content.bytes.length by rw [Content.length_bytes]; exact hoff)
    have hoff' : off + k ≤ (content.put off (data.take k)).size := by
      rw [← Content.length_bytes, hput, hlen, htake]
      exact Nat.le_max_right ..
    rw [ih hoff', hput]
    -- two writes side by side are one
    have htwo := Bytes.overwrite_overwrite (data.take k) (data.drop k)
      (show off ≤ content.bytes.length by rw [Content.length_bytes]; exact hoff)
    rw [htake, List.take_append_drop] at htwo
    exact htwo

/-- However far each transfer gets, a whole write puts its bytes in place behind the end of the file
too, and fills the gap; but where nothing is written, there is no gap to fill. -/
theorem bytes_writeAll_gap (pace : Pace) (content : Content) (n off : Nat) {data : Bytes}
    (hdata : data ≠ []) :
    (writeAll pace content n off data).1.bytes =
      Bytes.overwrite (content.bytes.fillTo off) off data := by
  rw [writeAll, dif_neg hdata]
  simp only
  -- the first transfer leaves no gap for the others
  have hin := Bytes.le_length_fillTo content.bytes off
  have hput : (content.put off (data.take (pace.moved n data.length))).bytes =
      Bytes.overwrite (content.bytes.fillTo off) off (data.take (pace.moved n data.length)) := by
    rw [Content.bytes_put, Bytes.overwrite_fillTo]
  have htake : (data.take (pace.moved n data.length)).length = pace.moved n data.length :=
    List.length_take_of_le (pace.moved_le n data.length)
  rw [bytes_writeAll, hput]
  · have htwo := Bytes.overwrite_overwrite (data.take (pace.moved n data.length))
      (data.drop (pace.moved n data.length)) hin
    rwa [htake, List.take_append_drop] at htwo
  · rw [← Content.length_bytes, hput, Bytes.length_overwrite_eq_max _ hin, htake]
    exact Nat.le_max_right ..

end Transfer

namespace File

@[simp] theorem length_bytes (f : File) : f.bytes.length = f.len := Content.length_bytes f.content

/-- A read finds the bytes of the file; only where nothing is asked for does it matter what keeps
the file. -/
theorem read_eq (f : File) (off : Nat) {len : Nat} (hlen : 0 < len) :
    (f.read off len).1 = (match Bytes.window f.bytes off len with
      | some bs => .ok bs
      | none => .error .pastEnd) ∧
    (f.read off len).2.bytes = f.bytes := by
  unfold read
  split
  · rw [Content.window_eq]
    cases hw : Bytes.window f.content.bytes off len <;> simp [bytes, hw]
  · rename_i pace moves hmedium
    refine ⟨?_, rfl⟩
    rw [Transfer.readAll_eq, Bytes.window_eq, bytes, Content.length_bytes]
    split
    · rw [if_pos (by omega)]
    · rw [if_neg (by omega)]

/-- An empty read fails only behind the end of a file in memory. -/
theorem read_zero (f : File) (off : Nat) :
    (f.read off 0).1 = match f.medium with
      | .memory => if off ≤ f.len then .ok [] else .error .pastEnd
      | .system .. => .ok [] := by
  obtain ⟨content, medium⟩ := f
  cases medium with
  | memory =>
    have hwindow : content.window off 0 = if off ≤ content.size then some [] else none := by
      rw [Content.window_eq, Bytes.window_eq, List.take_zero, Content.length_bytes]
      rfl
    show (read ⟨content, .memory⟩ off 0).1 = if off ≤ content.size then .ok [] else .error .pastEnd
    unfold read
    simp only [hwindow]
    by_cases hin : off ≤ content.size
    · rw [if_pos hin, if_pos hin]
    · rw [if_neg hin, if_neg hin]
  | system pace moves =>
    show (Transfer.readAll pace content moves off 0).1 = .ok []
    rw [Transfer.readAll, dif_pos rfl]

/-- A write that leaves no gap puts its bytes in place. -/
theorem bytes_write (f : File) {off : Nat} (data : Bytes) (hoff : off ≤ f.len) :
    (f.write off data).bytes = Bytes.overwrite f.bytes off data := by
  have hoff' : off ≤ f.content.size := hoff
  unfold write
  split
  · rw [bytes, Content.bytes_put, Content.length_bytes, Nat.sub_eq_zero_of_le hoff']
    rfl
  · exact Transfer.bytes_writeAll _ _ _ _ _ hoff'

/-- A write puts its bytes in place behind the end of the file too, and fills the gap. -/
theorem bytes_write_gap (f : File) (off : Nat) {data : Bytes} (hdata : data ≠ []) :
    (f.write off data).bytes = Bytes.overwrite (f.bytes.fillTo off) off data := by
  unfold write
  split
  · rw [bytes, Content.bytes_put, Bytes.overwrite_fillTo, bytes]
  · exact Transfer.bytes_writeAll_gap _ _ _ _ hdata

/-- An empty write extends a file in memory only. -/
theorem bytes_write_nil (f : File) (off : Nat) :
    (f.write off []).bytes = match f.medium with
      | .memory => f.bytes.fillTo off
      | .system .. => f.bytes := by
  obtain ⟨content, medium⟩ := f
  cases medium with
  | memory =>
    show (content.put off []).bytes = Bytes.fillTo content.bytes off
    rw [Content.bytes_put, ← Bytes.overwrite_fillTo]
    exact List.take_append_drop off _
  | system pace moves =>
    show (Transfer.writeAll pace content moves off []).1.bytes = content.bytes
    rw [Transfer.writeAll, dif_pos rfl]

@[simp] theorem bytes_truncate (f : File) (n : Nat) :
    (f.truncate n).bytes = Bytes.resize f.bytes n := Content.bytes_resize ..

end File

/-! ### Calls that are not refused -/

namespace Disk

/-- The disk refuses no call. -/
def Calm (d : Disk) : Prop := ∀ call n, d.plan call n = none

/-- The disk refuses no call, and its file has the bytes `bs`. -/
structure Holds (d : Disk) (bs : Bytes) : Prop where
  /-- No call is refused. -/
  calm : d.Calm
  /-- The bytes of the file. -/
  bytes : d.file.bytes = bs

theorem Calm.holds {d : Disk} (h : d.Calm) : d.Holds d.file.bytes := ⟨h, rfl⟩

/-- A call to a calm disk is granted. -/
theorem call_of_calm {α : Type} {d : Disk} (h : d.Calm) (kind : Call)
    (refused : Fault → File → File) (granted : File → Except IoFault α × File) {file : File}
    {r : Except IoFault α} (hr : granted d.file = (r, file)) :
    ∃ d', d'.Calm ∧ d'.file = file ∧ call kind refused granted d = match r with
      | .ok a => .ok a d'
      | .error report => .error (.io report) d' := by
  refine ⟨{ d.count kind with file }, h, rfl, ?_⟩
  simp only [call, h kind, hr]
  cases r with
  | ok a => rfl
  | error report => rfl

namespace Holds

variable {d : Disk} {bs : Bytes}

theorem fileLen (h : d.Holds bs) : d.file.len = bs.length := by
  rw [← h.bytes, File.length_bytes]

theorem len (h : d.Holds bs) : ∃ d', Disk.len d = .ok bs.length d' ∧ d'.Holds bs := by
  obtain ⟨d', hcalm, hfile, hcall⟩ := call_of_calm h.calm .len
    (fun _ file => file) (fun file => (.ok file.len, file)) rfl
  refine ⟨d', ?_, hcalm, by rw [hfile, h.bytes]⟩
  rw [← h.fileLen]
  exact hcall

theorem sync (h : d.Holds bs) : ∃ d', Disk.sync d = .ok () d' ∧ d'.Holds bs := by
  obtain ⟨d', hcalm, hfile, hcall⟩ := call_of_calm h.calm .sync
    (fun _ file => file) (fun file => (.ok (), file)) rfl
  exact ⟨d', hcall, hcalm, by rw [hfile, h.bytes]⟩

theorem truncate (h : d.Holds bs) (n : Nat) :
    ∃ d', Disk.truncate n d = .ok () d' ∧ d'.Holds (Bytes.resize bs n) := by
  obtain ⟨d', hcalm, hfile, hcall⟩ := call_of_calm h.calm .truncate
    (fun _ file => file) (fun file => (.ok (), file.truncate n)) rfl
  exact ⟨d', hcall, hcalm, by rw [hfile, File.bytes_truncate, h.bytes]⟩

/-- A read of at least one byte finds the bytes asked for, or fails where they are not all
there. -/
theorem read (h : d.Holds bs) (off : Nat) {len : Nat} (hlen : 0 < len) :
    ∃ d', d'.Holds bs ∧ Disk.read off len d = match Bytes.window bs off len with
      | some w => .ok w d'
      | none => .error (.io .pastEnd) d' := by
  obtain ⟨hvalue, hbytes⟩ := d.file.read_eq off hlen
  rw [h.bytes] at hvalue hbytes
  obtain ⟨d', hcalm, hfile, hcall⟩ := call_of_calm h.calm .read
    (fun _ file => file) (fun file => file.read off len)
    (show d.file.read off len = ((d.file.read off len).1, (d.file.read off len).2) from rfl)
  refine ⟨d', ⟨hcalm, by rw [hfile, hbytes]⟩, hcall.trans ?_⟩
  rw [hvalue]
  cases Bytes.window bs off len with
  | none => rfl
  | some w => rfl

/-- A write that leaves no gap puts its bytes in place. -/
theorem write (h : d.Holds bs) {off : Nat} (data : Bytes) (hoff : off ≤ bs.length) :
    ∃ d', Disk.write off data d = .ok () d' ∧ d'.Holds (Bytes.overwrite bs off data) := by
  obtain ⟨d', hcalm, hfile, hcall⟩ := call_of_calm h.calm .write
    (fun fault file =>
      if fault.kept = 0 then file else file.write off (data.take fault.kept))
    (fun file => (.ok (), file.write off data)) rfl
  refine ⟨d', hcall, hcalm, ?_⟩
  rw [hfile, File.bytes_write _ _ (by rw [h.fileLen]; exact hoff), h.bytes]

/-- A write in parts puts the parts in place, one behind the other. -/
theorem writeParts (h : d.Holds bs) {off : Nat} (parts : List Bytes) (hoff : off ≤ bs.length) :
    ∃ d', Disk.writeParts off parts d = .ok () d' ∧
      d'.Holds (Bytes.overwrite bs off parts.flatten) := by
  induction parts generalizing d bs off with
  | nil =>
    refine ⟨d, rfl, ?_⟩
    simpa [Bytes.overwrite] using h
  | cons part parts ih =>
    rw [Disk.writeParts]
    split
    · rename_i hempty
      simpa [hempty] using ih h hoff
    · obtain ⟨d₁, hwrite, h₁⟩ := h.write part hoff
      have hlen := Bytes.length_overwrite_eq_max part hoff
      obtain ⟨d₂, hrest, h₂⟩ := ih h₁ (show off + part.length ≤ _ by rw [hlen]; omega)
      refine ⟨d₂, by rw [Act.bind_of_ok hwrite, hrest], ?_⟩
      rw [Bytes.overwrite_overwrite _ _ hoff] at h₂
      exact h₂

/-- A write puts its bytes in place behind the end of the file too, and fills the gap. -/
theorem write_gap (h : d.Holds bs) (off : Nat) {data : Bytes} (hdata : data ≠ []) :
    ∃ d', Disk.write off data d = .ok () d' ∧
      d'.Holds (Bytes.overwrite (bs.fillTo off) off data) := by
  obtain ⟨d', hcalm, hfile, hcall⟩ := call_of_calm h.calm .write
    (fun fault file =>
      if fault.kept = 0 then file else file.write off (data.take fault.kept))
    (fun file => (.ok (), file.write off data)) rfl
  refine ⟨d', hcall, hcalm, ?_⟩
  rw [hfile, File.bytes_write_gap _ _ hdata, h.bytes]

/-- A write in parts, one of which is not empty, fills a gap in front of them. -/
theorem writeParts_gap (h : d.Holds bs) (off : Nat) {parts : List Bytes}
    (hparts : ∃ part ∈ parts, part ≠ []) :
    ∃ d', Disk.writeParts off parts d = .ok () d' ∧
      d'.Holds (Bytes.overwrite (bs.fillTo off) off parts.flatten) := by
  -- the first part that is not empty leaves no gap for the others
  induction parts with
  | nil =>
    obtain ⟨part, ⟨⟩, -⟩ := hparts
  | cons part parts ih =>
    by_cases hpart : part = []
    · subst hpart
      have hrest : ∃ part ∈ parts, part ≠ [] := by simpa using hparts
      rw [Disk.writeParts, if_pos rfl, List.flatten_cons, List.nil_append]
      exact ih hrest
    · have hin := Bytes.le_length_fillTo bs off
      obtain ⟨d₁, hwrite, h₁⟩ := h.write_gap off hpart
      have hlen := Bytes.length_overwrite_eq_max part hin
      obtain ⟨d₂, hrest, h₂⟩ :=
        h₁.writeParts parts (show off + part.length ≤ _ by rw [hlen]; exact Nat.le_max_right ..)
      refine ⟨d₂, ?_, ?_⟩
      · rw [Disk.writeParts, if_neg hpart, Act.bind_of_ok hwrite, hrest]
      · rwa [Bytes.overwrite_overwrite _ _ hin] at h₂

end Holds

end Disk

end PageLog
