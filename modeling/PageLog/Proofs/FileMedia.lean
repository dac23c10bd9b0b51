import PageLog.Proofs.Disk

/-!
# Files in memory and files of the system

A file is kept in memory, where a read or a write is one step, or by the operating system, where it
is as many transfers as the pace makes of it.  Neither shows: as long as no call is empty, each of
the two is the bytes of the file, and so they answer alike.

Calls that are empty are told apart, by `File.read_zero` and `File.bytes_write_nil`.  In memory an
empty write behind the end of a file extends it, and an empty read there fails; the operating system
is not even asked.

## Main definitions

* `FileOp`, `FileReply` — the calls on a file, and what they give.
* `FileOp.run`, `FileOp.onBytes` — the calls on a disk, and on the bytes of its file.
* `FileOp.Substantial` — calls that are not empty.

## Main results

* `FileOp.run_of_holds` — one call, by the bytes of the file.
* `FileOp.series_of_holds` — many calls.
* `files_in_memory_and_of_the_system_agree` — **both kinds of file, whatever the pace.**
-/

namespace PageLog

/-! ### Calls -/

/-- A call on a file. -/
inductive FileOp where
  /-- So many bytes are read. -/
  | read (off n : Nat)
  /-- Bytes are written. -/
  | write (off : Nat) (data : Bytes)
  /-- Bytes are written in parts. -/
  | writeParts (off : Nat) (parts : List Bytes)
  /-- The length is set. -/
  | truncate (n : Nat)
  /-- The length is asked for. -/
  | len
  /-- What was written is made durable. -/
  | sync

/-- What a call on a file gives. -/
inductive FileReply where
  /-- The bytes read. -/
  | bytes (bs : Bytes)
  /-- The length. -/
  | length (n : Nat)
  /-- Nothing. -/
  | done

namespace FileOp

/-- A call on the file of a disk. -/
def run : FileOp → Act Disk FileReply
  | read off n => .bytes <$> Disk.read off n
  | write off data => (fun _ => .done) <$> Disk.write off data
  | writeParts off parts => (fun _ => .done) <$> Disk.writeParts off parts
  | truncate n => (fun _ => .done) <$> Disk.truncate n
  | len => .length <$> Disk.len
  | sync => (fun _ => .done) <$> Disk.sync

/-- A call on bytes.  What is written behind their end fills the gap with zeros. -/
def onBytes : FileOp → Act Bytes FileReply
  | read off n => fun bs =>
      if off + n ≤ bs.length then .ok (.bytes ((bs.drop off).take n)) bs
      else .error (.io .pastEnd) bs
  | write off data => fun bs => .ok .done (Bytes.overwrite (bs.fillTo off) off data)
  | writeParts off parts => fun bs => .ok .done (Bytes.overwrite (bs.fillTo off) off parts.flatten)
  | truncate n => fun bs => .ok .done (Bytes.resize bs n)
  | len => fun bs => .ok (.length bs.length) bs
  | sync => fun bs => .ok .done bs

/-- A read or write moves at least one byte. -/
def Substantial : FileOp → Prop
  | read _ n => 0 < n
  | write _ data => data ≠ []
  | writeParts _ parts => ∃ part ∈ parts, part ≠ []
  | truncate _ | len | sync => True

instance : DecidablePred Substantial
  | read _ n => inferInstanceAs (Decidable (0 < n))
  | write _ data => inferInstanceAs (Decidable (data ≠ []))
  | writeParts _ parts => inferInstanceAs (Decidable (∃ part ∈ parts, part ≠ []))
  | truncate _ | len | sync => isTrue trivial

section Calls

variable {op : FileOp} {d d' : Disk} {bs bs' : Bytes}

/-- The call on the disk answers as the call on the bytes, and leaves the bytes that the other
leaves. -/
def Agrees (op : FileOp) (d : Disk) (bs : Bytes) : Prop :=
  op.run.answer d = op.onBytes.answer bs ∧ (op.run.left d).Holds (op.onBytes.left bs)

theorem agrees_of_ok {reply : FileReply} (hrun : op.run d = .ok reply d')
    (hbytes : op.onBytes bs = .ok reply bs') (h : d'.Holds bs') : op.Agrees d bs := by
  refine ⟨?_, ?_⟩
  · rw [Act.answer_of_ok hrun, Act.answer_of_ok hbytes]
  · rw [Act.left_of_ok hrun, Act.left_of_ok hbytes]
    exact h

theorem agrees_of_error {e : Error} (hrun : op.run d = .error e d')
    (hbytes : op.onBytes bs = .error e bs') (h : d'.Holds bs') : op.Agrees d bs := by
  refine ⟨?_, ?_⟩
  · rw [Act.answer_of_error hrun, Act.answer_of_error hbytes]
  · rw [Act.left_of_error hrun, Act.left_of_error hbytes]
    exact h

/-- A call that is not empty knows a disk by the bytes of its file. -/
theorem run_of_holds (h : d.Holds bs) (hop : op.Substantial) : op.Agrees d bs := by
  cases op with
  | read off n =>
    obtain ⟨d', h', hread⟩ := h.read off hop
    rw [Bytes.window_eq] at hread
    by_cases hin : off + n ≤ bs.length
    · rw [if_pos hin] at hread
      exact agrees_of_ok (Act.map_of_ok hread) (if_pos hin) h'
    · rw [if_neg hin] at hread
      exact agrees_of_error (Act.map_of_error hread) (if_neg hin) h'
  | write off data =>
    obtain ⟨d', hwrite, h'⟩ := h.write_gap off hop
    exact agrees_of_ok (Act.map_of_ok hwrite) rfl h'
  | writeParts off parts =>
    obtain ⟨d', hwrite, h'⟩ := h.writeParts_gap off hop
    exact agrees_of_ok (Act.map_of_ok hwrite) rfl h'
  | truncate n =>
    obtain ⟨d', htruncate, h'⟩ := h.truncate n
    exact agrees_of_ok (Act.map_of_ok htruncate) rfl h'
  | len =>
    obtain ⟨d', hlen, h'⟩ := h.len
    exact agrees_of_ok (Act.map_of_ok hlen) rfl h'
  | sync =>
    obtain ⟨d', hsync, h'⟩ := h.sync
    exact agrees_of_ok (Act.map_of_ok hsync) rfl h'

/-- Calls that are not empty know a disk by the bytes of its file. -/
theorem series_of_holds {ops : List FileOp} (h : d.Holds bs) (hops : ∀ op ∈ ops, op.Substantial) :
    (Act.series run ops d).1 = (Act.series onBytes ops bs).1 ∧
      (Act.series run ops d).2.Holds (Act.series onBytes ops bs).2 :=
  Act.series_related (R := Disk.Holds) (fun _ hop _ _ h => run_of_holds h (hops _ hop)) h

/-- Parts that are not all empty make a write that is not empty. -/
theorem flatten_ne_nil {parts : List Bytes} (h : ∃ part ∈ parts, part ≠ []) :
    parts.flatten ≠ [] := by
  obtain ⟨part, hmem, hpart⟩ := h
  intro hnil
  exact hpart (List.flatten_eq_nil_iff.1 hnil part hmem)

/-- Parts are written as the bytes that they make up. -/
theorem writeParts_flatten (h : d.Holds bs) (off : Nat) {parts : List Bytes}
    (hparts : ∃ part ∈ parts, part ≠ []) :
    (writeParts off parts).run.answer d = (write off parts.flatten).run.answer d ∧
      ((writeParts off parts).run.left d).file.bytes =
        ((write off parts.flatten).run.left d).file.bytes := by
  have hinParts : (writeParts off parts).Agrees d bs := run_of_holds h hparts
  have hatOnce : (write off parts.flatten).Agrees d bs := run_of_holds h (flatten_ne_nil hparts)
  obtain ⟨hanswer, hleft⟩ := hinParts
  obtain ⟨hanswer', hleft'⟩ := hatOnce
  exact ⟨hanswer.trans hanswer'.symm, hleft.bytes.trans hleft'.bytes.symm⟩

end Calls

end FileOp

/-- **Both kinds of file agree, whatever the pace.**  A file in memory and a file of the system,
both empty at first, answer the same calls alike and end with the same bytes, however far each
transfer gets: as the bytes of a file are read and written.  In particular the same reads fail,
those that reach past the end.  On any file that refuses no call, bytes written in parts are written
as all at once. -/
theorem files_in_memory_and_of_the_system_agree (pace : Pace) (ops : List FileOp)
    (hops : ∀ op ∈ ops, op.Substantial) :
    let system := Act.series FileOp.run ops (.ofFile (.onSystem pace))
    let memory := Act.series FileOp.run ops (.ofFile .inMemory)
    let listed := Act.series FileOp.onBytes ops []
    system.1 = memory.1 ∧ system.2.file.bytes = memory.2.file.bytes ∧
      memory.1 = listed.1 ∧ memory.2.file.bytes = listed.2 ∧
      ∀ d : Disk, d.Calm → ∀ off parts, (∃ part ∈ parts, part ≠ []) →
        (FileOp.writeParts off parts).run.answer d =
            (FileOp.write off parts.flatten).run.answer d ∧
          ((FileOp.writeParts off parts).run.left d).file.bytes =
            ((FileOp.write off parts.flatten).run.left d).file.bytes := by
  intro system memory listed
  have hcalm : ∀ file : File, (Disk.ofFile file).Calm := fun _ _ _ => rfl
  have hsystem : (Disk.ofFile (.onSystem pace)).Holds [] :=
    ⟨hcalm _, Content.bytes_ofBytes []⟩
  have hmemory : (Disk.ofFile .inMemory).Holds [] := ⟨hcalm _, Content.bytes_ofBytes []⟩
  obtain ⟨hanswers, hend⟩ := FileOp.series_of_holds hsystem hops
  obtain ⟨hanswers', hend'⟩ := FileOp.series_of_holds hmemory hops
  refine ⟨hanswers.trans hanswers'.symm, hend.bytes.trans hend'.bytes.symm, hanswers', hend'.bytes,
    ?_⟩
  intro d hd off parts hparts
  exact FileOp.writeParts_flatten hd.holds off hparts

/-- A gap, an overlap, an empty part, a read of all there is and reads past the end, a byte for each
transfer. -/
theorem files_in_memory_and_of_the_system_agree_byte_by_byte :
    let ops : List FileOp := [.write 3 [1, 2, 3], .writeParts 5 [[], [7, 8], [], [9]], .read 0 8,
      .read 6 3, .truncate 4, .len, .read 4 1]
    let answers : List (Result FileReply) := [.ok .done, .ok .done,
      .ok (.bytes [0, 0, 0, 1, 2, 7, 8, 9]), .error (.io .pastEnd), .ok .done, .ok (.length 4),
      .error (.io .pastEnd)]
    let system := Act.series FileOp.run ops (.ofFile (.onSystem fun _ _ => 1))
    (∀ op ∈ ops, op.Substantial) ∧ system.1 = answers ∧ system.2.file.bytes = [0, 0, 0, 1] := by
  intro ops answers system
  have hops : ∀ op ∈ ops, op.Substantial := by decide
  obtain ⟨hanswers, hbytes, hlisted, hend, -⟩ :=
    files_in_memory_and_of_the_system_agree (fun _ _ => 1) ops hops
  have hanswered : (Act.series FileOp.onBytes ops []).1 = answers := rfl
  have hleft : (Act.series FileOp.onBytes ops []).2 = [0, 0, 0, 1] := rfl
  exact ⟨hops, hanswers.trans (hlisted.trans hanswered), hbytes.trans (hend.trans hleft)⟩

end PageLog
