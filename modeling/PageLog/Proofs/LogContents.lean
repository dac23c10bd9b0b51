import PageLog.Log.Basic
import PageLog.Proofs.Scan

/-!
# The payloads that a log holds

An open log and its file agree on a row of payloads: the file begins with the frames for them, and
the log knows the state behind these frames.  Whatever else stands in the file comes after, and
appending writes over it.  Each operation on the log is described by what it does to the row.

## Main definitions

* `FileHeader.Numbers` — the numbers for so many records stay at or above the first.
* `Log.Holds` — a log holds a row of payloads, behind which other bytes may stand.
* `Log.Ready`, `Log.Appended` — a log can go on in its file, and did.
* `Log.frames`, `Log.found` — all frames of a log.
* `Log.opened` — the log that is opened from a disk.

## Main results

* `FileHeader.numbers_iff` — how many records there are numbers for.
* `Writer.ofDisk_short`, `Writer.ofDisk_ok`, `Writer.ofDisk_image` — opening a log.
* `Writer.ofDisk_below` — a log whose numbers ran past the last one is not opened again.
* `Log.Ready.appendBatch`, `Log.Holds.appendBatch`, `Log.appendBatch_refused` — appending.
* `Log.Holds.truncateTo` — cutting.
* `Log.Holds.frames`, `Scan.harvest_congr` — reading.
-/

namespace PageLog

namespace FileHeader

variable {h : FileHeader} {n : Nat}

/-- The numbers for `n` records stay at or above the first. -/
def Numbers (h : FileHeader) (n : Nat) : Prop :=
  ∀ i < n, h.startLsn ≤ h.startLsn + UInt64.ofNat i

theorem numbers_zero : h.Numbers 0 := fun _ hi => absurd hi (Nat.not_lt_zero _)

theorem Numbers.mono {m : Nat} (hn : h.Numbers n) (hm : m ≤ n) : h.Numbers m :=
  fun i hi => hn i (by omega)

/-- A number that does not run past the last one is not below the first. -/
theorem toNat_number {i : Nat} (hi : h.startLsn.toNat + i < 2 ^ 64) :
    (h.startLsn + UInt64.ofNat i).toNat = h.startLsn.toNat + i := by
  rw [UInt64.toNat_add, UInt64.toNat_ofNat_of_lt' (by simp only [UInt64.size]; omega),
    Nat.mod_eq_of_lt hi]

theorem numbers_of_le (hn : h.startLsn.toNat + n ≤ 2 ^ 64) : h.Numbers n := by
  intro i hi
  rw [UInt64.le_iff_toNat_le, toNat_number (by omega)]
  exact Nat.le_add_right ..

end FileHeader

theorem Tail.pointers_append (t : Tail) (ps qs : List Bytes) :
    t.pointers (ps ++ qs) = t.pointers ps ++ (t.pushAll ps).pointers qs := by
  induction ps generalizing t with
  | nil => rfl
  | cons p ps ih => simp [pointers, ih]

/-- A log whose file begins with the frames for the payloads `ps`, and which goes on behind
them.  The bytes `rest` follow in the file. -/
structure Log.Holds (log : Log) (h : FileHeader) (ps : List Bytes) (rest : Bytes) : Prop where
  /-- The bytes of the file. -/
  disk : log.disk.Holds (h.image ps ++ rest)
  /-- The header is known. -/
  header : log.writer.header = h
  /-- The state behind the frames is known. -/
  tail : log.writer.tail = (Tail.start h).pushAll ps
  /-- Frames can carry the payloads. -/
  admissible : ∀ p ∈ ps, Log.admissible p = true

/-- What appending `n` records changes besides the contents of a log. -/
structure Log.Counted (log : Log) (n : Nat) (log' : Log) : Prop where
  /-- The mode stays. -/
  mode : log'.writer.mode = log.writer.mode
  /-- The records are counted. -/
  records : log'.writer.stats.records = log.writer.stats.records + n

/-- What is known of a log once a piece was written. -/
def Writer.wrote (w : Writer) (piece : List Bytes) : Writer :=
  { w with
    tail := w.tail.pushAll piece
    stats := { w.stats with
      records := w.stats.records + piece.length
      bytes := w.stats.bytes + ((w.tail.pushAll piece).offset - w.tail.offset)
      coalescedWrites := w.stats.coalescedWrites + 1 } }

namespace Log

/-! ### Calls to the file and to what is known -/

theorem onDisk_of_ok {α : Type} {act : Act Disk α} {log : Log} {a : α} {d : Disk}
    (h : act log.disk = .ok a d) : onDisk act log = .ok a { log with disk := d } :=
  Act.on_of_ok h

theorem onDisk_of_error {α : Type} {act : Act Disk α} {log : Log} {e : Error} {d : Disk}
    (h : act log.disk = .error e d) : onDisk act log = .error e { log with disk := d } :=
  Act.on_of_error h

theorem onDisk_at {α : Type} {act : Act Disk α} {a : α} {d d' : Disk} (h : act d = .ok a d')
    (w : Writer) : onDisk act ⟨d, w⟩ = .ok a ⟨d', w⟩ :=
  Act.on_of_ok h

theorem updateWriter_bind {β : Type} (f : Writer → Writer) (k : Unit → Act Log β) (log : Log) :
    (updateWriter f >>= k) log = k () { log with writer := f log.writer } := rfl

/-! ### Appending -/

theorem appendPiece_of_ok {log : Log} {qs : List Bytes} {d : Disk}
    (h : Disk.writeParts log.writer.tail.offset (log.writer.tail.parts qs) log.disk = .ok () d) :
    appendPiece qs log = .ok (log.writer.tail.pointers qs) ⟨d, log.writer.wrote qs⟩ := by
  rw [appendPiece, Act.get_bind, updateWriter_bind]
  exact Act.bind_eq_ok.2 ⟨_, _, onDisk_of_ok h, rfl⟩

/-- The pieces of a list make up the list. -/
@[simp] theorem flatten_pieces {α : Type} (n : Nat) (xs : List α) : (pieces n xs).flatten = xs := by
  fun_induction pieces n xs with
  | case1 => rfl
  | case2 x xs ih => rw [List.flatten_cons, ih, List.cons_append, List.take_append_drop]

theorem Counted.refl (log : Log) : log.Counted 0 log := ⟨rfl, rfl⟩

theorem Counted.trans {log log' log'' : Log} {m n : Nat} (h : log.Counted m log')
    (h' : log'.Counted n log'') : log.Counted (m + n) log'' :=
  ⟨h'.mode.trans h.mode, by rw [h'.records, h.records, Nat.add_assoc]⟩

/-- The log can go on in its file, which has the bytes `bs` and refuses no call. -/
structure Ready (log : Log) (bs : Bytes) : Prop where
  /-- The bytes of the file. -/
  disk : log.disk.Holds bs
  /-- The next frame leaves no gap. -/
  inside : log.writer.tail.offset ≤ bs.length

/-- The frames for the payloads `qs` were written where the log went on. -/
structure Appended (log : Log) (bs : Bytes) (qs : List Bytes) (log' : Log) : Prop where
  /-- The bytes of the file. -/
  disk : log'.disk.Holds
    (Bytes.overwrite bs log.writer.tail.offset (log.writer.tail.image qs))
  /-- The header stays. -/
  header : log'.writer.header = log.writer.header
  /-- The log goes on behind the frames. -/
  tail : log'.writer.tail = log.writer.tail.pushAll qs
  /-- The records are counted. -/
  counted : log.Counted qs.length log'

section Append

variable {log log' log'' : Log} {bs : Bytes} {ps qs : List Bytes}

theorem Ready.appended_nil (hl : log.Ready bs) : log.Appended bs [] log :=
  ⟨by simpa [Bytes.overwrite] using hl.disk, rfl, rfl, .refl log⟩

theorem Appended.ready (hout : log.Appended bs qs log')
    (hin : log.writer.tail.offset ≤ bs.length) :
    log'.Ready (Bytes.overwrite bs log.writer.tail.offset (log.writer.tail.image qs)) := by
  refine ⟨hout.disk, ?_⟩
  rw [hout.tail, Tail.offset_pushAll, Bytes.length_overwrite_eq_max _ hin]
  omega

theorem Appended.trans (hin : log.writer.tail.offset ≤ bs.length) (hout : log.Appended bs ps log')
    (hout' : log'.Appended (Bytes.overwrite bs log.writer.tail.offset (log.writer.tail.image ps))
      qs log'') :
    log.Appended bs (ps ++ qs) log'' := by
  refine ⟨?_, hout'.header.trans hout.header, ?_, ?_⟩
  · have hdisk := hout'.disk
    -- the later frames are written where the earlier ones end
    rw [hout.tail, Tail.offset_pushAll, Bytes.overwrite_overwrite _ _ hin] at hdisk
    rwa [Tail.image_append]
  · rw [hout'.tail, hout.tail, Tail.pushAll_append]
  · rw [List.length_append]
    exact hout.counted.trans hout'.counted

theorem Ready.appendPiece (hl : log.Ready bs) (qs : List Bytes) :
    ∃ log', Log.appendPiece qs log = .ok (log.writer.tail.pointers qs) log' ∧
      log.Appended bs qs log' := by
  obtain ⟨d', hwrite, hd'⟩ := hl.disk.writeParts (log.writer.tail.parts qs) hl.inside
  exact ⟨⟨d', log.writer.wrote qs⟩, appendPiece_of_ok hwrite, hd', rfl, rfl, rfl, rfl⟩

theorem Ready.appendPieces (hl : log.Ready bs) (qss : List (List Bytes)) :
    ∃ log', Log.appendPieces qss log = .ok (log.writer.tail.pointers qss.flatten) log' ∧
      log.Appended bs qss.flatten log' := by
  induction qss generalizing log bs with
  | nil => exact ⟨log, rfl, hl.appended_nil⟩
  | cons qs qss ih =>
    obtain ⟨log₁, hfirst, hout₁⟩ := hl.appendPiece qs
    obtain ⟨log₂, hothers, hout₂⟩ := ih (hout₁.ready hl.inside)
    refine ⟨log₂, ?_, hout₁.trans hl.inside hout₂⟩
    rw [Log.appendPieces, Act.bind_of_ok hfirst, Act.bind_of_ok hothers, Act.pure_apply,
      List.flatten_cons, Tail.pointers_append, hout₁.tail]

theorem Appended.makeDurable (hout : log.Appended bs qs log') :
    ∃ log'', Log.makeDurable log' = .ok () log'' ∧ log.Appended bs qs log'' := by
  obtain ⟨d', hsync, hd'⟩ := hout.disk.sync
  exact ⟨_, Act.bind_of_ok (onDisk_of_ok hsync),
    hd', hout.header, hout.tail, hout.counted.mode, hout.counted.records⟩

/-- What is left to appending payloads that frames can carry, once their frames were written. -/
theorem Appended.appendBatch {q : Bytes} (hqs : ∀ p ∈ q :: qs, Log.admissible p = true)
    (hwrite : Log.appendPieces (pieces (pieceLength - 1) (q :: qs)) log =
      .ok (log.writer.tail.pointers (q :: qs)) log')
    (hout : log.Appended bs (q :: qs) log') :
    ∃ log'', Log.appendBatch (q :: qs) log = .ok (log.writer.tail.pointers (q :: qs)) log'' ∧
      log.Appended bs (q :: qs) log'' := by
  have hall : ((q :: qs).any fun p => !Log.admissible p) = false := by
    rw [List.any_eq_false]
    intro p hp
    rw [hqs p hp]
    decide
  rw [Log.appendBatch]
  simp only [List.isEmpty_cons, hall, Bool.false_eq_true, if_false]
  rw [Act.bind_of_ok hwrite, Act.get_bind]
  split
  · obtain ⟨log'', hsync, hout'⟩ := hout.makeDurable
    exact ⟨log'', by rw [Act.bind_of_ok hsync]; rfl, hout'⟩
  · exact ⟨log', rfl, hout⟩

/-- Payloads that frames can carry are appended. -/
theorem Ready.appendBatch (hl : log.Ready bs) (qs : List Bytes)
    (hqs : ∀ q ∈ qs, Log.admissible q = true) :
    ∃ log', Log.appendBatch qs log = .ok (log.writer.tail.pointers qs) log' ∧
      log.Appended bs qs log' := by
  cases qs with
  | nil => exact ⟨log, rfl, hl.appended_nil⟩
  | cons q qs =>
    obtain ⟨log₁, hwrite, hout⟩ := hl.appendPieces (pieces (pieceLength - 1) (q :: qs))
    rw [flatten_pieces] at hwrite hout
    exact hout.appendBatch hqs hwrite

end Append

namespace Holds

variable {log log' : Log} {h : FileHeader} {ps qs : List Bytes} {rest : Bytes}

theorem offset (hl : log.Holds h ps rest) : log.writer.tail.offset = (h.image ps).length := by
  rw [hl.tail, FileHeader.length_image]

theorem ready (hl : log.Holds h ps rest) : log.Ready (h.image ps ++ rest) := by
  refine ⟨hl.disk, ?_⟩
  rw [hl.offset, List.length_append]
  omega

/-- The frames that are appended go over what stood behind the log. -/
theorem appended (hl : log.Holds h ps rest) (hqs : ∀ q ∈ qs, Log.admissible q = true)
    (hout : log.Appended (h.image ps ++ rest) qs log') :
    log'.Holds h (ps ++ qs) (rest.drop (log.writer.tail.image qs).length) := by
  refine ⟨?_, hout.header.trans hl.header, ?_, ?_⟩
  · have hdisk := hout.disk
    rw [hl.offset, Bytes.overwrite_append] at hdisk
    rw [FileHeader.image_append, ← hl.tail, List.append_assoc]
    exact hdisk
  · rw [hout.tail, Tail.pushAll_append, ← hl.tail]
  · intro p hp
    obtain hp | hp := List.mem_append.1 hp
    · exact hl.admissible p hp
    · exact hqs p hp

/-- Appending payloads that frames can carry puts them behind those that the log holds. -/
theorem appendBatch (qs : List Bytes) (hl : log.Holds h ps rest)
    (hqs : ∀ q ∈ qs, Log.admissible q = true) :
    ∃ log', Log.appendBatch qs log = .ok (log.writer.tail.pointers qs) log' ∧
      log'.Holds h (ps ++ qs) (rest.drop (log.writer.tail.image qs).length) ∧
      log.Counted qs.length log' := by
  obtain ⟨log', hrun, hout⟩ := hl.ready.appendBatch qs hqs
  exact ⟨log', hrun, hl.appended hqs hout, hout.counted⟩

/-- Appending one payload that a frame can carry puts it behind those that the log holds. -/
theorem append {q : Bytes} (hl : log.Holds h ps rest) (hq : Log.admissible q = true) :
    ∃ log', Log.append q log = .ok (log.writer.tail.pointer q) log' ∧
      log'.Holds h (ps ++ [q]) (rest.drop (log.writer.tail.image [q]).length) ∧
      log.Counted 1 log' := by
  obtain ⟨log', hbatch, hl', hc⟩ := hl.appendBatch [q]
    (by rintro q' hq'; rwa [List.mem_singleton.1 hq'])
  exact ⟨log', by rw [Log.append, Act.bind_of_ok hbatch]; rfl, hl', hc⟩

end Holds

/-- Payloads one of which no frame can carry are refused, and nothing is written. -/
theorem appendBatch_refused {log : Log} {qs : List Bytes} {q : Bytes} (hq : q ∈ qs)
    (hbad : Log.admissible q = false) :
    appendBatch qs log = .error (.invalid .payloadSize) log := by
  have hany : (qs.any fun p => !admissible p) = true :=
    List.any_eq_true.2 ⟨q, hq, by rw [hbad]; rfl⟩
  have hempty : qs.isEmpty = false := List.isEmpty_eq_false_iff.2 (List.ne_nil_of_mem hq)
  simp only [appendBatch, hempty, hany, Bool.false_eq_true, if_false, if_true]
  rfl

theorem append_refused {log : Log} {q : Bytes} (hbad : Log.admissible q = false) :
    append q log = .error (.invalid .payloadSize) log := by
  rw [append, Act.bind_of_error (appendBatch_refused (List.mem_singleton_self q) hbad)]

end Log

/-- A log whose file was just made up of the frames for certain payloads. -/
theorem Log.holds_image (h : FileHeader) {ps : List Bytes} (mode : SyncMode)
    (hps : ∀ p ∈ ps, Log.admissible p = true) :
    Log.Holds ⟨.ofFile ⟨.ofBytes (h.image ps), .memory⟩,
      ⟨mode, h, (Tail.start h).pushAll ps, .zero⟩⟩ h ps [] := by
  refine ⟨⟨fun _ _ => rfl, ?_⟩, rfl, rfl, hps⟩
  rw [List.append_nil]
  exact Content.bytes_ofBytes _

/-! ### Files that hold a log -/

/-- The scan with which a log of `n` bytes is read. -/
def Scan.whole (h : FileHeader) (n : Nat) : Scan := ⟨h, n, .start h, false⟩

/-- A scan finds no further frame in the bytes `rest` behind the frames for `ps`. -/
def FileHeader.Ends (h : FileHeader) (ps : List Bytes) (rest : Bytes) : Prop :=
  let s : Scan := ⟨h, (h.image ps ++ rest).length, (Tail.start h).pushAll ps, false⟩
  s.outcome (h.image ps ++ rest) = .ok (none, { s with stopped := true })

/-- A log ends where its file ends. -/
theorem FileHeader.ends_nil (h : FileHeader) (ps : List Bytes) : h.Ends ps [] := by
  refine Scan.outcome_at_limit ?_
  simp only [List.append_nil, length_image]
  omega

/-- A log ends where its file breaks off inside a further frame. -/
theorem FileHeader.ends_torn {h : FileHeader} {ps : List Bytes} {p rest : Bytes}
    (hp : Log.admissible p = true) (hn : h.Numbers (ps.length + 1))
    (htorn : rest <+: ((Tail.start h).pushAll ps).image [p])
    (hshort : rest.length < (((Tail.start h).pushAll ps).image [p]).length) : h.Ends ps rest := by
  rw [Tail.image_cons, Tail.image_nil, List.append_nil] at htorn hshort
  refine Scan.outcome_torn rfl hp ?_ ?_ ?_
  · simp only [Tail.nextLsn_pushAll]
    exact hn ps.length (Nat.lt_succ_self _)
  · rwa [List.drop_left' (h.length_image ps)]
  · rw [List.length_append, FrameHeader.length_encode] at hshort
    rw [List.length_append, FileHeader.length_image]
    simp only
    omega

namespace Scan

variable {d : Disk} {h : FileHeader} {ps : List Bytes} {rest : Bytes}

theorem ofHeader_ok {bs : Bytes} (hd : d.Holds bs) (hlen : FileHeader.size ≤ bs.length) :
    ∃ d', Scan.ofHeader h d = .ok (.whole h bs.length) d' ∧ d'.Holds bs := by
  obtain ⟨d', hcall, hd'⟩ := hd.len
  refine ⟨d', ?_, hd'⟩
  rw [ofHeader, Act.bind_of_ok hcall]
  simp only [Nat.not_lt.2 hlen, if_false]
  rfl

/-- Behind its header the file goes on with the frames. -/
theorem whole_bytes (h : FileHeader) (ps : List Bytes) (rest : Bytes) :
    (Tail.start h).image ps <+: (h.image ps ++ rest).drop (Tail.start h).offset := by
  refine ⟨rest, ?_⟩
  rw [FileHeader.image, List.append_assoc]
  exact (List.drop_left' h.length_encode).symm

theorem whole_ahead (hd : d.Holds (h.image ps ++ rest))
    (hps : ∀ p ∈ ps, Log.admissible p = true) (hn : h.Numbers ps.length) :
    (Scan.whole h (h.image ps ++ rest).length).Ahead d (h.image ps ++ rest) ps :=
  ⟨⟨hd, rfl, rfl⟩, hps, hn, whole_bytes h ps rest⟩

/-- A walk through a file that holds a log goes through the frames, and ends where they end. -/
theorem forEach_image {τ : Type} {visit : Frame → Act τ Unit} {t t' : τ}
    (hd : d.Holds (h.image ps ++ rest)) (hps : ∀ p ∈ ps, Log.admissible p = true)
    (hn : h.Numbers ps.length) (hends : h.Ends ps rest)
    (hvisit : ((Tail.start h).frames ps).forM visit t = .ok ⟨⟩ t') :
    ∃ d', d'.Holds (h.image ps ++ rest) ∧
      (Scan.whole h (h.image ps ++ rest).length).forEach visit (d, t) =
        .ok ⟨h, (h.image ps ++ rest).length, (Tail.start h).pushAll ps, true⟩ (d', t') := by
  obtain ⟨d₁, h₁, hwalk⟩ := forEach_frames (whole_ahead hd hps hn) hvisit
  obtain ⟨d₂, hend, h₂⟩ := next_of_stop h₁.disk hends
  exact ⟨d₂, h₂, hwalk.trans (forEach_of_none hend)⟩

/-- A walk that collects frames keeps those collected before. -/
theorem collect_suffix (s : Scan) (x : Disk × List Frame) :
    match s.forEach (fun f => modify (f :: ·)) x with
    | .ok _ x' => x.2 <:+ x'.2
    | .error _ x' => x.2 <:+ x'.2 := by
  fun_induction forEach (fun f => modify (f :: ·)) s x with
  | case1 s d t e d₁ hnext => exact List.suffix_rfl
  | case2 s d t s₁ d₁ hnext => exact List.suffix_rfl
  | case3 s d t f s₁ d₁ hnext e t₁ hvisit => cases hvisit
  | case4 s d t f s₁ d₁ hnext t₁ hvisit ih =>
    cases hvisit
    split at ih <;> exact (List.suffix_cons ..).trans ih

/-- Collecting frames puts them in front of those collected before, the last one first. -/
theorem collect_frames (fs seen : List Frame) :
    (fs.forM (fun f => modify (f :: ·)) : Act (List Frame) PUnit) seen =
      .ok ⟨⟩ (fs.reverse ++ seen) := by
  induction fs generalizing seen with
  | nil => rfl
  | cons f fs ih =>
    have hstep := ih (f :: seen)
    rw [List.reverse_cons, List.append_assoc]
    exact hstep

end Scan

/-- All frames of a log. -/
def Log.frames : Act Log Scan.Harvest := do
  let scan ← Log.scan
  onDisk fun d => .ok (scan.harvest d).1 (scan.harvest d).2

/-- The frames collected so far begin the frames that a scan finds. -/
theorem Scan.harvest_prefix {s s' : Scan} {d d' : Disk} {fs : List Frame}
    (hwalk : s.forEach (fun f => modify (f :: ·)) (d, []) =
      s'.forEach (fun f => modify (f :: ·)) (d', fs.reverse)) :
    fs <+: (s.harvest d).1.frames := by
  -- whatever else is found is put in front of those collected, the last of which comes first
  have hmore := s'.collect_suffix (d', fs.reverse)
  simp only [harvest, hwalk]
  cases hrest : s'.forEach (fun f => modify (f :: ·)) (d', fs.reverse) with
  | ok s'' x =>
    rw [hrest] at hmore
    rw [← List.reverse_suffix, List.reverse_reverse]
    exact hmore
  | error e x =>
    rw [hrest] at hmore
    rw [← List.reverse_suffix, List.reverse_reverse]
    exact hmore

theorem Scan.harvest_eq {s s' : Scan} {d d' : Disk} {fs : List Frame}
    (hwalk : s.forEach (fun f => modify (f :: ·)) (d, []) = .ok s' (d', fs.reverse)) :
    s.harvest d = (⟨fs, none, s'.validUpTo⟩, d') := by
  simp only [harvest, hwalk, List.reverse_reverse]

theorem Scan.Gives.frames_harvest {s : Scan} {d : Disk} {fs : List Frame}
    {x : EStateM.Result Error Disk Scan} (h : s.Gives d fs x) : (s.harvest d).1.frames = fs := by
  have hwalk := h.forEach_ok (Scan.collect_frames fs [])
  rw [List.append_nil] at hwalk
  unfold Scan.harvest
  rw [hwalk]
  cases x with
  | ok s' d' => exact List.reverse_reverse fs
  | error e d' => exact List.reverse_reverse fs

namespace Scan

variable {s : Scan} {d d' : Disk} {bs : Bytes} {fs : List Frame}
  {x : EStateM.Result Error Disk Scan}

/-- How a scan ends, but for the disk. -/
def verdict : EStateM.Result Error Disk Scan → Result Scan
  | .ok s _ => .ok s
  | .error e _ => .error e

/-- Over another disk with the same file the next frame is the same. -/
theorem next_ok_onFile {found : Option Frame × Scan} {d₁ : Disk} (hd : d.Holds bs)
    (hd' : d'.Holds bs) (hnext : s.next d = .ok found d₁) :
    d₁.Holds bs ∧ ∃ d₂, d₂.Holds bs ∧ s.next d' = .ok found d₂ := by
  obtain ⟨d₂, hd₂, hsame⟩ := next_eq s hd
  obtain ⟨d₃, hd₃, hsame'⟩ := next_eq s hd'
  rw [hsame, Act.ofResult_eq_ok] at hnext
  obtain ⟨hout, rfl⟩ := hnext
  exact ⟨hd₂, d₃, hd₃, by rw [hsame', hout]; rfl⟩

theorem next_error_onFile {e : Error} {d₁ : Disk} (hd : d.Holds bs) (hd' : d'.Holds bs)
    (hnext : s.next d = .error e d₁) : ∃ d₂, s.next d' = .error e d₂ := by
  obtain ⟨d₂, -, hsame⟩ := next_eq s hd
  obtain ⟨d₃, -, hsame'⟩ := next_eq s hd'
  rw [hnext] at hsame
  cases hout : s.outcome bs with
  | error e' =>
    rw [hout] at hsame hsame'
    cases hsame
    exact ⟨d₃, hsame'⟩
  | ok found =>
    rw [hout] at hsame
    cases hsame

/-- What a scan gives depends only on the bytes of the file. -/
theorem Gives.onFile (h : s.Gives d fs x) (hd : d.Holds bs) (hd' : d'.Holds bs) :
    ∃ y, s.Gives d' fs y ∧ verdict y = verdict x := by
  induction h generalizing d' with
  | stop hnext =>
    obtain ⟨-, d₂, -, hsame⟩ := next_ok_onFile hd hd' hnext
    exact ⟨_, .stop hsame, rfl⟩
  | fail hnext =>
    obtain ⟨d₂, hsame⟩ := next_error_onFile hd hd' hnext
    exact ⟨_, .fail hsame, rfl⟩
  | frame hnext hrest ih =>
    obtain ⟨hd₁, d₂, hd₂, hsame⟩ := next_ok_onFile hd hd' hnext
    obtain ⟨y, hgives, hverdict⟩ := ih hd₁ hd₂
    exact ⟨y, .frame hsame hgives, hverdict⟩

/-- Scans that give the same frames and end in the same way come to the same. -/
theorem Gives.harvest_eq {y : EStateM.Result Error Disk Scan} (h : s.Gives d fs x)
    (h' : s.Gives d' fs y) (hverdict : verdict y = verdict x) :
    (s.harvest d').1 = (s.harvest d).1 := by
  have hwalk := h.forEach_ok (collect_frames fs [])
  have hwalk' := h'.forEach_ok (collect_frames fs [])
  unfold harvest
  rw [hwalk, hwalk']
  cases x with
  | ok s₁ d₁ =>
    cases y with
    | ok s₂ d₂ =>
      cases hverdict
      rfl
    | error e d₂ => cases hverdict
  | error e d₁ =>
    cases y with
    | ok s₂ d₂ => cases hverdict
    | error e₂ d₂ =>
      cases hverdict
      rfl

theorem harvest_congr (s : Scan) (hd : d.Holds bs) (hd' : d'.Holds bs) :
    (s.harvest d').1 = (s.harvest d).1 := by
  rcases s.exists_gives d with ⟨fs, x, hgives⟩
  rcases hgives.onFile hd hd' with ⟨y, hgives', hverdict⟩
  exact hgives.harvest_eq hgives' hverdict

end Scan

namespace Log

variable {log : Log} {h : FileHeader} {ps : List Bytes} {rest : Bytes}

theorem size_le_image (h : FileHeader) (ps : List Bytes) (rest : Bytes) :
    FileHeader.size ≤ (h.image ps ++ rest).length := by
  rw [FileHeader.image, List.length_append, List.length_append, FileHeader.length_encode,
    FileHeader.size]
  omega

/-- The frames that are read from a log. -/
def found (log : Log) : List Frame :=
  match Log.frames log with
  | .ok found _ => found.frames
  | .error _ _ => []

theorem found_eq {log' : Log} {scan : Scan} {fs : List Frame} {x : EStateM.Result Error Disk Scan}
    (hscan : Log.scan log = .ok scan log') (hgives : scan.Gives log'.disk fs x) :
    log.found = fs := by
  have hframes : Log.frames log = .ok (scan.harvest log'.disk).1
      { log' with disk := (scan.harvest log'.disk).2 } := Act.bind_of_ok hscan
  rw [found, hframes]
  exact hgives.frames_harvest

/-- What is read from a log is read from the bytes of its file. -/
theorem frames_of_holds {bs : Bytes} (hd : log.disk.Holds bs) (hlen : FileHeader.size ≤ bs.length) :
    ∃ d' log', d'.Holds bs ∧
      Log.frames log = .ok ((Scan.whole log.writer.header bs.length).harvest d').1 log' := by
  obtain ⟨d', hscan, hd'⟩ := Scan.ofHeader_ok (h := log.writer.header) hd hlen
  have hscan' : Log.scan log = .ok _ { log with disk := d' } := onDisk_of_ok hscan
  exact ⟨d', _, hd', Act.bind_of_ok hscan'⟩

theorem scan_of_image (hd : log.disk.Holds (h.image ps ++ rest)) (hheader : log.writer.header = h) :
    ∃ d', Log.scan log = .ok (.whole h (h.image ps ++ rest).length) { log with disk := d' } ∧
      d'.Holds (h.image ps ++ rest) := by
  obtain ⟨d', hscan, hd'⟩ := Scan.ofHeader_ok hd (size_le_image ..)
  refine ⟨d', ?_, hd'⟩
  rw [Log.scan, Act.get_bind, hheader]
  exact onDisk_of_ok hscan

/-- Just the frames that a file holds are read from it where it ends behind them, wherever the log
goes on. -/
theorem frames_of_image (hd : log.disk.Holds (h.image ps ++ rest)) (hheader : log.writer.header = h)
    (hps : ∀ p ∈ ps, Log.admissible p = true) (hn : h.Numbers ps.length) (hends : h.Ends ps rest) :
    ∃ log', Log.frames log =
      .ok ⟨(Tail.start h).frames ps, none, (h.image ps).length⟩ log' := by
  obtain ⟨d₁, hscan, hd₁⟩ := scan_of_image hd hheader
  obtain ⟨d₂, h₂, hwalk⟩ := Scan.forEach_image hd₁ hps hn hends (Scan.collect_frames _ [])
  rw [List.append_nil] at hwalk
  refine ⟨{ log with disk := d₂ }, ?_⟩
  rw [Log.frames, Act.bind_of_ok hscan]
  refine onDisk_of_ok ?_
  rw [Scan.harvest_eq hwalk, FileHeader.length_image]
  rfl

namespace Holds

theorem scan (hl : log.Holds h ps rest) :
    ∃ d', Log.scan log = .ok (.whole h (h.image ps ++ rest).length) { log with disk := d' } ∧
      d'.Holds (h.image ps ++ rest) :=
  scan_of_image hl.disk hl.header

/-- What is read from a log begins with the frames for the payloads that the log holds. -/
theorem frames_prefix (hl : log.Holds h ps rest) (hn : h.Numbers ps.length) :
    ∃ found log', Log.frames log = .ok found log' ∧
      (Tail.start h).frames ps <+: found.frames := by
  obtain ⟨d₁, hscan, hd₁⟩ := hl.scan
  obtain ⟨d₂, h₂, hwalk⟩ := Scan.forEach_frames (Scan.whole_ahead hd₁ hl.admissible hn)
    (Scan.collect_frames _ [])
  rw [List.append_nil] at hwalk
  exact ⟨_, _, Act.bind_of_ok hscan, Scan.harvest_prefix hwalk⟩

/-- Where nothing follows the payloads that a log holds, just their frames are read from it. -/
theorem frames_eq (hl : log.Holds h ps rest) (hn : h.Numbers ps.length)
    (hends : h.Ends ps rest) :
    ∃ log', Log.frames log =
      .ok ⟨(Tail.start h).frames ps, none, (h.image ps).length⟩ log' :=
  frames_of_image hl.disk hl.header hl.admissible hn hends

/-! ### Cutting -/

/-- A log is cut behind any of its frames, or behind its header. -/
theorem truncateTo {qs : List Bytes} (hl : log.Holds h (ps ++ qs) rest)
    (hn : h.Numbers ps.length) :
    ∃ log', Log.truncateTo (h.image ps).length log = .ok () log' ∧ log'.Holds h ps [] ∧
      log.Counted 0 log' := by
  have hps : ∀ p ∈ ps, Log.admissible p = true :=
    fun p hp => hl.admissible p (List.mem_append_left _ hp)
  -- the file goes on with the frames that are kept, and a scan finds their end
  have hbytes : h.image (ps ++ qs) ++ rest =
      h.image ps ++ (((Tail.start h).pushAll ps).image qs ++ rest) := by
    rw [FileHeader.image_append, List.append_assoc]
  obtain ⟨d₁, hscan, hd₁⟩ := hl.scan
  rw [hbytes] at hscan hd₁
  obtain ⟨d₂, hseek, hd₂⟩ := Scan.seek_frames (Scan.whole_ahead hd₁ hps hn)
    (FileHeader.length_image h ps)
  obtain ⟨d₃, hcut, hd₃⟩ := hd₂.truncate (h.image ps).length
  rw [Bytes.resize_append] at hd₃
  have hsize : ¬(h.image ps).length < FileHeader.size := by
    have hle := size_le_image h ps []
    rw [List.append_nil] at hle
    exact Nat.not_lt.2 hle
  simp only [Log.truncateTo, hsize, if_false]
  rw [Act.bind_of_ok hscan, Act.bind_of_ok (onDisk_at hseek log.writer),
    Act.bind_of_ok (onDisk_at hcut log.writer), updateWriter_bind, Act.get_bind]
  split
  · obtain ⟨d₄, hsync, hd₄⟩ := hd₃.sync
    refine ⟨_, onDisk_of_ok hsync, ⟨?_, hl.header, rfl, hps⟩, rfl, rfl⟩
    rwa [List.append_nil]
  · refine ⟨_, rfl, ⟨?_, hl.header, rfl, hps⟩, rfl, rfl⟩
    rwa [List.append_nil]

end Holds

end Log

/-! ### Opening -/

namespace Scan

theorem toEnd_of_forEach {s s' : Scan} {d d' : Disk}
    (hwalk : s.forEach (fun _ => pure ()) (d, ()) = .ok s' (d', ())) :
    s.toEnd d = .ok s' d' := by
  simp only [toEnd, hwalk]

theorem forEach_of_toEnd {s s' : Scan} {d d' : Disk} (h : s.toEnd d = .ok s' d') :
    s.forEach (fun _ => pure ()) (d, ()) = .ok s' (d', ()) := by
  simp only [toEnd] at h
  split at h
  · rename_i hwalk
    cases h
    exact hwalk
  · cases h

theorem pass_frames (fs : List Frame) :
    (fs.forM (fun _ => pure ()) : Act Unit PUnit) () = .ok ⟨⟩ () := by
  induction fs with
  | nil => rfl
  | cons f fs ih => exact ih

end Scan

namespace Writer

variable {d : Disk} {options : LogOptions} {h : FileHeader} {ps : List Bytes} {rest : Bytes}

/-- What remains to be done when a log is opened, once its header is known. -/
def resume (mode : SyncMode) (h : FileHeader) : Act Disk Writer := do
  let scan ← Scan.ofHeader h
  let scan ← scan.toEnd
  return ⟨mode, h, scan.tail, .zero⟩

/-- A file that holds a log which ends there is taken up as this log. -/
theorem resume_image (mode : SyncMode) (hd : d.Holds (h.image ps ++ rest))
    (hps : ∀ p ∈ ps, Log.admissible p = true) (hn : h.Numbers ps.length)
    (hends : h.Ends ps rest) :
    ∃ w d', resume mode h d = .ok w d' ∧ Log.Holds ⟨d', w⟩ h ps rest ∧ w.stats = .zero := by
  obtain ⟨d₁, hscan, hd₁⟩ := Scan.ofHeader_ok hd (Log.size_le_image ..)
  obtain ⟨d₂, hd₂, hwalk⟩ := Scan.forEach_image hd₁ hps hn hends (Scan.pass_frames _)
  refine ⟨⟨mode, h, (Tail.start h).pushAll ps, .zero⟩, d₂, ?_, ⟨hd₂, rfl, rfl, hps⟩, rfl⟩
  rw [resume, Act.bind_of_ok hscan, Act.bind_of_ok (Scan.toEnd_of_forEach hwalk)]
  rfl

/-- Whatever file is taken up, the log holds the payloads of its frames. -/
theorem resume_ok {mode : SyncMode} {bs : Bytes} {d' : Disk} {w : Writer} (hd : d.Holds bs)
    (hlen : FileHeader.size ≤ bs.length) (hheader : h.encode <+: bs)
    (hopen : resume mode h d = .ok w d') :
    ∃ ps rest, Log.Holds ⟨d', w⟩ h ps rest ∧ h.Numbers ps.length ∧ h.Ends ps rest ∧
      w.stats = .zero := by
  obtain ⟨d₁, hscan, hd₁⟩ := Scan.ofHeader_ok hd hlen
  rw [resume, Act.bind_of_ok hscan, Act.bind_eq_ok] at hopen
  obtain ⟨s, d₂, hend, hw⟩ := hopen
  cases hw
  obtain ⟨ps, hps, hn, hbytes, rfl, hstop, hd₂, -⟩ := Scan.forEach_ok ⟨hd₁, rfl, rfl⟩
    (Scan.forEach_of_toEnd hend)
  -- the header and the frames that were found make up the file, but for what follows them
  obtain ⟨body, rfl⟩ := hheader
  obtain ⟨rest, hrest⟩ := hbytes
  have hbs : h.encode ++ body = h.image ps ++ rest := by
    rw [FileHeader.image, List.append_assoc]
    refine congrArg _ (Eq.symm (hrest.trans ?_))
    exact List.drop_left' h.length_encode
  rw [hbs] at hd₂ hstop
  exact ⟨ps, rest, ⟨hd₂, rfl, rfl, hps⟩, hn, hstop, rfl⟩

/-- A new log consists of its header. -/
theorem create_ok (hcalm : d.Calm) (h : FileHeader) :
    ∃ d', create h d = .ok () d' ∧ d'.Holds h.encode := by
  obtain ⟨d₁, hwrite, hd₁⟩ := hcalm.holds.write h.encode (Nat.zero_le _)
  obtain ⟨d₂, hcut, hd₂⟩ := hd₁.truncate FileHeader.size
  refine ⟨d₂, by rw [create, Act.bind_of_ok hwrite, hcut], ?_⟩
  rw [Bytes.overwrite, List.take_zero, List.nil_append,
    show FileHeader.size = h.encode.length from h.length_encode.symm, Bytes.resize_append] at hd₂
  exact hd₂

/-- A file that is too short for a header is opened as a log that holds nothing. -/
theorem ofDisk_short (options : LogOptions) (hcalm : d.Calm)
    (hlen : d.file.len < FileHeader.size) :
    ∃ w d', ofDisk options d = .ok w d' ∧
      Log.Holds ⟨d', w⟩ ⟨options.salt, options.startLsn⟩ [] [] ∧ w.stats = .zero := by
  obtain ⟨d₁, hcall, hd₁⟩ := hcalm.holds.len
  rw [File.length_bytes] at hcall
  obtain ⟨d₂, hcreate, hd₂⟩ := create_ok hd₁.calm ⟨options.salt, options.startLsn⟩
  have hd₂' : d₂.Holds (FileHeader.image ⟨options.salt, options.startLsn⟩ [] ++ []) := by
    rwa [FileHeader.image, Tail.image_nil, List.append_nil, List.append_nil]
  obtain ⟨w, d₃, hresume, hl⟩ := resume_image options.mode hd₂' (by simp)
    FileHeader.numbers_zero (FileHeader.ends_nil ..)
  refine ⟨w, d₃, ?_, hl⟩
  rw [ofDisk, Act.bind_of_ok hcall]
  simp only [hlen, if_true]
  rw [Act.bind_of_ok hcreate]
  exact hresume

/-- A file that begins with the header of a log is recognized by the salt. -/
theorem recognize_ok {bs : Bytes} {salt : UInt64} (hd : d.Holds bs) (hheader : h.encode <+: bs)
    (hsalt : salt = h.salt) : ∃ d', recognize salt d = .ok h d' ∧ d'.Holds bs := by
  obtain ⟨d', hd', hread⟩ := hd.read 0 (show 0 < FileHeader.size by decide)
  obtain ⟨body, rfl⟩ := hheader
  rw [Bytes.window_eq_some (by simp [FileHeader.size]), List.drop_zero,
    List.take_left' (show h.encode.length = FileHeader.size from h.length_encode)] at hread
  refine ⟨d', ?_, hd'⟩
  have hheader : Scan.readHeader d = .ok h d' := by
    rw [Scan.readHeader, Act.bind_of_ok hread, FileHeader.decode_encode]
    rfl
  rw [recognize, Act.bind_of_ok hheader]
  simp only [hsalt, ne_eq, not_true_eq_false, if_false]
  rfl

theorem recognize_eq_ok {bs : Bytes} {salt : UInt64} {d' : Disk} (hd : d.Holds bs)
    (hopen : recognize salt d = .ok h d') : d'.Holds bs ∧ h.encode <+: bs ∧ salt = h.salt := by
  obtain ⟨d₁, hd₁, hread⟩ := hd.read 0 (show 0 < FileHeader.size by decide)
  obtain ⟨h', d₂, hheader, hsalt⟩ := Act.bind_eq_ok.1 hopen
  obtain ⟨bytes, d₃, hbytes, hresult⟩ := Act.bind_eq_ok.1 hheader
  obtain ⟨hdecode, rfl⟩ := Act.ofResult_eq_ok.1 hresult
  rw [hread] at hbytes
  cases hw : Bytes.window bs 0 FileHeader.size with
  | none =>
    rw [hw] at hbytes
    cases hbytes
  | some w =>
    rw [hw] at hbytes
    cases hbytes
    split at hsalt
    · cases hsalt
    · rename_i hsame
      cases hsalt
      have hlen := Bytes.length_window hw
      rw [Bytes.window_eq] at hw
      split at hw
      · cases hw
        refine ⟨hd₁, ?_, (not_not.1 hsame).symm⟩
        -- a header that was decoded encodes to the bytes it was read from
        rw [← FileHeader.encode_of_decode hlen hdecode]
        exact List.take_prefix ..
      · cases hw

/-- A file that holds a log which ends there is opened as this log. -/
theorem ofDisk_image (options : LogOptions) (hd : d.Holds (h.image ps ++ rest))
    (hps : ∀ p ∈ ps, Log.admissible p = true) (hn : h.Numbers ps.length) (hends : h.Ends ps rest)
    (hsalt : options.salt = h.salt) :
    ∃ w d', ofDisk options d = .ok w d' ∧ Log.Holds ⟨d', w⟩ h ps rest ∧ w.stats = .zero := by
  obtain ⟨d₁, hcall, hd₁⟩ := hd.len
  obtain ⟨d₂, hrecognize, hd₂⟩ := recognize_ok hd₁ ⟨_, by rw [FileHeader.image, List.append_assoc]⟩
    hsalt
  obtain ⟨w, d₃, hresume, hl⟩ := resume_image options.mode hd₂ hps hn hends
  refine ⟨w, d₃, ?_, hl⟩
  rw [ofDisk, Act.bind_of_ok hcall]
  simp only [Nat.not_lt.2 (Log.size_le_image ..), if_false]
  rw [Act.bind_of_ok hrecognize]
  exact hresume

/-- Whatever file is opened, the log holds the payloads of its frames. -/
theorem ofDisk_ok {options : LogOptions} {d' : Disk} {w : Writer} (hcalm : d.Calm)
    (hopen : ofDisk options d = .ok w d') :
    ∃ h ps rest, Log.Holds ⟨d', w⟩ h ps rest ∧ h.Numbers ps.length ∧ h.Ends ps rest ∧
      h.salt = options.salt ∧ (d.file.len < FileHeader.size → rest = []) ∧ w.stats = .zero := by
  obtain ⟨d₁, hcall, hd₁⟩ := hcalm.holds.len
  rw [File.length_bytes] at hcall
  by_cases hlen : d.file.len < FileHeader.size
  · obtain ⟨w', d'', hopen', hl, hstats⟩ := ofDisk_short options hcalm hlen
    rw [hopen] at hopen'
    cases hopen'
    exact ⟨_, _, _, hl, FileHeader.numbers_zero, FileHeader.ends_nil .., rfl, fun _ => rfl, hstats⟩
  · rw [ofDisk, Act.bind_of_ok hcall] at hopen
    simp only [hlen, if_false] at hopen
    obtain ⟨h, d₂, hrecognize, hresume⟩ := Act.bind_eq_ok.1 hopen
    obtain ⟨hd₂, hheader, hsalt⟩ := recognize_eq_ok hd₁ hrecognize
    obtain ⟨ps, rest, hl, hn, hends, hstats⟩ := resume_ok hd₂
      (by rw [File.length_bytes]; exact Nat.not_lt.1 hlen) hheader hresume
    exact ⟨h, ps, rest, hl, hn, hends, hsalt.symm, fun hshort => absurd hshort hlen, hstats⟩

/-- A log that was opened can go on in its file. -/
theorem ready_ofDisk {options : LogOptions} {d' : Disk} {w : Writer} (hcalm : d.Calm)
    (hopen : ofDisk options d = .ok w d') : ∃ bs, Log.Ready ⟨d', w⟩ bs := by
  obtain ⟨h, ps, rest, hl, -⟩ := ofDisk_ok hcalm hopen
  exact ⟨_, hl.ready⟩

/-- Opening a file that has a header leaves its bytes alone. -/
theorem ofDisk_keeps {bs : Bytes} {d' : Disk} {w : Writer} (hd : d.Holds bs)
    (hlen : FileHeader.size ≤ bs.length) (hopen : ofDisk options d = .ok w d') :
    d'.Holds bs ∧ w.header.encode <+: bs := by
  obtain ⟨d₁, hcall, hd₁⟩ := hd.len
  rw [ofDisk, Act.bind_of_ok hcall] at hopen
  simp only [Nat.not_lt.2 hlen, if_false] at hopen
  obtain ⟨h, d₂, hrecognize, hresume⟩ := Act.bind_eq_ok.1 hopen
  obtain ⟨hd₂, hheader, -⟩ := recognize_eq_ok hd₁ hrecognize
  obtain ⟨d₃, hscan, hd₃⟩ := Scan.ofHeader_ok (h := h) hd₂ hlen
  have hresume' : resume options.mode h d₂ = .ok w d' := hresume
  rw [resume, Act.bind_of_ok hscan, Act.bind_eq_ok] at hresume'
  obtain ⟨s, d₄, hend, hw⟩ := hresume'
  cases hw
  obtain ⟨-, -, -, -, -, -, hd₄, -⟩ := Scan.forEach_ok ⟨hd₃, rfl, rfl⟩
    (Scan.forEach_of_toEnd hend)
  exact ⟨hd₄, hheader⟩

end Writer

/-- The log that is opened from a disk. -/
def Log.opened (options : LogOptions) (d : Disk) : Option Log :=
  match Writer.ofDisk options d with
  | .ok w d => some ⟨d, w⟩
  | .error _ _ => none

theorem Log.opened_eq_some {options : LogOptions} {d : Disk} {log : Log} :
    Log.opened options d = some log ↔ Writer.ofDisk options d = .ok log.writer log.disk := by
  unfold Log.opened
  cases Writer.ofDisk options d with
  | ok w d' =>
    constructor
    · rintro ⟨⟩
      rfl
    · rintro ⟨⟩
      rfl
  | error e d' => simp

end PageLog
