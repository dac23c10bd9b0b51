import PageLog.Proofs.ReadableDisks
import PageLog.Proofs.StaleFrames

/-!
# Appending after a refused write

When the file refuses a piece of a batch, the numbering and the chain of the log have moved on
already, and the place of the next frame has not.  Records that are appended afterwards are written
there under later numbers, so that a scan of the log ends in front of the first of them.  What was
appended before the refusal is not touched any more.

## Main definitions

* `Log.Begins` — the file of a log begins with the frames for certain payloads.
* `Log.InStep`, `Log.Behind`, `Log.Blocked` — no write was refused; one was; and then one was
  granted.
* `LogSession.Unfailed` — no operation was refused by the file.

## Main results

* `Log.appendPiece_cases` — a piece is written, or refused.
* `Log.InStep.appendPiece`, `Log.Behind.appendPiece`, `Log.Blocked.appendPiece` — the three states.
* `acknowledged_records_iff` — **records are kept that were appended before the first refusal**.
-/

namespace PageLog

/-! ### Writing behind the beginning of a file -/

/-- The beginning of a string stays when the string is written over behind it. -/
theorem Bytes.begins_overwrite {start bs : Bytes} {off : Nat} (data : Bytes) (h : start <+: bs)
    (hstart : start.length ≤ off) (hoff : off ≤ bs.length) :
    start <+: Bytes.overwrite bs off data := by
  rcases h with ⟨rest, rfl⟩
  refine ⟨(rest.take (off - start.length)) ++ (data ++ (start ++ rest).drop (off + data.length)),
    ?_⟩
  rw [Bytes.overwrite, List.take_append, List.take_of_length_le hstart, List.append_assoc]

/-- What is written right behind the beginning of a string follows it. -/
theorem Bytes.begins_overwrite_at {start bs : Bytes} (data : Bytes) (h : start <+: bs) :
    start ++ data <+: Bytes.overwrite bs start.length data := by
  rcases h with ⟨rest, rfl⟩
  rw [Bytes.overwrite_append]
  exact ⟨rest.drop data.length, by simp⟩

namespace Log

/-! ### One piece -/

/-- A piece is written, or refused with some of its bytes in the file; the numbering goes on in
either case. -/
theorem appendPiece_cases {log : Log} (piece : List Bytes)
    (hoff : log.writer.tail.offset ≤ log.disk.file.bytes.length) :
    (∃ d, appendPiece piece log =
        .ok (log.writer.tail.pointers piece) ⟨d, log.writer.wrote piece⟩ ∧ d.plan = log.disk.plan ∧
        d.file.bytes = Bytes.overwrite log.disk.file.bytes log.writer.tail.offset
          (log.writer.tail.image piece)) ∨
      ∃ report d k, appendPiece piece log = .error (.io report) ⟨d, { log.writer with
          tail := { log.writer.tail.pushAll piece with offset := log.writer.tail.offset } }⟩ ∧
        d.plan = log.disk.plan ∧
        d.file.bytes = Bytes.overwrite log.disk.file.bytes log.writer.tail.offset
          ((log.writer.tail.image piece).take k) := by
  rcases log.disk.writeParts_cases (log.writer.tail.parts piece) hoff with
    ⟨d, hwrite, hplan, hbytes⟩ | ⟨report, d, k, hwrite, hplan, hbytes⟩
  · exact .inl ⟨d, appendPiece_of_ok hwrite, hplan, hbytes⟩
  · refine .inr ⟨report, d, k, ?_, hplan, hbytes⟩
    rw [appendPiece, Act.get_bind, updateWriter_bind]
    exact Act.bind_of_error (onDisk_of_error hwrite)

theorem appendPiece_eq_ok {log log' : Log} {piece : List Bytes} {pointers : List LogPointer}
    (h : appendPiece piece log = .ok pointers log') :
    pointers = log.writer.tail.pointers piece ∧
      log'.writer.tail = log.writer.tail.pushAll piece := by
  rw [appendPiece, Act.get_bind, updateWriter_bind] at h
  rcases Act.bind_eq_ok.1 h with ⟨_, log₁, -, hrest⟩
  cases hrest
  exact ⟨rfl, rfl⟩

theorem appendPieces_eq_ok {log log' : Log} {pieces : List (List Bytes)}
    {pointers : List LogPointer} (h : appendPieces pieces log = .ok pointers log') :
    pointers = log.writer.tail.pointers pieces.flatten := by
  induction pieces generalizing log pointers with
  | nil =>
    cases h
    rfl
  | cons piece pieces ih =>
    rcases Act.bind_eq_ok.1 h with ⟨first, log₁, hfirst, hrest⟩
    rcases Act.bind_eq_ok.1 hrest with ⟨others, log₂, hothers, hpure⟩
    cases hpure
    rcases appendPiece_eq_ok hfirst with ⟨rfl, htail⟩
    rw [ih hothers, htail, List.flatten_cons, Tail.pointers_append]

/-- Where records are appended, the pointers tell the place where the log went on before. -/
theorem appendBatch_eq_ok {log log' : Log} {payloads : List Bytes} {pointers : List LogPointer}
    (h : appendBatch payloads log = .ok pointers log') :
    pointers = log.writer.tail.pointers payloads := by
  rw [appendBatch] at h
  split at h
  · rename_i hempty
    cases h
    rw [List.isEmpty_iff.1 hempty]
    rfl
  · split at h
    · cases h
    · rcases Act.bind_eq_ok.1 h with ⟨written, log₁, hwritten, hrest⟩
      have hpointers := appendPieces_eq_ok hwritten
      rw [flatten_pieces] at hpointers
      rw [← hpointers]
      rw [Act.get_bind] at hrest
      split at hrest
      · rcases Act.bind_eq_ok.1 hrest with ⟨_, _, -, hpure⟩
        cases hpure
        rfl
      · cases hrest
        rfl

/-! ### Three states -/

/-- The file of the log begins with the frames for the payloads `ps`, and refuses only writes. -/
structure Begins (log : Log) (h : FileHeader) (ps : List Bytes) : Prop where
  readable : log.disk.Readable
  header : log.writer.header = h
  admissible : ∀ p ∈ ps, Log.admissible p = true
  bytes : h.image ps <+: log.disk.file.bytes

/-- No write was refused: the log goes on behind the frames for `ps`. -/
structure InStep (log : Log) (h : FileHeader) (ps : List Bytes) : Prop
    extends log.Begins h ps where
  tail : log.writer.tail = (Tail.start h).pushAll ps

/-- A write was refused: the log goes on behind the frames for `ps`, but with the number `n`. -/
structure Behind (log : Log) (h : FileHeader) (ps : List Bytes) (n : Nat) : Prop
    extends log.Begins h ps where
  offset : log.writer.tail.offset = (h.image ps).length
  nextLsn : log.writer.tail.nextLsn = h.startLsn + UInt64.ofNat n
  ahead : ps.length < n

/-- Behind the frames for `ps` stands a frame that does not fit there, and the log goes on
somewhere behind it. -/
structure Blocked (log : Log) (h : FileHeader) (ps : List Bytes) (n : Nat) : Prop
    extends log.Begins h ps where
  misfit : ∃ (fh : FrameHeader) (j : Nat), fh.lsn = h.startLsn + UInt64.ofNat j ∧
    ps.length < j ∧ j < n ∧ h.image ps ++ fh.encode <+: log.disk.file.bytes
  behind : (h.image ps).length + FrameHeader.size ≤ log.writer.tail.offset
  inside : log.writer.tail.offset ≤ log.disk.file.bytes.length
  nextLsn : log.writer.tail.nextLsn = h.startLsn + UInt64.ofNat n

section Piece

variable {log : Log} {h : FileHeader} {ps : List Bytes} {piece : List Bytes} {n : Nat}

theorem InStep.offset (hl : log.InStep h ps) :
    log.writer.tail.offset = (h.image ps).length := by
  rw [hl.tail, FileHeader.length_image]

theorem nextLsn_pushAll_ofNat {t : Tail} (ht : t.nextLsn = h.startLsn + UInt64.ofNat n) :
    (t.pushAll piece).nextLsn = h.startLsn + UInt64.ofNat (n + piece.length) := by
  rw [Tail.nextLsn_pushAll, ht, UInt64.ofNat_add, UInt64.add_assoc]

/-- While no write was refused, a piece that is written goes on the row, and one that is refused
leaves the row and takes its numbers. -/
theorem InStep.appendPiece (hl : log.InStep h ps) (hne : piece ≠ [])
    (hpiece : ∀ p ∈ piece, Log.admissible p = true) :
    (∃ log', Log.appendPiece piece log = .ok (log.writer.tail.pointers piece) log' ∧
        log'.InStep h (ps ++ piece)) ∨
      ∃ report log', Log.appendPiece piece log = .error (.io report) log' ∧
        log'.Behind h ps (ps.length + piece.length) := by
  -- a write that is refused may have put out a part of the piece, behind the row
  have hlen := hl.bytes.length_le
  rcases appendPiece_cases piece (by rw [hl.offset]; exact hlen) with
    ⟨d, hrun, hplan, hbytes⟩ | ⟨report, d, k, hrun, hplan, hbytes⟩
  · refine .inl ⟨_, hrun, ⟨hl.readable.of_plan hplan, hl.header, ?_, ?_⟩, ?_⟩
    · intro p hp
      rcases List.mem_append.1 hp with hp | hp
      · exact hl.admissible p hp
      · exact hpiece p hp
    · rw [hbytes, hl.offset, FileHeader.image_append, ← hl.tail]
      exact Bytes.begins_overwrite_at _ hl.bytes
    · simp only [Writer.wrote, hl.tail, Tail.pushAll_append]
  · refine .inr ⟨report, _, hrun, ⟨hl.readable.of_plan hplan, hl.header, hl.admissible, ?_⟩,
      hl.offset, ?_, ?_⟩
    · rw [hbytes]
      exact Bytes.begins_overwrite _ hl.bytes (Nat.le_of_eq hl.offset.symm)
        (by rw [hl.offset]; exact hlen)
    · refine nextLsn_pushAll_ofNat ?_
      rw [hl.tail, Tail.nextLsn_pushAll]
      rfl
    · have hpos := List.length_pos_iff.2 hne
      omega

/-- After a refusal, a piece that is written stands in the way of the scan. -/
theorem Behind.appendPiece (hl : log.Behind h ps n) (hne : piece ≠ []) :
    (∃ log', Log.appendPiece piece log = .ok (log.writer.tail.pointers piece) log' ∧
        log'.Blocked h ps (n + piece.length)) ∨
      ∃ report log', Log.appendPiece piece log = .error (.io report) log' ∧
        log'.Behind h ps (n + piece.length) := by
  have hlen := hl.bytes.length_le
  have hoff : log.writer.tail.offset ≤ log.disk.file.bytes.length := by
    rw [hl.offset]
    exact hlen
  -- whether the write is refused or not, it does not touch the row
  rcases appendPiece_cases piece hoff with
    ⟨d, hrun, hplan, hbytes⟩ | ⟨report, d, k, hrun, hplan, hbytes⟩
  · have hbegins : h.image ps <+: d.file.bytes := by
      rw [hbytes]
      exact Bytes.begins_overwrite _ hl.bytes (Nat.le_of_eq hl.offset.symm) hoff
    have hpos := List.length_pos_iff.2 hne
    refine .inl ⟨_, hrun, ⟨hl.readable.of_plan hplan, hl.header, hl.admissible, hbegins⟩,
      ?_, ?_, ?_, nextLsn_pushAll_ofNat hl.nextLsn⟩
    · -- the frame that is written first has the number `n`
      cases piece with
      | nil => exact absurd rfl hne
      | cons p piece =>
        refine ⟨log.writer.tail.header p, n, hl.nextLsn, hl.ahead, by omega, ?_⟩
        rw [hbytes, hl.offset]
        refine List.IsPrefix.trans ?_ (Bytes.begins_overwrite_at _ hl.bytes)
        rw [Tail.image_cons, ← List.append_assoc]
        exact List.prefix_append ..
    · have hroom := Tail.offset_push log.writer.tail
      cases piece with
      | nil => exact absurd rfl hne
      | cons p piece =>
        have hle := (log.writer.tail.push p).offset_le_pushAll piece
        rw [hroom, hl.offset] at hle
        show _ ≤ (log.writer.tail.pushAll (p :: piece)).offset
        rw [Tail.pushAll_cons]
        omega
    · show (log.writer.tail.pushAll piece).offset ≤ _
      rw [hbytes, Bytes.length_overwrite_eq_max _ hoff, Tail.offset_pushAll]
      exact Nat.le_max_right ..
  · refine .inr ⟨report, _, hrun, ⟨hl.readable.of_plan hplan, hl.header, hl.admissible, ?_⟩,
      hl.offset, nextLsn_pushAll_ofNat hl.nextLsn, ?_⟩
    · rw [hbytes]
      exact Bytes.begins_overwrite _ hl.bytes (Nat.le_of_eq hl.offset.symm) hoff
    · have hahead := hl.ahead
      omega

/-- A frame that is in the way stays there, whatever is written. -/
theorem Blocked.appendPiece (piece : List Bytes) (hl : log.Blocked h ps n) :
    (∃ log', Log.appendPiece piece log = .ok (log.writer.tail.pointers piece) log' ∧
        log'.Blocked h ps (n + piece.length)) ∨
      ∃ report log', Log.appendPiece piece log = .error (.io report) log' ∧
        log'.Blocked h ps (n + piece.length) := by
  rcases hl.misfit with ⟨fh, j, hlsn, hj, hjn, hmisfit⟩
  have hbehind := hl.behind
  have hstart : (h.image ps ++ fh.encode).length ≤ log.writer.tail.offset := by
    rw [List.length_append, FrameHeader.length_encode]
    exact hbehind
  -- writes go behind the frame
  have hkeep : ∀ data : Bytes,
      h.image ps ++ fh.encode <+: Bytes.overwrite log.disk.file.bytes log.writer.tail.offset data :=
    fun data => Bytes.begins_overwrite data hmisfit hstart hl.inside
  have hnext : (log.writer.tail.pushAll piece).nextLsn = _ := nextLsn_pushAll_ofNat hl.nextLsn
  rcases appendPiece_cases piece hl.inside with
    ⟨d, hrun, hplan, hbytes⟩ | ⟨report, d, k, hrun, hplan, hbytes⟩
  · have hmisfit' : h.image ps ++ fh.encode <+: d.file.bytes := by
      rw [hbytes]
      exact hkeep _
    refine .inl ⟨_, hrun, ⟨hl.readable.of_plan hplan, hl.header, hl.admissible,
      (List.prefix_append ..).trans hmisfit'⟩, ⟨fh, j, hlsn, hj, by omega, hmisfit'⟩, ?_, ?_, hnext⟩
    · exact Nat.le_trans hbehind (Tail.offset_le_pushAll ..)
    · show (log.writer.tail.pushAll piece).offset ≤ _
      rw [hbytes, Bytes.length_overwrite_eq_max _ hl.inside, Tail.offset_pushAll]
      exact Nat.le_max_right ..
  · have hmisfit' : h.image ps ++ fh.encode <+: d.file.bytes := by
      rw [hbytes]
      exact hkeep _
    refine .inr ⟨report, _, hrun, ⟨hl.readable.of_plan hplan, hl.header, hl.admissible,
      (List.prefix_append ..).trans hmisfit'⟩, ⟨fh, j, hlsn, hj, by omega, hmisfit'⟩, hbehind, ?_,
      hnext⟩
    show log.writer.tail.offset ≤ _
    rw [hbytes, Bytes.length_overwrite_eq_max _ hl.inside]
    exact Nat.le_trans hl.inside (Nat.le_max_left ..)

end Piece

/-! ### Batches -/

/-- A step succeeded and `P` holds of the log, or the file refused it and `Q` holds. -/
inductive Came {α : Type} (P Q : Log → Prop) : EStateM.Result Error Log α → Prop where
  | ok {a : α} {log : Log} (h : P log) : Came P Q (.ok a log)
  | refused {report : IoFault} {log : Log} (h : Q log) : Came P Q (.error (.io report) log)

section Batch

variable {α β : Type} {P P' Q Q' : Log → Prop} {log : Log} {h : FileHeader} {ps : List Bytes}
  {m n : Nat}

theorem Came.mono {r : EStateM.Result Error Log α} (hr : Came P Q r)
    (hP : ∀ log, P log → P' log) (hQ : ∀ log, Q log → Q' log) : Came P' Q' r := by
  cases hr with
  | ok h => exact .ok (hP _ h)
  | refused h => exact .refused (hQ _ h)

theorem Came.bind {x : Act Log α} {f : α → Act Log β} (hx : Came P Q (x log))
    (hf : ∀ a log', P log' → Came P' Q (f a log')) : Came P' Q ((x >>= f) log) := by
  generalize hr : x log = r at hx
  cases hx with
  | ok hP =>
    rw [Act.bind_of_ok hr]
    exact hf _ _ hP
  | refused hQ =>
    rw [Act.bind_of_error hr]
    exact .refused hQ

/-- A frame stands in the way behind the frames for `ps`, and no more than `m` numbers were given
out. -/
def Stuck (h : FileHeader) (ps : List Bytes) (m : Nat) (log : Log) : Prop :=
  ∃ n ≤ m, log.Blocked h ps n

/-- A write was refused behind the frames for `ps`, and no more than `m` numbers were given out. -/
def Astray (h : FileHeader) (ps : List Bytes) (m : Nat) (log : Log) : Prop :=
  ∃ n ≤ m, log.Behind h ps n ∨ log.Blocked h ps n

theorem Stuck.astray (hl : log.Stuck h ps m) : log.Astray h ps m := by
  rcases hl with ⟨n, hn, hblocked⟩
  exact ⟨n, hn, .inr hblocked⟩

theorem Astray.begins (hl : log.Astray h ps m) : log.Begins h ps := by
  rcases hl with ⟨n, -, hbehind | hblocked⟩
  · exact hbehind.toBegins
  · exact hblocked.toBegins

theorem Astray.offset_le (hl : log.Astray h ps m) :
    (h.image ps).length ≤ log.writer.tail.offset := by
  rcases hl with ⟨n, -, hbehind | hblocked⟩
  · exact Nat.le_of_eq hbehind.offset.symm
  · exact Nat.le_trans (Nat.le_add_right ..) hblocked.behind

theorem Stuck.appendPieces (pieces : List (List Bytes)) (hl : log.Stuck h ps m) :
    Came (Stuck h ps (m + pieces.flatten.length)) (Stuck h ps (m + pieces.flatten.length))
      (Log.appendPieces pieces log) := by
  induction pieces generalizing log m with
  | nil => exact .ok hl
  | cons piece pieces ih =>
    rw [List.flatten_cons, List.length_append, ← Nat.add_assoc]
    rcases hl with ⟨n, hn, hblocked⟩
    have hfirst : Came (Stuck h ps (m + piece.length))
        (Stuck h ps (m + piece.length + pieces.flatten.length)) (Log.appendPiece piece log) := by
      rcases hblocked.appendPiece piece with
        ⟨log', hrun, hblocked'⟩ | ⟨report, log', hrun, hblocked'⟩
      · rw [hrun]
        exact .ok ⟨_, by omega, hblocked'⟩
      · rw [hrun]
        exact .refused ⟨_, by omega, hblocked'⟩
    refine hfirst.bind fun first log' hstuck => (ih hstuck).bind fun others log'' hstuck' => ?_
    exact .ok hstuck'

/-- After a refusal, the first piece that is written stands in the way. -/
theorem Astray.appendPieces (pieces : List (List Bytes)) (hl : log.Astray h ps m)
    (hpieces : ∀ piece ∈ pieces, piece ≠ []) (hne : pieces ≠ []) :
    Came (Stuck h ps (m + pieces.flatten.length)) (Astray h ps (m + pieces.flatten.length))
      (Log.appendPieces pieces log) := by
  cases pieces with
  | nil => exact absurd rfl hne
  | cons piece pieces =>
    rw [List.flatten_cons, List.length_append, ← Nat.add_assoc]
    rcases hl with ⟨n, hn, hstate⟩
    -- the first piece goes behind the row if it can, or something is in the way already
    have hfirst : Came (Stuck h ps (m + piece.length))
        (Astray h ps (m + piece.length + pieces.flatten.length)) (Log.appendPiece piece log) := by
      rcases hstate with hbehind | hblocked
      · rcases hbehind.appendPiece (hpieces piece (by simp)) with
          ⟨log', hrun, hblocked'⟩ | ⟨report, log', hrun, hbehind'⟩
        · rw [hrun]
          exact .ok ⟨_, by omega, hblocked'⟩
        · rw [hrun]
          exact .refused ⟨_, by omega, .inl hbehind'⟩
      · rcases hblocked.appendPiece piece with
          ⟨log', hrun, hblocked'⟩ | ⟨report, log', hrun, hblocked'⟩
        · rw [hrun]
          exact .ok ⟨_, by omega, hblocked'⟩
        · rw [hrun]
          exact .refused ⟨_, by omega, .inr hblocked'⟩
    refine hfirst.bind fun first log' hstuck => ?_
    refine ((hstuck.appendPieces pieces).mono (fun _ h => h) fun _ h => h.astray).bind
      fun others log'' hstuck' => ?_
    exact .ok hstuck'

/-- While no write was refused, pieces that are written go on the row; the first that is refused
ends it. -/
theorem InStep.appendPieces (pieces : List (List Bytes)) (hl : log.InStep h ps)
    (hpieces : ∀ piece ∈ pieces, piece ≠ [])
    (hall : ∀ p ∈ pieces.flatten, Log.admissible p = true) :
    Came (fun log' => log'.InStep h (ps ++ pieces.flatten))
      (fun log' => ∃ qs, log'.Astray h (ps ++ qs) (ps.length + pieces.flatten.length))
      (Log.appendPieces pieces log) := by
  induction pieces generalizing log ps with
  | nil =>
    refine .ok ?_
    rw [List.flatten_nil, List.append_nil]
    exact hl
  | cons piece pieces ih =>
    rw [List.flatten_cons] at hall ⊢
    -- the first piece goes on the row, or the row ends with it
    have hfirst : Came (fun log' => log'.InStep h (ps ++ piece))
        (fun log' => ∃ qs, log'.Astray h (ps ++ qs)
          (ps.length + (piece ++ pieces.flatten).length)) (Log.appendPiece piece log) := by
      rcases hl.appendPiece (hpieces piece (by simp))
        (fun p hp => hall p (List.mem_append_left _ hp)) with
        ⟨log', hrun, hl'⟩ | ⟨report, log', hrun, hbehind⟩
      · rw [hrun]
        exact .ok hl'
      · rw [hrun, List.length_append]
        refine .refused ⟨[], _, ?_, .inl (by rwa [List.append_nil])⟩
        omega
    refine hfirst.bind fun first log₁ hl₁ => ?_
    have hrest := ih hl₁ (fun p hp => hpieces p (by simp [hp]))
      (fun p hp => hall p (List.mem_append_right _ hp))
    refine (hrest.mono (fun _ h => h) ?_).bind fun others log₂ hl₂ => .ok ?_
    · rintro log' ⟨qs, hastray⟩
      refine ⟨piece ++ qs, ?_⟩
      rw [List.append_assoc, List.length_append, Nat.add_assoc, ← List.length_append] at hastray
      exact hastray
    · rw [← List.append_assoc]
      exact hl₂

/-! Making the file durable is not refused, and changes nothing that matters here. -/

theorem Begins.sync (hl : log.Begins h ps) :
    ∃ d, makeDurable log = .ok () ⟨d, { log.writer with
        stats := { log.writer.stats with syncs := log.writer.stats.syncs + 1 } }⟩ ∧
      d.Readable ∧ d.file.bytes = log.disk.file.bytes := by
  rcases Disk.undisturbed_sync.cases log.disk hl.readable with
    ⟨_, d, hrun, hcalm, hplan⟩ | ⟨e, d, -, hcalm, -⟩
  · rcases log.disk.holds_disarm.sync with ⟨d', hrun', hd'⟩
    rw [hcalm] at hrun'
    cases hrun'
    refine ⟨d, ?_, hl.readable.of_plan hplan, hd'.bytes⟩
    rw [makeDurable, Act.bind_of_ok (onDisk_of_ok hrun)]
    rfl
  · rcases log.disk.holds_disarm.sync with ⟨d', hrun', -⟩
    rw [hcalm] at hrun'
    cases hrun'

theorem InStep.makeDurable (hl : log.InStep h ps) :
    ∃ log', Log.makeDurable log = .ok () log' ∧ log'.InStep h ps := by
  rcases hl.toBegins.sync with ⟨d, hrun, hd, hbytes⟩
  exact ⟨_, hrun, ⟨hd, hl.header, hl.admissible, by rw [hbytes]; exact hl.bytes⟩, hl.tail⟩

theorem Stuck.makeDurable (hl : log.Stuck h ps m) :
    ∃ log', Log.makeDurable log = .ok () log' ∧ log'.Stuck h ps m := by
  rcases hl with ⟨n, hn, hl⟩
  rcases hl.toBegins.sync with ⟨d, hrun, hd, hbytes⟩
  refine ⟨_, hrun, n, hn, ⟨hd, hl.header, hl.admissible, by rw [hbytes]; exact hl.bytes⟩, ?_,
    hl.behind, by rw [hbytes]; exact hl.inside, hl.nextLsn⟩
  rw [hbytes]
  exact hl.misfit

/-- What appending a batch comes to, once it is known for its pieces. -/
theorem came_appendBatch {payloads : List Bytes} (hne : payloads ≠ [])
    (hall : ∀ p ∈ payloads, Log.admissible p = true)
    (hsync : ∀ log, P log → ∃ log', makeDurable log = .ok () log' ∧ P log')
    (hpieces : Came P Q (appendPieces (pieces (pieceLength - 1) payloads) log)) :
    Came P Q (appendBatch payloads log) := by
  have hempty : payloads.isEmpty = false := by
    rw [List.isEmpty_eq_false_iff]
    exact hne
  have hgood : (payloads.any fun p => !Log.admissible p) = false := by
    rw [List.any_eq_false]
    intro p hp
    rw [hall p hp]
    decide
  rw [appendBatch]
  simp only [hempty, hgood, Bool.false_eq_true, if_false]
  refine hpieces.bind fun pointers log' hP => ?_
  rw [Act.get_bind]
  split
  · rcases hsync log' hP with ⟨log'', hrun, hP'⟩
    rw [Act.bind_of_ok hrun]
    exact .ok hP'
  · exact .ok hP

theorem pieces_ne_nil {k : Nat} {xs : List α} (hxs : xs ≠ []) : pieces k xs ≠ [] := by
  cases xs with
  | nil => exact absurd rfl hxs
  | cons x xs =>
    rw [pieces]
    exact List.cons_ne_nil _ _

theorem ne_nil_of_mem_pieces {k : Nat} {xs piece : List α} (h : piece ∈ pieces k xs) :
    piece ≠ [] := by
  fun_induction pieces k xs with
  | case1 => cases h
  | case2 x xs ih =>
    rcases List.mem_cons.1 h with rfl | h
    · exact List.cons_ne_nil _ _
    · exact ih h

theorem InStep.appendBatch {payloads : List Bytes} (hl : log.InStep h ps)
    (hall : ∀ p ∈ payloads, Log.admissible p = true) :
    Came (fun log' => log'.InStep h (ps ++ payloads))
      (fun log' => ∃ qs, log'.Astray h (ps ++ qs) (ps.length + payloads.length))
      (Log.appendBatch payloads log) := by
  by_cases hne : payloads = []
  · subst hne
    refine .ok ?_
    rw [List.append_nil]
    exact hl
  · have hrun := hl.appendPieces (pieces (pieceLength - 1) payloads)
      (fun _ => ne_nil_of_mem_pieces) (by rwa [flatten_pieces])
    rw [flatten_pieces] at hrun
    exact came_appendBatch hne hall (fun _ => InStep.makeDurable) hrun

theorem Stuck.appendBatch {payloads : List Bytes} (hl : log.Stuck h ps m)
    (hall : ∀ p ∈ payloads, Log.admissible p = true) :
    Came (Stuck h ps (m + payloads.length)) (Stuck h ps (m + payloads.length))
      (Log.appendBatch payloads log) := by
  by_cases hne : payloads = []
  · subst hne
    exact .ok hl
  · have hrun := hl.appendPieces (pieces (pieceLength - 1) payloads)
    rw [flatten_pieces] at hrun
    exact came_appendBatch hne hall (fun _ => Stuck.makeDurable) hrun

theorem Astray.appendBatch {payloads : List Bytes} (hl : log.Astray h ps m) (hne : payloads ≠ [])
    (hall : ∀ p ∈ payloads, Log.admissible p = true) :
    Came (Stuck h ps (m + payloads.length)) (Astray h ps (m + payloads.length))
      (Log.appendBatch payloads log) := by
  have hrun := hl.appendPieces (pieces (pieceLength - 1) payloads)
    (fun _ => ne_nil_of_mem_pieces) (pieces_ne_nil hne)
  rw [flatten_pieces] at hrun
  exact came_appendBatch hne hall (fun _ => Stuck.makeDurable) hrun

/-- After a refusal, a batch may append nothing. -/
theorem Astray.appendBatch_keeps {payloads : List Bytes} (hl : log.Astray h ps m)
    (hall : ∀ p ∈ payloads, Log.admissible p = true) :
    Came (Astray h ps (m + payloads.length)) (Astray h ps (m + payloads.length))
      (Log.appendBatch payloads log) := by
  by_cases hne : payloads = []
  · subst hne
    exact .ok hl
  · exact (hl.appendBatch hne hall).mono (fun _ h => h.astray) fun _ h => h

/-! ### Reading -/

theorem Begins.row (hl : log.Begins h ps) :
    (Tail.start h).image ps <+: log.disk.file.bytes.drop FileHeader.size := by
  rcases hl.bytes with ⟨rest, hrest⟩
  refine ⟨rest, ?_⟩
  rw [← hrest, FileHeader.image, List.append_assoc]
  exact (List.drop_left' h.length_encode).symm

/-- What is read from a log begins with the frames that its file begins with. -/
theorem Begins.scan (hl : log.Begins h ps) (hn : h.Numbers ps.length) :
    ∃ read log' d fs x, Log.frames log = .ok read log' ∧
      read.frames = (Tail.start h).frames ps ++ fs ∧
      d.Holds log.disk.file.bytes ∧
      Scan.Gives ⟨h, log.disk.file.bytes.length, (Tail.start h).pushAll ps, false⟩ d fs x := by
  have hlen : FileHeader.size ≤ log.disk.file.bytes.length := by
    have hle := hl.bytes.length_le
    rw [FileHeader.image, List.length_append, FileHeader.length_encode] at hle
    exact Nat.le_trans (Nat.le_add_right ..) hle
  rcases @frames_of_holds ⟨log.disk.disarm, log.writer⟩ _ log.disk.holds_disarm hlen with
    ⟨d, log₁, hd, hcalm⟩
  rcases frames_of_disarm hl.readable hcalm with ⟨log', hread⟩
  rw [hl.header] at hread
  rcases (Scan.whole h log.disk.file.bytes.length).exists_gives d with ⟨fs, x, hgives⟩
  rcases hgives.row ⟨hd, rfl, rfl⟩ hl.admissible hl.row with
    ⟨-, i, hi, hbelow⟩ | ⟨-, d₁, gs, hfs, hgives', hfile⟩
  · exact absurd (hn i hi) hbelow
  · exact ⟨_, log', d₁, gs, x, hread, hgives.frames_harvest.trans hfs, hfile.disk, hgives'⟩

/-- Behind a frame that does not fit nothing is read. -/
theorem Blocked.reads {n : Nat} (hl : log.Blocked h ps n) (hn : h.startLsn.toNat + n ≤ 2 ^ 64) :
    ∃ read log', Log.frames log = .ok read log' ∧ read.frames = (Tail.start h).frames ps := by
  rcases hl.misfit with ⟨fh, j, hlsn, hj, hjn, hmisfit⟩
  have hps : h.Numbers ps.length := FileHeader.numbers_of_le (by omega)
  rcases hl.toBegins.scan hps with ⟨read, log', d, fs, x, hread, hframes, hd, hgives⟩
  refine ⟨read, log', hread, ?_⟩
  rcases hgives.first hd with rfl | ⟨p, gs, hc, -, -⟩
  · rw [hframes, List.append_nil]
  · -- the frame in the way would carry the number that comes next
    have hwindow := hc.header_window
    have hoff : ((Tail.start h).pushAll ps).offset = (h.image ps).length :=
      (h.length_image ps).symm
    rcases hmisfit with ⟨rest, hrest⟩
    simp only at hwindow
    rw [hoff, ← hrest, List.append_assoc, Bytes.window_eq_some (by simp),
      List.drop_left' rfl, List.take_left' (FrameHeader.length_encode _),
      Option.some.injEq] at hwindow
    have hheader : fh = ((Tail.start h).pushAll ps).header p := by
      have hdecode := FrameHeader.decode?_encode fh
      rw [hwindow, FrameHeader.decode?_encode, Option.some.injEq] at hdecode
      exact hdecode.symm
    have hsame : h.startLsn + UInt64.ofNat j = h.startLsn + UInt64.ofNat ps.length := by
      rw [← hlsn, hheader]
      exact Tail.nextLsn_pushAll ..
    have hnumber := congrArg UInt64.toNat hsame
    rw [FileHeader.toNat_number (by omega), FileHeader.toNat_number (by omega)] at hnumber
    omega

end Batch

end Log

/-! ### Operations -/

section Operation

variable {op : LogOp} {log log' : Log} {P Q : Log → Prop} {h : FileHeader} {ps : List Bytes}
  {m : Nat}

/-- Appending a record is appending a batch of one. -/
theorem LogOp.came_run (happend : ∀ off, op ≠ .truncateTo off)
    (hbatch : Log.Came P Q (Log.appendBatch op.payloads log)) : Log.Came P Q (op.run log) := by
  cases op with
  | truncateTo off => exact absurd rfl (happend off)
  | appendBatch payloads => exact hbatch
  | append payload =>
    refine Log.Came.bind (P := P) ?_ fun pointer log' hP => .ok hP
    have hbatch' : Log.Came P Q (Log.appendBatch [payload] log) := hbatch
    generalize hrun : Log.appendBatch [payload] log = r at hbatch'
    cases hbatch' with
    | ok hP =>
      rw [Log.append, Act.bind_of_ok hrun, Log.appendBatch_eq_ok hrun]
      exact .ok hP
    | refused hQ =>
      rw [Log.append, Act.bind_of_error hrun]
      exact .refused hQ

/-- The pointers that an operation gives back tell the place where the log went on before. -/
theorem LogOp.run_eq_ok {pointers : List LogPointer} (happend : ∀ off, op ≠ .truncateTo off)
    (hrun : op.run log = .ok pointers log') :
    pointers = log.writer.tail.pointers op.payloads := by
  cases op with
  | truncateTo off => exact absurd rfl (happend off)
  | appendBatch payloads => exact Log.appendBatch_eq_ok hrun
  | append payload =>
    rcases Act.bind_eq_ok.1 hrun with ⟨pointer, log₁, happended, hpure⟩
    cases hpure
    rcases Act.bind_eq_ok.1 happended with ⟨batch, log₂, hbatch, hlast⟩
    have hpointers := Log.appendBatch_eq_ok hbatch
    rw [hpointers] at hlast
    cases hlast
    rfl

/-- An operation some of whose records no frame can carry changes nothing. -/
theorem LogOp.admissible_or_refused (op : LogOp) :
    (∀ p ∈ op.payloads, Log.admissible p = true) ∨
      ∀ log, op.run log = .error (.invalid .payloadSize) log := by
  by_cases hbad : ∃ p ∈ op.payloads, Log.admissible p = false
  · rcases hbad with ⟨p, hp, hpbad⟩
    exact .inr fun log => LogOp.run_refused log hp hpbad
  · left
    intro p hp
    cases hadm : Log.admissible p with
    | true => rfl
    | false => exact absurd ⟨p, hp, hadm⟩ hbad

end Operation

/-- Whether the file refuses an operation. -/
def LogOp.refused (op : LogOp) (log : Log) : Bool :=
  match op.run log with
  | .error (.io _) _ => true
  | _ => false

namespace LogSession

/-- No operation is refused by the file. -/
def Unfailed : LogSession → List LogOp → Prop
  | _, [] => True
  | s, op :: ops => op.refused s.log = false ∧ (s.step op).Unfailed ops

def decidableUnfailed : (s : LogSession) → (ops : List LogOp) → Decidable (s.Unfailed ops)
  | _, [] => inferInstanceAs (Decidable True)
  | s, op :: ops =>
      have := decidableUnfailed (s.step op) ops
      inferInstanceAs (Decidable (_ ∧ _))

instance (s : LogSession) (ops : List LogOp) : Decidable (s.Unfailed ops) :=
  s.decidableUnfailed ops

variable {s : LogSession} {op : LogOp} {h : FileHeader} {ps : List Bytes} {m : Nat}

theorem log_step_of_ok {pointers : List LogPointer} {log : Log}
    (hrun : op.run s.log = .ok pointers log) :
    (s.step op).log = log := by
  simp only [step, hrun]

theorem log_step_of_error {e : Error} {log : Log} (hrun : op.run s.log = .error e log) :
    (s.step op).log = log := by
  simp only [step, hrun]

/-- An operation appends its records, or is refused by the file, or does nothing since no frame can
carry its records. -/
theorem step_cases {P Q : Log → Prop} (happend : ∀ off, op ≠ .truncateTo off)
    (hbatch : (∀ p ∈ op.payloads, Log.admissible p = true) →
      Log.Came P Q (Log.appendBatch op.payloads s.log)) :
    (∃ pointers, op.run s.log = .ok pointers (s.step op).log ∧ P (s.step op).log) ∨
      (∃ report, op.run s.log = .error (.io report) (s.step op).log ∧ Q (s.step op).log) ∨
      op.run s.log = .error (.invalid .payloadSize) s.log ∧ (s.step op).log = s.log := by
  rcases op.admissible_or_refused with hall | hrefused
  · have hcame := LogOp.came_run happend (hbatch hall)
    generalize hrun : op.run s.log = r at hcame
    cases hcame with
    | ok hP =>
      rw [log_step_of_ok hrun]
      exact .inl ⟨_, rfl, hP⟩
    | refused hQ =>
      rw [log_step_of_error hrun]
      exact .inr (.inl ⟨_, rfl, hQ⟩)
  · exact .inr (.inr ⟨hrefused s.log, log_step_of_error (hrefused s.log)⟩)

/-- One operation while no write was refused. -/
theorem inStep_step (hl : s.log.InStep h ps) (happend : ∀ off, op ≠ .truncateTo off) :
    (op.refused s.log = false ∧
        ∃ qs, qs.length ≤ op.payloads.length ∧ (s.step op).log.InStep h (ps ++ qs)) ∨
      op.refused s.log = true ∧
        ∃ qs, (s.step op).log.Astray h (ps ++ qs) (ps.length + op.payloads.length) := by
  unfold LogOp.refused
  rcases step_cases happend hl.appendBatch with
    ⟨pointers, hrun, hl'⟩ | ⟨report, hrun, hl'⟩ | ⟨hrun, hsame⟩
  · rw [hrun]
    exact .inl ⟨rfl, op.payloads, Nat.le_refl _, hl'⟩
  · rw [hrun]
    exact .inr ⟨rfl, hl'⟩
  · rw [hrun, hsame]
    exact .inl ⟨rfl, [], Nat.zero_le _, by rwa [List.append_nil]⟩

theorem inStep_of_ok {pointers : List LogPointer} {log : Log} (hl : s.log.InStep h ps)
    (happend : ∀ off, op ≠ .truncateTo off) (hrun : op.run s.log = .ok pointers log) :
    (s.step op).log.InStep h (ps ++ op.payloads) := by
  rcases step_cases happend hl.appendBatch with
    ⟨_, -, hl'⟩ | ⟨report, hrefused, -⟩ | ⟨hrefused, -⟩
  · exact hl'
  · rw [hrun] at hrefused
    cases hrefused
  · rw [hrun] at hrefused
    cases hrefused

theorem stuck_step (hl : s.log.Stuck h ps m) (happend : ∀ off, op ≠ .truncateTo off) :
    (s.step op).log.Stuck h ps (m + op.payloads.length) := by
  rcases step_cases happend hl.appendBatch with ⟨_, -, hl'⟩ | ⟨_, -, hl'⟩ | ⟨-, hsame⟩
  · exact hl'
  · exact hl'
  · rcases hl with ⟨n, hn, hblocked⟩
    rw [hsame]
    exact ⟨n, by omega, hblocked⟩

/-- After a refusal, records that are appended stand in the way of the scan. -/
theorem stuck_of_ok {pointers : List LogPointer} {log : Log} (hl : s.log.Astray h ps m)
    (happend : ∀ off, op ≠ .truncateTo off) (hne : op.payloads ≠ [])
    (hrun : op.run s.log = .ok pointers log) :
    (s.step op).log.Stuck h ps (m + op.payloads.length) := by
  rcases step_cases happend (hl.appendBatch hne) with
    ⟨_, -, hl'⟩ | ⟨report, hrefused, -⟩ | ⟨hrefused, -⟩
  · exact hl'
  · rw [hrun] at hrefused
    cases hrefused
  · rw [hrun] at hrefused
    cases hrefused

theorem astray_step (hl : s.log.Astray h ps m) (happend : ∀ off, op ≠ .truncateTo off) :
    (s.step op).log.Astray h ps (m + op.payloads.length) := by
  rcases step_cases happend hl.appendBatch_keeps with ⟨_, -, hl'⟩ | ⟨_, -, hl'⟩ | ⟨-, hsame⟩
  · exact hl'
  · exact hl'
  · rcases hl with ⟨n, hn, hstate⟩
    rw [hsame]
    exact ⟨n, by omega, hstate⟩

/-! ### Sessions -/

/-- How many records are to be appended. -/
def recordCount (ops : List LogOp) : Nat := (ops.flatMap LogOp.payloads).length

theorem recordCount_cons (op : LogOp) (ops : List LogOp) :
    recordCount (op :: ops) = op.payloads.length + recordCount ops := by
  rw [recordCount, List.flatMap_cons, List.length_append, recordCount]

theorem recordCount_append (ops ops' : List LogOp) :
    recordCount (ops ++ ops') = recordCount ops + recordCount ops' := by
  rw [recordCount, List.flatMap_append, List.length_append, recordCount, recordCount]

variable {ops : List LogOp}

/-- What each operation keeps, counting its records, is kept by all of them. -/
theorem runAll_keeps {P : Nat → Log → Prop}
    (hstep : ∀ {s : LogSession} {op : LogOp} {m : Nat}, P m s.log → (∀ off, op ≠ .truncateTo off) →
      P (m + op.payloads.length) (s.step op).log)
    (hs : P m s.log) (happend : ∀ op ∈ ops, ∀ off, op ≠ .truncateTo off) :
    P (m + recordCount ops) (s.runAll ops).log := by
  induction ops generalizing s m with
  | nil => exact hs
  | cons op ops ih =>
    rw [recordCount_cons, ← Nat.add_assoc]
    exact ih (hstep hs (happend op List.mem_cons_self))
      fun op' hop' => happend op' (List.mem_cons_of_mem _ hop')

/-- The log is in step until the first operation that the file refuses, and astray ever after. -/
theorem inStep_runAll (hl : s.log.InStep h ps)
    (happend : ∀ op ∈ ops, ∀ off, op ≠ .truncateTo off) :
    (s.Unfailed ops ∧ ∃ qs, qs.length ≤ recordCount ops ∧
        (s.runAll ops).log.InStep h (ps ++ qs)) ∨
      ¬s.Unfailed ops ∧
        ∃ qs, (s.runAll ops).log.Astray h (ps ++ qs) (ps.length + recordCount ops) := by
  induction ops generalizing s ps with
  | nil => exact .inl ⟨trivial, [], Nat.zero_le _, by rwa [List.append_nil]⟩
  | cons op ops ih =>
    have hrest : ∀ op' ∈ ops, ∀ off, op' ≠ .truncateTo off :=
      fun op' hop' => happend op' (List.mem_cons_of_mem _ hop')
    rw [recordCount_cons]
    rcases inStep_step hl (happend op List.mem_cons_self) with
      ⟨hgood, qs, hqs, hl'⟩ | ⟨hbad, qs, hl'⟩
    · rcases ih hl' hrest with ⟨hunfailed, rs, hrs, hend⟩ | ⟨hfailed, rs, n, hn, hend⟩
      · refine .inl ⟨⟨hgood, hunfailed⟩, qs ++ rs, ?_, by rwa [List.append_assoc] at hend⟩
        rw [List.length_append]
        omega
      · refine .inr ⟨fun hall => hfailed hall.2, qs ++ rs, n, ?_, ?_⟩
        · rw [List.length_append] at hn
          omega
        · rw [← List.append_assoc]
          exact hend
    · -- once astray, the log stays so
      refine .inr ⟨fun hall => Bool.false_ne_true (hall.1.symm.trans hbad), qs, ?_⟩
      rw [← Nat.add_assoc]
      exact runAll_keeps astray_step hl' hrest

/-- Whatever is done later, the frames stay that were there before. -/
theorem begins_runAll (hl : s.log.InStep h ps)
    (happend : ∀ op ∈ ops, ∀ off, op ≠ .truncateTo off) :
    ∃ qs, qs.length ≤ recordCount ops ∧ (s.runAll ops).log.Begins h (ps ++ qs) := by
  rcases inStep_runAll hl happend with ⟨-, qs, hqs, hend⟩ | ⟨-, qs, n, hn, hend⟩
  · exact ⟨qs, hqs, hend.toBegins⟩
  · refine ⟨qs, ?_, ?_⟩
    · have hahead : (ps ++ qs).length < n := by
        rcases hend with hbehind | hblocked
        · exact hbehind.ahead
        · rcases hblocked.misfit with ⟨-, j, -, hj, hjn, -⟩
          omega
      rw [List.length_append] at hahead
      omega
    · rcases hend with hbehind | hblocked
      · exact hbehind.toBegins
      · exact hblocked.toBegins

theorem runAll_append (s : LogSession) (ops ops' : List LogOp) :
    s.runAll (ops ++ ops') = (s.runAll ops).runAll ops' := List.foldl_append

/-- Records are kept that were appended before the first refusal, and no others. -/
theorem kept_iff {before after : List LogOp} {pointers : List LogPointer} {log : Log}
    (hl : s.log.InStep h ps)
    (happend : ∀ op' ∈ before ++ op :: after, ∀ off, op' ≠ .truncateTo off)
    (hn : h.startLsn.toNat + ps.length + recordCount (before ++ op :: after) ≤ 2 ^ 64)
    (hrun : op.run (s.runAll before).log = .ok pointers log) {read : Scan.Harvest} {log' : Log}
    (hread : Log.frames (s.runAll (before ++ op :: after)).log = .ok read log') :
    ∀ f ∈ List.zipWith Frame.mk pointers op.payloads, (f ∈ read.frames ↔ s.Unfailed before) := by
  have hbefore : ∀ op' ∈ before, ∀ off, op' ≠ .truncateTo off :=
    fun op' hop' => happend op' (List.mem_append_left _ hop')
  have hop : ∀ off, op ≠ .truncateTo off := happend op (by simp)
  have hafter : ∀ op' ∈ after, ∀ off, op' ≠ .truncateTo off :=
    fun op' hop' => happend op' (by simp [hop'])
  rw [recordCount_append, recordCount_cons] at hn
  have hsplit : s.runAll (before ++ op :: after) = ((s.runAll before).step op).runAll after :=
    runAll_append s before (op :: after)
  rw [hsplit] at hread
  rw [LogOp.run_eq_ok hop hrun, Tail.zipWith_pointers]
  intro f hf
  rcases inStep_runAll hl hbefore with ⟨hunfailed, qs, hqs, hl'⟩ | ⟨hfailed, qs, hl'⟩
  · refine iff_of_true ?_ hunfailed
    -- the record stands in the row, and what is appended behind it leaves the row alone
    rw [hl'.tail] at hf
    rcases begins_runAll (inStep_of_ok hl' hop hrun) hafter with ⟨rs, hrs, hbegins⟩
    have hnumbers : h.Numbers (ps ++ qs ++ op.payloads ++ rs).length := by
      refine FileHeader.numbers_of_le ?_
      simp only [List.length_append]
      omega
    rcases hbegins.scan hnumbers with ⟨read', _, _, _, _, hread', hframes, -⟩
    rw [hread] at hread'
    cases hread'
    rw [hframes, Tail.frames_append, Tail.frames_append]
    exact List.mem_append_left _ (List.mem_append_left _ (List.mem_append_right _ hf))
  · refine iff_of_false (fun hmem => ?_) hfailed
    -- the scan ends where the refused frames should be
    have hne : op.payloads ≠ [] := by
      rintro hnil
      rw [hnil] at hf
      cases hf
    rcases runAll_keeps stuck_step (stuck_of_ok hl' hop hne hrun) hafter with ⟨n, hle, hblocked⟩
    rcases hblocked.reads (by omega) with ⟨read', _, hread', hframes⟩
    rw [hread] at hread'
    cases hread'
    -- the record was written behind all that is read
    rw [hframes] at hmem
    have hfront := Tail.offset_lt_of_mem_frames hmem
    have hplace := Tail.offset_le_of_mem_frames hf
    have hbehind := hl'.offset_le
    rw [FileHeader.length_image] at hbehind
    omega

end LogSession

/-- **Records are kept that were appended before the first refusal.**  A log is opened from a file
that may refuse to write, at any time and with any part of the bytes written nevertheless, but
serves everything else.  Records are appended in any way; some operations succeed, some are refused
by the file, and some because no frame can carry their records.  A record that was appended with
success is read in the end, with its pointer, just when no earlier operation was refused by the
file. -/
theorem acknowledged_records_iff {d d' : Disk} {options : LogOptions} {w : Writer}
    (hd : d.Readable) (hopen : Writer.ofDisk options d = .ok w d') :
    ∃ found log, Log.frames ⟨d', w⟩ = .ok ⟨found, none, w.tail.offset⟩ log ∧
      ∀ ops : List LogOp, (∀ op ∈ ops, ∀ off, op ≠ .truncateTo off) →
        w.header.startLsn.toNat + found.length + LogSession.recordCount ops ≤ 2 ^ 64 →
        ∃ read log, Log.frames (LogSession.runAll ⟨⟨d', w⟩, found⟩ ops).log = .ok read log ∧
          ∀ before op after, ops = before ++ op :: after → ∀ pointers log',
            op.run (LogSession.runAll ⟨⟨d', w⟩, found⟩ before).log = .ok pointers log' →
            ∀ f ∈ List.zipWith Frame.mk pointers op.payloads,
              (f ∈ read.frames ↔ LogSession.Unfailed ⟨⟨d', w⟩, found⟩ before) := by
  rcases (Writer.smooth_ofDisk options).ok d w d' hd hopen with ⟨hcalm, hplan⟩
  rcases Writer.ofDisk_ok (fun _ _ => rfl) hcalm with ⟨h, ps, rest, hl, hn, hends, -⟩
  have hheader : w.header = h := hl.header
  have hbytes : d'.file.bytes = h.image ps ++ rest := hl.disk.bytes
  -- a log that was just opened is in step with its file
  have hstep : Log.InStep ⟨d', w⟩ h ps :=
    ⟨⟨hd.of_plan hplan, hheader, hl.admissible, ⟨rest, hbytes.symm⟩⟩, hl.tail⟩
  rcases hl.frames_eq hn hends with ⟨log, hframes⟩
  rcases Log.frames_of_disarm (hd.of_plan hplan) hframes with ⟨log', hfound⟩
  rw [← hl.offset] at hfound
  refine ⟨_, log', hfound, fun ops happend hcount => ?_⟩
  rw [hheader, Tail.length_frames] at hcount
  rcases LogSession.begins_runAll (s := ⟨⟨d', w⟩, (Tail.start h).frames ps⟩) hstep happend with
    ⟨qs, hqs, hbegins⟩
  rcases hbegins.scan (FileHeader.numbers_of_le (by rw [List.length_append]; omega)) with
    ⟨read, log'', -, -, -, hread, -⟩
  refine ⟨read, log'', hread, ?_⟩
  rintro before op after rfl pointers log₁ hrun
  exact LogSession.kept_iff hstep happend hcount hrun hread

/-- An empty file that refuses one write, after granting `n` of them. -/
def refusingDisk (n : Nat) : Disk :=
  (Disk.ofFile ⟨.ofBytes [], .memory⟩).arm .write n 1 ⟨.other, "no space"⟩

theorem readable_refusingDisk (n : Nat) : (refusingDisk n).Readable :=
  fun _ _ hkind => if_neg hkind

/-- Of three records the second is refused, and the third was appended with success.  Only the first
is read in the end. -/
theorem acknowledged_records_iff_of_three :
    ∃ w d', Writer.ofDisk ⟨7, 1, .deferred⟩ (refusingDisk 3) = .ok w d' ∧
      ∃ read log, Log.frames (LogSession.runAll ⟨⟨d', w⟩, []⟩
          [.append [1], .append [2], .append [3]]).log = .ok read log ∧
        ⟨⟨1, 32, 33⟩, [1]⟩ ∈ read.frames ∧ ⟨⟨3, 65, 33⟩, [3]⟩ ∉ read.frames := by
  have hrun : (Log.opened ⟨7, 1, .deferred⟩ (refusingDisk 3)).any (fun log =>
      log.found = [] ∧ log.writer.header.startLsn = 1 ∧
        (LogOp.append [1]).run.run' log = some [⟨1, 32, 33⟩] ∧
        (LogOp.append [3]).run.run'
          (LogSession.runAll ⟨log, []⟩ [.append [1], .append [2]]).log = some [⟨3, 65, 33⟩] ∧
        ¬LogSession.Unfailed ⟨log, []⟩ [.append [1], .append [2]]) = true := by
    decide +kernel
  rcases (Option.any_eq_true _ _).1 hrun with ⟨⟨d', w⟩, hlog, hstate⟩
  rcases of_decide_eq_true hstate with ⟨hnone, hfirst, hone, hthree, hfailed⟩
  have hopen := Log.opened_eq_some.1 hlog
  rcases acknowledged_records_iff (readable_refusingDisk 3) hopen with ⟨found, log, hfound, hall⟩
  obtain rfl : found = [] := by
    rw [Log.found, hfound] at hnone
    exact hnone
  rcases hall [.append [1], .append [2], .append [3]] (by simp)
    (by rw [hfirst]; decide) with ⟨read, log', hread, hkept⟩
  refine ⟨w, d', hopen, read, log', hread, ?_, fun hmem => ?_⟩
  · rcases Act.exists_of_run' hone with ⟨log₁, hrun₁⟩
    exact (hkept [] (.append [1]) [.append [2], .append [3]] rfl _ _ hrun₁ _
      List.mem_cons_self).2 trivial
  · rcases Act.exists_of_run' hthree with ⟨log₁, hrun₁⟩
    exact hfailed ((hkept [.append [1], .append [2]] (.append [3]) [] rfl _ _ hrun₁ _
      List.mem_cons_self).1 hmem)

/-- The file refuses the first record.  The second one is then appended with success, and nothing is
read. -/
theorem acknowledged_record_lost :
    ∃ w d', Writer.ofDisk ⟨7, 1, .deferred⟩ (refusingDisk 1) = .ok w d' ∧
      let s := LogSession.runAll ⟨⟨d', w⟩, []⟩ [.append [1]]
      (LogOp.append [1]).refused ⟨d', w⟩ = true ∧
        (LogOp.append [2]).run.run' s.log = some [⟨2, 32, 33⟩] ∧
        (s.step (.append [2])).log.found = [] := by
  have hrun : (Log.opened ⟨7, 1, .deferred⟩ (refusingDisk 1)).any (fun log =>
      (LogOp.append [1]).refused log = true ∧
        (LogOp.append [2]).run.run' (LogSession.runAll ⟨log, []⟩ [.append [1]]).log =
          some [⟨2, 32, 33⟩] ∧
        ((LogSession.runAll ⟨log, []⟩ [.append [1]]).step (.append [2])).log.found = []) =
      true := by
    decide +kernel
  rcases (Option.any_eq_true _ _).1 hrun with ⟨⟨d', w⟩, hlog, hstate⟩
  exact ⟨w, d', Log.opened_eq_some.1 hlog, of_decide_eq_true hstate⟩

end PageLog
