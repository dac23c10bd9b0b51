import PageLog.Proofs.LogSession

/-!
# Batches that are split

A batch is written in pieces, and the numbering, the chain and the place of the next frame run on
from one piece to the next as they do from one batch to the next.  So a list of payloads leaves the
same frames however it is cut into batches.  Nothing is asked of the log for this: where it goes on
behind the end of its file, which is what remains when the file was cut short by someone else, the
first frame fills the gap with zeros, and the other ones lie behind it.

## Main definitions

* `LogOp.Appends`, `LogOp.runAll` — operations that append records, one after the other.
* `Tail.written` — a file after frames were written to it.

## Main results

* `Log.appendPieces_gap`, `LogOp.run_written` — one batch.
* `LogOp.runAll_written` — several operations.
* `split_batches_leave_no_trace` — **batches leave no trace in the file**.
-/

namespace PageLog

/-- The bytes of a file once the frames for the payloads `ps` were written to it. -/
def Tail.written (t : Tail) (bs : Bytes) (ps : List Bytes) : Bytes :=
  if ps = [] then bs else Bytes.overwrite (bs.fillTo t.offset) t.offset (t.image ps)

/-- The operation appends records. -/
def LogOp.Appends (op : LogOp) : Prop := ∀ off, op ≠ .truncateTo off

/-- Several operations; the pointers come back in order. -/
def LogOp.runAll : List LogOp → Act Log (List LogPointer)
  | [] => pure []
  | op :: ops => do
      let first ← op.run
      let others ← runAll ops
      return first ++ others

namespace Log

variable {log : Log} {bs : Bytes} {q : Bytes} {qs : List Bytes}

/-- The first piece fills the gap in front of it. -/
theorem appendPiece_gap (hd : log.disk.Holds bs) (q : Bytes) (qs : List Bytes) :
    ∃ log', Log.appendPiece (q :: qs) log = .ok (log.writer.tail.pointers (q :: qs)) log' ∧
      log.Appended (bs.fillTo log.writer.tail.offset) (q :: qs) log' := by
  have hheader : (log.writer.tail.header q).encode ≠ [] := by
    intro hnil
    have hlen := (log.writer.tail.header q).length_encode
    rw [hnil] at hlen
    cases hlen
  have hparts : ∃ part ∈ log.writer.tail.parts (q :: qs), part ≠ [] :=
    ⟨_, List.mem_cons_self, hheader⟩
  obtain ⟨d', hwrite, hd'⟩ := hd.writeParts_gap log.writer.tail.offset hparts
  exact ⟨⟨d', log.writer.wrote (q :: qs)⟩, appendPiece_of_ok hwrite, hd', rfl, rfl, rfl, rfl⟩

/-- The pieces behind the first find no gap. -/
theorem appendPieces_gap (hd : log.disk.Holds bs) (q : Bytes) (qs : List Bytes)
    (rest : List (List Bytes)) :
    ∃ log', Log.appendPieces ((q :: qs) :: rest) log =
        .ok (log.writer.tail.pointers (q :: qs ++ rest.flatten)) log' ∧
      log.Appended (bs.fillTo log.writer.tail.offset) (q :: qs ++ rest.flatten) log' := by
  have hin := Bytes.le_length_fillTo bs log.writer.tail.offset
  obtain ⟨log₁, hfirst, hout₁⟩ := appendPiece_gap hd q qs
  obtain ⟨log₂, hothers, hout₂⟩ := (hout₁.ready hin).appendPieces rest
  refine ⟨log₂, ?_, hout₁.trans hin hout₂⟩
  rw [Log.appendPieces, Act.bind_of_ok hfirst, Act.bind_of_ok hothers, Act.pure_apply,
    Tail.pointers_append, hout₁.tail]

/-- Payloads that frames can carry are appended, gap or not. -/
theorem appendBatch_gap (hd : log.disk.Holds bs) (q : Bytes) (qs : List Bytes)
    (hqs : ∀ p ∈ q :: qs, Log.admissible p = true) :
    ∃ log', Log.appendBatch (q :: qs) log = .ok (log.writer.tail.pointers (q :: qs)) log' ∧
      log.Appended (bs.fillTo log.writer.tail.offset) (q :: qs) log' := by
  obtain ⟨log₁, hwrite, hout⟩ := appendPieces_gap hd q (qs.take (pieceLength - 1))
    (pieces (pieceLength - 1) (qs.drop (pieceLength - 1)))
  rw [flatten_pieces, List.cons_append, List.take_append_drop] at hwrite hout
  rw [← pieces] at hwrite
  exact hout.appendBatch hqs hwrite

end Log

/-! ### The file after several batches -/

namespace Tail

variable (t : Tail) (bs : Bytes) {ps qs : List Bytes}

@[simp] theorem written_nil : t.written bs [] = bs := if_pos rfl

theorem written_of_ne_nil (h : ps ≠ []) :
    t.written bs ps = Bytes.overwrite (bs.fillTo t.offset) t.offset (t.image ps) :=
  if_neg h

/-- Frames that were written leave no gap behind them. -/
theorem offset_pushAll_le_written (h : ps ≠ []) :
    (t.pushAll ps).offset ≤ (t.written bs ps).length := by
  rw [written_of_ne_nil t bs h, Bytes.length_overwrite_eq_max _ (Bytes.le_length_fillTo ..),
    offset_pushAll]
  exact Nat.le_max_right ..

/-- Frames that are written one after the other might as well be written at once. -/
theorem written_append (ps qs : List Bytes) :
    (t.pushAll ps).written (t.written bs ps) qs = t.written bs (ps ++ qs) := by
  by_cases hps : ps = []
  · rw [hps, written_nil, pushAll_nil, List.nil_append]
  by_cases hqs : qs = []
  · rw [hqs, written_nil, List.append_nil]
  rw [written_of_ne_nil _ _ hqs, Bytes.fillTo_of_le (t.offset_pushAll_le_written bs hps),
    written_of_ne_nil t bs hps, written_of_ne_nil t bs (List.append_ne_nil_of_left_ne_nil hps qs),
    offset_pushAll, Bytes.overwrite_overwrite _ _ (Bytes.le_length_fillTo ..), image_append]

end Tail

/-- The frames for the payloads `ps` were written where the log goes on, gap or not. -/
structure Log.Wrote (log : Log) (bs : Bytes) (ps : List Bytes) (log' : Log) : Prop where
  /-- The bytes of the file. -/
  disk : log'.disk.Holds (log.writer.tail.written bs ps)
  /-- The header stays. -/
  header : log'.writer.header = log.writer.header
  /-- The log goes on behind the frames. -/
  tail : log'.writer.tail = log.writer.tail.pushAll ps
  /-- The records are counted. -/
  counted : log.Counted ps.length log'

namespace Log

variable {log log' log'' : Log} {bs : Bytes} {ps qs : List Bytes}

theorem Wrote.refl (hd : log.disk.Holds bs) : log.Wrote bs [] log :=
  ⟨by rwa [Tail.written_nil], rfl, rfl, .refl log⟩

theorem Wrote.trans (h : log.Wrote bs ps log')
    (h' : log'.Wrote (log.writer.tail.written bs ps) qs log'') : log.Wrote bs (ps ++ qs) log'' := by
  refine ⟨?_, h'.header.trans h.header, ?_, ?_⟩
  · have hdisk := h'.disk
    rwa [h.tail, Tail.written_append] at hdisk
  · rw [h'.tail, h.tail, Tail.pushAll_append]
  · rw [List.length_append]
    exact h.counted.trans h'.counted

/-- One batch, whether or not there is a gap in front of it. -/
theorem appendBatch_written (hd : log.disk.Holds bs) (ps : List Bytes)
    (hps : ∀ p ∈ ps, Log.admissible p = true) :
    ∃ log', Log.appendBatch ps log = .ok (log.writer.tail.pointers ps) log' ∧
      log.Wrote bs ps log' := by
  cases ps with
  | nil => exact ⟨log, rfl, .refl hd⟩
  | cons q qs =>
    obtain ⟨log', hrun, hout⟩ := appendBatch_gap hd q qs hps
    refine ⟨log', hrun, ?_, hout.header, hout.tail, hout.counted⟩
    rw [Tail.written_of_ne_nil _ _ (List.cons_ne_nil q qs)]
    exact hout.disk

end Log

namespace LogOp

variable {log : Log} {bs : Bytes}

theorem run_written {op : LogOp} (hd : log.disk.Holds bs) (happend : op.Appends)
    (hall : ∀ p ∈ op.payloads, Log.admissible p = true) :
    ∃ log', op.run log = .ok (log.writer.tail.pointers op.payloads) log' ∧
      log.Wrote bs op.payloads log' := by
  cases op with
  | append p =>
    obtain ⟨log', hrun, hout⟩ := Log.appendBatch_written hd [p] hall
    refine ⟨log', ?_, hout⟩
    exact Act.bind_of_ok (Act.bind_of_ok hrun)
  | appendBatch ps => exact Log.appendBatch_written hd ps hall
  | truncateTo off => exact absurd rfl (happend off)

/-- Several operations write what one batch of all their records would. -/
theorem runAll_written (hd : log.disk.Holds bs) {ops : List LogOp}
    (happend : ∀ op ∈ ops, op.Appends)
    (hall : ∀ p ∈ ops.flatMap payloads, Log.admissible p = true) :
    ∃ log', runAll ops log = .ok (log.writer.tail.pointers (ops.flatMap payloads)) log' ∧
      log.Wrote bs (ops.flatMap payloads) log' := by
  induction ops generalizing log bs with
  | nil => exact ⟨log, rfl, .refl hd⟩
  | cons op ops ih =>
    rw [List.flatMap_cons] at hall ⊢
    obtain ⟨log₁, hfirst, hout₁⟩ := run_written hd (happend op (List.mem_cons_self ..))
      (fun p hp => hall p (List.mem_append_left _ hp))
    obtain ⟨log₂, hothers, hout₂⟩ := ih hout₁.disk
      (fun op' hop' => happend op' (List.mem_cons_of_mem _ hop'))
      (fun p hp => hall p (List.mem_append_right _ hp))
    refine ⟨log₂, ?_, hout₁.trans hout₂⟩
    rw [runAll, Act.bind_of_ok hfirst, Act.bind_of_ok hothers, Act.pure_apply,
      Tail.pointers_append, hout₁.tail]

end LogOp

/-- **Batches leave no trace in the file.**  A call that is given a payload which is empty or longer
than frames can carry is refused and leaves the log as it was.  Payloads that frames can carry give
the same bytes of the file, the same pointers in order, the same next number and the same place to
go on, however they are cut into batches and single records, and whatever state the log is in. -/
theorem split_batches_leave_no_trace (log : Log) :
    (∀ op : LogOp, (∃ p ∈ op.payloads, p = [] ∨ maxPayload < p.length) →
      op.run log = .error (.invalid .payloadSize) log) ∧
    ∀ bs, log.disk.Holds bs → ∀ ps : List Bytes,
      (∀ p ∈ ps, p ≠ [] ∧ p.length ≤ maxPayload) →
      ∀ ops : List LogOp, (∀ op ∈ ops, op.Appends) → ops.flatMap LogOp.payloads = ps →
        ∃ log', LogOp.runAll ops log = .ok (log.writer.tail.pointers ps) log' ∧
          log'.disk.Holds (log.writer.tail.written bs ps) ∧
          log'.writer.header = log.writer.header ∧
          log'.writer.tail = log.writer.tail.pushAll ps ∧
          log'.writer.stats.records = log.writer.stats.records + ps.length := by
  refine ⟨fun op ⟨p, hp, hbad⟩ => LogOp.run_refused log hp ?_, ?_⟩
  · rw [← Bool.not_eq_true, Log.admissible_iff]
    rcases hbad with rfl | hlong
    · exact fun h => absurd h.1 (Nat.lt_irrefl 0)
    · omega
  · rintro bs hd ps hps ops happend rfl
    have hall : ∀ p ∈ ops.flatMap LogOp.payloads, Log.admissible p = true := fun p hp =>
      Log.admissible_iff.2 ⟨List.length_pos_iff.2 (hps p hp).1, (hps p hp).2⟩
    obtain ⟨log', hrun, hout⟩ := LogOp.runAll_written hd happend hall
    exact ⟨log', hrun, hout.disk, hout.header, hout.tail, hout.counted.records⟩

/-- A new log takes 300 records in one batch as it takes them one by one; a batch that ends with an
empty record is refused. -/
theorem split_batches_leave_no_trace_of_three_hundred :
    let h : FileHeader := ⟨7, 1⟩
    let log : Log := ⟨Disk.ofFile ⟨.ofBytes h.encode, .memory⟩, ⟨.deferred, h, .start h, .zero⟩⟩
    let ps : List Bytes := List.replicate 300 [1, 2]
    (LogOp.appendBatch (ps ++ [[]])).run log = .error (.invalid .payloadSize) log ∧
    ∃ pointers bs one many,
      LogOp.runAll [.appendBatch ps] log = .ok pointers one ∧
      LogOp.runAll (ps.map .append) log = .ok pointers many ∧
      one.disk.Holds bs ∧ many.disk.Holds bs ∧
      one.writer.tail = many.writer.tail ∧ many.writer.tail.nextLsn = 301 := by
  intro h log ps
  obtain ⟨hrefused, hsplit⟩ := split_batches_leave_no_trace log
  refine ⟨hrefused _ ⟨[], List.mem_append_right _ (List.mem_singleton_self _), .inl rfl⟩, ?_⟩
  have hd : log.disk.Holds h.encode := ⟨fun _ _ => rfl, Content.bytes_ofBytes _⟩
  have hps : ∀ p ∈ ps, p ≠ [] ∧ p.length ≤ maxPayload := by
    intro p hp
    rw [List.eq_of_mem_replicate hp]
    decide
  obtain ⟨one, hone, hdone, -, htone, -⟩ := hsplit _ hd ps hps [.appendBatch ps]
    (by simp [LogOp.Appends]) (List.flatMap_singleton ..)
  obtain ⟨many, hmany, hdmany, -, htmany, -⟩ := hsplit _ hd ps hps (ps.map .append)
    (by simp [LogOp.Appends]) (by rw [List.flatMap_map]; exact List.flatMap_singleton' ps)
  refine ⟨_, _, one, many, hone, hmany, hdone, hdmany, htone.trans htmany.symm, ?_⟩
  rw [htmany, Tail.nextLsn_pushAll, List.length_replicate]
  rfl

end PageLog
