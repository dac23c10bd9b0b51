import PageLog.Proofs.LogContents

/-!
# What a log keeps

Records are appended to an open log, and the log is cut behind some of them.  Beside the log goes a
ledger of the frames that it ought to hold, made up from the frames that were there when it was
opened and from the pointers that appending gave back.  The ledger and the file never come apart:
what is read from the log begins with the ledger, and if nothing follows in the file then it is the
ledger, and the log that is opened from the file goes on where this one does.

## Main definitions

* `LogOp` — appending records, or cutting the log.
* `LogSession` — an open log and its ledger.
* `Frame.Consecutive` — frames that lie one behind the other and are numbered upwards.

## Main results

* `LogSession.Sound.step`, `LogSession.Sound.runAll` — the ledger is kept.
* `appended_records_kept` — **no appended record is lost or reordered**.
-/

namespace PageLog

/-! ### Frames in a row -/

/-- Frames that lie one behind the other from `off` on and are numbered upwards from `n`. -/
def Frame.Consecutive : (off n : Nat) → List Frame → Prop
  | _, _, [] => True
  | off, n, f :: fs =>
      f.pointer.offset = off ∧ f.pointer.len = FrameHeader.size + f.payload.length ∧
        f.pointer.lsn.toNat = n ∧ Frame.Consecutive (off + f.pointer.len) (n + 1) fs

namespace Tail

theorem consecutive_frames (t : Tail) {ps : List Bytes}
    (hn : t.nextLsn.toNat + ps.length ≤ 2 ^ 64) :
    Frame.Consecutive t.offset t.nextLsn.toNat (t.frames ps) := by
  induction ps generalizing t with
  | nil => trivial
  | cons p ps ih =>
    rw [List.length_cons] at hn
    refine ⟨rfl, rfl, rfl, ?_⟩
    cases ps with
    | nil => trivial
    | cons q ps =>
      -- only behind the last frame may the numbers be used up
      rw [List.length_cons] at hn
      have hnext : (t.push p).nextLsn.toNat = t.nextLsn.toNat + 1 := by
        rw [nextLsn_push, UInt64.toNat_add, UInt64.toNat_one, Nat.mod_eq_of_lt (by omega)]
      have htail := ih (t.push p) (by rw [hnext, List.length_cons]; omega)
      rwa [hnext] at htail

theorem stop_le_of_mem_frames {t : Tail} {ps : List Bytes} {f : Frame} (h : f ∈ t.frames ps) :
    t.offset < f.stop ∧ f.stop ≤ (t.pushAll ps).offset := by
  obtain ⟨i, hi, hstop⟩ := t.stop_mem_frames ps h
  rw [hstop]
  refine ⟨t.offset_lt_pushAll ?_, ?_⟩
  · intro hnil
    have hlen := congrArg List.length hnil
    rw [List.length_take, List.length_nil] at hlen
    omega
  · have hle := (t.pushAll (ps.take (i + 1))).offset_le_pushAll (ps.drop (i + 1))
    rwa [← pushAll_append, List.take_append_drop] at hle

theorem offset_lt_of_mem_frames {t : Tail} {ps : List Bytes} {f : Frame} (h : f ∈ t.frames ps) :
    f.pointer.offset < (t.pushAll ps).offset := by
  induction ps generalizing t with
  | nil => simp at h
  | cons p ps ih =>
    rw [frames_cons, List.mem_cons] at h
    rcases h with rfl | h
    · exact t.offset_lt_pushAll (List.cons_ne_nil p ps)
    · exact ih h

theorem offset_le_of_mem_frames {t : Tail} {ps : List Bytes} {f : Frame} (h : f ∈ t.frames ps) :
    t.offset ≤ f.pointer.offset := by
  induction ps generalizing t with
  | nil => simp at h
  | cons p ps ih =>
    rw [frames_cons, List.mem_cons] at h
    rcases h with rfl | h
    · exact Nat.le_refl t.offset
    · exact Nat.le_trans (t.offset_le_pushAll [p]) (ih h)

/-- Cutting behind a frame keeps the frames up to there. -/
theorem filter_stop_frames (t : Tail) (ps qs : List Bytes) :
    (t.frames (ps ++ qs)).filter (fun f => f.stop ≤ (t.pushAll ps).offset) = t.frames ps := by
  rw [frames_append, List.filter_append, List.filter_eq_self.2, List.filter_eq_nil_iff.2,
    List.append_nil]
  · intro f hf
    have hlt := (stop_le_of_mem_frames hf).1
    simp only [decide_eq_true_eq]
    omega
  · intro f hf
    simpa using (stop_le_of_mem_frames hf).2

end Tail

/-! ### Sessions -/

/-- What is done with an open log. -/
inductive LogOp where
  /-- A record is appended. -/
  | append (payload : Bytes)
  /-- Records are appended in order. -/
  | appendBatch (payloads : List Bytes)
  /-- The log is cut. -/
  | truncateTo (off : Nat)
  deriving DecidableEq, Repr

namespace LogOp

/-- The records to append. -/
def payloads : LogOp → List Bytes
  | append payload => [payload]
  | appendBatch payloads => payloads
  | truncateTo _ => []

/-- The operation on the log; it gives back the pointers to the records that it appended. -/
def run : LogOp → Act Log (List LogPointer)
  | append payload => do return [← Log.append payload]
  | appendBatch payloads => Log.appendBatch payloads
  | truncateTo off => do
      Log.truncateTo off
      return []

/-- Whether a frame stays in the log. -/
def keeps : LogOp → Frame → Bool
  | truncateTo off, f => f.stop ≤ off
  | _, _ => true

end LogOp

/-- An open log, and the frames that it ought to hold. -/
structure LogSession where
  /-- The log. -/
  log : Log
  /-- The frames that were there when the log was opened, and those for the records appended
  since, less those cut off. -/
  ledger : List Frame

namespace LogSession

/-- The session after an operation.  What is refused leaves the ledger alone. -/
def step (s : LogSession) (op : LogOp) : LogSession :=
  match op.run s.log with
  | .ok pointers log =>
      ⟨log, s.ledger.filter op.keeps ++ List.zipWith Frame.mk pointers op.payloads⟩
  | .error _ log => ⟨log, s.ledger⟩

/-- The session after several operations. -/
def runAll (s : LogSession) (ops : List LogOp) : LogSession := ops.foldl step s

/-- The numbers suffice for the records, and the log is cut only behind a frame or behind its
header. -/
structure Allows (s : LogSession) (op : LogOp) : Prop where
  /-- The numbers suffice. -/
  numbers : s.log.writer.header.startLsn.toNat + s.ledger.length + op.payloads.length ≤ 2 ^ 64
  /-- The place is the end of a frame. -/
  boundary : ∀ off, op = .truncateTo off →
    off = FileHeader.size ∨ ∃ f ∈ s.ledger, f.stop = off

/-- Every operation is allowed where it is carried out. -/
def AllowsAll : LogSession → List LogOp → Prop
  | s, [] => s.log.writer.header.startLsn.toNat + s.ledger.length ≤ 2 ^ 64
  | s, op :: ops => s.Allows op ∧ (s.step op).AllowsAll ops

/-- The answer to an operation: a pointer for each record that is appended, or the refusal of
records one of which no frame can carry. -/
def Answers (s : LogSession) (op : LogOp) : Prop :=
  ((∀ p ∈ op.payloads, Log.admissible p = true) →
    ∃ pointers log, op.run s.log = .ok pointers log ∧ pointers.length = op.payloads.length) ∧
  ((∃ p ∈ op.payloads, Log.admissible p = false) →
    op.run s.log = .error (.invalid .payloadSize) s.log)

/-- The ledger agrees with the log.  A log that `grew` from nothing fills its file. -/
def Sound (s : LogSession) (h : FileHeader) (grew : Prop) : Prop :=
  ∃ ps rest, s.log.Holds h ps rest ∧ h.Numbers ps.length ∧
    s.ledger = (Tail.start h).frames ps ∧ (grew → rest = [])

end LogSession

/-! ### One operation -/

/-- Records one of which no frame can carry are refused. -/
theorem LogOp.run_refused {op : LogOp} {p : Bytes} (log : Log) (hp : p ∈ op.payloads)
    (hbad : Log.admissible p = false) : op.run log = .error (.invalid .payloadSize) log := by
  cases op with
  | append payload =>
    obtain rfl := List.mem_singleton.1 hp
    exact Act.bind_of_error (Log.append_refused hbad)
  | appendBatch payloads => exact Log.appendBatch_refused hp hbad
  | truncateTo off => cases hp

/-- Appending records that frames can carry puts them behind those that the log holds. -/
theorem LogOp.run_appends {op : LogOp} {log : Log} {h : FileHeader} {ps : List Bytes} {rest : Bytes}
    (hl : log.Holds h ps rest) (happend : ∀ off, op ≠ .truncateTo off)
    (hall : ∀ p ∈ op.payloads, Log.admissible p = true) :
    ∃ log', op.run log = .ok (log.writer.tail.pointers op.payloads) log' ∧
      log'.Holds h (ps ++ op.payloads)
        (rest.drop (log.writer.tail.image op.payloads).length) := by
  cases op with
  | append payload =>
    obtain ⟨log', hrun, hl', -⟩ := hl.append (hall _ (List.mem_singleton_self _))
    exact ⟨log', Act.bind_of_ok hrun, hl'⟩
  | appendBatch payloads =>
    obtain ⟨log', hrun, hl', -⟩ := hl.appendBatch payloads hall
    exact ⟨log', hrun, hl'⟩
  | truncateTo off => exact absurd rfl (happend off)

/-- Appending takes nothing off the ledger. -/
theorem LogOp.filter_keeps {op : LogOp} (happend : ∀ off, op ≠ .truncateTo off)
    (fs : List Frame) : fs.filter op.keeps = fs := by
  rw [List.filter_eq_self]
  intro f hf
  cases op with
  | append payload => rfl
  | appendBatch payloads => rfl
  | truncateTo off => exact absurd rfl (happend off)

namespace LogSession

variable {s : LogSession} {op : LogOp} {h : FileHeader} {grew : Prop}

/-- Appending records puts their frames behind those in the ledger. -/
theorem Sound.step_append (hs : s.Sound h grew) (hop : s.Allows op)
    (happend : ∀ off, op ≠ .truncateTo off)
    (hall : ∀ p ∈ op.payloads, Log.admissible p = true) :
    (∃ pointers log, op.run s.log = .ok pointers log ∧ pointers.length = op.payloads.length) ∧
      (s.step op).Sound h grew := by
  obtain ⟨ps, rest, hl, -, hledger, hgrew⟩ := hs
  have hn : h.Numbers (ps.length + op.payloads.length) := by
    refine FileHeader.numbers_of_le ?_
    have hle := hop.numbers
    rw [hl.header, hledger, Tail.length_frames] at hle
    omega
  obtain ⟨log', hrun, hl'⟩ := LogOp.run_appends hl happend hall
  have hkeeps := LogOp.filter_keeps happend s.ledger
  refine ⟨⟨_, log', hrun, Tail.length_pointers ..⟩, ps ++ op.payloads,
    rest.drop (s.log.writer.tail.image op.payloads).length, ?_, ?_, ?_, fun hg => ?_⟩
  · simp only [step, hrun]
    exact hl'
  · rwa [List.length_append]
  · simp only [step, hrun, hkeeps]
    rw [Tail.zipWith_pointers, hledger, Tail.frames_append, hl.tail]
  · rw [hgrew hg, List.drop_nil]

/-- The places where a log may be cut are those behind the first of the payloads that it holds. -/
theorem Allows.exists_take {off : Nat} {ps : List Bytes} (hop : s.Allows (.truncateTo off))
    (hledger : s.ledger = (Tail.start h).frames ps) :
    ∃ k, off = (h.image (ps.take k)).length := by
  obtain rfl | ⟨f, hf, rfl⟩ := hop.boundary off rfl
  · refine ⟨0, ?_⟩
    rw [FileHeader.length_image]
    rfl
  · rw [hledger] at hf
    obtain ⟨i, -, hstop⟩ := Tail.stop_mem_frames _ _ hf
    exact ⟨i + 1, by rw [hstop, FileHeader.length_image]⟩

/-- Cutting the log takes the frames behind the cut off the ledger. -/
theorem Sound.step_cut {off : Nat} (hs : s.Sound h grew) (hop : s.Allows (.truncateTo off)) :
    (∃ log, (LogOp.truncateTo off).run s.log = .ok [] log) ∧
      (s.step (.truncateTo off)).Sound h grew := by
  obtain ⟨ps, rest, hl, hn, hledger, hgrew⟩ := hs
  obtain ⟨k, rfl⟩ := hop.exists_take hledger
  rw [← List.take_append_drop k ps] at hl
  have hn' : h.Numbers (ps.take k).length := hn.mono (List.length_take_le' ..)
  obtain ⟨log', hcut, hl', -⟩ := hl.truncateTo hn'
  have hrun : (LogOp.truncateTo (h.image (ps.take k)).length).run s.log = .ok [] log' :=
    Act.bind_of_ok hcut
  refine ⟨⟨log', hrun⟩, ps.take k, [], ?_, hn', ?_, fun _ => rfl⟩
  · simp only [step, hrun]
    exact hl'
  · have hfilter := (Tail.start h).filter_stop_frames (ps.take k) (ps.drop k)
    rw [List.take_append_drop, ← FileHeader.length_image] at hfilter
    simp only [step, hrun, LogOp.payloads, List.zipWith_nil_right, List.append_nil, hledger]
    exact hfilter

/-- Every operation that is allowed is answered, and the ledger is kept. -/
theorem Sound.step (hs : s.Sound h grew) (hop : s.Allows op) :
    s.Answers op ∧ (s.step op).Sound h grew := by
  by_cases hbad : ∃ p ∈ op.payloads, Log.admissible p = false
  · obtain ⟨p, hp, hpbad⟩ := hbad
    have hrun := LogOp.run_refused s.log hp hpbad
    refine ⟨⟨fun hall => ?_, fun _ => hrun⟩, ?_⟩
    · rw [hall p hp] at hpbad
      cases hpbad
    · simpa only [LogSession.step, hrun] using hs
  · have hall : ∀ p ∈ op.payloads, Log.admissible p = true := by
      intro p hp
      cases hadm : Log.admissible p with
      | true => rfl
      | false => exact absurd ⟨p, hp, hadm⟩ hbad
    by_cases hcut : ∃ off, op = .truncateTo off
    · obtain ⟨off, rfl⟩ := hcut
      obtain ⟨⟨log, hrun⟩, hstep⟩ := hs.step_cut hop
      exact ⟨⟨fun _ => ⟨[], log, hrun, rfl⟩, fun hb => absurd hb hbad⟩, hstep⟩
    · obtain ⟨hrun, hstep⟩ := hs.step_append hop (fun off heq => hcut ⟨off, heq⟩) hall
      exact ⟨⟨fun _ => hrun, fun hb => absurd hb hbad⟩, hstep⟩

/-! ### Whole sessions -/

/-- The ledger is kept through any session. -/
theorem Sound.runAll {ops : List LogOp} (hs : s.Sound h grew) (hops : s.AllowsAll ops) :
    (s.runAll ops).Sound h grew ∧
      h.startLsn.toNat + (s.runAll ops).ledger.length ≤ 2 ^ 64 := by
  induction ops generalizing s with
  | nil =>
    obtain ⟨ps, rest, hl, hrest⟩ := hs
    have hnumbers : s.log.writer.header.startLsn.toNat + s.ledger.length ≤ 2 ^ 64 := hops
    rw [hl.header] at hnumbers
    exact ⟨⟨ps, rest, hl, hrest⟩, hnumbers⟩
  | cons op ops ih =>
    obtain ⟨hop, hops⟩ := hops
    exact ih (hs.step hop).2 hops

theorem Sound.header (hs : s.Sound h grew) : s.log.writer.header = h := by
  obtain ⟨ps, rest, hl, -⟩ := hs
  exact hl.header

/-- What is read from a log begins with its ledger, whose frames lie in a row. -/
theorem Sound.reads (hs : s.Sound h grew)
    (hn : h.startLsn.toNat + s.ledger.length ≤ 2 ^ 64) :
    Frame.Consecutive FileHeader.size s.log.writer.header.startLsn.toNat s.ledger ∧
      ∃ found log, Log.frames s.log = .ok found log ∧ s.ledger <+: found.frames := by
  obtain ⟨ps, rest, hl, hnumbers, hledger, -⟩ := hs
  rw [hledger] at hn ⊢
  rw [Tail.length_frames] at hn
  rw [hl.header]
  exact ⟨Tail.consecutive_frames (Tail.start h) hn, hl.frames_prefix hnumbers⟩

/-- Where the file ends with the last frame, the ledger is all that is read, and the log opened
from the file goes on in the same place. -/
theorem Sound.ends (hs : s.Sound h grew)
    (hend : s.log.disk.file.len = s.log.writer.tail.offset) :
    (∃ log, Log.frames s.log = .ok ⟨s.ledger, none, s.log.disk.file.len⟩ log) ∧
      ∀ options : LogOptions, options.salt = s.log.writer.header.salt →
        ∃ w d, Writer.ofDisk options s.log.disk = .ok w d ∧ w.header = s.log.writer.header ∧
          w.tail = s.log.writer.tail := by
  obtain ⟨ps, rest, hl, hn, hledger, -⟩ := hs
  have hrest : rest = [] := by
    rw [hl.disk.fileLen, hl.offset, List.length_append] at hend
    exact List.eq_nil_of_length_eq_zero (by omega)
  subst hrest
  refine ⟨?_, fun options hsalt => ?_⟩
  · rw [hend, hl.offset, hledger]
    exact hl.frames_eq hn (h.ends_nil ps)
  · rw [hl.header] at hsalt ⊢
    obtain ⟨w, d, hopen, hw, -⟩ :=
      Writer.ofDisk_image options hl.disk hl.admissible hn (h.ends_nil ps) hsalt
    exact ⟨w, d, hopen, hw.header, by rw [hw.tail, hl.tail]⟩

theorem Sound.fills (hs : s.Sound h grew) (hgrew : grew) :
    s.log.disk.file.len = s.log.writer.tail.offset := by
  obtain ⟨ps, rest, hl, -, -, hrest⟩ := hs
  rw [hl.disk.fileLen, hl.offset, hrest hgrew, List.append_nil]

end LogSession

/-- **No appended record is lost or reordered.**  A log is opened from any file, and records are
appended and cut off in any order.  The session begins with the frames that are read from the log
when it is opened.  Every operation is answered; what is read from the log begins with the ledger,
whose frames lie in a row; and where nothing follows the last frame in the file, which is so
whenever the log grew from nothing, the ledger is all that is read, and a log opened from the file
goes on in the same place. -/
theorem appended_records_kept {d d' : Disk} {options : LogOptions} {w : Writer} (hcalm : d.Calm)
    (hopen : Writer.ofDisk options d = .ok w d') :
    ∃ found log, Log.frames ⟨d', w⟩ = .ok ⟨found, none, w.tail.offset⟩ log ∧
      ∀ ops, LogSession.AllowsAll ⟨⟨d', w⟩, found⟩ ops →
        let s := LogSession.runAll ⟨⟨d', w⟩, found⟩ ops
        (∀ op, s.Allows op → s.Answers op) ∧
        Frame.Consecutive FileHeader.size w.header.startLsn.toNat s.ledger ∧
        (∃ read log, Log.frames s.log = .ok read log ∧ s.ledger <+: read.frames) ∧
        (s.log.disk.file.len = s.log.writer.tail.offset →
          (∃ log, Log.frames s.log = .ok ⟨s.ledger, none, s.log.disk.file.len⟩ log) ∧
          ∀ mode start, ∃ w' d'',
            Writer.ofDisk ⟨options.salt, start, mode⟩ s.log.disk = .ok w' d'' ∧
            w'.tail = s.log.writer.tail) ∧
        (d.file.len < FileHeader.size → s.log.disk.file.len = s.log.writer.tail.offset) := by
  obtain ⟨h, ps, rest, hl, hn, hends, hsalt, hshort, -⟩ := Writer.ofDisk_ok hcalm hopen
  obtain rfl : w.header = h := hl.header
  obtain ⟨log, hframes⟩ := hl.frames_eq hn hends
  rw [← hl.offset] at hframes
  refine ⟨_, log, hframes, fun ops hops => ?_⟩
  have hsound : LogSession.Sound ⟨⟨d', w⟩, (Tail.start w.header).frames ps⟩ w.header
      (d.file.len < FileHeader.size) := ⟨ps, rest, hl, hn, rfl, hshort⟩
  obtain ⟨hs, hfit⟩ := hsound.runAll hops
  obtain ⟨hrow, hread⟩ := hs.reads hfit
  rw [hs.header] at hrow
  refine ⟨fun op hop => (hs.step hop).1, hrow, hread, fun hend => ?_, hs.fills⟩
  obtain ⟨hall, hreopen⟩ := hs.ends hend
  refine ⟨hall, fun mode start => ?_⟩
  obtain ⟨w', d'', hopen', -, htail⟩ := hreopen ⟨options.salt, start, mode⟩
    (by rw [hs.header]; exact hsalt.symm)
  exact ⟨w', d'', hopen', htail⟩

/-- A file of a header and a torn byte: the record appended first takes the place of the byte, and
is then all that is read. -/
theorem appended_records_kept_over_torn_byte :
    ∃ w d', Writer.ofDisk ⟨7, 1, .deferred⟩
        (Disk.ofFile ⟨.ofBytes (FileHeader.encode ⟨7, 1⟩ ++ [255]), .memory⟩) = .ok w d' ∧
      LogSession.AllowsAll ⟨⟨d', w⟩, []⟩ [.append [1, 2]] ∧
      ∃ log, Log.frames (LogSession.runAll ⟨⟨d', w⟩, []⟩ [.append [1, 2]]).log =
        .ok ⟨[⟨⟨1, 32, 34⟩, [1, 2]⟩], none, 66⟩ log := by
  have hcalm : (Disk.ofFile ⟨.ofBytes (FileHeader.encode ⟨7, 1⟩ ++ [255]), .memory⟩).Calm :=
    fun _ _ => rfl
  have hd : (Disk.ofFile ⟨.ofBytes (FileHeader.encode ⟨7, 1⟩ ++ [255]), .memory⟩).Holds
      (FileHeader.image ⟨7, 1⟩ [] ++ [255]) := ⟨hcalm, Content.bytes_ofBytes _⟩
  obtain ⟨w, d', hopen, hl, -⟩ := Writer.ofDisk_image ⟨7, 1, .deferred⟩ hd (by simp)
    (FileHeader.numbers_of_le (by decide)) (Scan.outcome_at_limit (by decide)) rfl
  -- the session begins with an empty ledger
  obtain ⟨found, log, hframes, hsession⟩ := appended_records_kept hcalm hopen
  obtain ⟨_, hnone⟩ := hl.frames_eq FileHeader.numbers_zero (Scan.outcome_at_limit (by decide))
  obtain rfl : found = [] := by
    rw [hframes] at hnone
    simp only [EStateM.Result.ok.injEq, Scan.Harvest.mk.injEq] at hnone
    exact hnone.1.1
  -- the record goes where the torn byte stands
  obtain ⟨log', happend, hl', -⟩ := hl.append (show Log.admissible [1, 2] = true by decide)
  have hheader : w.header = ⟨7, 1⟩ := hl.header
  have htail : w.tail = Tail.start ⟨7, 1⟩ := hl.tail
  have hrest : List.drop (w.tail.image [[1, 2]]).length [(255 : UInt8)] = [] := by
    rw [htail]
    decide
  have hstep : LogSession.step ⟨⟨d', w⟩, []⟩ (.append [1, 2]) =
      ⟨log', [⟨w.tail.pointer [1, 2], [1, 2]⟩]⟩ := by
    have hrun : (LogOp.append [1, 2]).run ⟨d', w⟩ = .ok [w.tail.pointer [1, 2]] log' :=
      Act.bind_of_ok happend
    simp only [LogSession.step, hrun]
    rfl
  have hallowed : LogSession.AllowsAll ⟨⟨d', w⟩, []⟩ [.append [1, 2]] := by
    refine ⟨⟨?_, by simp⟩, ?_⟩
    · rw [hheader]
      exact (by decide : 1 + 0 + 1 ≤ 2 ^ 64)
    · rw [hstep, LogSession.AllowsAll, hl'.header]
      exact (by decide : 1 + 1 ≤ 2 ^ 64)
  obtain ⟨-, -, -, hend, -⟩ := hsession _ hallowed
  have hrun : LogSession.runAll ⟨⟨d', w⟩, []⟩ [.append [1, 2]] =
      ⟨log', [⟨w.tail.pointer [1, 2], [1, 2]⟩]⟩ := hstep
  rw [hrun] at hend
  rw [hrest] at hl'
  have hlen : log'.disk.file.len = log'.writer.tail.offset := by
    rw [hl'.disk.fileLen, hl'.offset, List.append_nil]
  obtain ⟨⟨log'', hread⟩, -⟩ := hend hlen
  refine ⟨w, d', hopen, hallowed, log'', ?_⟩
  rw [hrun]
  refine hread.trans ?_
  simp only [hlen, hl'.tail, htail]
  rfl

end PageLog
