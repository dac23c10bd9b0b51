import PageLog.Proofs.LogSession

/-!
# Frames left from an earlier log

A log that is opened ends where its file stops to fit, and what follows in the file is left there.
Records that are appended later are written over it piece by piece.  Whenever the end of the log
comes to lie at the beginning of a frame that is still whole, this frame is read again if it fits:
if the chain value and the number that it carries are those of the log as it is now.

## Main definitions

* `LogSession.Over` — a session that wrote over the bytes of a file.
* `LogSession.Revives` — the old bytes go on with a frame that fits.

## Main results

* `Scan.Gives.row`, `Scan.Gives.first` — a scan through a row of frames, and behind it.
* `Tail.Continues.eq_of_offset` — a frame fits behind one state only.
* `stale_frames_iff` — **old frames are read again just when they fit**.
-/

namespace PageLog

/-! ### Scans of a file -/

namespace Scan

variable {s : Scan} {d d' : Disk} {bs : Bytes} {fs : List Frame}
  {x : EStateM.Result Error Disk Scan}

/-- A scan gives nothing, or first the frame that the file goes on with. -/
theorem Gives.first (h : s.Gives d fs x) (hd : d.Holds bs) :
    fs = [] ∨ ∃ p gs, s.tail.Continues bs p ∧ s.header.startLsn ≤ s.tail.nextLsn ∧
      fs = ⟨s.tail.pointer p, p⟩ :: gs := by
  cases h with
  | stop hnext => exact .inl rfl
  | fail hnext => exact .inl rfl
  | frame hnext hrest =>
    rcases next_ok hd hnext with ⟨-, p, hc, horder, rfl, -⟩
    exact .inr ⟨p, _, hc, horder, rfl⟩

/-- The frame that the file goes on with is given, and then what the scan behind it gives. -/
theorem Gives.of_continues {p : Bytes} (h : s.Gives d fs x) (hfile : s.OnFile d bs)
    (horder : s.header.startLsn ≤ s.tail.nextLsn) (hc : s.tail.Continues bs p) :
    ∃ d₁ gs, fs = ⟨s.tail.pointer p, p⟩ :: gs ∧
      Gives { s with tail := s.tail.push p } d₁ gs x ∧
      OnFile { s with tail := s.tail.push p } d₁ bs := by
  rcases next_of_continues hfile horder hc with ⟨d₁, hfound, hd₁⟩
  cases h with
  | stop hnext =>
    rw [hnext] at hfound
    cases hfound
  | fail hnext =>
    rw [hnext] at hfound
    cases hfound
  | frame hnext hrest =>
    rw [hnext] at hfound
    cases hfound
    exact ⟨d₁, _, rfl, hrest, hd₁, hfile.limit, hfile.open_⟩

/-- A scan of a file that goes on with a row of frames gives the row, and then what the scan behind
the row gives, unless numbers below the first one end it before. -/
theorem Gives.row {ps : List Bytes} (h : s.Gives d fs x) (hfile : s.OnFile d bs)
    (hps : ∀ p ∈ ps, Log.admissible p = true) (hbytes : s.tail.image ps <+: bs.drop s.tail.offset) :
    (fs <+: s.tail.frames ps ∧
        ∃ i < ps.length, ¬s.header.startLsn ≤ s.tail.nextLsn + UInt64.ofNat i) ∨
      (∀ i < ps.length, s.header.startLsn ≤ s.tail.nextLsn + UInt64.ofNat i) ∧
        ∃ d₁ gs, fs = s.tail.frames ps ++ gs ∧
          Gives { s with tail := s.tail.pushAll ps } d₁ gs x ∧
          OnFile { s with tail := s.tail.pushAll ps } d₁ bs := by
  induction ps generalizing s d fs with
  | nil => exact .inr ⟨fun i hi => absurd hi (Nat.not_lt_zero i), d, fs, rfl, h, hfile⟩
  | cons p ps ih =>
    rcases Tail.continues_of_image (hps p (by simp)) hbytes with ⟨hc, hbytes'⟩
    -- the row is given frame by frame, up to a number that is too low
    by_cases horder : s.header.startLsn ≤ s.tail.nextLsn
    · rcases h.of_continues hfile horder hc with ⟨d₁, gs, rfl, hgives, hfile₁⟩
      have hshift : ∀ i, s.tail.nextLsn + 1 + UInt64.ofNat i =
          s.tail.nextLsn + UInt64.ofNat (i + 1) := by
        intro i
        rw [Nat.add_comm i 1, UInt64.ofNat_add, UInt64.add_assoc]
        rfl
      rcases ih hgives hfile₁ (fun q hq => hps q (by simp [hq])) hbytes' with
        ⟨hfront, i, hi, hbelow⟩ | ⟨horders, d₂, gs', rfl, hgives', hfile₂⟩
      · refine .inl ⟨by simpa using hfront, i + 1, by simpa using hi, ?_⟩
        rw [← hshift]
        exact hbelow
      · refine .inr ⟨fun i hi => ?_, d₂, gs', by simp, hgives', hfile₂⟩
        cases i with
        | zero => simpa using horder
        | succ i =>
          rw [← hshift]
          exact horders i (by simpa using hi)
    · rcases h.first hfile.disk with rfl | ⟨q, gs, -, horder', -⟩
      · exact .inl ⟨List.nil_prefix, 0, by simp, by simpa using horder⟩
      · exact absurd horder' horder

end Scan

/-- The header of a frame tells the number and the chain value of the log behind which it was
written, so that the frame fits behind no other state. -/
theorem Tail.Continues.eq_of_offset {t t' : Tail} {bs p q : Bytes} (h : t.Continues bs p)
    (h' : t'.Continues bs q) (hoff : t'.offset = t.offset) : t' = t := by
  have hwindow := h'.header_window
  rw [hoff, h.header_window, Option.some.injEq] at hwindow
  have hheader : t.header p = t'.header q := by
    have hdecode := FrameHeader.decode?_encode (t.header p)
    rw [hwindow, FrameHeader.decode?_encode, Option.some.injEq] at hdecode
    exact hdecode.symm
  have hchain : t.chain = t'.chain := congrArg FrameHeader.chain hheader
  have hlsn : t.nextLsn = t'.nextLsn := congrArg FrameHeader.lsn hheader
  cases t
  cases t'
  simp only at hoff hchain hlsn
  rw [hoff, hchain, hlsn]

/-! ### Sessions -/

namespace LogSession

/-- The session has appended records over a file that had the bytes `bytes`. -/
structure Over (s : LogSession) (h : FileHeader) (bytes : Bytes) (ps : List Bytes) : Prop where
  /-- Behind the last record the file is as it was. -/
  log : s.log.Holds h ps (bytes.drop (h.image ps).length)
  /-- The ledger tells the records. -/
  ledger : s.ledger = (Tail.start h).frames ps

variable {s : LogSession} {h : FileHeader} {bytes : Bytes} {ps : List Bytes} {op : LogOp}

theorem Over.step (hs : s.Over h bytes ps) (happend : ∀ off, op ≠ .truncateTo off) :
    ∃ ps', (s.step op).Over h bytes ps' := by
  by_cases hbad : ∃ p ∈ op.payloads, Log.admissible p = false
  · rcases hbad with ⟨p, hp, hpbad⟩
    have hrun := LogOp.run_refused s.log hp hpbad
    refine ⟨ps, ?_⟩
    simpa only [LogSession.step, hrun] using hs
  · have hall : ∀ p ∈ op.payloads, Log.admissible p = true := by
      intro p hp
      cases hadm : Log.admissible p with
      | true => rfl
      | false => exact absurd ⟨p, hp, hadm⟩ hbad
    rcases LogOp.run_appends hs.log happend hall with ⟨log', hrun, hl'⟩
    refine ⟨ps ++ op.payloads, ?_, ?_⟩
    · rw [List.drop_drop, hs.log.tail, ← List.length_append, ← FileHeader.image_append] at hl'
      simpa only [LogSession.step, hrun] using hl'
    · simp only [LogSession.step, hrun, LogOp.filter_keeps happend]
      rw [Tail.zipWith_pointers, hs.ledger, Tail.frames_append, hs.log.tail]

theorem Over.runAll {ops : List LogOp} (hs : s.Over h bytes ps)
    (happend : ∀ op ∈ ops, ∀ off, op ≠ .truncateTo off) :
    ∃ ps', (s.runAll ops).Over h bytes ps' := by
  induction ops generalizing s ps with
  | nil => exact ⟨ps, hs⟩
  | cons op ops ih =>
    rcases hs.step (happend op (by simp)) with ⟨ps', hs'⟩
    exact ih hs' fun op' hop' => happend op' (by simp [hop'])

/-- The bytes that stood in the file before the session go on, behind the last record of the log,
with a frame that fits the log as it is now. -/
def Revives (s : LogSession) (bytes : Bytes) : Prop :=
  s.log.writer.header.Numbers (s.ledger.length + 1) ∧ ∃ p, s.log.writer.tail.Continues bytes p

/-- What is read from the log is the ledger, but for an old frame that fits behind it. -/
theorem Over.reads (hs : s.Over h bytes ps) {read : Scan.Harvest} {log : Log}
    (hread : Log.frames s.log = .ok read log) :
    (∀ f ∈ read.frames, f ∈ s.ledger ∧ f.pointer.offset < s.log.writer.tail.offset) ↔
      ¬s.Revives bytes := by
  have hl := hs.log
  have htail := hl.tail
  generalize hbs : h.image ps ++ bytes.drop (h.image ps).length = bs
  have hdisk : s.log.disk.Holds bs := by
    rw [← hbs]
    exact hl.disk
  have hlen : FileHeader.size ≤ bs.length := by
    rw [← hbs]
    exact Log.size_le_image ..
  rcases Log.frames_of_holds hdisk hlen with ⟨d₁, log', hd₁, hread'⟩
  rw [hread, hl.header] at hread'
  cases hread'
  rcases (Scan.whole h bs.length).exists_gives d₁ with ⟨fs, x, hgives⟩
  have hfile : (Scan.whole h bs.length).OnFile d₁ bs := ⟨hd₁, rfl, rfl⟩
  have himage : (Tail.start h).image ps <+: bs.drop FileHeader.size := by
    refine ⟨bytes.drop (h.image ps).length, ?_⟩
    rw [← hbs, FileHeader.image, List.append_assoc]
    exact (List.drop_left' h.length_encode).symm
  -- behind the ledger the file is as it was
  have hbehind : bs.drop ((Tail.start h).pushAll ps).offset =
      bytes.drop ((Tail.start h).pushAll ps).offset := by
    rw [← FileHeader.length_image, ← hbs, List.drop_left' rfl]
  have hledger : ∀ f ∈ (Tail.start h).frames ps,
      f ∈ s.ledger ∧ f.pointer.offset < s.log.writer.tail.offset := by
    intro f hf
    rw [hs.ledger, htail]
    exact ⟨hf, Tail.offset_lt_of_mem_frames hf⟩
  rw [hgives.frames_harvest, Revives, hl.header, htail, hs.ledger, Tail.length_frames]
  rw [htail, hs.ledger] at hledger
  rcases hgives.row hfile hl.admissible himage with
    ⟨hfront, i, hi, hbelow⟩ | ⟨horders, d₂, gs, rfl, hgives', hfile'⟩
  · -- the numbers ran past the last one: then only frames of the ledger are read
    refine ⟨fun _ hrevives => hbelow (hrevives.1 i (by omega)), fun _ f hf => ?_⟩
    exact hledger f (hfront.subset hf)
  · have hnext : ((Tail.start h).pushAll ps).nextLsn = h.startLsn + UInt64.ofNat ps.length :=
      Tail.nextLsn_pushAll ..
    rcases hgives'.first hfile'.disk with rfl | ⟨p, gs', hc, horder, rfl⟩
    · rw [List.append_nil]
      refine ⟨fun _ => ?_, fun _ => hledger⟩
      rintro ⟨hn, p, hc⟩
      -- the scan would have given the frame
      have hc' : ((Tail.start h).pushAll ps).Continues bs p :=
        ⟨hc.admissible, by rw [hbehind]; exact hc.bytes⟩
      have horder : h.startLsn ≤ ((Tail.start h).pushAll ps).nextLsn := by
        rw [hnext]
        exact hn ps.length (Nat.lt_succ_self _)
      rcases hgives'.of_continues hfile' horder hc' with ⟨_, _, hgiven, -⟩
      cases hgiven
    · -- a frame is read behind the ledger, and it is the one that the old bytes go on with
      refine ⟨fun hall => ?_, fun hnot => absurd ⟨?_, p, hc.admissible, ?_⟩ hnot⟩
      · have hlt := (hall ⟨((Tail.start h).pushAll ps).pointer p, p⟩
          (List.mem_append_right _ List.mem_cons_self)).2
        exact absurd hlt (Nat.lt_irrefl _)
      · intro i hi
        rcases Nat.lt_succ_iff_lt_or_eq.1 hi with hi | rfl
        · exact horders i hi
        · rw [← hnext]
          exact horder
      · rw [← hbehind]
        exact hc.bytes

end LogSession

/-- **Old frames are read again just when they fit.**  A log is opened from any file, and records
are appended in any way; some may be refused.  What is read then, from this log or from the log that
is opened from its file, consists of the frames that were found at first and those appended since,
all of them in front of the place where the log goes on, unless the file, as it was when it was
opened, has a frame at this place that fits: a frame that was written at this place of a log in the
very state in which the log is now. -/
theorem stale_frames_iff {d d' : Disk} {options : LogOptions} {w : Writer} (hcalm : d.Calm)
    (hopen : Writer.ofDisk options d = .ok w d') :
    ∃ found log, Log.frames ⟨d', w⟩ = .ok ⟨found, none, w.tail.offset⟩ log ∧
      ∀ ops : List LogOp, (∀ op ∈ ops, ∀ off, op ≠ .truncateTo off) →
        let s := LogSession.runAll ⟨⟨d', w⟩, found⟩ ops
        ∃ read log, Log.frames s.log = .ok read log ∧
          (∀ mode start w' d'',
            Writer.ofDisk ⟨options.salt, start, mode⟩ s.log.disk = .ok w' d'' →
            ∃ log, Log.frames ⟨d'', w'⟩ = .ok read log) ∧
          ((∀ f ∈ read.frames, f ∈ s.ledger ∧ f.pointer.offset < s.log.writer.tail.offset) ↔
            ¬s.Revives d'.file.bytes) ∧
          ∀ t p, t.offset = s.log.writer.tail.offset → t.Continues d'.file.bytes p →
            s.Revives d'.file.bytes → s.log.writer.tail = t := by
  rcases Writer.ofDisk_ok hcalm hopen with ⟨h, ps, rest, hl, hn, hends, -⟩
  rcases hl.frames_eq hn hends with ⟨log, hframes⟩
  rw [← hl.offset] at hframes
  refine ⟨_, log, hframes, fun ops happend => ?_⟩
  -- at first the ledger is what was found, and the file behind it is as it was
  have hbegin : LogSession.Over ⟨⟨d', w⟩, (Tail.start h).frames ps⟩ h d'.file.bytes ps := by
    refine ⟨?_, rfl⟩
    rw [hl.disk.bytes, List.drop_left' rfl]
    exact hl
  rcases hbegin.runAll happend with ⟨qs, hs⟩
  generalize LogSession.runAll ⟨⟨d', w⟩, (Tail.start h).frames ps⟩ ops = s at hs
  have hlen : FileHeader.size ≤
      (h.image qs ++ d'.file.bytes.drop (h.image qs).length).length := Log.size_le_image ..
  rcases Log.frames_of_holds hs.log.disk hlen with ⟨d₁, log₁, hd₁, hread⟩
  refine ⟨_, log₁, hread, fun mode start w' d'' hreopen => ?_, hs.reads hread, ?_⟩
  · -- the same bytes are found, with the same header
    rcases Writer.ofDisk_keeps hs.log.disk hlen hreopen with ⟨hd'', hheader⟩
    have hsame : w'.header = s.log.writer.header := by
      rw [hs.log.header]
      exact FileHeader.eq_of_begins hheader ⟨_, by rw [FileHeader.image, List.append_assoc]⟩
    rcases @Log.frames_of_holds ⟨d'', w'⟩ _ hd'' hlen with ⟨d₂, log₂, hd₂, hread₂⟩
    refine ⟨log₂, ?_⟩
    rw [hread₂]
    simp only [hsame]
    rw [Scan.harvest_congr _ hd₁ hd₂]
  · -- two frames that fit at one place were written in the same state
    intro t p hoff hc hrevives
    rcases hrevives.2 with ⟨q, hq⟩
    exact hc.eq_of_offset hq hoff.symm

/-- A log of two records, the first of which was damaged. -/
def damagedLog : Bytes :=
  FileHeader.encode ⟨7, 1⟩ ++ ((Tail.start ⟨7, 1⟩).header [1]).encode ++ [254] ++
    ((Tail.start ⟨7, 1⟩).push [1]).image [[2]]

/-- Another record is appended in place of the damaged one, and the second one stays away: the chain
value in its frame is not that of the log any more. -/
theorem stale_frames_iff_of_other_record :
    ∃ w d', Writer.ofDisk ⟨7, 1, .deferred⟩ (Disk.ofFile ⟨.ofBytes damagedLog, .memory⟩) =
        .ok w d' ∧
      ∃ read log, Log.frames (LogSession.runAll ⟨⟨d', w⟩, []⟩ [.append [3]]).log = .ok read log ∧
        ∀ f ∈ read.frames, f.pointer.offset < 65 := by
  have hcalm : (Disk.ofFile ⟨.ofBytes damagedLog, .memory⟩).Calm := fun _ _ => rfl
  have hrun : (Log.opened ⟨7, 1, .deferred⟩ (Disk.ofFile ⟨.ofBytes damagedLog, .memory⟩)).map
      (fun log => (log.found, log.disk.file.bytes,
        (LogSession.runAll ⟨log, []⟩ [.append [3]]).log.writer.tail)) =
      some ([], damagedLog, (Tail.start ⟨7, 1⟩).push [3]) := by
    decide +kernel
  rcases Option.map_eq_some_iff.1 hrun with ⟨⟨d', w⟩, hlog, hstate⟩
  simp only [Prod.mk.injEq] at hstate
  rcases hstate with ⟨hnone, hbytes, htail⟩
  have hopen := Log.opened_eq_some.1 hlog
  rcases stale_frames_iff hcalm hopen with ⟨found, log, hfound, hsession⟩
  obtain rfl : found = [] := by
    rw [Log.found, hfound] at hnone
    exact hnone
  rcases hsession [.append [3]] (by simp) with ⟨read, log', hread, -, hiff, hstate⟩
  refine ⟨w, d', hopen, read, log', hread, fun f hf => ?_⟩
  have hlt := (hiff.2 (fun hrevives => ?_) f hf).2
  · rw [htail] at hlt
    exact hlt
  · -- the second record was written behind the one that was damaged
    have hold : ((Tail.start ⟨7, 1⟩).push [1]).Continues damagedLog [2] :=
      ⟨by decide, by decide +kernel⟩
    have hsame := hstate ((Tail.start ⟨7, 1⟩).push [1]) [2] (by rw [htail]; rfl)
      (by rw [hbytes]; exact hold) hrevives
    rw [htail] at hsame
    exact absurd hsame (by decide +kernel)

/-- The damaged record is appended again.  This brings the log into the very state behind which the
second record was written, and it is read again. -/
theorem stale_frame_read_again :
    ∃ w d', Writer.ofDisk ⟨7, 1, .deferred⟩ (Disk.ofFile ⟨.ofBytes damagedLog, .memory⟩) =
        .ok w d' ∧ Log.found ⟨d', w⟩ = [] ∧
      let s := LogSession.runAll ⟨⟨d', w⟩, []⟩ [.append [1]]
      s.ledger = [⟨⟨1, 32, 33⟩, [1]⟩] ∧ s.log.writer.tail.offset = 65 ∧
        s.log.found = [⟨⟨1, 32, 33⟩, [1]⟩, ⟨⟨2, 65, 33⟩, [2]⟩] := by
  have hrun : (Log.opened ⟨7, 1, .deferred⟩ (Disk.ofFile ⟨.ofBytes damagedLog, .memory⟩)).map
      (fun log => (log.found, (LogSession.runAll ⟨log, []⟩ [.append [1]]).ledger,
        (LogSession.runAll ⟨log, []⟩ [.append [1]]).log.writer.tail.offset,
        (LogSession.runAll ⟨log, []⟩ [.append [1]]).log.found)) =
      some ([], [⟨⟨1, 32, 33⟩, [1]⟩], 65, [⟨⟨1, 32, 33⟩, [1]⟩, ⟨⟨2, 65, 33⟩, [2]⟩]) := by
    decide +kernel
  rcases Option.map_eq_some_iff.1 hrun with ⟨⟨d', w⟩, hlog, hstate⟩
  simp only [Prod.mk.injEq] at hstate
  exact ⟨w, d', Log.opened_eq_some.1 hlog, hstate⟩

end PageLog
