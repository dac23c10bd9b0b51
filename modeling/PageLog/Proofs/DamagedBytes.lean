import PageLog.Proofs.CheckValues
import PageLog.Proofs.CutLogs

/-!
# Logs with a damaged byte

Every byte of a log stands in the header of the file, in the header of a frame or in a payload, and
each of these is covered by a check value.  A byte of the file's header that is changed keeps the
file from being opened.  A byte of a frame that is changed ends a scan in front of this frame: a
header whose check value does not fit is no header, whatever number it now carries, and a payload is
looked at only behind its own header.

## Main results

* `FileHeader.decode_set`, `FrameHeader.decode?_set` — headers with a changed byte.
* `Tail.Continues.set`, `Scan.outcome_set` — a frame beside the change, and one that it falls into.
* `Scan.Gives.set` — all frames in front of the change.
* `Scan.reads_of_gives` — all ways of reading.
* `damaged_byte_caught` — **any one damaged byte is caught**.
-/

namespace PageLog

/-! ### Windows -/

/-- The windows of a byte string that a changed byte does not lie in. -/
theorem Bytes.window_set_outside {bs : Bytes} {i off width : Nat} (b : UInt8)
    (hi : i < off ∨ off + width ≤ i) :
    Bytes.window (bs.set i b) off width = Bytes.window bs off width := by
  rw [Bytes.window_eq, Bytes.window_eq, List.length_set]
  split
  · rw [List.drop_set]
    split
    · rfl
    · rw [List.take_set, List.set_eq_of_length_le]
      rw [List.length_take]
      omega
  · rfl

/-- The windows of a byte string that a changed byte lies in. -/
theorem Bytes.window_set_inside {bs : Bytes} {i off width : Nat} (b : UInt8) (hi : off ≤ i) :
    Bytes.window (bs.set i b) off width = (Bytes.window bs off width).map (·.set (i - off) b) := by
  rw [Bytes.window_eq, Bytes.window_eq, List.length_set]
  split
  · rw [List.drop_set, if_neg (Nat.not_lt.2 hi), List.take_set]
    rfl
  · rfl

/-! ### Headers -/

namespace FileHeader

variable {bs : Bytes} {h : FileHeader}

/-- The check value of a header that is read is that of the bytes in front of it. -/
theorem check_of_decode (hd : decode bs = .ok h) :
    crc32 (bs.take 28) = Bytes.toU32 ((bs.drop 28).take 4) := by
  unfold decode at hd
  repeat' split at hd
  all_goals cases hd
  rename_i hcheck
  exact not_not.1 hcheck

/-- A header of a log file that is not the check value's own is refused as damaged. -/
theorem decode_of_check (hcheck : crc32 (bs.take 28) ≠ Bytes.toU32 ((bs.drop 28).take 4)) :
    ∃ damage, decode bs = .error (.corruption damage) := by
  unfold decode
  repeat' split
  all_goals exact ⟨_, rfl⟩

/-- A header of a log file with a changed byte is refused as damaged. -/
theorem decode_set {i : Nat} {b : UInt8} (hlen : bs.length = 32) (hd : decode bs = .ok h)
    (hi : i < bs.length) (hb : b ≠ bs[i]) :
    ∃ damage, decode (bs.set i b) = .error (.corruption damage) :=
  decode_of_check (Bytes.check_set hlen (check_of_decode hd) hi hb)

end FileHeader

/-- A header of a frame with a changed byte is none. -/
theorem FrameHeader.decode?_set (h : FrameHeader) {i : Nat} {b : UInt8} (hi : i < h.encode.length)
    (hb : b ≠ h.encode[i]) : decode? (h.encode.set i b) = none := by
  have hcheck : crc32 (h.encode.take 28) = Bytes.toU32 ((h.encode.drop 28).take 4) := by
    rw [encode, List.take_left' h.length_body, List.drop_left' h.length_body,
      List.take_of_length_le (by simp), Bytes.toU32_bytesOfU32]
  rw [decode?, if_pos (Bytes.check_set h.length_encode hcheck hi hb)]

/-! ### One frame -/

section Frames

variable {bs p : Bytes} {i : Nat} {b : UInt8}

/-- A frame stands in the file as before if the changed byte is not one of its bytes. -/
theorem Tail.Continues.set {t : Tail} (h : t.Continues bs p)
    (hi : i < t.offset ∨ t.offset + 32 + p.length ≤ i) : t.Continues (bs.set i b) p := by
  refine Tail.continues_of_windows h.admissible ?_ ?_
  · rw [Bytes.window_set_outside b (by omega), h.header_window]
  · rw [Bytes.window_set_outside b (by omega), h.payload_window]

namespace Scan

variable {s s' : Scan} {d d' : Disk} {f : Frame}

theorem judge_of_decode? {header : Bytes} (h : FrameHeader.decode? header = none) :
    s.judge header = .ok none := by
  simp only [judge, h]

/-- A byte of a window that is changed is one of the file. -/
theorem getElem_window {off width : Nat} {w : Bytes} (hw : Bytes.window bs off width = some w)
    (hi : off ≤ i) (hin : i - off < w.length) (hlen : i < bs.length) : w[i - off] = bs[i] := by
  have hwidth := Bytes.length_window hw
  rw [Bytes.window_eq] at hw
  split at hw
  · cases hw
    rw [List.getElem_take, List.getElem_drop]
    simp only [Nat.add_sub_cancel' hi]
  · cases hw

/-- A scan stops where it would go on with a frame one of whose bytes is changed. -/
theorem outcome_set (horder : s.header.startLsn ≤ s.tail.nextLsn) (hc : s.tail.Continues bs p)
    (hlow : s.tail.offset ≤ i) (hhigh : i < s.tail.offset + 32 + p.length) (hi : i < bs.length)
    (hb : b ≠ bs[i]) : s.outcome (bs.set i b) = .ok (none, { s with stopped := true }) := by
  unfold outcome
  split
  · rfl
  simp only [FileHeader.size]
  by_cases hheader : i < s.tail.offset + 32
  · -- the changed byte is one of the header
    have hin : i - s.tail.offset < (s.tail.header p).encode.length := by
      rw [FrameHeader.length_encode]
      omega
    have hnone := FrameHeader.decode?_set (s.tail.header p) hin
      (by rwa [getElem_window hc.header_window hlow hin hi])
    simp only [Bytes.window_set_inside b hlow, hc.header_window, Option.map_some,
      judge_of_decode? hnone]
    rfl
  · -- the header is read as before, and says which payload is expected
    have hlow' : s.tail.offset + 32 ≤ i := Nat.not_lt.1 hheader
    have hin : i - (s.tail.offset + 32) < p.length := by omega
    have hcrc : ¬ crc32 (p.set (i - (s.tail.offset + 32)) b) = (s.tail.header p).payloadCrc :=
      crc32_set_ne hin (by rwa [getElem_window hc.payload_window hlow' hin hi])
    simp only [Bytes.window_set_outside b (.inr hlow'), hc.header_window,
      judge_header hc.admissible horder, toNat_payloadLen _ hc.admissible,
      Bytes.window_set_inside b hlow', hc.payload_window, Option.map_some, if_neg hcrc]
    rfl

/-! ### All frames -/

/-- The frames that a scan gives begin where it stands or later. -/
theorem Gives.le_offset {fs : List Frame} {x : EStateM.Result Error Disk Scan} (h : s.Gives d fs x)
    (hd : d.Holds bs) : ∀ g ∈ fs, s.tail.offset ≤ g.pointer.offset := by
  induction h with
  | stop _ => exact fun g hg => (List.not_mem_nil hg).elim
  | fail _ => exact fun g hg => (List.not_mem_nil hg).elim
  | frame hnext _ ih =>
    obtain ⟨-, -, hgoes⟩ := next_progress hnext
    obtain ⟨hd₁, p, -, -, rfl, -⟩ := next_ok hd hnext
    intro g hg
    rcases List.mem_cons.1 hg with rfl | hg
    · exact Nat.le_refl _
    · exact Nat.le_trans (Nat.le_of_lt hgoes) (ih hd₁ g hg)

/-- A scan of the file with a changed byte gives the frames in front of the one that the byte
belongs to, and stops where this one begins. -/
theorem Gives.set {before after : List Frame} {x : EStateM.Result Error Disk Scan}
    (h : s.Gives d (before ++ f :: after) x) (hd : d.Holds bs) (hlimit : s.limit = bs.length)
    (hopen : s.stopped = false) (hlow : f.pointer.offset ≤ i) (hhigh : i < f.stop)
    (hi : i < bs.length) (hb : b ≠ bs[i]) (hd' : d'.Holds (bs.set i b)) :
    ∃ s₁ d₁, s.Gives d' before (.ok s₁ d₁) ∧ s₁.validUpTo = f.pointer.offset ∧
      d₁.Holds (bs.set i b) := by
  have hlimit' : s.limit = (bs.set i b).length := by rw [List.length_set, hlimit]
  induction before generalizing s d d' with
  | nil =>
    cases h with
    | frame hnext hrest =>
      obtain ⟨-, p, hc, horder, rfl, -⟩ := next_ok hd hnext
      have hhigh' : i < s.tail.offset + 32 + p.length := by
        rw [Nat.add_assoc]
        exact hhigh
      obtain ⟨d₁, hnext', hd₁⟩ := next_of_stop hd' (outcome_set horder hc hlow hhigh' hi hb)
      exact ⟨_, d₁, .stop hnext', rfl, hd₁⟩
  | cons g before ih =>
    cases h with
    | @frame _ s₁ _ d₁ _ _ _ hnext hrest =>
      obtain ⟨hd₁, p, hc, horder, rfl, rfl⟩ := next_ok hd hnext
      -- the frame that is changed begins where this one ends or later
      have hbehind : (s.tail.push p).offset ≤ f.pointer.offset :=
        hrest.le_offset hd₁ f (List.mem_append_right _ List.mem_cons_self)
      have hoff : (s.tail.push p).offset = s.tail.offset + (32 + p.length) := rfl
      obtain ⟨d₂, hnext', hd₂⟩ := next_of_continues ⟨hd', hlimit', hopen⟩ horder
        (hc.set (b := b) (.inr (by omega)))
      obtain ⟨s₃, d₃, hgives, hvalid, hd₃⟩ := ih hrest hd₁ hlimit hopen hd₂ hlimit'
      exact ⟨s₃, d₃, .frame hnext' hgives, hvalid, hd₃⟩

end Scan

end Frames

/-! ### Whole files -/

/-- A file of the right length whose first bytes are no header is not opened, for reading or for
going on. -/
theorem Scan.not_opened {d : Disk} {bs : Bytes} {e : Error} (hd : d.Holds bs)
    (hlen : FileHeader.size ≤ bs.length)
    (hheader : FileHeader.decode (bs.take FileHeader.size) = .error e) :
    (∃ d', Scan.existing d = .error e d') ∧
      ∀ options, ∃ d', Writer.ofDisk options d = .error e d' := by
  obtain ⟨d₁, hcall, hd₁⟩ := hd.len
  obtain ⟨d₂, hd₂, hread⟩ := hd₁.read 0 (show 0 < FileHeader.size by decide)
  rw [Bytes.window_eq_some (by omega), List.drop_zero] at hread
  have hfound : readHeader d₁ = .error e d₂ := by
    rw [readHeader, Act.bind_of_ok hread, hheader]
    rfl
  refine ⟨⟨d₂, ?_⟩, fun options => ⟨d₂, ?_⟩⟩
  · rw [existing, Act.bind_of_ok hcall]
    simp only [if_neg (Nat.not_lt.2 hlen)]
    rw [Act.bind_of_error hfound]
  · have hrecognize : Writer.recognize options.salt d₁ = .error e d₂ := Act.bind_of_error hfound
    rw [Writer.ofDisk, Act.bind_of_ok hcall]
    simp only [if_neg (Nat.not_lt.2 hlen)]
    rw [Act.bind_of_error hrecognize]

/-- A file whose frames can be read to an end is opened as a log that goes on there. -/
theorem Writer.ofDisk_of_gives {options : LogOptions} {d : Disk} {bs : Bytes} {h : FileHeader}
    {fs : List Frame} {n : Nat} (hd : d.Holds bs) (hheader : h.encode <+: bs)
    (hsalt : options.salt = h.salt)
    (hgives : ∀ d₁, d₁.Holds bs → ∃ s d₂, (Scan.whole h bs.length).Gives d₁ fs (.ok s d₂) ∧
      s.validUpTo = n ∧ d₂.Holds bs) :
    ∃ w d', ofDisk options d = .ok w d' ∧ d'.Holds bs ∧ w.header = h ∧ w.tail.offset = n := by
  have hlen : FileHeader.size ≤ bs.length := by
    rw [FileHeader.size, ← h.length_encode]
    exact hheader.length_le
  obtain ⟨d₁, hcall, hd₁⟩ := hd.len
  obtain ⟨d₂, hrecognize, hd₂⟩ := recognize_ok hd₁ hheader hsalt
  obtain ⟨d₃, hscan, hd₃⟩ := Scan.ofHeader_ok (h := h) hd₂ hlen
  obtain ⟨s, d₄, hreads, hvalid, hd₄⟩ := hgives d₃ hd₃
  have hend := Scan.toEnd_of_forEach (hreads.forEach_ok (Scan.pass_frames fs))
  refine ⟨⟨options.mode, h, s.tail, .zero⟩, d₄, ?_, hd₄, rfl, hvalid⟩
  rw [ofDisk, Act.bind_of_ok hcall]
  simp only [if_neg (Nat.not_lt.2 hlen)]
  rw [Act.bind_of_ok hrecognize, Act.bind_of_ok hscan, Act.bind_of_ok hend]
  rfl

/-- The frames that any scan of a file gives are read from it in all ways: as an existing log, from
a log that is open, and when a log is opened in it. -/
theorem Scan.reads_of_gives {d : Disk} {bs : Bytes} {h : FileHeader} {fs : List Frame} {n : Nat}
    (hd : d.Holds bs) (hlen : FileHeader.size ≤ bs.length)
    (hheader : FileHeader.decode (bs.take FileHeader.size) = .ok h)
    (hgives : ∀ d₁, d₁.Holds bs → ∃ s d₂, (Scan.whole h bs.length).Gives d₁ fs (.ok s d₂) ∧
      s.validUpTo = n ∧ d₂.Holds bs) :
    (∃ s d', Scan.existing d = .ok s d' ∧ (s.harvest d').1 = ⟨fs, none, n⟩) ∧
      (∀ w : Writer, w.header = h → ∃ log, Log.frames ⟨d, w⟩ = .ok ⟨fs, none, n⟩ log) ∧
      ∀ options : LogOptions, options.salt = h.salt → ∃ w d',
        Writer.ofDisk options d = .ok w d' ∧ w.header = h ∧ w.tail.offset = n := by
  refine ⟨?_, fun w hw => ?_, fun options hsalt => ?_⟩
  · obtain ⟨d₁, hopen, hd₁⟩ := Scan.existing_ok hd hlen hheader
    obtain ⟨s, d₂, hreads, hvalid, -⟩ := hgives d₁ hd₁
    refine ⟨_, d₁, hopen, ?_⟩
    rw [hreads.harvest_ok, hvalid]
  · have hlog : Disk.Holds (Log.mk d w).disk bs := hd
    obtain ⟨d₁, log, hd₁, hframes⟩ := Log.frames_of_holds hlog hlen
    obtain ⟨s, d₂, hreads, hvalid, -⟩ := hgives d₁ hd₁
    refine ⟨log, ?_⟩
    rw [hframes, hw, hreads.harvest_ok, hvalid]
  · have hbegins : h.encode <+: bs := by
      rw [← FileHeader.encode_of_decode (List.length_take_of_le hlen) hheader]
      exact List.take_prefix ..
    obtain ⟨w, d', hopen, -, hw, hoffset⟩ := Writer.ofDisk_of_gives hd hbegins hsalt hgives
    exact ⟨w, d', hopen, hw, hoffset⟩

/-- **Any one damaged byte is caught.**  A file holds a log, and one of its bytes is changed to
another value.  If it is one of the header, the file is refused as damaged, whether it is to be read
or gone on with.  If it is one of a frame that was read, the changed file is opened, and just the
frames in front of this one are read from it, without a failure; it is found valid up to where this
frame begins, and a log that is opened in it goes on there. -/
theorem damaged_byte_caught {disk changed : Disk} {bs : Bytes} {h : FileHeader} {i : Nat}
    {b : UInt8} (hdisk : disk.Holds bs)
    (hheader : FileHeader.decode (bs.take FileHeader.size) = .ok h)
    (hi : i < bs.length) (hb : b ≠ bs[i]) (hchanged : changed.Holds (bs.set i b)) :
    (i < FileHeader.size → ∃ damage,
      (∃ d, Scan.existing changed = .error (.corruption damage) d) ∧
      ∀ options, ∃ d, Writer.ofDisk options changed = .error (.corruption damage) d) ∧
    ∃ s d, Scan.existing disk = .ok s d ∧
      ∀ before f after, (s.harvest d).1.frames = before ++ f :: after →
        f.pointer.offset ≤ i → i < f.stop →
        (∃ s' d', Scan.existing changed = .ok s' d' ∧
          (s'.harvest d').1 = ⟨before, none, f.pointer.offset⟩) ∧
        (∀ w : Writer, w.header = h → ∃ log,
          Log.frames ⟨changed, w⟩ = .ok ⟨before, none, f.pointer.offset⟩ log) ∧
        ∀ options : LogOptions, options.salt = h.salt → ∃ w d',
          Writer.ofDisk options changed = .ok w d' ∧ w.header = h ∧
            w.tail.offset = f.pointer.offset := by
  have hlen : FileHeader.size ≤ bs.length := by
    by_contra hshort
    rw [FileHeader.decode, if_pos (by rw [List.length_take]; omega)] at hheader
    cases hheader
  have hlen' : FileHeader.size ≤ (bs.set i b).length := by rwa [List.length_set]
  have hfront : (bs.take FileHeader.size).length = 32 := List.length_take_of_le hlen
  constructor
  · intro hin
    -- every byte of the header is checked
    have hin' : i < (bs.take FileHeader.size).length := by rwa [hfront]
    obtain ⟨damage, hdamage⟩ := FileHeader.decode_set hfront hheader hin'
      (by rwa [List.getElem_take])
    rw [← List.take_set] at hdamage
    exact ⟨damage, Scan.not_opened hchanged hlen' hdamage⟩
  · obtain ⟨d, hopen, hd⟩ := Scan.existing_ok hdisk hlen hheader
    refine ⟨_, d, hopen, fun before f after hframes hlow hhigh => ?_⟩
    obtain ⟨fs, x, hgives⟩ := (Scan.whole h bs.length).exists_gives d
    obtain rfl : fs = before ++ f :: after := by rw [← hframes, hgives.frames_harvest]
    -- whichever way the changed file is read, the scan gives the same frames and ends there
    have hreads : ∀ d₁, d₁.Holds (bs.set i b) → ∃ s d₂,
        (Scan.whole h (bs.set i b).length).Gives d₁ before (.ok s d₂) ∧
          s.validUpTo = f.pointer.offset ∧ d₂.Holds (bs.set i b) := by
      intro d₁ hd₁
      rw [List.length_set]
      exact hgives.set hd rfl rfl hlow hhigh hi hb hd₁
    -- the first frame stands behind the header of the file, which is therefore as it was
    have hbehind : FileHeader.size ≤ i :=
      (hgives.le_offset hd f (List.mem_append_right _ List.mem_cons_self)).trans hlow
    have hheader' : FileHeader.decode ((bs.set i b).take FileHeader.size) = .ok h := by
      rwa [List.take_set, List.set_eq_of_length_le (by rw [hfront]; exact hbehind)]
    exact Scan.reads_of_gives hchanged hlen' hheader' hreads

/-- Two frames, the second of which is given the number 0, which is below the first number of the
log: the frame is not found, and the log is not said to be damaged either. -/
theorem damaged_byte_caught_of_lowered_number :
    let h : FileHeader := ⟨7, 1⟩
    let bs := h.image [[1, 2], [3]]
    let changed : Disk := .ofFile ⟨.ofBytes (bs.set 73 0), .memory⟩
    bs[73]? = some 2 ∧ ∃ s d, Scan.existing (.ofFile ⟨.ofBytes bs, .memory⟩) = .ok s d ∧
      (s.harvest d).1.frames = [⟨⟨1, 32, 34⟩, [1, 2]⟩, ⟨⟨2, 66, 33⟩, [3]⟩] ∧
      ∃ s' d', Scan.existing changed = .ok s' d' ∧
        (s'.harvest d').1 = ⟨[⟨⟨1, 32, 34⟩, [1, 2]⟩], none, 66⟩ := by
  intro h bs changed
  have hbyte : bs[73]? = some 2 := by decide +kernel
  obtain ⟨hi, hold⟩ := List.getElem?_eq_some_iff.1 hbyte
  have hdisk : (Disk.ofFile ⟨.ofBytes bs, .memory⟩).Holds bs :=
    ⟨fun _ _ => rfl, Content.bytes_ofBytes _⟩
  have hchanged : changed.Holds (bs.set 73 0) := ⟨fun _ _ => rfl, Content.bytes_ofBytes _⟩
  have hheader : FileHeader.decode (bs.take FileHeader.size) = .ok h :=
    FileHeader.decode_of_prefix ⟨_, rfl⟩
  obtain ⟨-, s, d, hopen, hreads⟩ := damaged_byte_caught hdisk hheader hi
    (by rw [hold]; decide) hchanged
  -- the frames of the file as it was are those for its payloads
  obtain ⟨d', hopen', hd⟩ := Scan.existing_ok hdisk (by decide) hheader
  rw [hopen] at hopen'
  cases hopen'
  have hall : h.image [[1, 2], [3]] ++ [] = bs := List.append_nil _
  rw [← hall] at hd
  obtain ⟨d₁, -, hwalk⟩ := Scan.forEach_image hd (by decide) (FileHeader.numbers_of_le (by decide))
    (h.ends_nil _) (Scan.collect_frames _ [])
  rw [hall, List.append_nil] at hwalk
  have hframes : (Tail.start h).frames [[1, 2], [3]] =
      [⟨⟨1, 32, 34⟩, [1, 2]⟩, ⟨⟨2, 66, 33⟩, [3]⟩] := by decide +kernel
  have hharvest := Scan.harvest_eq hwalk
  rw [hframes] at hharvest
  obtain ⟨⟨s', d', hexisting, hfound⟩, -⟩ := hreads [⟨⟨1, 32, 34⟩, [1, 2]⟩]
    ⟨⟨2, 66, 33⟩, [3]⟩ [] (by rw [hharvest]; rfl) (by decide) (by decide)
  exact ⟨hbyte, _, _, hopen, by rw [hharvest], s', d', hexisting, hfound⟩

end PageLog
