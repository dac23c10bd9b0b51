import PageLog.Proofs.Disk
import PageLog.Proofs.Frames

/-!
# What a scan finds

A scan goes on exactly where the bytes of the file go on with a frame that fits the state of the
log: with the header that this frame would be given, and its payload.  Hence a scan of a file that
holds a row of frames finds the row, and whatever a scan finds is such a row.

## Main definitions

* `Tail.Continues` — the bytes of a file go on with the frame for a payload.
* `Scan.OnFile` — a scan under way on a file with certain bytes.
* `Scan.outcome` — the next frame, by the bytes of the file.
* `Scan.Ahead` — the file goes on with the frames for certain payloads.
* `Scan.Gives` — the frames that a scan gives one after the other, and how it ends.

## Main results

* `Scan.next_eq` — the next frame depends only on the bytes of the file.
* `Scan.next_of_continues`, `Scan.next_ok`, `Scan.next_none` — one frame further.
* `Scan.outcome_at_limit`, `Scan.outcome_torn` — where a scan ends.
* `Scan.forEach_frames`, `Scan.seek_frames` — through a row of frames.
* `Scan.forEach_ok` — what a scan that came to the end has found.
* `Scan.Gives.forEach_ok`, `Scan.Gives.forEach_error` — a walk visits the frames of the scan.
* `Scan.Gives.increasing` — the numbers of these frames increase.
* `Scan.gives_below` — where the numbers run past the last one, the scan ends in damage.
-/

namespace PageLog

/-- The bytes of a file go on, behind the state `t`, with the frame for the payload `p`. -/
structure Tail.Continues (t : Tail) (bs p : Bytes) : Prop where
  /-- A frame can carry the payload. -/
  admissible : Log.admissible p = true
  /-- Its bytes stand in the file. -/
  bytes : (t.header p).encode ++ p <+: bs.drop t.offset

theorem Log.admissible_iff {p : Bytes} :
    Log.admissible p = true ↔ 0 < p.length ∧ p.length ≤ maxPayload := by
  simp [Log.admissible, List.length_pos_iff]

namespace Tail.Continues

variable {t : Tail} {bs p : Bytes}

theorem room (h : t.Continues bs p) : t.offset + 32 + p.length ≤ bs.length := by
  have hpos := (Log.admissible_iff.1 h.admissible).1
  have hlen := h.bytes.length_le
  rw [List.length_append, FrameHeader.length_encode, List.length_drop] at hlen
  omega

theorem header_window (h : t.Continues bs p) :
    Bytes.window bs t.offset 32 = some (t.header p).encode := by
  obtain ⟨rest, hrest⟩ := h.bytes
  have hroom := h.room
  rw [Bytes.window_eq_some (by omega), ← hrest, List.append_assoc, List.take_left' (by simp)]

theorem payload_window (h : t.Continues bs p) :
    Bytes.window bs (t.offset + 32) p.length = some p := by
  obtain ⟨rest, hrest⟩ := h.bytes
  have hroom := h.room
  rw [Bytes.window_eq_some (by omega), ← List.drop_drop, ← hrest, List.append_assoc,
    List.drop_left' (by simp), List.take_left' rfl]

end Tail.Continues

/-- A frame stands in a file where its header and its payload do. -/
theorem Tail.continues_of_windows {t : Tail} {bs p : Bytes} (hp : Log.admissible p = true)
    (hheader : Bytes.window bs t.offset 32 = some (t.header p).encode)
    (hpayload : Bytes.window bs (t.offset + 32) p.length = some p) : t.Continues bs p := by
  have hroom : t.offset + 32 + p.length ≤ bs.length := by
    rw [Bytes.window_eq] at hpayload
    split at hpayload
    · assumption
    · cases hpayload
  rw [Bytes.window_eq_some (by omega), Option.some.injEq] at hheader hpayload
  refine ⟨hp, (bs.drop t.offset).drop (32 + p.length), ?_⟩
  have htake : (t.header p).encode ++ p = (bs.drop t.offset).take (32 + p.length) := by
    rw [List.take_add, hheader, List.drop_drop, hpayload]
  rw [htake, List.take_append_drop]

/-- A file that goes on with a row of frames goes on with the first, and behind it with the
others. -/
theorem Tail.continues_of_image {t : Tail} {bs p : Bytes} {ps : List Bytes}
    (hp : Log.admissible p = true) (hbytes : t.image (p :: ps) <+: bs.drop t.offset) :
    t.Continues bs p ∧ (t.push p).image ps <+: bs.drop (t.push p).offset := by
  rw [Tail.image_cons, ← List.append_assoc] at hbytes
  refine ⟨⟨hp, (List.prefix_append ..).trans hbytes⟩, ?_⟩
  obtain ⟨rest, hrest⟩ := hbytes
  refine ⟨rest, ?_⟩
  rw [Tail.offset_push, ← List.drop_drop, ← hrest, List.append_assoc, List.drop_left']
  simp [FrameHeader.size]

/-- The header that a frame would be given is one that continues the log. -/
theorem Scan.continues_header {t : Tail} {p : Bytes} (hp : Log.admissible p = true) :
    Scan.continues t (t.header p) = true := by
  obtain ⟨hpos, hle⟩ := Log.admissible_iff.1 hp
  have hlen : (UInt32.ofNat p.length).toNat = p.length := by
    rw [UInt32.toNat_ofNat_of_lt']
    simp only [maxPayload] at hle
    exact Nat.lt_of_le_of_lt hle (by decide)
  simp [continues, Tail.header, hlen, hpos, hle]

namespace Scan

/-- A scan under way on a disk whose file has the bytes `bs`. -/
structure OnFile (s : Scan) (d : Disk) (bs : Bytes) : Prop where
  /-- The file has these bytes. -/
  disk : d.Holds bs
  /-- The scan was begun on a file of this length. -/
  limit : s.limit = bs.length
  /-- The end was not found yet. -/
  open_ : s.stopped = false

/-! ### One frame further -/

theorem readIfThere_eq {d : Disk} {bs : Bytes} (h : d.Holds bs) (off : Nat) {len : Nat}
    (hlen : 0 < len) :
    ∃ d', d'.Holds bs ∧ readIfThere off len d = .ok (Bytes.window bs off len) d' := by
  obtain ⟨d', h', hread⟩ := h.read off hlen
  refine ⟨d', h', ?_⟩
  simp only [readIfThere, hread]
  cases Bytes.window bs off len with
  | none => rfl
  | some w => rfl

theorem judge_header {s : Scan} {p : Bytes} (hp : Log.admissible p = true)
    (horder : s.header.startLsn ≤ s.tail.nextLsn) :
    s.judge (s.tail.header p).encode = .ok (some (s.tail.header p)) := by
  have hlsn : ¬(s.tail.header p).lsn < s.header.startLsn := UInt64.not_lt.2 horder
  simp only [judge, FrameHeader.decode?_encode, if_neg hlsn, continues_header hp, if_true]

/-- A header that is found to continue the log is the one that a payload of its length and check
value would be given. -/
theorem judge_some {s : Scan} {bs : Bytes} {h : FrameHeader} (hlen : bs.length = 32)
    (hj : s.judge bs = .ok (some h)) :
    bs = h.encode ∧ s.header.startLsn ≤ s.tail.nextLsn ∧ 0 < h.payloadLen.toNat ∧
      h.payloadLen.toNat ≤ maxPayload ∧ h.chain = s.tail.chain ∧ h.lsn = s.tail.nextLsn := by
  unfold judge at hj
  split at hj
  · cases hj
  rename_i h' hd
  split at hj
  · cases hj
  rename_i hlsn
  split at hj
  · rename_i hc
    cases hj
    simp only [continues, Bool.and_eq_true, beq_iff_eq, decide_eq_true_eq] at hc
    obtain ⟨⟨⟨hchain, hnext⟩, hpos⟩, hmax⟩ := hc
    refine ⟨FrameHeader.encode_of_decode? hlen hd, ?_, hpos, hmax, hchain, hnext⟩
    rw [← hnext]
    exact UInt64.not_lt.1 hlsn
  · cases hj

/-- What the next frame is, by the bytes of the file. -/
def outcome (s : Scan) (bs : Bytes) : Result (Option Frame × Scan) :=
  if s.stopped = true ∨ s.limit < s.tail.offset + FileHeader.size then .ok s.stop
  else
    match Bytes.window bs s.tail.offset FileHeader.size with
    | none => .ok s.stop
    | some header =>
        match s.judge header with
        | .error e => .error e
        | .ok none => .ok s.stop
        | .ok (some h) =>
            match Bytes.window bs (s.tail.offset + FileHeader.size) h.payloadLen.toNat with
            | none => .ok s.stop
            | some payload =>
                if crc32 payload = h.payloadCrc then .ok (s.pass header payload) else .ok s.stop

section Next

variable {s s' : Scan} {d d' : Disk} {bs p : Bytes}

/-- What the next frame is depends only on the bytes of the file. -/
theorem next_eq (s : Scan) (h : d.Holds bs) :
    ∃ d', d'.Holds bs ∧ s.next d = Act.ofResult (s.outcome bs) d' := by
  obtain ⟨d₁, h₁, hread₁⟩ := readIfThere_eq h s.tail.offset (show 0 < FileHeader.size by decide)
  simp only [next, outcome]
  rw [show FrameHeader.size = FileHeader.size from rfl]
  simp only [hread₁]
  split
  · exact ⟨d, h, rfl⟩
  cases hw : Bytes.window bs s.tail.offset FileHeader.size with
  | none => exact ⟨d₁, h₁, rfl⟩
  | some header =>
    cases hj : s.judge header with
    | error e => exact ⟨d₁, h₁, by simp only [hj]; rfl⟩
    | ok found =>
      cases found with
      | none => exact ⟨d₁, h₁, by simp only [hj]; rfl⟩
      | some fh =>
        -- a payload of no bytes is never asked for
        obtain ⟨-, -, hpos, -⟩ := judge_some (Bytes.length_window hw) hj
        obtain ⟨d₂, h₂, hread₂⟩ := readIfThere_eq h₁ (s.tail.offset + FileHeader.size) hpos
        refine ⟨d₂, h₂, ?_⟩
        simp only [hj, hread₂]
        cases Bytes.window bs (s.tail.offset + FileHeader.size) fh.payloadLen.toNat with
        | none => rfl
        | some payload =>
          simp only
          split <;> rfl

theorem toNat_payloadLen (t : Tail) (hp : Log.admissible p = true) :
    (t.header p).payloadLen.toNat = p.length := by
  have hmax := (Log.admissible_iff.1 hp).2
  simp only [maxPayload] at hmax
  exact UInt32.toNat_ofNat_of_lt' (Nat.lt_of_le_of_lt hmax (by decide))

/-- Where the file goes on with a frame, that is the next one. -/
theorem outcome_of_continues (hlimit : s.limit = bs.length) (hopen : s.stopped = false)
    (horder : s.header.startLsn ≤ s.tail.nextLsn) (hc : s.tail.Continues bs p) :
    s.outcome bs = .ok (some ⟨s.tail.pointer p, p⟩, { s with tail := s.tail.push p }) := by
  have hroom := hc.room
  have hcrc : crc32 p = (s.tail.header p).payloadCrc := rfl
  have hin : ¬(s.stopped = true ∨ s.limit < s.tail.offset + 32) := by
    simp only [hopen, hlimit, Bool.false_eq_true, false_or]
    omega
  simp only [outcome, FileHeader.size, if_neg hin, hc.header_window,
    judge_header hc.admissible horder, toNat_payloadLen _ hc.admissible, hc.payload_window,
    if_pos hcrc]
  rfl

/-- Where the file goes on with a frame, the scan finds it. -/
theorem next_of_continues (h : s.OnFile d bs) (horder : s.header.startLsn ≤ s.tail.nextLsn)
    (hc : s.tail.Continues bs p) :
    ∃ d', s.next d = .ok (some ⟨s.tail.pointer p, p⟩, { s with tail := s.tail.push p }) d' ∧
      d'.Holds bs := by
  obtain ⟨d', hd', hnext⟩ := next_eq s h.disk
  rw [outcome_of_continues h.limit h.open_ horder hc] at hnext
  exact ⟨d', hnext, hd'⟩

/-- What the next frame can be: none, damage, or the frame that the file goes on with. -/
theorem outcome_cases (s : Scan) (bs : Bytes) :
    s.outcome bs = .ok (none, { s with stopped := true }) ∨
      (∃ e, s.outcome bs = .error e) ∨
      ∃ p, s.tail.Continues bs p ∧ s.header.startLsn ≤ s.tail.nextLsn ∧
        s.outcome bs = .ok (some ⟨s.tail.pointer p, p⟩, { s with tail := s.tail.push p }) := by
  unfold outcome
  split
  · exact .inl rfl
  cases hw : Bytes.window bs s.tail.offset FileHeader.size with
  | none => exact .inl rfl
  | some hb =>
    cases hj : s.judge hb with
    | error e => exact .inr (.inl ⟨e, by simp only [hj]⟩)
    | ok header =>
      cases header with
      | none => exact .inl (by simp only [hj]; rfl)
      | some fh =>
        obtain ⟨hbeq, horder, hpos, hmax, hchain, hlsn⟩ :=
          judge_some (Bytes.length_window hw) hj
        simp only [hj]
        cases hw' : Bytes.window bs (s.tail.offset + FileHeader.size) fh.payloadLen.toNat with
        | none => exact .inl rfl
        | some p =>
          by_cases hcrc : crc32 p = fh.payloadCrc
          · have hplen := Bytes.length_window hw'
            -- the header read is the one that the payload read would be given
            have hfh : fh = s.tail.header p := by
              obtain ⟨lsn, len, chain, crc⟩ := fh
              simp only at hchain hlsn hcrc hplen
              simp only [Tail.header, hchain, hlsn, hcrc, hplen, UInt32.ofNat_toNat]
            subst hfh
            have hadm : Log.admissible p = true := by
              rw [Log.admissible_iff, hplen]
              exact ⟨hpos, hmax⟩
            rw [hbeq] at hw
            rw [← hplen] at hw'
            refine .inr (.inr ⟨p, Tail.continues_of_windows hadm hw hw', horder, ?_⟩)
            simp only [if_pos hcrc, pass, hbeq]
            rfl
          · simp only [if_neg hcrc]
            exact .inl rfl

/-- What the scan finds is the frame that the file goes on with. -/
theorem next_ok {f : Frame} (h : d.Holds bs) (hn : s.next d = .ok (some f, s') d') :
    d'.Holds bs ∧ ∃ p, s.tail.Continues bs p ∧ s.header.startLsn ≤ s.tail.nextLsn ∧
      f = ⟨s.tail.pointer p, p⟩ ∧ s' = { s with tail := s.tail.push p } := by
  obtain ⟨d₁, h₁, hnext⟩ := next_eq s h
  rw [hnext] at hn
  obtain hstop | ⟨e, hfail⟩ | ⟨p, hc, horder, hgo⟩ := s.outcome_cases bs
  · rw [hstop] at hn
    cases hn
  · rw [hfail] at hn
    cases hn
  · rw [hgo] at hn
    cases hn
    exact ⟨h₁, p, hc, horder, rfl, rfl⟩

/-- The scan ends where the file does not go on with a frame. -/
theorem next_none (h : d.Holds bs) (hn : s.next d = .ok (none, s') d') :
    d'.Holds bs ∧ s' = { s with stopped := true } ∧ s.outcome bs = .ok (none, s') := by
  obtain ⟨d₁, h₁, hnext⟩ := next_eq s h
  rw [hnext] at hn
  obtain hstop | ⟨e, hfail⟩ | ⟨p, hc, horder, hgo⟩ := s.outcome_cases bs
  · rw [hstop] at hn
    cases hn
    exact ⟨h₁, rfl, hstop⟩
  · rw [hfail] at hn
    cases hn
  · rw [hgo] at hn
    cases hn

/-! ### Where a scan ends -/

/-- A scan ends where no header fits in front of its limit. -/
theorem outcome_at_limit (hlimit : s.limit < s.tail.offset + 32) :
    s.outcome bs = .ok (none, { s with stopped := true }) := by
  rw [outcome, if_pos (.inr hlimit)]
  rfl

/-- A scan ends where the file breaks off inside the frame it would go on with. -/
theorem outcome_torn (hlimit : s.limit = bs.length) (hp : Log.admissible p = true)
    (horder : s.header.startLsn ≤ s.tail.nextLsn)
    (htorn : bs.drop s.tail.offset <+: (s.tail.header p).encode ++ p)
    (hshort : bs.length < s.tail.offset + 32 + p.length) :
    s.outcome bs = .ok (none, { s with stopped := true }) := by
  by_cases hroom : s.tail.offset + 32 ≤ bs.length
  · -- the header is all there, but not the payload
    have hheader : Bytes.window bs s.tail.offset 32 = some (s.tail.header p).encode := by
      obtain ⟨rest, hrest⟩ := htorn
      rw [Bytes.window_eq_some hroom]
      have htake := congrArg (List.take 32) hrest
      rw [List.take_append_of_le_length (by rw [List.length_drop]; omega),
        List.take_left' (FrameHeader.length_encode _)] at htake
      rw [htake]
    have hpayload : Bytes.window bs (s.tail.offset + 32) p.length = none :=
      Bytes.window_eq_none hshort
    simp only [outcome, FileHeader.size, hheader, judge_header hp horder, toNat_payloadLen _ hp,
      hpayload, ite_self]
    rfl
  · exact outcome_at_limit (by omega)

theorem next_of_stop (h : d.Holds bs) (hstop : s.outcome bs = .ok (none, s')) :
    ∃ d', s.next d = .ok (none, s') d' ∧ d'.Holds bs := by
  obtain ⟨d', hd', hnext⟩ := next_eq s h
  rw [hstop] at hnext
  exact ⟨d', hnext, hd'⟩

end Next

/-! ### Many frames -/

/-- A scan under way on a file that goes on with the frames for the payloads `ps`. -/
structure Ahead (s : Scan) (d : Disk) (bs : Bytes) (ps : List Bytes) : Prop
    extends s.OnFile d bs where
  /-- Frames can carry the payloads. -/
  admissible : ∀ p ∈ ps, Log.admissible p = true
  /-- The frames are not numbered below the first number of the log. -/
  order : ∀ i < ps.length, s.header.startLsn ≤ s.tail.nextLsn + UInt64.ofNat i
  /-- The frames stand in the file. -/
  bytes : s.tail.image ps <+: bs.drop s.tail.offset

/-- The scan finds the first of the frames, and the others are still ahead of it. -/
theorem Ahead.next {s : Scan} {d : Disk} {bs p : Bytes} {ps : List Bytes}
    (h : s.Ahead d bs (p :: ps)) :
    ∃ d', s.next d = .ok (some ⟨s.tail.pointer p, p⟩, { s with tail := s.tail.push p }) d' ∧
      Ahead { s with tail := s.tail.push p } d' bs ps := by
  obtain ⟨hc, hbytes⟩ := Tail.continues_of_image (h.admissible p (by simp)) h.bytes
  obtain ⟨d', hn, hd'⟩ := next_of_continues h.toOnFile (by simpa using h.order 0 (by simp)) hc
  refine ⟨d', hn, ⟨hd', h.limit, h.open_⟩, fun q hq => h.admissible q (by simp [hq]), ?_, hbytes⟩
  intro i hi
  have hi' := h.order (i + 1) (by simpa using hi)
  rw [Nat.add_comm, UInt64.ofNat_add, ← UInt64.add_assoc] at hi'
  exact hi'

section Walk

variable {τ : Type} {visit : Frame → Act τ Unit} {s s' : Scan} {d d' : Disk} {bs : Bytes} {t t' : τ}

theorem forEach_of_none (hn : s.next d = .ok (none, s') d') :
    s.forEach visit (d, t) = .ok s' (d', t) := by
  rw [forEach]
  split <;> simp_all

theorem forEach_of_some {f : Frame} (hn : s.next d = .ok (some f, s') d')
    (hvisit : visit f t = .ok () t') :
    s.forEach visit (d, t) = s'.forEach visit (d', t') := by
  rw [forEach]
  split
  · simp_all
  · simp_all
  · rename_i hn'
    rw [hn] at hn'
    cases hn'
    rw [hvisit]

theorem seek_of_some {f : Frame} {off : Nat} (hoff : s.tail.offset ≠ off)
    (hn : s.next d = .ok (some f, s') d') : s.seek off d = s'.seek off d' := by
  rw [seek, if_neg hoff]
  split <;> simp_all

/-- A scan of a file that goes on with a row of frames goes through the row. -/
theorem forEach_frames {ps : List Bytes} (h : s.Ahead d bs ps)
    (hvisit : (s.tail.frames ps).forM visit t = .ok ⟨⟩ t') :
    ∃ d', Scan.OnFile { s with tail := s.tail.pushAll ps } d' bs ∧
      s.forEach visit (d, t) =
        Scan.forEach visit { s with tail := s.tail.pushAll ps } (d', t') := by
  induction ps generalizing s d t with
  | nil =>
    cases hvisit
    exact ⟨d, h.toOnFile, rfl⟩
  | cons p ps ih =>
    obtain ⟨d₁, hn, h₁⟩ := h.next
    -- the visits of the row begin with that of its first frame
    obtain ⟨t₁, hvisit₁, hvisit₂⟩ : ∃ t₁, visit ⟨s.tail.pointer p, p⟩ t = .ok ⟨⟩ t₁ ∧
        ((s.tail.push p).frames ps).forM visit t₁ = .ok ⟨⟩ t' := by
      simp only [Tail.frames_cons] at hvisit
      obtain ⟨_, t₁, hfirst, hrest⟩ := Act.bind_eq_ok.1 hvisit
      exact ⟨t₁, hfirst, hrest⟩
    obtain ⟨d₂, h₂, hwalk⟩ := ih h₁ hvisit₂
    exact ⟨d₂, h₂, (forEach_of_some hn hvisit₁).trans hwalk⟩

/-- A scan of a file that goes on with a row of frames finds the end of the row. -/
theorem seek_frames {ps : List Bytes} {off : Nat} (h : s.Ahead d bs ps)
    (hoff : off = (s.tail.pushAll ps).offset) :
    ∃ d', s.seek off d = .ok (s.tail.pushAll ps) d' ∧ d'.Holds bs := by
  subst hoff
  induction ps generalizing s d with
  | nil =>
    refine ⟨d, ?_, h.disk⟩
    rw [seek, if_pos (by rw [Tail.pushAll_nil]), Tail.pushAll_nil]
  | cons p ps ih =>
    obtain ⟨d₁, hn, h₁⟩ := h.next
    obtain ⟨d₂, hseek, h₂⟩ := ih h₁
    have hlt : s.tail.offset < (s.tail.pushAll (p :: ps)).offset :=
      s.tail.offset_lt_pushAll (List.cons_ne_nil p ps)
    refine ⟨d₂, ?_, h₂⟩
    rw [seek_of_some (Nat.ne_of_lt hlt) hn]
    exact hseek

/-- A scan that came to its end went through a row of frames with which the file goes on. -/
theorem forEach_ok {x x' : Disk × τ} (h : s.OnFile x.1 bs) (hn : s.forEach visit x = .ok s' x') :
    ∃ ps : List Bytes, (∀ p ∈ ps, Log.admissible p = true) ∧
      (∀ i < ps.length, s.header.startLsn ≤ s.tail.nextLsn + UInt64.ofNat i) ∧
      s.tail.image ps <+: bs.drop s.tail.offset ∧
      s' = { s with tail := s.tail.pushAll ps, stopped := true } ∧
      outcome { s with tail := s.tail.pushAll ps } bs = .ok (none, s') ∧ x'.1.Holds bs ∧
        (s.tail.frames ps).forM visit x.2 = .ok ⟨⟩ x'.2 := by
  fun_induction forEach visit s x with
  | case1 s d t e d₁ hnext => cases hn
  | case2 s d t s₁ d₁ hnext =>
    cases hn
    obtain ⟨h₁, rfl, hstop⟩ := next_none h.disk hnext
    exact ⟨[], by simp, by simp, List.nil_prefix, rfl, hstop, h₁, rfl⟩
  | case3 s d t f s₁ d₁ hnext e t₁ hvisit => cases hn
  | case4 s d t f s₁ d₁ hnext t₁ hvisit ih =>
    -- the frame that was found comes in front of the row found behind it
    obtain ⟨h₁, p, hc, horder, rfl, rfl⟩ := next_ok h.disk hnext
    obtain ⟨ps, hps, horders, hbytes, hs', hstop, hx', hvisits⟩ := ih ⟨h₁, h.limit, h.open_⟩ hn
    refine ⟨p :: ps, ?_, ?_, ?_, hs', hstop, hx', ?_⟩
    · intro q hq
      obtain rfl | hq := List.mem_cons.1 hq
      · exact hc.admissible
      · exact hps q hq
    · intro i hi
      cases i with
      | zero => simpa using horder
      | succ i =>
        have hi' := horders i (by simpa using hi)
        rw [Nat.add_comm, UInt64.ofNat_add, ← UInt64.add_assoc]
        exact hi'
    · obtain ⟨rest, hrest⟩ := hc.bytes
      obtain ⟨rest', hrest'⟩ := hbytes
      refine ⟨rest', ?_⟩
      rw [Tail.offset_push, ← List.drop_drop, ← hrest, List.drop_left' (by simp [FrameHeader.size])]
        at hrest'
      rw [Tail.image_cons, ← hrest, ← hrest']
      simp only [List.append_assoc]
    · rw [Tail.frames_cons]
      exact Act.bind_eq_ok.2 ⟨_, t₁, hvisit, hvisits⟩

end Walk

/-! ### All that a scan gives -/

/-- The frames that a scan gives one after the other, and how it ends. -/
inductive Gives : Scan → Disk → List Frame → EStateM.Result Error Disk Scan → Prop where
  | stop {s s' : Scan} {d d' : Disk} (next : s.next d = .ok (none, s') d') :
      Gives s d [] (.ok s' d')
  | fail {s : Scan} {d d' : Disk} {e : Error} (next : s.next d = .error e d') :
      Gives s d [] (.error e d')
  | frame {s s' : Scan} {d d' : Disk} {f : Frame} {fs : List Frame}
      {x : EStateM.Result Error Disk Scan} (next : s.next d = .ok (some f, s') d')
      (rest : Gives s' d' fs x) : Gives s d (f :: fs) x

theorem exists_gives (s : Scan) (d : Disk) : ∃ fs x, s.Gives d fs x := by
  have hwalk : ∀ x : Disk × Unit, ∃ fs y, s.Gives x.1 fs y := by
    intro x
    fun_induction forEach (fun _ => pure ()) s x with
    | case1 s d t e d₁ hnext => exact ⟨[], _, .fail hnext⟩
    | case2 s d t s₁ d₁ hnext => exact ⟨[], _, .stop hnext⟩
    | case3 s d t f s₁ d₁ hnext e t₁ hvisit => cases hvisit
    | case4 s d t f s₁ d₁ hnext t₁ hvisit ih =>
      rcases ih with ⟨fs, y, hrest⟩
      exact ⟨f :: fs, y, .frame hnext hrest⟩
  exact hwalk (d, ())

/-- The end of a scan, with what the visits of its frames came to. -/
def ended {τ : Type} (x : EStateM.Result Error Disk Scan) (t : τ) :
    EStateM.Result Error (Disk × τ) Scan :=
  match x with
  | .ok s d => .ok s (d, t)
  | .error e d => .error e (d, t)

variable {τ : Type} {visit : Frame → Act τ Unit} {s : Scan} {d : Disk} {fs : List Frame}
  {x : EStateM.Result Error Disk Scan} {t t' : τ}

theorem Gives.forEach_ok (h : s.Gives d fs x) (hvisit : fs.forM visit t = .ok ⟨⟩ t') :
    s.forEach visit (d, t) = ended x t' := by
  induction h generalizing t with
  | stop hnext =>
    cases hvisit
    exact forEach_of_none hnext
  | fail hnext =>
    cases hvisit
    rw [forEach]
    split <;> simp_all [ended]
  | frame hnext hrest ih =>
    rcases Act.bind_eq_ok.1 hvisit with ⟨_, t₁, hfirst, hothers⟩
    rw [forEach_of_some hnext hfirst]
    exact ih hothers

theorem Gives.forEach_error {e : Error} (h : s.Gives d fs x)
    (hvisit : fs.forM visit t = .error e t') :
    ∃ d', s.forEach visit (d, t) = .error e (d', t') := by
  induction h generalizing t with
  | stop hnext => cases hvisit
  | fail hnext => cases hvisit
  | @frame s s₁ d d₁ f fs x hnext hrest ih =>
    cases hfirst : visit f t with
    | ok u t₁ =>
      rw [forEach_of_some hnext hfirst]
      refine ih ?_
      rw [← hvisit]
      exact (Act.bind_of_ok (f := fun _ => fs.forM visit) hfirst).symm
    | error e₁ t₁ =>
      have hall : (f :: fs).forM visit t = .error e₁ t₁ :=
        Act.bind_of_error (f := fun _ => fs.forM visit) hfirst
      rw [hvisit] at hall
      cases hall
      refine ⟨d₁, ?_⟩
      rw [forEach]
      split <;> simp_all

/-! ### Where frames stand -/

/-- No frame is found where its number would be below the first. -/
theorem startLsn_le_of_judge {s : Scan} {bs : Bytes} {h : FrameHeader}
    (hjudge : s.judge bs = .ok (some h)) : s.header.startLsn ≤ s.tail.nextLsn := by
  unfold judge at hjudge
  split at hjudge
  · cases hjudge
  · split at hjudge
    · cases hjudge
    · rename_i hlow
      split at hjudge
      · rename_i hgoes
        simp only [continues, Bool.and_eq_true, beq_iff_eq] at hgoes
        rw [← hgoes.1.1.2]
        exact UInt64.not_lt.1 hlow
      · cases hjudge

/-- The frame that is found carries the next number, which is none below the first, and ends where
the scan goes on. -/
theorem next_frame {s s' : Scan} {d d' : Disk} {f : Frame}
    (h : s.next d = .ok (some f, s') d') :
    f.pointer.lsn = s.tail.nextLsn ∧ s.header.startLsn ≤ s.tail.nextLsn ∧
      s'.header = s.header ∧ s'.tail.nextLsn = s.tail.nextLsn + 1 ∧ s'.tail.offset = f.stop := by
  unfold next at h
  split at h
  · cases h
  · split at h
    · cases h
    · cases h
    · split at h
      · cases h
      · cases h
      · rename_i hjudge
        split at h
        · cases h
        · cases h
        · split at h
          · cases h
            exact ⟨rfl, startLsn_le_of_judge hjudge, rfl, rfl, rfl⟩
          · cases h

theorem next_end {s s' : Scan} {d d' : Disk} (h : s.next d = .ok (none, s') d') :
    s'.tail = s.tail := by
  unfold next at h
  repeat' split at h
  all_goals cases h
  all_goals rfl

/-- A scan that came to the end of the log stands behind the last frame. -/
theorem Gives.validUpTo {s' : Scan} {d' : Disk} (h : s.Gives d fs x) (hx : x = .ok s' d') :
    s'.validUpTo = (fs.getLast?.map Frame.stop).getD s.validUpTo := by
  induction h with
  | stop hnext =>
    cases hx
    exact congrArg Tail.offset (next_end hnext)
  | fail hnext => cases hx
  | @frame s s₁ d d₁ f fs x hnext hrest ih =>
    rw [ih hx, List.getLast?_cons]
    have hstop : s₁.validUpTo = f.stop := (next_frame hnext).2.2.2.2
    cases fs.getLast? with
    | none => exact hstop
    | some g => rfl

/-- Once the numbers have run past the last one, no frame follows, unless zero is the first. -/
theorem Gives.eq_nil_of_low (h : s.Gives d fs x) (hlow : s.tail.nextLsn < s.header.startLsn) :
    fs = [] := by
  cases h with
  | stop _ => rfl
  | fail _ => rfl
  | frame hnext _ => exact absurd (next_frame hnext).2.1 (UInt64.not_le.2 hlow)

/-- The numbers of the frames that a scan gives increase: the file is too short for all numbers, so
that they do not come round to the first again. -/
theorem Gives.increasing (h : s.Gives d fs x) (hlimit : s.limit < 2 ^ 64)
    (hstart : s.header.startLsn ≤ s.tail.nextLsn)
    (hcount : s.tail.nextLsn.toNat ≤ s.header.startLsn.toNat + s.tail.offset) :
    (∀ f ∈ fs, s.tail.nextLsn ≤ f.pointer.lsn) ∧
      (fs.map (·.pointer.lsn)).Pairwise (· < ·) := by
  induction h with
  | stop hnext => exact ⟨fun f hf => (List.not_mem_nil hf).elim, .nil⟩
  | fail hnext => exact ⟨fun f hf => (List.not_mem_nil hf).elim, .nil⟩
  | @frame s s₁ d d₁ f fs x hnext hrest ih =>
    obtain ⟨hin, hlimit₁, hgoes⟩ := next_progress hnext
    obtain ⟨hlsn, -, hheader, hnumber, -⟩ := next_frame hnext
    -- the frames behind this one are numbered later
    have hothers : (∀ g ∈ fs, s.tail.nextLsn < g.pointer.lsn) ∧
        (fs.map (·.pointer.lsn)).Pairwise (· < ·) := by
      rw [UInt64.le_iff_toNat_le] at hstart
      by_cases hlast : s.tail.nextLsn.toNat + 1 < 2 ^ 64
      · have hsucc : s₁.tail.nextLsn.toNat = s.tail.nextLsn.toNat + 1 := by
          rw [hnumber, UInt64.toNat_add, UInt64.toNat_one, Nat.mod_eq_of_lt hlast]
        obtain ⟨hlater, hpairs⟩ := ih (by rwa [hlimit₁])
          (by rw [UInt64.le_iff_toNat_le, hheader]; omega) (by rw [hheader]; omega)
        refine ⟨fun g hg => ?_, hpairs⟩
        have hle := hlater g hg
        rw [UInt64.le_iff_toNat_le] at hle
        rw [UInt64.lt_iff_toNat_lt]
        omega
      · -- the number after the last one is zero, which is below the first
        have hnone : fs = [] := by
          refine hrest.eq_nil_of_low ?_
          have hbound := s.tail.nextLsn.toNat_lt
          rw [UInt64.lt_iff_toNat_lt, hnumber, hheader, UInt64.toNat_add, UInt64.toNat_one]
          omega
        rw [hnone]
        exact ⟨fun g hg => (List.not_mem_nil hg).elim, .nil⟩
    refine ⟨fun g hg => ?_, ?_⟩
    · rcases List.mem_cons.1 hg with rfl | hg
      · exact hlsn ▸ UInt64.le_refl _
      · exact UInt64.le_of_lt (hothers.1 g hg)
    · rw [List.map_cons, List.pairwise_cons, hlsn]
      refine ⟨fun lsn hmem => ?_, hothers.2⟩
      obtain ⟨g, hg, rfl⟩ := List.mem_map.1 hmem
      exact hothers.1 g hg

end Scan
end PageLog
