import PageLog.Proofs.LogContents

/-!
# Logs that were cut

A file that is cut somewhere behind its header still begins with the same frames.  A scan of it goes
the way of a scan of the whole file as long as frames end in front of the cut, and stops at the
first frame that does not: either its header or its payload is not all there.  What ended the scan
of the whole file ends that of the cut file as well, unless the cut lies in front of it.

## Main definitions

* `Scan.cutTo` — the scan of a file that was cut.
* `Scan.ask` — calls for the next frame.
* `Frame.behind` — where the last of several frames stops.

## Main results

* `Bytes.window_take` — the windows of a cut string.
* `Scan.outcome_cutTo_of_stop`, `Scan.outcome_cutTo_of_frame` — one frame further.
* `Scan.Gives.cutTo` — all frames.
* `Scan.Gives.ask` — what any number of calls gives.
* `cut_log_reads_whole_frames` — **a log that was cut reads as its whole frames**.
-/

namespace PageLog

/-- The windows of a cut string are those in front of the cut. -/
theorem Bytes.window_take {bs : Bytes} {n : Nat} (hn : n ≤ bs.length) (off width : Nat) :
    Bytes.window (bs.take n) off width =
      if off + width ≤ n then Bytes.window bs off width else none := by
  have hlen : (bs.take n).length = n := List.length_take_of_le hn
  rw [Bytes.window_eq, Bytes.window_eq, hlen]
  split
  · rename_i hin
    rw [if_pos (Nat.le_trans hin hn), List.drop_take, List.take_take, Nat.min_eq_left (by omega)]
  · rfl

namespace Tail.Continues

variable {t : Tail} {bs p : Bytes} {n : Nat}

/-- A frame in front of the cut still stands in the file. -/
theorem take (h : t.Continues bs p) (hn : n ≤ bs.length) (hin : t.offset + 32 + p.length ≤ n) :
    t.Continues (bs.take n) p := by
  refine Tail.continues_of_windows h.admissible ?_ ?_
  · rw [Bytes.window_take hn, if_pos (by omega), h.header_window]
  · rw [Bytes.window_take hn, if_pos hin, h.payload_window]

/-- A frame of the file that was cut stood in the whole file. -/
theorem of_take (h : t.Continues (bs.take n) p) : t.Continues bs p := by
  refine ⟨h.admissible, h.bytes.trans ?_⟩
  rw [List.drop_take]
  exact List.take_prefix ..

end Tail.Continues

/-- Where the last of several frames stops; behind the header of the file if there are none. -/
def Frame.behind (fs : List Frame) : Nat := (fs.getLast?.map Frame.stop).getD FileHeader.size

namespace Scan

variable {s s' : Scan} {d d' : Disk} {bs : Bytes} {n : Nat} {f : Frame} {fs : List Frame}

/-! ### One frame -/

/-- A scan fails only on a header that is all there. -/
theorem outcome_eq_error {e : Error} :
    s.outcome bs = .error e ↔ ¬(s.stopped = true ∨ s.limit < s.tail.offset + FileHeader.size) ∧
      ∃ header, Bytes.window bs s.tail.offset FileHeader.size = some header ∧
        s.judge header = .error e := by
  unfold outcome
  split
  · simp [*]
  · rename_i hin
    cases Bytes.window bs s.tail.offset FileHeader.size with
    | none => simp
    | some header =>
      cases hjudge : s.judge header with
      | error e' => simp [hjudge, hin]
      | ok found =>
        -- a header that is passed may end the scan, but does not fail it
        refine iff_of_false ?_ ?_
        · cases found with
          | none =>
            simp only [hjudge]
            exact nofun
          | some h =>
            simp only [hjudge]
            repeat' split
            all_goals exact nofun
        · rintro ⟨-, header', hsame, hfail⟩
          cases hsame
          rw [hjudge] at hfail
          cases hfail

/-- The scan as it is on the file cut to `n` bytes. -/
def cutTo (s : Scan) (n : Nat) : Scan := { s with limit := n }

/-- Where the scan of the whole file stops, that of the cut file does. -/
theorem outcome_cutTo_of_stop (hlimit : s.limit = bs.length) (hopen : s.stopped = false)
    (hn : n ≤ bs.length) (hstop : s.outcome bs = .ok (none, s')) :
    (s.cutTo n).outcome (bs.take n) = .ok (s.cutTo n).stop := by
  obtain hcut | ⟨e, hfail⟩ | ⟨p, hc, horder, -⟩ := (s.cutTo n).outcome_cases (bs.take n)
  · exact hcut
  · -- a header that is damaged in the cut file is so in the whole file
    obtain ⟨hin, header, hheader, hjudge⟩ := outcome_eq_error.1 hfail
    rw [Bytes.window_take hn] at hheader
    split at hheader
    · have hwhole : s.outcome bs = .error e := by
        refine outcome_eq_error.2 ⟨?_, header, hheader, hjudge⟩
        simp only [cutTo, hopen, hlimit, Bool.false_eq_true, false_or] at hin ⊢
        omega
      rw [hwhole] at hstop
      cases hstop
    · cases hheader
  · rw [outcome_of_continues hlimit hopen horder hc.of_take] at hstop
    cases hstop

/-- Where the scan of the whole file finds a frame, that of the cut file finds the same one if it
ends in front of the cut, and stops otherwise. -/
theorem outcome_cutTo_of_frame (hopen : s.stopped = false) (hn : n ≤ bs.length)
    (hgo : s.outcome bs = .ok (some f, s')) :
    (s.cutTo n).outcome (bs.take n) =
      if f.stop ≤ n then .ok (some f, s'.cutTo n) else .ok (s.cutTo n).stop := by
  have hlimit' : (s.cutTo n).limit = (bs.take n).length := (List.length_take_of_le hn).symm
  obtain hstop | ⟨e, hfail⟩ | ⟨p, hc, horder, hfound⟩ := s.outcome_cases bs
  · rw [hstop] at hgo
    cases hgo
  · rw [hfail] at hgo
    cases hgo
  · rw [hfound] at hgo
    cases hgo
    have hend : Frame.stop ⟨s.tail.pointer p, p⟩ = s.tail.offset + (32 + p.length) := rfl
    rw [hend]
    split
    · exact outcome_of_continues hlimit' hopen horder (hc.take hn (by omega))
    · -- what is left of the frame is a part of it
      have htorn : (bs.take n).drop s.tail.offset <+: (s.tail.header p).encode ++ p := by
        refine List.prefix_of_prefix_length_le ?_ hc.bytes ?_
        · rw [List.drop_take]
          exact List.take_prefix ..
        · simp only [List.length_drop, List.length_append, List.length_take_of_le hn,
            FrameHeader.length_encode]
          omega
      refine outcome_torn hlimit' hc.admissible horder htorn ?_
      rw [List.length_take_of_le hn]
      simp only [cutTo]
      omega

/-! ### All frames -/

/-- A scan that was stopped gives nothing more. -/
theorem next_stopped (d : Disk) (hstopped : s.stopped = true) : s.next d = .ok (none, s) d := by
  have hsame : { s with stopped := true } = s := by rw [← hstopped]
  rw [next, if_pos (.inl hstopped), stop, hsame]

/-- Frames stop behind the place where the scan stands, in order. -/
theorem Gives.lt_stop {x : EStateM.Result Error Disk Scan} (h : s.Gives d fs x) :
    ∀ g ∈ fs, s.tail.offset < g.stop := by
  induction h with
  | stop _ => exact fun g hg => (List.not_mem_nil hg).elim
  | fail _ => exact fun g hg => (List.not_mem_nil hg).elim
  | frame hnext _ ih =>
    obtain ⟨-, -, hgoes⟩ := next_progress hnext
    intro g hg
    rcases List.mem_cons.1 hg with rfl | hg
    · rwa [← (next_frame hnext).2.2.2.2]
    · exact Nat.lt_trans hgoes (ih g hg)

/-- A scan of the cut file gives the frames of the whole file that end in front of the cut. -/
theorem Gives.cutTo {x : EStateM.Result Error Disk Scan} (h : s.Gives d fs x) (hd : d.Holds bs)
    (hx : ∃ s₁ d₁, x = .ok s₁ d₁) (hlimit : s.limit = bs.length) (hopen : s.stopped = false)
    (hn : n ≤ bs.length) (hd' : d'.Holds (bs.take n)) :
    ∃ s₂ d₂, (s.cutTo n).Gives d' (fs.filter (·.stop ≤ n)) (.ok s₂ d₂) ∧ s₂.stopped = true := by
  induction h generalizing d' with
  | @stop s s₁ d d₁ hnext =>
    obtain ⟨-, -, hstop⟩ := next_none hd hnext
    obtain ⟨d₂, hnext', -⟩ := next_of_stop hd' (outcome_cutTo_of_stop hlimit hopen hn hstop)
    exact ⟨_, d₂, .stop hnext', rfl⟩
  | fail _ =>
    obtain ⟨_, _, hx⟩ := hx
    cases hx
  | @frame s s₁ d d₁ f fs x hnext hrest ih =>
    obtain ⟨hd₁, p, -, -, -, hs₁⟩ := next_ok hd hnext
    -- the same call, made on the cut file
    obtain ⟨d₂, hd₂, hnext'⟩ := next_eq (s.cutTo n) hd'
    have hgo : s.outcome bs = .ok (some f, s₁) := by
      obtain ⟨d₃, -, hsame⟩ := next_eq s hd
      rw [hsame, Act.ofResult_eq_ok] at hnext
      exact hnext.1
    rw [outcome_cutTo_of_frame hopen hn hgo] at hnext'
    by_cases hin : f.stop ≤ n
    · rw [if_pos hin] at hnext'
      obtain ⟨s₂, d₃, hgives, hstopped⟩ :=
        ih hd₁ hx (by rw [hs₁]; exact hlimit) (by rw [hs₁]; exact hopen) hd₂
      refine ⟨s₂, d₃, ?_, hstopped⟩
      rw [List.filter_cons_of_pos (by simpa using hin)]
      exact .frame hnext' hgives
    · -- the frames behind this one end behind the cut as well
      rw [if_neg hin] at hnext'
      have hnone : (f :: fs).filter (·.stop ≤ n) = [] := by
        rw [List.filter_eq_nil_iff]
        intro g hg
        have hle : f.stop ≤ g.stop := by
          rcases List.mem_cons.1 hg with rfl | hg
          · exact Nat.le_refl _
          · rw [← (next_frame hnext).2.2.2.2]
            exact Nat.le_of_lt (hrest.lt_stop g hg)
        simp only [decide_eq_true_eq]
        omega
      rw [hnone]
      exact ⟨_, d₂, .stop hnext', rfl⟩

/-! ### Any number of calls -/

/-- The answers to `k` calls for the next frame, and the scan behind them. -/
def ask : Nat → Scan → Act Disk (List (Option Frame) × Scan)
  | 0, s => pure ([], s)
  | k + 1, s => do
      let (found, s) ← s.next
      let (answers, s) ← ask k s
      return (found :: answers, s)

theorem ask_of_next {found : Option Frame} {answers : List (Option Frame)} {s₂ : Scan} {d₂ : Disk}
    {k : Nat} (hnext : s.next d = .ok (found, s') d') (hask : s'.ask k d' = .ok (answers, s₂) d₂) :
    s.ask (k + 1) d = .ok (found :: answers, s₂) d₂ := by
  rw [ask, Act.bind_of_ok hnext]
  simp only
  rw [Act.bind_of_ok hask]
  rfl

theorem ask_stopped (d : Disk) (hstopped : s.stopped = true) (k : Nat) :
    s.ask k d = .ok (List.replicate k none, s) d := by
  induction k with
  | zero => rfl
  | succ k ih => exact ask_of_next (next_stopped d hstopped) ih

/-- Each call gives the next frame, and nothing once there is none, however often it is repeated. -/
theorem Gives.ask {x : EStateM.Result Error Disk Scan} {s₁ : Scan} {d₁ : Disk} (h : s.Gives d fs x)
    (hx : x = .ok s₁ d₁) (hstopped : s₁.stopped = true) (k : Nat) :
    ∃ s₂ d₂, s.ask k d = .ok ((List.range k).map (fs[·]?), s₂) d₂ ∧
      s₂.validUpTo = ((fs.take k).getLast?.map Frame.stop).getD s.validUpTo := by
  induction h generalizing k with
  | @stop s s' d d' hnext =>
    cases hx
    cases k with
    | zero => exact ⟨s, d, rfl, rfl⟩
    | succ k =>
      refine ⟨s₁, d₁, ?_, congrArg Tail.offset (next_end hnext)⟩
      -- a scan that has stopped answers nothing to all further calls
      rw [ask_of_next hnext (ask_stopped d₁ hstopped k)]
      simp [List.map_const', List.replicate_succ]
  | fail _ => cases hx
  | @frame s s' d d' f fs x hnext _ ih =>
    cases k with
    | zero => exact ⟨s, d, rfl, rfl⟩
    | succ k =>
      obtain ⟨s₂, d₂, hask, hvalid⟩ := ih hx k
      have hstop : s'.validUpTo = f.stop := (next_frame hnext).2.2.2.2
      refine ⟨s₂, d₂, ?_, ?_⟩
      · rw [ask_of_next hnext hask, List.range_succ_eq_map, List.map_cons, List.map_map]
        rfl
      · rw [hvalid, hstop, List.take_succ_cons, List.getLast?_cons]
        cases (fs.take k).getLast? with
        | none => rfl
        | some g => rfl

/-! ### Files -/

/-- A file that begins with a header is opened for reading. -/
theorem existing_ok {h : FileHeader} (hd : d.Holds bs) (hlen : FileHeader.size ≤ bs.length)
    (hheader : FileHeader.decode (bs.take FileHeader.size) = .ok h) :
    ∃ d', existing d = .ok (.whole h bs.length) d' ∧ d'.Holds bs := by
  obtain ⟨d₁, hcall, hd₁⟩ := hd.len
  obtain ⟨d₂, hd₂, hread⟩ := hd₁.read 0 (show 0 < FileHeader.size by decide)
  rw [Bytes.window_eq_some (by omega), List.drop_zero] at hread
  obtain ⟨d₃, hscan, hd₃⟩ := ofHeader_ok (h := h) hd₂ hlen
  have hfound : readHeader d₁ = .ok h d₂ := by
    rw [readHeader, Act.bind_of_ok hread, hheader]
    rfl
  refine ⟨d₃, ?_, hd₃⟩
  rw [existing, Act.bind_of_ok hcall]
  simp only [if_neg (Nat.not_lt.2 hlen)]
  rw [Act.bind_of_ok hfound, hscan]

/-- A scan that comes to the end of a log reads all its frames. -/
theorem Gives.harvest_ok {s₁ : Scan} {d₁ : Disk} (h : s.Gives d fs (.ok s₁ d₁)) :
    s.harvest d = (⟨fs, none, s₁.validUpTo⟩, d₁) := by
  have hwalk := h.forEach_ok (collect_frames fs [])
  rw [List.append_nil] at hwalk
  exact Scan.harvest_eq hwalk

/-- A scan in which nothing failed came to the end of the log. -/
theorem gives_of_harvest (hend : (s.harvest d).1.failure = none) :
    ∃ s₁ d₁, s.Gives d (s.harvest d).1.frames (.ok s₁ d₁) := by
  obtain ⟨fs, x, hgives⟩ := s.exists_gives d
  cases x with
  | ok s₁ d₁ =>
    refine ⟨s₁, d₁, ?_⟩
    rwa [hgives.frames_harvest]
  | error e d₁ =>
    have hwalk := hgives.forEach_ok (collect_frames fs [])
    rw [List.append_nil] at hwalk
    simp only [harvest, hwalk, ended] at hend
    cases hend

/-- A scan of the cut file from its beginning. -/
theorem Gives.whole_cut {h : FileHeader} {s₁ : Scan} {d₁ : Disk}
    (hgives : (Scan.whole h bs.length).Gives d fs (.ok s₁ d₁)) (hd : d.Holds bs)
    (hn : n ≤ bs.length) (hd' : d'.Holds (bs.take n)) :
    ∃ s₂ d₂, (Scan.whole h n).Gives d' (fs.filter (·.stop ≤ n)) (.ok s₂ d₂) ∧ s₂.stopped = true ∧
      s₂.validUpTo = Frame.behind (fs.filter (·.stop ≤ n)) := by
  obtain ⟨s₂, d₂, hcut, hstopped⟩ := hgives.cutTo hd ⟨s₁, d₁, rfl⟩ rfl rfl hn hd'
  exact ⟨s₂, d₂, hcut, hstopped, hcut.validUpTo rfl⟩

end Scan

/-- **A log that was cut reads as its whole frames.**  A file with a good header is opened for
reading; if it is read to the end without a failure, it may be cut anywhere behind its header.  The
cut file is opened as well, and just the frames that end in front of the cut are read from it, with
the same pointers and payloads, and found valid up to the end of the last of them; a log that is
open over the file reads the same.  Read call by call, the frames are given in order, and after them
nothing, however often it is asked. -/
theorem cut_log_reads_whole_frames {whole cut : Disk} {bs : Bytes} {h : FileHeader} {n : Nat}
    (hwhole : whole.Holds bs) (hheader : FileHeader.decode (bs.take FileHeader.size) = .ok h)
    (hlow : FileHeader.size ≤ n) (hn : n ≤ bs.length) (hcut : cut.Holds (bs.take n)) :
    ∃ s d, Scan.existing whole = .ok s d ∧ ((s.harvest d).1.failure = none →
      let kept := (s.harvest d).1.frames.filter (·.stop ≤ n)
      (∃ s' d', Scan.existing cut = .ok s' d' ∧
        (s'.harvest d').1 = ⟨kept, none, Frame.behind kept⟩ ∧
        ∀ k, ∃ s'' d'', s'.ask k d' = .ok ((List.range k).map (kept[·]?), s'') d'' ∧
          s''.validUpTo = Frame.behind (kept.take k)) ∧
      ∀ w : Writer, w.header = h → ∃ log,
        Log.frames ⟨cut, w⟩ = .ok ⟨kept, none, Frame.behind kept⟩ log) := by
  have hcutlen : (bs.take n).length = n := List.length_take_of_le hn
  have hheader' : FileHeader.decode ((bs.take n).take FileHeader.size) = .ok h := by
    rw [List.take_take, Nat.min_eq_left hlow, hheader]
  obtain ⟨d, hopen, hd⟩ := Scan.existing_ok hwhole (Nat.le_trans hlow hn) hheader
  refine ⟨_, d, hopen, fun hend => ?_⟩
  obtain ⟨s₁, d₁, hgives⟩ := Scan.gives_of_harvest hend
  refine ⟨?_, fun w hw => ?_⟩
  · -- the cut file is opened for reading
    obtain ⟨d', hopen', hd'⟩ := Scan.existing_ok hcut (by rwa [hcutlen]) hheader'
    rw [hcutlen] at hopen'
    obtain ⟨s₂, d₂, hgives', hstopped, hvalid⟩ := hgives.whole_cut hd hn hd'
    refine ⟨_, d', hopen', ?_, fun k => hgives'.ask rfl hstopped k⟩
    rw [hgives'.harvest_ok, hvalid]
  · -- a log is open over the cut file
    have hlog : Disk.Holds (Log.mk cut w).disk (bs.take n) := hcut
    obtain ⟨d', log, hd', hframes⟩ := Log.frames_of_holds hlog (by rwa [hcutlen])
    rw [hcutlen] at hframes
    obtain ⟨s₂, d₂, hgives', -, hvalid⟩ := hgives.whole_cut hd hn hd'
    refine ⟨log, ?_⟩
    rw [hframes, hw, hgives'.harvest_ok, hvalid]

/-- Two frames and a byte that belongs to none: cut inside the payload of the second frame, the log
reads as the first. -/
theorem cut_log_reads_whole_frames_of_torn_payload :
    let h : FileHeader := ⟨7, 1⟩
    let bs := h.image [[1, 2], [3]] ++ [255]
    ∃ s d, Scan.existing (.ofFile ⟨.ofBytes bs, .memory⟩) = .ok s d ∧
      (s.harvest d).1 = ⟨[⟨⟨1, 32, 34⟩, [1, 2]⟩, ⟨⟨2, 66, 33⟩, [3]⟩], none, 99⟩ ∧
      ∃ s' d', Scan.existing (.ofFile ⟨.ofBytes (bs.take 98), .memory⟩) = .ok s' d' ∧
        (s'.harvest d').1 = ⟨[⟨⟨1, 32, 34⟩, [1, 2]⟩], none, 66⟩ ∧
        ∃ s'' d'', s'.ask 3 d' = .ok ([some ⟨⟨1, 32, 34⟩, [1, 2]⟩, none, none], s'') d'' := by
  intro h bs
  have hlen : bs.length = 100 := by decide
  have hwhole : (Disk.ofFile ⟨.ofBytes bs, .memory⟩).Holds bs :=
    ⟨fun _ _ => rfl, Content.bytes_ofBytes _⟩
  have hcut : (Disk.ofFile ⟨.ofBytes (bs.take 98), .memory⟩).Holds (bs.take 98) :=
    ⟨fun _ _ => rfl, Content.bytes_ofBytes _⟩
  have hheader : FileHeader.decode (bs.take FileHeader.size) = .ok h :=
    FileHeader.decode_of_prefix ⟨_, (List.append_assoc ..).symm⟩
  obtain ⟨s, d, hopen, hreads⟩ := cut_log_reads_whole_frames hwhole hheader
    (show FileHeader.size ≤ 98 by decide) (by omega) hcut
  -- the whole file is read by the theory of the logs that hold payloads
  obtain ⟨d', hopen', hd⟩ := Scan.existing_ok hwhole (by rw [hlen]; decide) hheader
  rw [hopen] at hopen'
  cases hopen'
  have hends : h.Ends [[1, 2], [3]] [255] := Scan.outcome_at_limit (by decide)
  obtain ⟨d₁, -, hwalk⟩ := Scan.forEach_image hd (by decide) (FileHeader.numbers_of_le (by decide))
    hends (Scan.collect_frames _ [])
  rw [List.append_nil] at hwalk
  have hframes : (Tail.start h).frames [[1, 2], [3]] =
      [⟨⟨1, 32, 34⟩, [1, 2]⟩, ⟨⟨2, 66, 33⟩, [3]⟩] := by decide +kernel
  have hstop : ((Tail.start h).pushAll [[1, 2], [3]]).offset = 99 := by decide +kernel
  have hharvest := Scan.harvest_eq hwalk
  rw [hframes, Scan.validUpTo, hstop] at hharvest
  obtain ⟨⟨s', d', hexisting, hfound, hask⟩, -⟩ := hreads (by rw [hharvest])
  obtain ⟨s'', d'', hcalls, -⟩ := hask 3
  rw [hharvest] at hfound hcalls
  exact ⟨_, _, hopen, by rw [hharvest], s', d', hexisting, hfound, s'', d'', hcalls⟩

end PageLog
