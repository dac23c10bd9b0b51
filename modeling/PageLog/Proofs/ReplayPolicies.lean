import PageLog.Proofs.Quarantine

/-!
# Two policies for one log

Until a change fails, a replay does not ask what its policy is.  So the replay that ends with the
first failure and the one that goes on under quarantine are the same up to there: with the same
report, and with the same pages.  What fails first is what ends the one, and what the other one
lists first; the pages are then what the changes in front of it made them.  Nothing is asked of the
pages that the log is replayed onto.

## Main definitions

* `Memory.course` — what becomes of a page by its own changes.
* `Replay.Carried` — a replay in which every change was carried out.
* `Replay.Parted` — two replays that came apart.

## Main results

* `Replay.Carried.step`, `Replay.Carried.forM` — one frame, and any number of frames.
* `policies_part_at_first_failure` — **the policies differ only on failure**.
-/

namespace PageLog

/-! ### A page and its own changes -/

namespace Memory

/-- What becomes of a page by its own changes among those that frames record. -/
def course (m : Memory) (fs : List Frame) (g : GroupId) (id : PageId) : PageFate :=
  .of m (m.contents g id) (fs.filterMap (·.changeOf? g id))

variable {m : Memory} {fs : List Frame} {f : Frame} {g : GroupId} {id : PageId}

theorem course_snoc_other (h : f.changeOf? g id = none) :
    m.course (fs ++ [f]) g id = m.course fs g id := by
  rw [course, Frame.filterMap_snoc, h, Option.toList_none, List.append_nil, course]

theorem course_snoc_own {lsn : Lsn} {d : PageDelta} (h : f.changeOf? g id = some (lsn, d)) :
    m.course (fs ++ [f]) g id = (m.course fs g id).andThen m lsn d := by
  rw [course, Frame.filterMap_snoc, h, Option.toList_some, PageFate.of_snoc, course]

end Memory

namespace Replay

/-! ### Going on under quarantine -/

/-- Under quarantine a frame leads on, and what is listed stays in front. -/
theorem step_lists {f : Frame} {record : Record} (hf : Record.decode f.payload = .ok record)
    (r : Replay) : ∃ r' more, step .quarantine f r = .ok () r' ∧
      r'.report.quarantined = r.report.quarantined ++ more := by
  rw [step_of_decode hf]
  cases record with
  | snapshot id full => exact ⟨_, [], rfl, (List.append_nil _).symm⟩
  | checkpoint id => exact ⟨_, [], rfl, (List.append_nil _).symm⟩
  | delta d =>
    obtain ⟨r', hrun, htreats⟩ := stepDelta_treats f.pointer.lsn d (r.reached f)
    refine ⟨r', ?_⟩
    cases htreats with
    | skipped _ => exact ⟨[], hrun, (List.append_nil _).symm⟩
    | applied _ _ _ _ => exact ⟨[], hrun, (List.append_nil _).symm⟩
    | failed _ _ _ _ => exact ⟨_, hrun, rfl⟩

theorem forM_lists {fs : List Frame}
    (hfs : ∀ f ∈ fs, ∃ record, Record.decode f.payload = .ok record) (r : Replay) :
    ∃ r' more, fs.forM (step .quarantine) r = .ok ⟨⟩ r' ∧
      r'.report.quarantined = r.report.quarantined ++ more := by
  induction fs generalizing r with
  | nil => exact ⟨r, [], rfl, (List.append_nil _).symm⟩
  | cons f fs ih =>
    obtain ⟨record, hf⟩ := hfs f List.mem_cons_self
    obtain ⟨r₁, more, hfirst, hlist⟩ := step_lists hf r
    obtain ⟨r₂, more', hothers, hlist'⟩ := ih (fun g hg => hfs g (List.mem_cons_of_mem f hg)) r₁
    refine ⟨r₂, more ++ more', Act.bind_eq_ok.2 ⟨_, r₁, hfirst, hothers⟩, ?_⟩
    rw [hlist', hlist, List.append_assoc]

/-! ### Two replays -/

/-- Every change that the frames `fs` record was carried out on the pages of `m`. -/
structure Carried (m : Memory) (fs : List Frame) (r : Replay) : Prop where
  /-- No page is in quarantine. -/
  clean : r.report.quarantined = []
  /-- The formats and groups stay. -/
  like : m.Like r.memory
  /-- Every page is what its own changes make of it. -/
  pages : ∀ g id, r.memory.contents g id = (m.course fs g id).contents
  /-- None of them fails. -/
  sound : ∀ g id, (m.course fs g id).failure = none

/-- One replay ended with the error `e`, in the state `r`, and the other one went on to the state
`r'`.  They came apart at the change numbered `lsn`, behind the frames `fs`. -/
structure Parted (m : Memory) (fs : List Frame) (lsn : Lsn) (e : Error) (r r' : Replay) : Prop where
  /-- Every page is what its own changes make of it. -/
  pages : ∀ g id, r.memory.contents g id = (m.course fs g id).contents
  /-- None of them fails. -/
  sound : ∀ g id, (m.course fs g id).failure = none
  /-- What failed is what the other one lists first. -/
  first : ∃ q rest, r'.report.quarantined = q :: rest ∧ q.lsn = lsn ∧ q.reason = e

theorem Parted.mono {m : Memory} {fs : List Frame} {lsn : Lsn} {e : Error} {r r' r'' : Replay}
    {more : List QuarantinedPage} (h : Parted m fs lsn e r r')
    (hmore : r''.report.quarantined = r'.report.quarantined ++ more) :
    Parted m fs lsn e r r'' := by
  obtain ⟨q, rest, hlist, hq⟩ := h.first
  exact ⟨h.pages, h.sound, q, rest ++ more, by rw [hmore, hlist, List.cons_append], hq⟩

section Carried

variable {m : Memory} {fs gs : List Frame} {f : Frame} {r r' : Replay} {d : PageDelta}

theorem carried_nil (m : Memory) : Carried m [] ⟨m, .empty⟩ :=
  ⟨rfl, .refl m, fun _ _ => rfl, fun _ _ => rfl⟩

/-- A frame that records no change leaves the pages as they are. -/
theorem Carried.marker (h : Carried m fs r) (hf : ∀ g id, f.changeOf? g id = none)
    (hmemory : r'.memory = r.memory) (hquarantined : r'.report.quarantined = r.report.quarantined) :
    Carried m (fs ++ [f]) r' := by
  refine ⟨hquarantined.trans h.clean, ?_, fun g id => ?_, fun g id => ?_⟩
  · rw [hmemory]
    exact h.like
  · rw [hmemory, Memory.course_snoc_other (hf g id)]
    exact h.pages g id
  · rw [Memory.course_snoc_other (hf g id)]
    exact h.sound g id

/-- A change that can be carried out changes its page. -/
theorem Carried.carry (h : Carried m fs r) (hf : Record.decode f.payload = .ok (.delta d))
    {m' : Memory} {page : Bytes} {report : ReplayReport} (hclean : report.quarantined = [])
    (hrun : d.carryOut r.memory (r.memory.contents d.target.group d.target.page) = .ok page)
    (hlike : r.memory.Like m')
    (hcontents : m'.contents = r.memory.contents.put d.target.group d.target.page page) :
    Carried m (fs ++ [f]) ⟨m', report⟩ := by
  rw [PageDelta.carryOut_like h.like, h.pages] at hrun
  have hcourse : ∀ g id, m'.contents g id = (m.course (fs ++ [f]) g id).contents ∧
      (m.course (fs ++ [f]) g id).failure = none := by
    intro g id
    by_cases hd : d.target.group = g ∧ d.target.page = id
    · obtain ⟨rfl, rfl⟩ := hd
      rw [hcontents, Contents.put, if_pos ⟨rfl, rfl⟩, Memory.course_snoc_own
        ((Frame.changeOf?_delta hf _ _).trans (if_pos ⟨rfl, rfl⟩)),
        PageFate.andThen_of_ok (h.sound _ _) hrun]
      exact ⟨rfl, h.sound _ _⟩
    · rw [hcontents, Contents.put, if_neg hd, Memory.course_snoc_other
        ((Frame.changeOf?_delta hf _ _).trans (if_neg hd))]
      exact ⟨h.pages g id, h.sound g id⟩
  exact ⟨hclean, h.like.trans hlike, fun g id => (hcourse g id).1, fun g id => (hcourse g id).2⟩

/-- A change is carried out under both policies, or both policies fail to. -/
theorem Carried.stepDelta (h : Carried m fs r) (hf : Record.decode f.payload = .ok (.delta d)) :
    (∃ r', (∀ policy, Replay.stepDelta policy f.pointer.lsn d r = .ok () r') ∧
      Carried m (fs ++ [f]) r') ∨
    ∃ e r₁ r₂, Replay.stepDelta .failFast f.pointer.lsn d r = .error e r₁ ∧
      Replay.stepDelta .quarantine f.pointer.lsn d r = .ok () r₂ ∧
      Parted m fs f.pointer.lsn e r₁ r₂ := by
  -- no page is in quarantine so far
  have hfree : r.report.isQuarantined d.target = false := by
    rw [ReplayReport.isQuarantined, h.clean]
    rfl
  obtain ⟨m', hlike, hcontents, htries⟩ := stepDelta_tries hfree
  obtain ⟨hverdict, hpages⟩ := Contents.carry_eq r.memory r.memory.contents d
  rw [hverdict] at htries
  rw [hpages] at hcontents
  cases htry : d.carryOut r.memory (r.memory.contents d.target.group d.target.page) with
  | ok page =>
    rw [htry] at htries hcontents
    exact .inl ⟨_, fun policy => htries policy _, h.carry hf h.clean htry hlike hcontents⟩
  | error e =>
    rw [htry] at htries hcontents
    refine .inr ⟨e, _, _, htries .failFast _, htries .quarantine _, fun g id => ?_, h.sound, ?_⟩
    · exact (congrFun (congrFun hcontents g) id).trans (h.pages g id)
    · exact ⟨⟨d.target.group, d.target.page, f.pointer.lsn, e⟩, [],
        by simp only [h.clean, List.nil_append], rfl, rfl⟩

/-- A frame does the same under both policies, or they come apart there. -/
theorem Carried.step (h : Carried m fs r) {record : Record}
    (hf : Record.decode f.payload = .ok record) :
    (∃ r', (∀ policy, Replay.step policy f r = .ok () r') ∧ Carried m (fs ++ [f]) r') ∨
    ∃ e r₁ r₂, Replay.step .failFast f r = .error e r₁ ∧ Replay.step .quarantine f r = .ok () r₂ ∧
      Parted m fs f.pointer.lsn e r₁ r₂ := by
  simp only [step_of_decode hf]
  cases record with
  | snapshot id full =>
    have hother : ∀ g page, f.changeOf? g page = none := by
      intro g page
      simp only [Frame.changeOf?, Frame.record?_of_decode hf]
    exact .inl ⟨_, fun _ => rfl, h.marker hother rfl rfl⟩
  | checkpoint id =>
    have hother : ∀ g page, f.changeOf? g page = none := by
      intro g page
      simp only [Frame.changeOf?, Frame.record?_of_decode hf]
    exact .inl ⟨_, fun _ => rfl, h.marker hother rfl rfl⟩
  | delta d =>
    have hreached : Carried m fs (r.reached f) := ⟨h.clean, h.like, h.pages, h.sound⟩
    exact hreached.stepDelta hf

/-- Frames do the same under both policies, or they come apart at one of them. -/
theorem Carried.forM (h : Carried m fs r)
    (hgs : ∀ f ∈ gs, ∃ record, Record.decode f.payload = .ok record) :
    (∃ r', (∀ policy, gs.forM (Replay.step policy) r = .ok ⟨⟩ r') ∧ Carried m (fs ++ gs) r') ∨
    ∃ before f after e r₁ r₂, gs = before ++ f :: after ∧
      gs.forM (Replay.step .failFast) r = .error e r₁ ∧
      gs.forM (Replay.step .quarantine) r = .ok ⟨⟩ r₂ ∧
      Parted m (fs ++ before) f.pointer.lsn e r₁ r₂ := by
  induction gs generalizing fs r with
  | nil => exact .inl ⟨r, fun _ => rfl, by rwa [List.append_nil]⟩
  | cons f gs ih =>
    obtain ⟨record, hf⟩ := hgs f List.mem_cons_self
    have hothers := fun g hg => hgs g (List.mem_cons_of_mem f hg)
    rcases h.step hf with ⟨r', hrun, hr'⟩ | ⟨e, r₁, r₂, hfails, hlists, hparted⟩
    · have hbind : ∀ policy, (f :: gs).forM (Replay.step policy) r =
          gs.forM (Replay.step policy) r' := fun policy => Act.bind_of_ok (hrun policy)
      simp only [hbind]
      rcases ih hr' hothers with ⟨r'', hruns, hr''⟩ | ⟨before, g, after, e, r₁, r₂, rfl, hrest⟩
      · rw [List.append_assoc, List.singleton_append] at hr''
        exact .inl ⟨r'', hruns, hr''⟩
      · rw [List.append_assoc, List.singleton_append] at hrest
        exact .inr ⟨f :: before, g, after, e, r₁, r₂, rfl, hrest⟩
    · -- from here on only the replay under quarantine goes on
      obtain ⟨r₃, more, hruns, hmore⟩ := forM_lists hothers r₂
      rw [← List.append_nil fs] at hparted
      exact .inr ⟨[], f, gs, e, r₁, r₃, rfl, Act.bind_of_error hfails,
        Act.bind_eq_ok.2 ⟨_, r₂, hlists, hruns⟩, hparted.mono hmore⟩

end Carried

end Replay

/-! ### Whole logs -/

/-- A replay onto any pages is a walk through the frames that are read from the log. -/
theorem Log.replay_of_frames {log log' : Log} {found : Scan.Harvest}
    (hframes : Log.frames log = .ok found log') (hend : found.failure = none) (m : Memory) :
    ∃ n, ∀ policy,
      (∀ r, found.frames.forM (Replay.step policy) ⟨m, .empty⟩ = .ok ⟨⟩ r →
        Log.replay policy (log, m) = .ok { r.report with validUpTo := n } (log', r.memory)) ∧
      ∀ e r, found.frames.forM (Replay.step policy) ⟨m, .empty⟩ = .error e r →
        ∃ log'', Log.replay policy (log, m) = .error e (log'', r.memory) := by
  obtain ⟨scan, d, s', hscan, -, hgives⟩ := Log.frames_eq_ok hframes hend
  refine ⟨s'.validUpTo, fun policy => ⟨fun r hrun => ?_, fun e r hrun => ?_⟩⟩
  · exact Log.replay_of_ok hscan (Scan.replay_of_forEach (hgives.forEach_ok hrun))
  · obtain ⟨d', hwalk⟩ := hgives.forEach_error hrun
    refine ⟨⟨d', log'.writer⟩, ?_⟩
    have hfirst : Act.on Prod.fst (fun s log => (log, s.2)) Log.scan (log, m) =
        .ok scan ((⟨d, log'.writer⟩, m) : Log × Memory) := Act.on_of_ok hscan
    rw [Log.replay, Act.bind_of_ok hfirst]
    simp only [Act.on, Scan.replay, hwalk]

/-- The numbers of the frames of a log increase. -/
theorem Log.increasing_frames {log log' : Log} {found : Scan.Harvest}
    (hlen : log.disk.file.len < 2 ^ 64) (hframes : Log.frames log = .ok found log')
    (hend : found.failure = none) :
    (found.frames.map (·.pointer.lsn)).Pairwise (· < ·) := by
  obtain ⟨scan, d, s', -, rfl, hgives⟩ := Log.frames_eq_ok hframes hend
  exact (hgives.increasing hlen (UInt64.le_refl _) (Nat.le_add_right ..)).2

/-- Among frames whose numbers increase, those in front of one are those with smaller numbers. -/
theorem Frame.filter_lsn_lt {before after : List Frame} {f : Frame}
    (h : ((before ++ f :: after).map (·.pointer.lsn)).Pairwise (· < ·)) :
    (before ++ f :: after).filter (·.pointer.lsn < f.pointer.lsn) = before := by
  rw [List.pairwise_map, List.pairwise_append] at h
  obtain ⟨-, hafter, hbefore⟩ := h
  rw [List.filter_append, List.filter_eq_self.2, List.filter_eq_nil_iff.2, List.append_nil]
  · intro g hg
    rw [decide_eq_true_eq]
    rcases List.mem_cons.1 hg with rfl | hg
    · exact UInt64.lt_irrefl _
    · exact UInt64.lt_asymm ((List.pairwise_cons.1 hafter).1 g hg)
  · intro g hg
    exact decide_eq_true (hbefore g hg f List.mem_cons_self)

/-- **The policies differ only on failure.**  A log is read to its end, and the records in all
frames can be decoded; it is replayed onto any pages.  Under quarantine the replay succeeds.  If it
lists no page, then the other replay comes to the same report and the same pages.  Otherwise the
other replay fails, with the reason of the first entry, and leaves every page as its own changes in
front of that entry made it, none of which failed. -/
theorem policies_part_at_first_failure (m : Memory) {log log' : Log} {found : Scan.Harvest}
    (hlen : log.disk.file.len < 2 ^ 64) (hframes : Log.frames log = .ok found log')
    (hend : found.failure = none)
    (hdecode : ∀ f ∈ found.frames, ∃ record, Record.decode f.payload = .ok record) :
    ∃ report pages, Log.replay .quarantine (log, m) = .ok report (log', pages) ∧
      (report.quarantined = [] ↔
        ∃ report' s, Log.replay .failFast (log, m) = .ok report' s) ∧
      (report.quarantined = [] → Log.replay .failFast (log, m) = .ok report (log', pages)) ∧
      ∀ q rest, report.quarantined = q :: rest →
        ∃ log'' pages', Log.replay .failFast (log, m) = .error q.reason (log'', pages') ∧
          ∀ g id, let course := m.course (found.frames.filter (·.pointer.lsn < q.lsn)) g id
            course.failure = none ∧ pages'.contents g id = course.contents := by
  obtain ⟨n, hreplays⟩ := Log.replay_of_frames hframes hend m
  rcases (Replay.carried_nil m).forM hdecode with
    ⟨r, hrun, hr⟩ | ⟨before, f, after, e, r₁, r₂, hsplit, hfails, hlists, hparted⟩
  · have hreplay := fun policy => (hreplays policy).1 r (hrun policy)
    refine ⟨_, _, hreplay .quarantine, ?_, fun _ => hreplay .failFast, fun q rest hq => ?_⟩
    · exact ⟨fun _ => ⟨_, _, hreplay .failFast⟩, fun _ => hr.clean⟩
    · cases hr.clean.symm.trans hq
  · obtain ⟨log'', hfailed⟩ := (hreplays .failFast).2 e r₁ hfails
    obtain ⟨q, rest, hlist, hlsn, hreason⟩ := hparted.first
    refine ⟨_, _, (hreplays .quarantine).1 r₂ hlists, ?_, fun hclean => ?_, fun q' rest' hq' => ?_⟩
    · simp only [hlist, reduceCtorEq, false_iff, not_exists]
      intro report' s hok
      rw [hfailed] at hok
      cases hok
    · cases hlist.symm.trans hclean
    · obtain ⟨rfl, rfl⟩ := List.cons.inj (hlist.symm.trans hq')
      refine ⟨log'', r₁.memory, hreason ▸ hfailed, fun g id => ?_⟩
      -- later frames have higher numbers, so those below the entry are those in front of it
      have hincreasing := Log.increasing_frames hlen hframes hend
      rw [hsplit] at hincreasing
      rw [hlsn, hsplit, Frame.filter_lsn_lt hincreasing]
      exact ⟨hparted.sound g id, hparted.pages g id⟩

/-- A log whose second record is a change for a node of a page that is not one yet.  The record in
front of it is all that the first page shows once the replay has failed. -/
theorem policies_part_at_first_failure_on_page_without_node :
    let h : FileHeader := ⟨7, 1⟩
    let records : List Record :=
      [.delta ⟨⟨1, 1, 12, 1⟩, .init 0 5⟩, .delta ⟨⟨1, 2, 12, 1⟩, .setNext 3⟩, .checkpoint 9,
        .delta ⟨⟨1, 1, 12, 1⟩, .setNext 4⟩]
    let ps := records.map Record.encode
    let log : Log := ⟨.ofFile ⟨.ofBytes (h.image ps), .memory⟩,
      ⟨.off, h, (Tail.start h).pushAll ps, .zero⟩⟩
    let m := Memory.registered .standard [(1, 64)]
    ∃ e report s log' pages, Log.replay .quarantine (log, m) = .ok report s ∧
      report.quarantined = [⟨1, 2, 2, e⟩] ∧
      Log.replay .failFast (log, m) = .error e (log', pages) ∧
      pages.contents 1 1 = (m.course (((Tail.start h).frames ps).take 1) 1 1).contents := by
  intro h records ps log m
  have hl : log.Holds h ps [] := Log.holds_image h .off (Record.admissible_map_encode records)
  have hlen : log.disk.file.len < 2 ^ 64 := by
    rw [← File.length_bytes, hl.disk.bytes, List.append_nil, FileHeader.length_image]
    decide +kernel
  obtain ⟨log', hframes⟩ := hl.frames_eq (FileHeader.numbers_of_le (by decide)) (h.ends_nil ps)
  have hdecode := (Tail.start h).decode_frames records
  obtain ⟨report, pages, hreplay, -, -, hparted⟩ :=
    policies_part_at_first_failure m hlen hframes rfl hdecode
  -- which page is listed is found by walking through the frames
  obtain ⟨n, hreplays⟩ := Log.replay_of_frames hframes rfl m
  obtain ⟨r, -, hrun, -⟩ := Replay.forM_lists hdecode ⟨m, .empty⟩
  have hkeys : ((((Tail.start h).frames ps).forM (Replay.step .quarantine)).left
      ⟨m, .empty⟩).report.quarantined.map (fun q => (q.group, q.page, q.lsn)) = [(1, 2, 2)] := by
    decide +kernel
  rw [Act.left_of_ok hrun] at hkeys
  obtain ⟨⟨g, id, lsn, e⟩, hlist, hkey⟩ := List.map_eq_singleton_iff.1 hkeys
  cases hkey
  rw [(hreplays .quarantine).1 r hrun] at hreplay
  cases hreplay
  obtain ⟨log'', pages', hfailed, hpages⟩ := hparted _ _ hlist
  refine ⟨e, _, _, log'', pages', (hreplays .quarantine).1 r hrun, hlist, hfailed, ?_⟩
  rw [← show ((Tail.start h).frames ps).filter (·.pointer.lsn < 2) =
    ((Tail.start h).frames ps).take 1 by decide +kernel]
  exact (hpages 1 1).2

end PageLog
