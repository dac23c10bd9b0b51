import PageLog.Recovery
import PageLog.Proofs.JournalRun

/-!
# Replay brings the pages back

Replaying a log carries out the changes among its records, one by one, as long as each of them can
be carried out.  On pages as they were before the first record this gives what the pages of the
journal hold, as far as their groups are logged; pages of other groups are not touched.

## Main results

* `Log.Holds.went`, `Log.Holds.replay` — the replay of a log that holds certain records.
* `Journal.Recorded.replay` — the replay of the log of a journal.
* `Journal.Recorded.replay_below` — the replay of one whose numbers ran past the last one.
* `Journal.recovered_ok` — the journal that opening and replaying a log gives.
* `replay_reproduces_pages` — **replay brings back the pages of logged groups, byte for byte**.
-/

namespace PageLog

namespace Replay

/-- The replay went on from `r` to `r'` by carrying out the changes `ds`, which gave the contents
`c`. -/
structure Went (r : Replay) (ds : List PageDelta) (c : Contents) (r' : Replay) : Prop where
  /-- No page is in quarantine. -/
  clean : r'.report.quarantined = []
  /-- The formats and groups stay. -/
  like : r.memory.Like r'.memory
  /-- The pages hold what the changes gave. -/
  contents : r'.memory.contents = c
  /-- Groups that no change is about stay as they are. -/
  spares : ∀ g, (∀ d ∈ ds, d.target.group ≠ g) → r'.memory.groups[g]? = r.memory.groups[g]?
  /-- Pages that were changed count as such. -/
  marked : r.memory.Marked → r'.memory.Marked

/-- Nothing was done but to the report. -/
theorem Went.refl {r : Replay} {report : ReplayReport} (hclean : report.quarantined = []) :
    r.Went [] r.memory.contents ⟨r.memory, report⟩ :=
  ⟨hclean, .refl _, rfl, fun _ _ => rfl, id⟩

section Step

variable {policy : ReplayPolicy} {r : Replay} {c : Contents} {f : Frame}

/-- A change that can be carried out is carried out. -/
theorem stepDelta_ok {d : PageDelta} (lsn : Lsn) (hclean : r.report.quarantined = [])
    (hc : r.memory.contents.change r.memory d = some c) :
    ∃ r', stepDelta policy lsn d r = .ok () r' ∧ r.Went [d] c r' := by
  obtain ⟨m, hrun, hreach, hcontents⟩ := Memory.applyDelta_of_change hc
  have hfree : r.report.isQuarantined d.target = false := by
    rw [ReplayReport.isQuarantined, hclean]
    rfl
  have happly : Act.attempt (applyDelta d) r = .ok (.ok ()) { r with memory := m } := by
    have hon : applyDelta d r = .ok () { r with memory := m } :=
      Act.on_of_ok (Act.mapError_of_ok hrun)
    rw [Act.attempt, hon]
  refine ⟨⟨m, { r.report with applied := r.report.applied + 1 }⟩, ?_, hclean, hreach.toLike,
    hcontents, fun g hg => hreach.others g (hg d (List.mem_singleton_self d)), fun hm => ?_⟩
  · rw [stepDelta, Act.get_bind]
    simp only [hfree, Bool.false_eq_true, if_false]
    rw [Act.bind_of_ok happly]
    rfl
  · have hchange : Memory.change d.target.group d.target.page ((Record.delta d).apply r.memory)
        r.memory = .ok () m := hrun
    have hmarked := hm.change d.target.group d.target.page ((Record.delta d).apply r.memory)
    rwa [Act.left_of_ok hchange] at hmarked

/-- The effect of a record with a given number. -/
def effect (policy : ReplayPolicy) (lsn : Lsn) : Record → Act Replay Unit
  | .snapshot id full =>
      note fun r => { r with whole := r.whole + 1, lastSnapshot := some (id, full) }
  | .checkpoint id => note fun r => { r with whole := r.whole + 1, lastCheckpoint := some id }
  | .delta d => stepDelta policy lsn d

theorem step_of_decode {record : Record}
    (hdecode : Record.decode f.payload = .ok record) :
    step policy f r = effect policy f.pointer.lsn record
      { r with report := { r.report with lastLsn := some f.pointer.lsn } } := by
  have hnote : note (fun report => { report with lastLsn := some f.pointer.lsn }) r = .ok ()
      { r with report := { r.report with lastLsn := some f.pointer.lsn } } := rfl
  have hrecord : Act.ofResult (Record.decode f.payload)
      { r with report := { r.report with lastLsn := some f.pointer.lsn } } = .ok record
      { r with report := { r.report with lastLsn := some f.pointer.lsn } } := by
    rw [hdecode]
    rfl
  rw [step, Act.bind_of_ok hnote, Act.bind_of_ok hrecord]
  cases record <;> rfl

theorem step_eq {record : Record} (hf : f.payload = record.encode) :
    step policy f r = effect policy f.pointer.lsn record
      { r with report := { r.report with lastLsn := some f.pointer.lsn } } :=
  step_of_decode (by rw [hf, Record.decode_encode])

/-- A frame with a record whose change, if it describes one, can be carried out. -/
theorem step_ok {record : Record} (hf : f.payload = record.encode)
    (hclean : r.report.quarantined = [])
    (hc : (Record.changes [record]).foldlM (Contents.change r.memory) r.memory.contents = some c) :
    ∃ r', step policy f r = .ok () r' ∧ r.Went (Record.changes [record]) c r' := by
  rw [step_eq hf]
  cases record with
  | snapshot id full =>
    cases hc
    exact ⟨_, rfl, .refl hclean⟩
  | checkpoint id =>
    cases hc
    exact ⟨_, rfl, .refl hclean⟩
  | delta d =>
    obtain ⟨c', hc', hrest⟩ := Option.bind_eq_some_iff.1 hc
    cases hrest
    obtain ⟨r', hrun, hwent⟩ := stepDelta_ok f.pointer.lsn (r := { r with
      report := { r.report with lastLsn := some f.pointer.lsn } }) hclean hc'
    exact ⟨r', hrun, hwent.clean, hwent.like, hwent.contents, hwent.spares, hwent.marked⟩

/-- Frames with records whose changes can be carried out one after the other. -/
theorem steps_ok {records : List Record} {fs : List Frame}
    (hfs : fs.map Frame.payload = records.map Record.encode) (hclean : r.report.quarantined = [])
    (hc : (Record.changes records).foldlM (Contents.change r.memory) r.memory.contents = some c) :
    ∃ r', fs.forM (step policy) r = .ok ⟨⟩ r' ∧ r.Went (Record.changes records) c r' := by
  induction records generalizing fs r with
  | nil =>
    obtain rfl := List.map_eq_nil_iff.1 hfs
    cases hc
    exact ⟨r, rfl, .refl hclean⟩
  | cons record records ih =>
    cases fs with
    | nil => cases hfs
    | cons f fs =>
      simp only [List.map_cons, List.cons.injEq] at hfs
      rw [← List.singleton_append, Record.changes_append, List.foldlM_append] at hc
      obtain ⟨c₁, hc₁, hc₂⟩ := Option.bind_eq_some_iff.1 hc
      obtain ⟨r₁, hstep, hwent₁⟩ := step_ok hfs.1 hclean hc₁
      -- what was to be made of the first contents is to be made of these
      rw [← hwent₁.contents, ← Contents.change_like hwent₁.like] at hc₂
      obtain ⟨r₂, hsteps, hwent₂⟩ := ih hfs.2 hwent₁.clean hc₂
      refine ⟨r₂, ?_, hwent₂.clean, hwent₁.like.trans hwent₂.like, hwent₂.contents, fun g hg => ?_,
        fun hm => hwent₂.marked (hwent₁.marked hm)⟩
      · exact Act.bind_eq_ok.2 ⟨_, r₁, hstep, hsteps⟩
      · rw [← List.singleton_append, Record.changes_append] at hg
        rw [hwent₂.spares g fun d hd => hg d (List.mem_append_right _ hd),
          hwent₁.spares g fun d hd => hg d (List.mem_append_left _ hd)]

end Step

end Replay

theorem Scan.replay_of_forEach {policy : ReplayPolicy} {s s' : Scan} {d d' : Disk} {m : Memory}
    {r : Replay} (hwalk : s.forEach (Replay.step policy) (d, ⟨m, .empty⟩) = .ok s' (d', r)) :
    s.replay policy (d, m) = .ok { r.report with validUpTo := s'.validUpTo } (d', r.memory) := by
  simp only [Scan.replay, hwalk]

section Replay

variable {policy : ReplayPolicy} {log : Log} {w : Writer} {scan : Scan} {d d' : Disk}
  {m m' : Memory}

/-- A log is replayed by replaying its scan. -/
theorem Log.replay_of_scan (policy : ReplayPolicy) (m : Memory)
    (hscan : Log.scan log = .ok scan ⟨d, w⟩) :
    Log.replay policy (log, m) = Act.on (fun s => (s.1.disk, s.2))
      (fun s t => ({ s.1 with disk := t.1 }, t.2)) (scan.replay policy) (⟨d, w⟩, m) := by
  have hfirst : Act.on Prod.fst (fun s log => (log, s.2)) Log.scan (log, m) =
      .ok scan ((⟨d, w⟩, m) : Log × Memory) := Act.on_of_ok hscan
  rw [Log.replay, Act.bind_of_ok hfirst]

theorem Log.replay_of_ok {report : ReplayReport} (hscan : Log.scan log = .ok scan ⟨d, w⟩)
    (hreplay : scan.replay policy (d, m) = .ok report (d', m')) :
    Log.replay policy (log, m) = .ok report (⟨d', w⟩, m') := by
  rw [Log.replay_of_scan policy m hscan]
  simp only [Act.on, hreplay]

end Replay

/-- The replay of a log whose records' changes can be carried out, whatever is to be done about
changes that cannot. -/
theorem Log.Holds.went {log : Log} {h : FileHeader} {records : List Record} {rest : Bytes}
    {m : Memory} {c : Contents} (hl : log.Holds h (records.map Record.encode) rest)
    (hn : h.Numbers records.length) (hends : h.Ends (records.map Record.encode) rest)
    (hc : (Record.changes records).foldlM (Contents.change m) m.contents = some c)
    (policy : ReplayPolicy) :
    ∃ report log' m', Log.replay policy (log, m) = .ok report (log', m') ∧
      Replay.Went ⟨m, .empty⟩ (Record.changes records) c ⟨m', report⟩ ∧
      log'.Holds h (records.map Record.encode) rest := by
  obtain ⟨d₁, hscan, hd₁⟩ := hl.scan
  obtain ⟨r, hsteps, hwent⟩ : ∃ r, ((Tail.start h).frames (records.map Record.encode)).forM
      (Replay.step policy) ⟨m, .empty⟩ = .ok ⟨⟩ r ∧
      Replay.Went ⟨m, .empty⟩ (Record.changes records) c r :=
    Replay.steps_ok (Tail.map_payload_frames ..) rfl hc
  obtain ⟨d₂, hd₂, hwalk⟩ := Scan.forEach_image hd₁ hl.admissible (by rwa [List.length_map]) hends
    hsteps
  exact ⟨_, _, _, Log.replay_of_ok hscan (Scan.replay_of_forEach hwalk),
    ⟨hwent.clean, hwent.like, hwent.contents, hwent.spares, hwent.marked⟩, { hl with disk := hd₂ }⟩

/-- What such a replay brings back. -/
theorem Log.Holds.replay {log : Log} {h : FileHeader} {records : List Record} {rest : Bytes}
    {m : Memory} {c : Contents} (hl : log.Holds h (records.map Record.encode) rest)
    (hn : h.Numbers records.length) (hends : h.Ends (records.map Record.encode) rest)
    (hc : (Record.changes records).foldlM (Contents.change m) m.contents = some c) :
    ∃ report log' m', Log.replay .failFast (log, m) = .ok report (log', m') ∧ m.Like m' ∧
      m'.contents = c ∧
      (∀ g, (∀ d ∈ Record.changes records, d.target.group ≠ g) → m'.groups[g]? = m.groups[g]?) ∧
      log'.Holds h (records.map Record.encode) rest := by
  obtain ⟨report, log', m', hreplay, hwent, hl'⟩ := hl.went hn hends hc .failFast
  exact ⟨report, log', m', hreplay, hwent.like, hwent.contents, hwent.spares, hl'⟩

/-! ### Journals -/

namespace Journal

/-- A journal over a new log has recorded nothing, and nothing was done to its pages. -/
theorem recorded_new {log : Log} {h : FileHeader} (hl : log.Holds h [] []) (m : Memory)
    (switches : Switches) : Journal.Recorded ⟨log, m, switches⟩ h m [] :=
  ⟨hl, .refl m, by simp [Record.changes], m.contents, rfl, fun _ _ => rfl⟩

/-- Any log that holds a journal's records brings back the pages of logged groups. -/
theorem Recorded.replay {j : Journal} {h : FileHeader} {m : Memory} {rs : List Record} {log : Log}
    (hj : j.Recorded h m rs) (hl : log.Holds h (rs.map Record.encode) [])
    (hn : h.Numbers rs.length) :
    ∃ report log' m', Log.replay .failFast (log, m) = .ok report (log', m') ∧ m.Like m' ∧
      (∀ g, j.switches.isEnabled g = true → m'.contents g = j.memory.contents g) ∧
      ∀ g, j.switches.isEnabled g = false → m'.groups[g]? = m.groups[g]? := by
  obtain ⟨c, hc, hpages⟩ := hj.pages
  obtain ⟨report, log', m', hreplay, hlike, hcontents, hspares, -⟩ :=
    hl.replay hn (h.ends_nil _) hc
  refine ⟨report, log', m', hreplay, hlike, fun g hg => ?_, fun g hg => hspares g fun d hd => ?_⟩
  · rw [hcontents, hpages g hg]
  · rintro rfl
    have hlogged := hj.logged d hd
    rw [isLogged, hg] at hlogged
    cases hlogged

/-- The journal that opening the log on a disk and replaying it onto untouched pages gives. -/
def recovered (options : LogOptions) (groups : List (GroupId × Nat)) (switches : Switches)
    (disk : Disk) : Option Journal :=
  match Writer.ofDisk options disk with
  | .error _ _ => none
  | .ok w disk =>
      match Log.replay .failFast (⟨disk, w⟩, Memory.fresh groups) with
      | .error _ _ => none
      | .ok _ (log, m) => some ⟨log, m, switches⟩

/-- The journal over a file that holds records whose changes can be carried out. -/
theorem recovered_ok (options : LogOptions) {groups : List (GroupId × Nat)}
    (switches : Switches) {disk : Disk} {h : FileHeader} {rs : List Record} {rest : Bytes}
    {c : Contents} (hdisk : disk.Holds (h.image (rs.map Record.encode) ++ rest))
    (hn : h.Numbers rs.length) (hends : h.Ends (rs.map Record.encode) rest)
    (hsalt : options.salt = h.salt)
    (hc : (Record.changes rs).foldlM (Contents.change (Memory.fresh groups))
      (Memory.fresh groups).contents = some c) :
    ∃ j, recovered options groups switches disk = some j ∧
      (Memory.fresh groups).Like j.memory ∧ j.memory.contents = c ∧ j.switches = switches ∧
      (∀ g, (∀ d ∈ Record.changes rs, d.target.group ≠ g) →
        j.memory.groups[g]? = (Memory.fresh groups).groups[g]?) ∧
      j.log.Holds h (rs.map Record.encode) rest := by
  obtain ⟨w, disk', hopen, hl, -⟩ := Writer.ofDisk_image options hdisk
    (Record.admissible_map_encode rs) (by rwa [List.length_map]) hends hsalt
  obtain ⟨report, log, m, hreplay, hlike, hcontents, hspares, hl'⟩ := hl.replay hn hends hc
  refine ⟨⟨log, m, switches⟩, ?_, hlike, hcontents, rfl, hspares, hl'⟩
  simp only [recovered, hopen, hreplay]

end Journal

/-- Replaying the log onto untouched pages succeeds, brings back the pages of logged groups as they
are in the memory `live`, and touches no page of other groups. -/
def Log.Restores (log : Log) (groups : List (GroupId × Nat)) (switches : Switches)
    (live : Memory) : Prop :=
  ∃ report log' m, Log.replay .failFast (log, Memory.fresh groups) = .ok report (log', m) ∧
    (∀ g id, switches.isEnabled g = true → m.contents g id = live.contents g id) ∧
    ∀ g id, switches.isEnabled g = false → m.containsPage g id = false

theorem Journal.Recorded.restores {j : Journal} {h : FileHeader} {groups : List (GroupId × Nat)}
    {rs : List Record} {log : Log} (hj : j.Recorded h (Memory.fresh groups) rs)
    (hl : log.Holds h (rs.map Record.encode) []) (hn : h.Numbers rs.length) :
    log.Restores groups j.switches j.memory := by
  obtain ⟨report, log', m, hreplay, -, hpages, hspares⟩ := hj.replay hl hn
  refine ⟨report, log', m, hreplay, fun g id hg => by rw [hpages g hg], fun g id hg => ?_⟩
  have huntouched := (Memory.fresh_untouched groups).containsPage g id
  unfold Memory.containsPage at huntouched ⊢
  rwa [hspares g hg]

end PageLog
