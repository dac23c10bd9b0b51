import PageLog.Proofs.RefusedSyncs
import PageLog.Proofs.ReplayedPages

/-!
# Log and pages when the file refuses

A change goes to the log before it goes to the pages, and to the pages only if the log took it.
What the file leaves of a refused operation is in the log all the same: all of its records if only
the sync was refused, and some of them if a write was.  They are read and replayed with the others,
on pages that the journal never had.

## Main definitions

* `Log.Tells` — the records that are read from a log.
* `Journal.acknowledged` — the records of the operations that succeeded.
* `JournalOp.refused`, `Journal.Unfailed` — the file refuses an operation, or none.
* `Journal.Traceless` — what the file refuses leaves nothing in the log.

## Main results

* `Journal.Shows.restores` — replay brings back the pages if the log tells what they show.
* `JournalOp.run_cases`, `JournalOp.fate` — what becomes of an operation.
* `Journal.refused_replayed` — what is left of a refused operation is replayed.
* `log_tells_acknowledged_iff` — **the log tells what was acknowledged as long as nothing is left of
  what was refused**.
-/

namespace PageLog

/-! ### Replaying what is read -/

/-- What is read from the log are the records `rs`, and the log is read to its end. -/
def Log.Tells (log : Log) (rs : List Record) : Prop :=
  ∃ read log', Log.frames log = .ok read log' ∧ read.failure = none ∧
    read.frames.map Frame.payload = rs.map Record.encode

theorem Record.eq_of_encode {r r' : Record} (h : r.encode = r'.encode) : r = r' := by
  have hdecode := Record.decode_encode r
  rw [h, Record.decode_encode] at hdecode
  cases hdecode
  rfl

/-- A log does not tell two things. -/
theorem Log.Tells.unique {log : Log} {rs rs' : List Record} (h : log.Tells rs)
    (h' : log.Tells rs') : rs = rs' := by
  rcases h with ⟨read, log₁, hread, -, hpayloads⟩
  rcases h' with ⟨read', log₂, hread', -, hpayloads'⟩
  rw [hread] at hread'
  cases hread'
  rw [hpayloads] at hpayloads'
  exact (List.map_inj_right fun _ _ => Record.eq_of_encode).1 hpayloads'

theorem Log.Exact.tells {log : Log} {h : FileHeader} {rs : List Record}
    (hl : log.willing.Exact h (rs.map Record.encode)) (hn : h.Numbers rs.length) :
    log.Tells rs := by
  rcases hl.frames_eq (by rwa [List.length_map]) with ⟨log', hframes⟩
  exact ⟨_, log', hframes, rfl, Tail.map_payload_frames _ _⟩

/-- A log that was cut off tells the first of the records that were cut off. -/
theorem Log.Torn.tells {log : Log} {h : FileHeader} {rs more : List Record}
    (hl : log.willing.Torn h (rs.map Record.encode) (more.map Record.encode))
    (hn : h.Numbers (rs.length + more.length)) :
    ∃ left, left <+: more ∧ log.Tells (rs ++ left) := by
  have hall := Record.admissible_map_encode more
  rcases hl.frames_eq hall (by rwa [List.length_map, List.length_map]) with ⟨k, log', hframes⟩
  refine ⟨more.take k, List.take_prefix _ _, _, log', hframes, rfl, ?_⟩
  rw [Tail.map_payload_frames, List.map_append, List.map_take]

/-- A scan from which all is read without a failure came to an end. -/
theorem Scan.Gives.of_no_failure {s : Scan} {d : Disk} {fs : List Frame}
    {x : EStateM.Result Error Disk Scan} (h : s.Gives d fs x)
    (hend : (s.harvest d).1.failure = none) : ∃ s' d', x = .ok s' d' := by
  have hwalk := h.forEach_ok (Scan.collect_frames fs [])
  unfold Scan.harvest at hend
  rw [hwalk] at hend
  cases x with
  | ok s' d' => exact ⟨s', d', rfl⟩
  | error e d' => cases hend

/-- Replay brings back the pages if the log tells what they show. -/
theorem Journal.Shows.restores {j : Journal} {groups : List (GroupId × Nat)} {rs : List Record}
    {log : Log} (hj : j.Shows (Memory.fresh groups) rs) (hl : log.Tells rs) :
    log.Restores groups j.switches j.memory := by
  obtain ⟨c, hc, hpages⟩ := hj.pages
  obtain ⟨read, log', hframes, hend, hpayloads⟩ := hl
  obtain ⟨scan, ⟨d, w⟩, hscan, hharvest⟩ := Act.bind_eq_ok.1 hframes
  cases hharvest
  obtain ⟨fs, x, hgives⟩ := scan.exists_gives d
  obtain ⟨s', d', rfl⟩ := hgives.of_no_failure hend
  rw [hgives.frames_harvest] at hpayloads
  obtain ⟨r, hsteps, hwent⟩ := Replay.steps_ok (r := ⟨Memory.fresh groups, .empty⟩) hpayloads rfl hc
  have hreplay := Log.replay_of_ok hscan (Scan.replay_of_forEach (hgives.forEach_ok hsteps))
  refine ⟨_, _, _, hreplay, fun g id hg => ?_, fun g id hg => ?_⟩
  · show r.memory.contents g id = _
    rw [hwent.contents, hpages g hg]
  · -- no record is about a group that is not logged
    have huntouched := (Memory.fresh_untouched groups).containsPage g id
    have hspared : r.memory.groups[g]? = (Memory.fresh groups).groups[g]? := by
      refine hwent.spares g fun d hd => ?_
      rintro rfl
      have hlogged := hj.logged d hd
      rw [isLogged, hg] at hlogged
      cases hlogged
    show r.memory.containsPage g id = false
    unfold Memory.containsPage at huntouched ⊢
    rwa [hspared]

/-! ### Operations -/

/-- The records that an operation appends to the log of a journal. -/
def JournalOp.recorded (j : Journal) : JournalOp → List Record
  | .logRecord r => [r]
  | .apply r => j.recordsOf (Record.changes [r])
  | .applyBatch rs => j.recordsOf (Record.changes rs)

/-- The records of an operation, if it succeeds. -/
def JournalOp.acknowledged (op : JournalOp) (j : Journal) : List Record :=
  match op.run j with
  | .ok _ _ => op.recorded j
  | .error _ _ => []

/-- Whether the file refuses an operation: it fails after calls were made to the file. -/
def JournalOp.refused (op : JournalOp) (j : Journal) : Bool :=
  match op.run j with
  | .ok _ _ => false
  | .error _ j' => j'.log.disk.made ≠ j.log.disk.made

theorem JournalOp.length_recorded_le (op : JournalOp) (j : Journal) :
    (op.recorded j).length ≤ op.records.length := by
  have hchanges : ∀ rs, (j.recordsOf (Record.changes rs)).length ≤ rs.length := fun rs =>
    Nat.le_trans (j.length_recordsOf_le _) (List.length_filterMap_le _ _)
  cases op with
  | logRecord r => exact Nat.le_refl _
  | apply r => exact hchanges [r]
  | applyBatch rs => exact hchanges rs

/-- The journal `j'` shows what `j` shows, and what the records `more` tell besides. -/
structure Journal.Changed (j : Journal) (more : List Record) (j' : Journal) : Prop where
  switches : j'.switches = j.switches
  shows : ∀ (m : Memory) (rs : List Record), j.Shows m rs → j'.Shows m (rs ++ more)

namespace JournalOp

variable {j : Journal}

theorem append_of_appendBatch (log : Log) (p : Bytes) :
    match Log.appendBatch [p] log with
    | .ok _ log' => ∃ pointer, Log.append p log = .ok pointer log'
    | .error e log' => Log.append p log = .error e log' := by
  cases hrun : Log.appendBatch [p] log with
  | ok pointers log' =>
    refine ⟨log.writer.tail.pointer p, ?_⟩
    rw [Log.append, Act.bind_of_ok hrun, Log.appendBatch_eq_ok hrun]
    rfl
  | error e log' => exact Act.bind_of_error hrun

/-- A batch of changes is refused before the log is written to.  Or it is carried out if the log
takes its records, and makes no difference to the pages otherwise. -/
theorem run_batch {op : JournalOp} {records : List Record} {β : Type}
    {f : List (Option LogPointer) → β} (hop : op.run = discard (f <$> Journal.applyBatch records)) :
    (∃ e m, op.run j = .error e { j with memory := m } ∧ j.memory.Peeks m) ∨
      match Log.appendBatch ((j.recordsOf (Record.changes records)).map Record.encode) j.log with
      | .ok _ log => ∃ m, op.run j = .ok () { j with log, memory := m } ∧
          j.Changed (j.recordsOf (Record.changes records)) { j with log, memory := m }
      | .error _ log => ∃ e m m', op.run j = .error e { j with log, memory := m } ∧
          j.memory.Peeks m ∧
          j.Changed (j.recordsOf (Record.changes records)) { j with log, memory := m' } := by
  have hok : ∀ {pointers j'}, Journal.applyBatch records j = .ok pointers j' →
      op.run j = .ok () j' := fun hrun => by
    rw [hop]
    exact Act.discard_of_ok (Act.map_of_ok hrun)
  have herror : ∀ {e j'}, Journal.applyBatch records j = .error e j' →
      op.run j = .error e j' := fun hrun => by
    rw [hop]
    exact Act.map_of_error (Act.map_of_error hrun)
  by_cases hwhole : (records.any (·.delta?.isNone)) = true
  · refine .inl ⟨.invalid .wholeRecordInBatch, j.memory, herror ?_, .refl _⟩
    simp only [Journal.applyBatch, hwhole, if_true]
    rfl
  · rw [Journal.applyBatch_of_changes (Bool.eq_false_iff.2 hwhole)] at hok herror
    have houtcome := j.applyDeltas_outcome (Record.changes records)
    cases hchanges : (Record.changes records).foldlM (Contents.change j.memory)
        j.memory.contents with
    | none =>
      rw [hchanges] at houtcome
      -- the changes cannot be carried out, which is seen on copies
      obtain ⟨e, hrun, hpeeks⟩ := houtcome
      exact .inl ⟨e, _, herror hrun, hpeeks⟩
    | some c =>
      rw [hchanges] at houtcome
      right
      cases happend : Log.appendBatch ((j.recordsOf (Record.changes records)).map Record.encode)
          j.log with
      | ok pointers log =>
        simp only [happend] at houtcome ⊢
        obtain ⟨m, hrun, hlike, rfl⟩ := houtcome
        exact ⟨m, hok hrun, rfl, fun _ _ hj => hj.carriedOut hlike hchanges log⟩
      | error e log =>
        simp only [happend] at houtcome ⊢
        obtain ⟨e', m, hrun, hpeeks⟩ := houtcome
        obtain ⟨m', -, hlike, rfl⟩ := Journal.applyAll_of_changes hchanges
        exact ⟨e', m, m', herror hrun, hpeeks, rfl,
          fun _ _ hj => hj.carriedOut hlike hchanges log⟩

/-- An operation is refused before the log is written to.  Or it is carried out if the log takes its
records, and makes no difference to the pages otherwise. -/
theorem run_cases (op : JournalOp) (j : Journal) :
    (∃ e m, op.run j = .error e { j with memory := m } ∧ j.memory.Peeks m) ∨
      match Log.appendBatch ((op.recorded j).map Record.encode) j.log with
      | .ok _ log => ∃ m, op.run j = .ok () { j with log, memory := m } ∧
          j.Changed (op.recorded j) { j with log, memory := m }
      | .error _ log => ∃ e m m', op.run j = .error e { j with log, memory := m } ∧
          j.memory.Peeks m ∧ j.Changed (op.recorded j) { j with log, memory := m' } := by
  cases op with
  | apply r => exact run_batch (f := (·.getLast?.join)) rfl
  | applyBatch records => exact run_batch (f := id) (by rw [id_map]; rfl)
  | logRecord r =>
    by_cases hdelta : r.delta? = none
    · right
      -- the record changes no page
      have hchanged : ∀ log, j.Changed [r] { j with log, memory := j.memory } := by
        intro log
        refine ⟨rfl, fun m rs hj => ?_⟩
        have hsame : Record.changes (rs ++ [r]) = Record.changes rs := by
          rw [Record.changes_append, Record.changes, Record.changes, List.filterMap_cons, hdelta]
          simp
        have hshows := hj.peeks (.refl j.memory) log
        exact ⟨hshows.like, by rw [hsame]; exact hshows.logged, by rw [hsame]; exact hshows.pages⟩
      have hrun : Journal.logRecord r j = Journal.onLog (Log.append r.encode) j := by
        cases r with
        | delta d => cases hdelta
        | snapshot id full => rfl
        | checkpoint id => rfl
      have happend := append_of_appendBatch j.log r.encode
      simp only [recorded, List.map_cons, List.map_nil]
      cases hlog : Log.appendBatch [r.encode] j.log with
      | ok pointers log =>
        simp only [hlog] at happend ⊢
        obtain ⟨pointer, happend⟩ := happend
        refine ⟨j.memory, ?_, hchanged log⟩
        exact Act.discard_of_ok (hrun.trans (Journal.onLog_of_ok happend))
      | error e log =>
        simp only [hlog] at happend ⊢
        refine ⟨e, j.memory, j.memory, ?_, .refl _, hchanged log⟩
        exact Act.map_of_error (hrun.trans (Act.on_of_error happend))
    · -- a change is not logged alone
      left
      cases r with
      | delta d => exact ⟨_, j.memory, rfl, .refl _⟩
      | snapshot id full => exact absurd rfl hdelta
      | checkpoint id => exact absurd rfl hdelta

theorem of_run_ok {op : JournalOp} {j' : Journal} (hrun : op.run j = .ok () j') :
    j.after op = j' ∧ op.acknowledged j = op.recorded j ∧ op.refused j = false := by
  simp only [Journal.after, acknowledged, refused, hrun, and_self]

theorem of_run_error {op : JournalOp} {e : Error} {j' : Journal}
    (hrun : op.run j = .error e j') :
    j.after op = j' ∧ op.acknowledged j = [] ∧
      op.refused j = decide (j'.log.disk.made ≠ j.log.disk.made) := by
  simp only [Journal.after, acknowledged, refused, hrun, and_self]

/-- An operation makes no difference to the pages, or its records are acknowledged and carried
out. -/
theorem outcome (op : JournalOp) (j : Journal) :
    ∃ log m, j.after op = { j with log, memory := m } ∧
      (op.acknowledged j = [] ∧ j.memory.Peeks m ∨
        op.acknowledged j = op.recorded j ∧
          j.Changed (op.recorded j) { j with log, memory := m }) := by
  rcases op.run_cases j with ⟨e, m, hrun, hpeeks⟩ | hcases
  · obtain ⟨hafter, hnone, -⟩ := of_run_error hrun
    exact ⟨j.log, m, hafter, .inl ⟨hnone, hpeeks⟩⟩
  · cases hlog : Log.appendBatch ((op.recorded j).map Record.encode) j.log with
    | ok pointers log =>
      rw [hlog] at hcases
      obtain ⟨m, hrun, hchanged⟩ := hcases
      obtain ⟨hafter, hrecords, -⟩ := of_run_ok hrun
      exact ⟨log, m, hafter, .inr ⟨hrecords, hchanged⟩⟩
    | error e log =>
      rw [hlog] at hcases
      obtain ⟨e', m, -, hrun, hpeeks, -⟩ := hcases
      obtain ⟨hafter, hnone, -⟩ := of_run_error hrun
      exact ⟨log, m, hafter, .inl ⟨hnone, hpeeks⟩⟩

/-- What becomes of an operation.  It is acknowledged; or it fails and the file was not called; or
its records are written and only the sync is refused; or one of the writes is refused.  Where the
records are written, `P` holds of the log, and where a write is refused, `Q` does. -/
inductive Fate (op : JournalOp) (j : Journal) (P Q : Log → Prop) : Prop where
  | acknowledged (granted : op.refused j = false) (records : op.acknowledged j = op.recorded j)
      (written : P (j.after op).log)
  | idle (granted : op.refused j = false) (records : op.acknowledged j = [])
      (same : (j.after op).log = j.log)
  | unsynced (refused : op.refused j = true) (records : op.acknowledged j = [])
      (some : op.recorded j ≠ []) (written : P (j.after op).log)
      (pages : j.memory.Peeks (j.after op).memory) (changed : ∃ j', j.Changed (op.recorded j) j')
  | unwritten (refused : op.refused j = true) (records : op.acknowledged j = [])
      (made : (j.after op).log.disk.made.syncs = j.log.disk.made.syncs)
      (torn : Q (j.after op).log) (pages : j.memory.Peeks (j.after op).memory)
      (changed : ∃ j', j.Changed (op.recorded j) j')

theorem fate {P Q : Log → Prop} (op : JournalOp) (j : Journal)
    (hfared : Log.Fared P Q j.log
      (Log.appendBatch ((op.recorded j).map Record.encode) j.log)) : op.Fate j P Q := by
  rcases op.run_cases j with ⟨e, m, hrun, hpeeks⟩ | hcases
  · obtain ⟨hafter, hnone, hrefused⟩ := of_run_error hrun
    have hmade : op.refused j = false := by
      rw [hrefused]
      exact decide_eq_false (not_not_intro rfl)
    exact .idle hmade hnone (by rw [hafter])
  · generalize hlog : Log.appendBatch ((op.recorded j).map Record.encode) j.log = r at hcases hfared
    cases hfared with
    | ok hP =>
      obtain ⟨m, hrun, hchanged⟩ := hcases
      obtain ⟨hafter, hrecords, hgranted⟩ := of_run_ok hrun
      exact .acknowledged hgranted hrecords (by rwa [hafter])
    | @unsynced report log hP hmade =>
      -- that a sync was made tells this refusal from one before the log was written to
      obtain ⟨e, m, m', hrun, hpeeks, hchanged⟩ := hcases
      obtain ⟨hafter, hnone, hrefused⟩ := of_run_error hrun
      have hother : log.disk.made ≠ j.log.disk.made := fun hsame =>
        absurd (congrArg CallCounts.syncs hsame) (Nat.ne_of_gt hmade)
      -- a batch without records does not call the file
      have hsome : op.recorded j ≠ [] := by
        intro hempty
        rw [hempty] at hlog
        cases hlog
      exact .unsynced (hrefused.trans (decide_eq_true hother)) hnone hsome (by rwa [hafter])
        (by rwa [hafter]) ⟨_, hchanged⟩
    | @unwritten report log hQ hmade hcalled =>
      obtain ⟨e, m, m', hrun, hpeeks, hchanged⟩ := hcases
      obtain ⟨hafter, hnone, hrefused⟩ := of_run_error hrun
      have hother : log.disk.made ≠ j.log.disk.made := fun hsame =>
        absurd (congrArg CallCounts.writes hsame) (Nat.ne_of_gt hcalled)
      exact .unwritten (hrefused.trans (decide_eq_true hother)) hnone (by rwa [hafter])
        (by rwa [hafter]) (by rwa [hafter]) ⟨_, hchanged⟩

end JournalOp

/-! ### Runs -/

/-- How many records operations are about. -/
def JournalOp.count (ops : List JournalOp) : Nat := (ops.flatMap JournalOp.records).length

theorem JournalOp.count_cons (op : JournalOp) (ops : List JournalOp) :
    count (op :: ops) = op.records.length + count ops := by
  rw [count, List.flatMap_cons, List.length_append, count]

theorem JournalOp.count_append (ops ops' : List JournalOp) :
    count (ops ++ ops') = count ops + count ops' := by
  rw [count, List.flatMap_append, List.length_append, count, count]

namespace Journal

/-- The records of the operations that succeeded. -/
def acknowledged : Journal → List JournalOp → List Record
  | _, [] => []
  | j, op :: ops => op.acknowledged j ++ (j.after op).acknowledged ops

/-- The file refuses none of the operations. -/
def Unfailed : Journal → List JournalOp → Prop
  | _, [] => True
  | j, op :: ops => op.refused j = false ∧ (j.after op).Unfailed ops

/-- Nothing is left of what the file refuses: the first operation that it refuses, if there is one,
is refused a write, and from then on the log goes on telling what was acknowledged before, and
nothing is acknowledged any more. -/
def Traceless (j : Journal) (ops : List JournalOp) : Prop :=
  ∀ before op after, ops = before ++ op :: after → j.Unfailed before →
    op.refused (j.afterAll before) = true →
    (j.afterAll (before ++ [op])).log.disk.made.syncs =
        (j.afterAll before).log.disk.made.syncs ∧
      ∀ part, part <+: after →
        (j.afterAll (before ++ op :: part)).log.Tells (j.acknowledged before) ∧
        j.acknowledged (before ++ op :: part) = j.acknowledged before

section Run

variable {j : Journal} {h : FileHeader} {m : Memory} {rs : List Record} {ps : List Bytes} {n : Nat}
  {ops : List JournalOp}

theorem afterAll_append (j : Journal) (ops ops' : List JournalOp) :
    j.afterAll (ops ++ ops') = (j.afterAll ops).afterAll ops' := List.foldl_append

theorem acknowledged_append (j : Journal) (ops ops' : List JournalOp) :
    j.acknowledged (ops ++ ops') = j.acknowledged ops ++ (j.afterAll ops).acknowledged ops' := by
  induction ops generalizing j with
  | nil => rfl
  | cons op ops ih =>
    rw [List.cons_append, acknowledged, acknowledged, ih, List.append_assoc]
    rfl

/-- The pages show what was acknowledged. -/
theorem Shows.after (hj : j.Shows m rs) (op : JournalOp) :
    (j.after op).Shows m (rs ++ op.acknowledged j) := by
  rcases op.outcome j with ⟨log, m', hafter, ⟨hnone, hpeeks⟩ | ⟨hrecords, hchanged⟩⟩
  · rw [hafter, hnone, List.append_nil]
    exact hj.peeks hpeeks log
  · rw [hafter, hrecords]
    exact hchanged.shows m rs hj

theorem Shows.afterAll (hj : j.Shows m rs) (ops : List JournalOp) :
    (j.afterAll ops).Shows m (rs ++ j.acknowledged ops) := by
  induction ops generalizing j rs with
  | nil =>
    rw [acknowledged, List.append_nil]
    exact hj
  | cons op ops ih =>
    rw [acknowledged, ← List.append_assoc]
    exact ih (hj.after op)

/-- What a first part of further records comes to on the pages. -/
theorem Shows.first {j' : Journal} {more left : List Record} (hj : j.Shows m rs)
    (hj' : j'.Shows m (rs ++ more)) (hswitches : j'.switches = j.switches) (hleft : left <+: more) :
    ∃ m', (Record.changes left).foldlM (Contents.change j.memory) j.memory.contents =
        some m'.contents ∧
      ∀ log, Journal.Shows { j with log, memory := m' } m (rs ++ left) := by
  obtain ⟨c, hc, hpages⟩ := hj.pages
  obtain ⟨c', hc', -⟩ := hj'.pages
  obtain ⟨rest, rfl⟩ := hleft
  -- all changes among the records are of logged groups, so also those of the first part
  have hlogged : ∀ d ∈ Record.changes (rs ++ left), j.isLogged d = true := by
    intro d hd
    rw [isLogged, ← hswitches]
    refine hj'.logged d ?_
    rw [← List.append_assoc, Record.changes_append]
    exact List.mem_append_left _ hd
  rw [← List.append_assoc, Record.changes_append, List.foldlM_append] at hc'
  obtain ⟨c₁, hc₁, -⟩ := Option.bind_eq_some_iff.1 hc'
  have hmore := hc₁
  rw [Record.changes_append, List.foldlM_append, hc] at hmore
  -- all changes are of logged groups, on which the pages are as the records tell
  obtain ⟨e, he, hsame, -⟩ := Contents.changes_filter j.switches.isEnabled hmore
    fun g hg => (hpages g hg).symm
  have hall : (Record.changes left).filter (fun d => j.switches.isEnabled d.target.group) =
      Record.changes left := by
    rw [List.filter_eq_self]
    intro d hd
    refine hlogged d ?_
    rw [Record.changes_append]
    exact List.mem_append_right _ hd
  rw [hall, ← Contents.change_like hj.like] at he
  obtain ⟨m', -, hlike, rfl⟩ := applyAll_of_changes he
  exact ⟨m', he, fun log => ⟨hj.like.trans hlike, hlogged, c₁, hc₁,
    fun g hg => (hsame g hg).symm⟩⟩

theorem switches_after (j : Journal) (op : JournalOp) : (j.after op).switches = j.switches := by
  obtain ⟨log, m, hafter, -⟩ := op.outcome j
  rw [hafter]

theorem switches_afterAll (j : Journal) (ops : List JournalOp) :
    (j.afterAll ops).switches = j.switches := by
  induction ops generalizing j with
  | nil => rfl
  | cons op ops ih => exact (ih (j.after op)).trans (j.switches_after op)

/-! While the file refuses nothing, its log holds just what was acknowledged. -/

theorem exact_fate (hl : j.log.willing.Exact h (rs.map Record.encode)) (op : JournalOp) :
    op.Fate j (fun log => log.willing.Exact h ((rs ++ op.recorded j).map Record.encode))
      (fun log =>
        log.willing.Torn h (rs.map Record.encode) ((op.recorded j).map Record.encode)) := by
  have hfares := hl.fares (Record.admissible_map_encode (op.recorded j))
  rw [← List.map_append] at hfares
  exact op.fate j hfares

theorem exact_afterAll (hl : j.log.willing.Exact h (rs.map Record.encode))
    (hgood : j.Unfailed ops) :
    (j.afterAll ops).log.willing.Exact h ((rs ++ j.acknowledged ops).map Record.encode) := by
  induction ops generalizing j rs with
  | nil =>
    rw [acknowledged, List.append_nil]
    exact hl
  | cons op ops ih =>
    rw [acknowledged, ← List.append_assoc]
    refine ih ?_ hgood.2
    cases exact_fate hl op with
    | acknowledged _ records written =>
      rw [records]
      exact written
    | idle _ records same =>
      rw [records, same, List.append_nil]
      exact hl
    | unsynced refused => exact absurd (hgood.1.symm.trans refused) Bool.false_ne_true
    | unwritten refused => exact absurd (hgood.1.symm.trans refused) Bool.false_ne_true

/-! After a refused write, what is acknowledged stands in the way. -/

theorem stuck_after (hl : j.log.willing.Stuck h ps n) (op : JournalOp) :
    (j.after op).log.willing.Stuck h ps (n + op.records.length) := by
  have hcount := op.length_recorded_le j
  have hmore : ∀ log : Log, log.Stuck h ps (n + ((op.recorded j).map Record.encode).length) →
      log.Stuck h ps (n + op.records.length) := fun log hlog =>
    hlog.mono (by rw [List.length_map]; omega)
  cases op.fate j (hl.fares (Record.admissible_map_encode (op.recorded j))) with
  | acknowledged _ _ written => exact hmore _ written
  | idle _ _ same =>
    rw [same]
    exact hl.mono (Nat.le_add_right ..)
  | unsynced _ _ _ written => exact hmore _ written
  | unwritten _ _ _ torn => exact hmore _ torn

theorem astray_after (hl : j.log.willing.Astray h ps n) (op : JournalOp) :
    (j.after op).log.willing.Astray h ps (n + op.records.length) ∧
      (op.acknowledged j ≠ [] →
        (j.after op).log.willing.Stuck h ps (n + op.records.length)) := by
  have hcount := op.length_recorded_le j
  have hmore : n + ((op.recorded j).map Record.encode).length ≤ n + op.records.length := by
    rw [List.length_map]
    omega
  by_cases hnone : op.recorded j = []
  · -- nothing is written
    have hfared : Log.Fared (fun log => log.willing.Astray h ps n)
        (fun log => log.willing.Astray h ps n) j.log
        (Log.appendBatch ((op.recorded j).map Record.encode) j.log) := by
      rw [hnone]
      exact .ok hl
    have hkeep : ∀ log : Log, log.Astray h ps n → log.Astray h ps (n + op.records.length) :=
      fun log hlog => hlog.mono (Nat.le_add_right ..)
    cases op.fate j hfared with
    | acknowledged _ records written =>
      exact ⟨hkeep _ written, fun hne => absurd (records.trans hnone) hne⟩
    | idle _ records same => exact ⟨same ▸ hkeep _ hl, fun hne => absurd records hne⟩
    | unsynced _ records _ written => exact ⟨hkeep _ written, fun hne => absurd records hne⟩
    | unwritten _ records _ torn => exact ⟨hkeep _ torn, fun hne => absurd records hne⟩
  · -- what is written now stands behind a place that no scan gets past
    have hpayloads : (op.recorded j).map Record.encode ≠ [] := by
      rw [ne_eq, List.map_eq_nil_iff]
      exact hnone
    cases op.fate j (hl.fares hpayloads (Record.admissible_map_encode (op.recorded j))) with
    | acknowledged _ _ written => exact ⟨(written.mono hmore).astray, fun _ => written.mono hmore⟩
    | idle _ records same =>
      exact ⟨same ▸ hl.mono (Nat.le_add_right ..), fun hne => absurd records hne⟩
    | unsynced _ records _ written =>
      exact ⟨(written.mono hmore).astray, fun hne => absurd records hne⟩
    | unwritten _ records _ torn => exact ⟨torn.mono hmore, fun hne => absurd records hne⟩

theorem stuck_afterAll (hl : j.log.willing.Stuck h ps n) (ops : List JournalOp) :
    (j.afterAll ops).log.willing.Stuck h ps (n + JournalOp.count ops) := by
  induction ops generalizing j n with
  | nil => exact hl
  | cons op ops ih =>
    rw [JournalOp.count_cons, ← Nat.add_assoc]
    exact ih (stuck_after hl op)

/-- Once a record is acknowledged after a refused write, it stands in the way for good. -/
theorem astray_afterAll (hl : j.log.willing.Astray h ps n) (ops : List JournalOp) :
    (j.afterAll ops).log.willing.Astray h ps (n + JournalOp.count ops) ∧
      (j.acknowledged ops ≠ [] →
        (j.afterAll ops).log.willing.Stuck h ps (n + JournalOp.count ops)) := by
  induction ops generalizing j n with
  | nil => exact ⟨hl, fun hne => absurd rfl hne⟩
  | cons op ops ih =>
    obtain ⟨hastray, hstuck⟩ := astray_after hl op
    obtain ⟨hastray', hstuck'⟩ := ih hastray
    rw [JournalOp.count_cons, ← Nat.add_assoc]
    refine ⟨hastray', fun hne => ?_⟩
    by_cases hfirst : op.acknowledged j = []
    · refine hstuck' fun hrest => hne ?_
      rw [acknowledged, hfirst, hrest, List.append_nil]
    · exact stuck_afterAll (hstuck hfirst) ops

theorem length_acknowledged_le (j : Journal) (ops : List JournalOp) :
    (j.acknowledged ops).length ≤ JournalOp.count ops := by
  induction ops generalizing j with
  | nil => exact Nat.le_refl _
  | cons op ops ih =>
    have hrest := ih (j.after op)
    have hfirst : (op.acknowledged j).length ≤ op.records.length := by
      unfold JournalOp.acknowledged
      split
      · exact op.length_recorded_le j
      · exact Nat.zero_le _
    rw [acknowledged, List.length_append, JournalOp.count_cons]
    omega

/-- Where the file refuses an operation, there is a first one that it refuses. -/
theorem exists_refused (hbad : ¬j.Unfailed ops) : ∃ before op after, ops = before ++ op :: after ∧
    j.Unfailed before ∧ op.refused (j.afterAll before) = true := by
  induction ops generalizing j with
  | nil => exact absurd trivial hbad
  | cons op ops ih =>
    cases hop : op.refused j with
    | true => exact ⟨[], op, ops, rfl, trivial, hop⟩
    | false =>
      obtain ⟨before, op', after, rfl, hbefore, hrefused⟩ := ih fun hall => hbad ⟨hop, hall⟩
      exact ⟨op :: before, op', after, rfl, ⟨hop, hbefore⟩, hrefused⟩

end Run

end Journal

/-! ### What the log tells -/

namespace Log

variable {log : Log} {h : FileHeader} {ps : List Bytes} {rs : List Record} {n : Nat}

theorem Begins.of_tells (hl : log.willing.Begins h ps) (hn : h.Numbers ps.length)
    (ht : log.Tells rs) : ps <+: rs.map Record.encode := by
  rcases hl.scan hn with ⟨read, log₁, d, fs, x, hwilling, hframes, -⟩
  rcases frames_of_willing hwilling with ⟨log₂, hread⟩
  rcases ht with ⟨read', log₃, hread', -, hpayloads⟩
  rw [hread] at hread'
  cases hread'
  rw [← hpayloads, hframes, List.map_append, Tail.map_payload_frames]
  exact List.prefix_append ..

/-- A log with a frame in the way tells what stands in front of it. -/
theorem Stuck.of_tells (hl : log.willing.Stuck h ps n) (hn : h.startLsn.toNat + n ≤ 2 ^ 64)
    (ht : log.Tells rs) : rs.map Record.encode = ps := by
  rcases hl with ⟨k, hk, hblocked⟩
  rcases hblocked.reads (by omega) with ⟨read, log₁, hwilling, hframes⟩
  rcases frames_of_willing hwilling with ⟨log₂, hread⟩
  rcases ht with ⟨read', log₃, hread', -, hpayloads⟩
  rw [hread] at hread'
  cases hread'
  rw [← hpayloads, hframes, Tail.map_payload_frames]

theorem Astray.length_lt (hl : log.Astray h ps n) : ps.length < n := by
  rcases hl with ⟨k, hk, hbehind | hblocked⟩
  · exact Nat.lt_of_lt_of_le hbehind.ahead hk
  · rcases hblocked.misfit with ⟨-, i, -, hi, hik, -⟩
    omega

/-- A log that was cut off and tells nothing of what was cut off has no frame of it. -/
theorem Torn.astray_of_tells {qs : List Bytes}
    (hl : log.willing.Torn h (rs.map Record.encode) qs)
    (hn : h.startLsn.toNat + (rs.length + qs.length) ≤ 2 ^ 64) (ht : log.Tells rs) :
    log.willing.Astray h (rs.map Record.encode) (rs.length + qs.length) := by
  obtain ⟨left, hastray⟩ := hl.astray
  rw [List.length_map] at hastray
  have hlt := hastray.length_lt
  have hle := (hastray.begins.of_tells (FileHeader.numbers_of_le (by omega)) ht).length_le
  rw [List.length_append] at hle
  have hnone : left = [] := List.eq_nil_of_length_eq_zero (by omega)
  rwa [hnone, List.append_nil] at hastray

end Log

namespace Journal

section New

variable {j : Journal} {h : FileHeader} {ops : List JournalOp}

/-- As long as the file refuses nothing, the log holds what was acknowledged. -/
theorem exact_of_unfailed (hl : j.log.willing.Exact h []) (hgood : j.Unfailed ops) :
    (j.afterAll ops).log.willing.Exact h ((j.acknowledged ops).map Record.encode) := by
  have hstart : j.log.willing.Exact h (List.map Record.encode []) := hl
  exact exact_afterAll hstart hgood

theorem tells_of_unfailed (hl : j.log.willing.Exact h [])
    (hn : h.startLsn.toNat + JournalOp.count ops ≤ 2 ^ 64) (hgood : j.Unfailed ops) :
    (j.afterAll ops).log.Tells (j.acknowledged ops) := by
  have hcount := j.length_acknowledged_le ops
  exact (exact_of_unfailed hl hgood).tells (FileHeader.numbers_of_le (by omega))

/-- After a refused write of which nothing is left, what is acknowledged is not told. -/
theorem none_of_tells {rs : List Record} {n : Nat}
    (hl : j.log.willing.Astray h (rs.map Record.encode) n)
    (hn : h.startLsn.toNat + (n + JournalOp.count ops) ≤ 2 ^ 64)
    (htold : (j.afterAll ops).log.Tells (rs ++ j.acknowledged ops)) :
    j.acknowledged ops = [] := by
  obtain ⟨-, hstuck⟩ := astray_afterAll hl ops
  by_contra hsome
  have hsame := (hstuck hsome).of_tells hn htold
  rw [List.map_append] at hsame
  exact hsome (List.map_eq_nil_iff.1 (List.append_right_eq_self.1 hsame))

theorem traceless_of_tells (hl : j.log.willing.Exact h [])
    (hn : h.startLsn.toNat + JournalOp.count ops ≤ 2 ^ 64)
    (htells : ∀ part, part <+: ops → (j.afterAll part).log.Tells (j.acknowledged part)) :
    j.Traceless ops := by
  rintro before op after rfl hgood hrefused
  have hafter : ∀ part, j.afterAll (before ++ op :: part) =
      ((j.afterAll before).after op).afterAll part :=
    fun part => j.afterAll_append before (op :: part)
  have hacked : ∀ part, j.acknowledged (before ++ op :: part) = j.acknowledged before ++
      (op.acknowledged (j.afterAll before) ++ ((j.afterAll before).after op).acknowledged part) :=
    fun part => j.acknowledged_append before (op :: part)
  have hparts : ∀ part, part <+: after →
      (j.afterAll (before ++ op :: part)).log.Tells (j.acknowledged (before ++ op :: part)) := by
    rintro part ⟨more, rfl⟩
    exact htells _ ⟨more, by simp⟩
  rw [JournalOp.count_append, JournalOp.count_cons] at hn
  have hcount := j.length_acknowledged_le before
  have hfirst : ((j.afterAll before).after op).log.Tells
      (j.acknowledged before ++ op.acknowledged (j.afterAll before)) := by
    have htold := hparts [] List.nil_prefix
    rw [hafter, hacked, acknowledged, List.append_nil] at htold
    exact htold
  cases exact_fate (exact_of_unfailed hl hgood) op with
  | acknowledged granted => exact absurd (granted.symm.trans hrefused) Bool.false_ne_true
  | idle granted => exact absurd (granted.symm.trans hrefused) Bool.false_ne_true
  | unsynced _ records some written =>
    -- the log tells of the operation, which was not acknowledged
    have hmore := op.length_recorded_le (j.afterAll before)
    have htold := written.tells (FileHeader.numbers_of_le (by rw [List.length_append]; omega))
    have hsame := hfirst.unique htold
    rw [records] at hsame
    exact absurd (List.append_cancel_left hsame).symm some
  | unwritten _ records made torn =>
    have hmore := op.length_recorded_le (j.afterAll before)
    rw [records, List.append_nil] at hfirst
    -- right after the refusal nothing is left of the operation
    have hastray := torn.astray_of_tells (by rw [List.length_map]; omega) hfirst
    rw [List.length_map] at hastray
    refine ⟨by rw [hafter []]; exact made, fun part hpart => ?_⟩
    have hlast : JournalOp.count part ≤ JournalOp.count after := by
      obtain ⟨more, rfl⟩ := hpart
      rw [JournalOp.count_append]
      exact Nat.le_add_right ..
    have htold := hparts part hpart
    rw [hafter, hacked, records, List.nil_append] at htold
    have hnone := none_of_tells hastray (by omega) htold
    rw [hnone, List.append_nil] at htold
    refine ⟨?_, ?_⟩
    · rw [hafter]
      exact htold
    · rw [hacked, records, hnone, List.append_nil, List.append_nil]

theorem tells_of_traceless (hl : j.log.willing.Exact h [])
    (hn : h.startLsn.toNat + JournalOp.count ops ≤ 2 ^ 64) (hclean : j.Traceless ops)
    {part : List JournalOp} (hpart : part <+: ops) :
    (j.afterAll part).log.Tells (j.acknowledged part) := by
  obtain ⟨more, rfl⟩ := hpart
  by_cases hgood : j.Unfailed part
  · rw [JournalOp.count_append] at hn
    exact tells_of_unfailed hl (by omega) hgood
  · obtain ⟨before, op, rest, rfl, hbefore, hrefused⟩ := exists_refused hgood
    obtain ⟨-, hquiet⟩ := hclean before op (rest ++ more) (by simp) hbefore hrefused
    obtain ⟨htells, hacked⟩ := hquiet rest (List.prefix_append ..)
    rw [hacked]
    exact htells

/-- What the file leaves of an operation that it refuses is replayed. -/
theorem refused_replayed {groups : List (GroupId × Nat)} {op : JournalOp}
    (hl : j.log.willing.Exact h []) (hj : j.Shows (Memory.fresh groups) [])
    (hn : h.startLsn.toNat + JournalOp.count (ops ++ [op]) ≤ 2 ^ 64) (hgood : j.Unfailed ops)
    (hrefused : op.refused (j.afterAll ops) = true) :
    (j.afterAll (ops ++ [op])).memory.contents = (j.afterAll ops).memory.contents ∧
      ∃ left m, left <+: op.recorded (j.afterAll ops) ∧
        ((j.afterAll (ops ++ [op])).log.disk.made.syncs ≠ (j.afterAll ops).log.disk.made.syncs →
          left = op.recorded (j.afterAll ops)) ∧
        (j.afterAll (ops ++ [op])).log.Tells (j.acknowledged ops ++ left) ∧
        (Record.changes left).foldlM (Contents.change (j.afterAll ops).memory)
          (j.afterAll ops).memory.contents = some m.contents ∧
        (j.afterAll (ops ++ [op])).log.Restores groups j.switches m := by
  have hend : j.afterAll (ops ++ [op]) = (j.afterAll ops).after op := j.afterAll_append ops [op]
  rw [hend]
  have hcount := j.length_acknowledged_le ops
  have hmore := op.length_recorded_le (j.afterAll ops)
  rw [JournalOp.count_append, JournalOp.count_cons] at hn
  -- what a first part of the records comes to on the pages
  have hpart : ∀ {left j'}, (j.afterAll ops).Changed (op.recorded (j.afterAll ops)) j' →
      left <+: op.recorded (j.afterAll ops) →
      ((j.afterAll ops).after op).log.Tells (j.acknowledged ops ++ left) →
      ∃ m, (Record.changes left).foldlM (Contents.change (j.afterAll ops).memory)
          (j.afterAll ops).memory.contents = some m.contents ∧
        ((j.afterAll ops).after op).log.Restores groups j.switches m := by
    intro left j' hchanged hleft htells
    have hshows := hj.afterAll ops
    obtain ⟨m, hm, hback⟩ := hshows.first (hchanged.shows _ _ hshows) hchanged.switches hleft
    have hrestores := (hback (j.afterAll ops).log).restores htells
    rw [j.switches_afterAll] at hrestores
    exact ⟨m, hm, hrestores⟩
  cases exact_fate (exact_of_unfailed hl hgood) op with
  | acknowledged granted => exact absurd (granted.symm.trans hrefused) Bool.false_ne_true
  | idle granted => exact absurd (granted.symm.trans hrefused) Bool.false_ne_true
  | unsynced _ _ _ written pages changed =>
    obtain ⟨j', hchanged⟩ := changed
    have htells := written.tells (FileHeader.numbers_of_le (by rw [List.length_append]; omega))
    obtain ⟨m, hm, hrestores⟩ := hpart hchanged List.prefix_rfl htells
    exact ⟨pages.contents, _, m, List.prefix_rfl, fun _ => rfl, htells, hm, hrestores⟩
  | unwritten _ _ made torn pages changed =>
    obtain ⟨j', hchanged⟩ := changed
    -- a write that was refused leaves some first records in the file
    obtain ⟨left, hleft, htells⟩ := torn.tells (FileHeader.numbers_of_le (by omega))
    obtain ⟨m, hm, hrestores⟩ := hpart hchanged hleft htells
    exact ⟨pages.contents, left, m, hleft, fun hother => absurd made hother, htells, hm, hrestores⟩

end New

end Journal

/-- **The log tells what was acknowledged as long as nothing is left of what was refused.**  A
journal is begun over a new log and untouched pages, on a disk that may refuse writes and syncs, at
any time and with any part of the bytes written nevertheless.  The records that are read after each
operation are those of the operations that were acknowledged, just when the first operation that the
file refuses is refused a write, nothing of it or of later ones is ever read, and none that has
records is acknowledged any more.  Whenever they are, replay brings back the pages as they are.  The
first operation that the file refuses leaves the pages as they were and a first part of its records
in the log, all of them if it came to the sync; and replay brings back the pages with this part
carried out. -/
theorem log_tells_acknowledged_iff {d d' : Disk} {options : LogOptions} {w : Writer}
    (hd : d.Legible) (hnew : d.file.len < FileHeader.size)
    (hopen : Writer.ofDisk options d = .ok w d') (groups : List (GroupId × Nat))
    (switches : Switches) (ops : List JournalOp)
    (hlsn : options.startLsn.toNat + JournalOp.count ops ≤ 2 ^ 64) :
    let j : Journal := ⟨⟨d', w⟩, Memory.fresh groups, switches⟩
    ((∀ part, part <+: ops → (j.afterAll part).log.Tells (j.acknowledged part)) ↔
        j.Traceless ops) ∧
      (∀ part, part <+: ops → (j.afterAll part).log.Tells (j.acknowledged part) →
        (j.afterAll part).log.Restores groups switches (j.afterAll part).memory) ∧
      ∀ before op, before ++ [op] <+: ops → j.Unfailed before →
        op.refused (j.afterAll before) = true →
        let live := (j.afterAll before).memory
        let j' := j.afterAll (before ++ [op])
        j'.memory.contents = live.contents ∧
          ∃ left m, left <+: op.recorded (j.afterAll before) ∧
            (j'.log.disk.made.syncs ≠ (j.afterAll before).log.disk.made.syncs →
              left = op.recorded (j.afterAll before)) ∧
            j'.log.Tells (j.acknowledged before ++ left) ∧
            (Record.changes left).foldlM (Contents.change live) live.contents = some m.contents ∧
            j'.log.Restores groups switches m := by
  intro j
  have hl : j.log.willing.Exact ⟨options.salt, options.startLsn⟩ [] :=
    Log.exact_ofDisk hd hnew hopen
  have hj : j.Shows (Memory.fresh groups) [] :=
    ⟨.refl _, by simp [Record.changes], _, rfl, fun _ _ => rfl⟩
  refine ⟨⟨Journal.traceless_of_tells hl hlsn, fun hclean part hpart =>
    Journal.tells_of_traceless hl hlsn hclean hpart⟩, fun part _ htells => ?_, ?_⟩
  · -- where the log tells what was acknowledged, replay has the same changes to carry out
    have hback := (hj.afterAll part).restores htells
    rwa [j.switches_afterAll] at hback
  · rintro before op ⟨more, rfl⟩ hgood hrefused
    rw [JournalOp.count_append] at hlsn
    have hfirst : options.startLsn.toNat + JournalOp.count (before ++ [op]) ≤ 2 ^ 64 := by omega
    exact Journal.refused_replayed hl hj hfirst hgood hrefused

/-- An empty file that refuses one sync, after granting `n` of them. -/
def unsyncedDisk (n : Nat) : Disk :=
  (Disk.ofFile .inMemory).arm .sync n 1 ⟨.other, "no space"⟩

theorem legible_unsyncedDisk (n : Nat) : (unsyncedDisk n).Legible :=
  fun _ _ _ hsync => if_neg hsync

/-- A page is made a node, and then the sync of its link to another is refused.  The log tells of
the link, and replay brings it back, though the page does not have it. -/
theorem log_tells_acknowledged_iff_of_refused_sync :
    ∃ w d', Writer.ofDisk ⟨7, 1, .immediate⟩ (unsyncedDisk 1) = .ok w d' ∧
      let j : Journal := ⟨⟨d', w⟩, Memory.fresh [(1, 64)], .empty⟩
      let node : JournalOp := .apply (.delta ⟨⟨1, 2, 12, 1⟩, .init 0 5⟩)
      let link : PageDelta := ⟨⟨1, 2, 12, 1⟩, .setNext 9⟩
      (¬∀ part, part <+: [node, .apply (.delta link)] →
          (j.afterAll part).log.Tells (j.acknowledged part)) ∧
        ∃ m, (j.after node).memory.contents.change (j.after node).memory link = some m.contents ∧
          (j.afterAll [node, .apply (.delta link)]).log.Restores [(1, 64)] .empty m := by
  have hnew : (unsyncedDisk 1).file.len < FileHeader.size := by decide
  have hrun : (Log.opened ⟨7, 1, .immediate⟩ (unsyncedDisk 1)).any (fun log =>
      let j : Journal := ⟨log, Memory.fresh [(1, 64)], .empty⟩
      let node : JournalOp := .apply (.delta ⟨⟨1, 2, 12, 1⟩, .init 0 5⟩)
      let link : JournalOp := .apply (.delta ⟨⟨1, 2, 12, 1⟩, .setNext 9⟩)
      node.refused j = false ∧ link.refused (j.after node) = true ∧
        link.recorded (j.after node) = [.delta ⟨⟨1, 2, 12, 1⟩, .setNext 9⟩] ∧
        (j.afterAll [node, link]).log.disk.made.syncs ≠ (j.after node).log.disk.made.syncs) =
      true := by
    decide +kernel
  rcases (Option.any_eq_true _ _).1 hrun with ⟨⟨d', w⟩, hlog, hstate⟩
  obtain ⟨hgranted, hrefused, hrecorded, hsync⟩ := of_decide_eq_true hstate
  have hopen := Log.opened_eq_some.1 hlog
  refine ⟨w, d', hopen, ?_⟩
  intro j node link
  obtain ⟨hiff, -, hreplayed⟩ := log_tells_acknowledged_iff (legible_unsyncedDisk 1) hnew hopen
    [(1, 64)] .empty [node, .apply (.delta link)] (by decide)
  refine ⟨fun htells => ?_, ?_⟩
  · exact hsync (hiff.1 htells [node] (.apply (.delta link)) [] rfl ⟨hgranted, trivial⟩ hrefused).1
  · obtain ⟨-, left, m, -, hleft, -, hchanges, hrestores⟩ :=
      hreplayed [node] (.apply (.delta link)) List.prefix_rfl ⟨hgranted, trivial⟩ hrefused
    obtain rfl := (hleft hsync).trans hrecorded
    obtain ⟨c, hchange, hlast⟩ := Option.bind_eq_some_iff.1 hchanges
    cases hlast
    exact ⟨m, hchange, hrestores⟩

/-- The pages that replaying a log onto untouched pages gives. -/
def Log.replayed (log : Log) (groups : List (GroupId × Nat)) : Option Memory :=
  match Log.replay .failFast (log, Memory.fresh groups) with
  | .ok _ (_, m) => some m
  | .error _ _ => none

theorem Log.Restores.replayed {log : Log} {groups : List (GroupId × Nat)} {switches : Switches}
    {live : Memory} (h : log.Restores groups switches live) :
    ∃ m, log.replayed groups = some m ∧
      ∀ g id, switches.isEnabled g = true → m.contents g id = live.contents g id := by
  obtain ⟨report, log', m, hreplay, hpages, -⟩ := h
  refine ⟨m, ?_, hpages⟩
  rw [Log.replayed, hreplay]

/-- The first page of a log is made a node, and the sync is refused.  The operation fails and the
page stays blank, but replay makes it a node. -/
theorem refused_change_replayed :
    ∃ w d', Writer.ofDisk ⟨7, 1, .immediate⟩ (unsyncedDisk 0) = .ok w d' ∧
      let j : Journal := ⟨⟨d', w⟩, Memory.fresh [(1, 64)], .empty⟩
      let node : JournalOp := .apply (.delta ⟨⟨1, 2, 12, 1⟩, .init 0 5⟩)
      node.refused j = true ∧ node.acknowledged j = [] ∧
        (j.after node).memory.contents 1 2 = j.memory.contents 1 2 ∧
        (j.after node).log.found.length = 1 ∧
        ¬(j.after node).log.Restores [(1, 64)] .empty (j.after node).memory := by
  have hrun : (Log.opened ⟨7, 1, .immediate⟩ (unsyncedDisk 0)).any (fun log =>
      let j : Journal := ⟨log, Memory.fresh [(1, 64)], .empty⟩
      let node : JournalOp := .apply (.delta ⟨⟨1, 2, 12, 1⟩, .init 0 5⟩)
      node.refused j = true ∧ node.acknowledged j = [] ∧
        (j.after node).memory.contents 1 2 = j.memory.contents 1 2 ∧
        (j.after node).log.found.length = 1 ∧
        ((j.after node).log.replayed [(1, 64)]).map (fun m => m.contents 1 2) ≠
          some ((j.after node).memory.contents 1 2)) = true := by
    decide +kernel
  rcases (Option.any_eq_true _ _).1 hrun with ⟨⟨d', w⟩, hlog, hstate⟩
  obtain ⟨hrefused, hnone, hblank, hfound, hother⟩ := of_decide_eq_true hstate
  refine ⟨w, d', Log.opened_eq_some.1 hlog, hrefused, hnone, hblank, hfound, fun hrestores => ?_⟩
  obtain ⟨m, hm, hpages⟩ := hrestores.replayed
  rw [hm, Option.map_some, hpages 1 2 rfl] at hother
  exact hother rfl

end PageLog
