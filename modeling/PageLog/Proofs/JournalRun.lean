import PageLog.Journal
import PageLog.Proofs.Changes
import PageLog.Proofs.LogContents
import PageLog.Proofs.RecordCodec

/-!
# What a journal has recorded

Beside a journal goes the list of the records in its log.  Of the pages of a logged group, the
records tell everything: carrying out the changes among them on untouched pages gives what the
journal's pages hold.  Each operation on a journal either changes nothing or adds the records for
what it changed.

## Main definitions

* `Record.changes` — the changes among records.
* `Journal.Shows` — records tell what the pages of a journal hold.
* `Journal.Recorded` — the records of a journal tell what its pages hold.
* `JournalOp`, `Journal.after` — the operations on a journal.

## Main results

* `Journal.applyDeltas_cases`, `Journal.applyDeltas_eq` — a batch of changes.
* `Journal.Recorded.afterAll` — the records go on telling what the pages hold.
-/

namespace PageLog

/-- The changes among records. -/
def Record.changes (rs : List Record) : List PageDelta := rs.filterMap Record.delta?

@[simp] theorem Record.changes_append (rs more : List Record) :
    changes (rs ++ more) = changes rs ++ changes more := List.filterMap_append

@[simp] theorem Record.changes_map_delta (ds : List PageDelta) : changes (ds.map .delta) = ds := by
  induction ds with
  | nil => rfl
  | cons d ds ih => simpa [changes, Record.delta?] using ih

/-- Records all of which describe changes are those of their changes. -/
theorem Record.map_delta_changes {rs : List Record} (h : rs.any (·.delta?.isNone) = false) :
    (changes rs).map .delta = rs := by
  induction rs with
  | nil => rfl
  | cons r rs ih =>
    simp only [List.any_cons, Bool.or_eq_false_iff] at h
    cases r with
    | delta d => simpa [changes, Record.delta?] using ih h.2
    | snapshot id full => exact absurd h.1 (by simp [Record.delta?])
    | checkpoint id => exact absurd h.1 (by simp [Record.delta?])

namespace Journal

/-! ### Steps on the log and on the pages -/

theorem onLog_of_ok {α : Type} {act : Act Log α} {j : Journal} {a : α} {log : Log}
    (h : act j.log = .ok a log) : onLog act j = .ok a { j with log } :=
  Act.on_of_ok h

theorem onMemory_of_ok {α : Type} {act : Act Memory α} {j : Journal} {a : α} {m : Memory}
    (h : act j.memory = .ok a m) : onMemory act j = .ok a { j with memory := m } :=
  Act.on_of_ok h

theorem onMemory_of_error {α : Type} {act : Act Memory α} {j : Journal} {e : Error} {m : Memory}
    (h : act j.memory = .error e m) : onMemory act j = .error e { j with memory := m } :=
  Act.on_of_error h

/-! ### Batches of changes -/

/-- The records that changes leave in the log. -/
def recordsOf (j : Journal) (ds : List PageDelta) : List Record :=
  (ds.filter j.isLogged).map .delta

theorem recordsOf_singleton {j : Journal} {d : PageDelta} (h : j.isLogged d = true) :
    j.recordsOf [d] = [.delta d] := by
  rw [recordsOf, List.filter_cons_of_pos h, List.filter_nil, List.map_singleton]

theorem length_recordsOf_le (j : Journal) (ds : List PageDelta) :
    (j.recordsOf ds).length ≤ ds.length := by
  rw [recordsOf, List.length_map]
  exact List.length_filter_le _ _

/-- The journal `j'` comes from `j` by carrying out the changes `ds` and recording them behind the
records `rs`. -/
structure CarriedOut (j : Journal) (h : FileHeader) (rs : List Record) (ds : List PageDelta)
    (j' : Journal) : Prop where
  /-- The switches stay. -/
  switches : j'.switches = j.switches
  /-- The formats and groups stay. -/
  like : j.memory.Like j'.memory
  /-- The pages hold what the changes give. -/
  changes : ds.foldlM (Contents.change j.memory) j.memory.contents = some j'.memory.contents
  /-- The changes of logged groups were recorded. -/
  log : j'.log.Holds h ((rs ++ j.recordsOf ds).map Record.encode) []
  /-- The records were counted. -/
  counted : j.log.Counted (j.recordsOf ds).length j'.log

section Batch

variable {j : Journal} {h : FileHeader} {rs : List Record} {bs : Bytes}

/-- The records of changes are appended to the log. -/
theorem logDeltas_ok (hl : j.log.Ready bs) (ds : List PageDelta) :
    ∃ log, logDeltas ds j =
        .ok (j.log.writer.tail.pointers ((j.recordsOf ds).map Record.encode)) { j with log } ∧
      j.log.Appended bs ((j.recordsOf ds).map Record.encode) log := by
  have hpayloads : ((ds.filter j.isLogged).map fun d => (Record.delta d).encode) =
      (j.recordsOf ds).map Record.encode := by
    rw [recordsOf, List.map_map]
    rfl
  obtain ⟨log, happend, hout⟩ := hl.appendBatch _ (Record.admissible_map_encode (j.recordsOf ds))
  refine ⟨log, ?_, hout⟩
  rw [logDeltas, Act.get_bind, hpayloads]
  exact Act.mapError_of_ok (onLog_of_ok happend)

/-- Changes that cannot be carried out are refused when they are tried out.  Any others are carried
out if the log takes their records, and make no difference otherwise. -/
theorem applyDeltas_outcome (j : Journal) (ds : List PageDelta) :
    match ds.foldlM (Contents.change j.memory) j.memory.contents with
    | none => ∃ e, applyDeltas ds j = .error e { j with memory := (stage [] ds).left j.memory } ∧
        j.memory.Peeks ((stage [] ds).left j.memory)
    | some c => match Log.appendBatch ((j.recordsOf ds).map Record.encode) j.log with
        | .ok pointers log => ∃ m, applyDeltas ds j =
            .ok (assign j.isLogged ds pointers) { j with log, memory := m } ∧
            j.memory.Like m ∧ m.contents = c
        | .error _ log => ∃ e m, applyDeltas ds j = .error e { j with log, memory := m } ∧
            j.memory.Peeks m := by
  obtain ⟨m₁, hpeeks, hstage⟩ := stage_eq [] ds j.memory
  rw [Scratch.view_nil] at hstage
  cases hchanges : ds.foldlM (Contents.change j.memory) j.memory.contents with
  | none =>
    rw [hchanges] at hstage
    -- trying the changes out only reads pages
    obtain ⟨e, hstage⟩ := hstage
    simp only [Act.left_of_error hstage]
    exact ⟨e, Act.bind_of_error (onMemory_of_error hstage), hpeeks⟩
  | some c =>
    rw [hchanges] at hstage
    have hfirst : onMemory (stage [] ds) j = .ok () { j with memory := m₁ } :=
      onMemory_of_ok hstage
    have hpayloads : ((ds.filter j.isLogged).map fun d => (Record.delta d).encode) =
        (j.recordsOf ds).map Record.encode := by
      rw [recordsOf, List.map_map]
      rfl
    -- first the changes are logged, and then what was tried out is carried out
    cases hlog : Log.appendBatch ((j.recordsOf ds).map Record.encode) j.log with
    | ok pointers log =>
      have hsecond : logDeltas ds { j with memory := m₁ } =
          .ok pointers { j with memory := m₁, log } := by
        rw [← hpayloads] at hlog
        exact Act.mapError_of_ok (onLog_of_ok hlog)
      rw [← hpeeks.contents, ← Contents.change_like hpeeks.toLike] at hchanges
      obtain ⟨m₂, happly, hlike, rfl⟩ := applyAll_of_changes hchanges
      have hlast : onMemory (applyAll ds) { j with memory := m₁, log } =
          .ok () { j with memory := m₂, log } := onMemory_of_ok happly
      refine ⟨m₂, ?_, hpeeks.toLike.trans hlike, rfl⟩
      rw [applyDeltas, Act.bind_of_ok hfirst, Act.bind_of_ok hsecond, Act.bind_of_ok hlast]
      rfl
    | error e log =>
      rw [← hpayloads] at hlog
      have hsecond : onLog (Log.appendBatch ((ds.filter j.isLogged).map
          fun d => (Record.delta d).encode)) { j with memory := m₁ } =
          .error e { j with memory := m₁, log } := Act.on_of_error hlog
      exact ⟨_, m₁, (Act.bind_of_ok hfirst).trans
        (Act.bind_of_error (Act.mapError_of_error hsecond)), hpeeks⟩

/-- Changes that cannot be carried out are refused when they are tried out; any others are logged
and then carried out. -/
theorem applyDeltas_cases (hl : j.log.Ready bs) (ds : List PageDelta) :
    match ds.foldlM (Contents.change j.memory) j.memory.contents with
    | none => ∃ e, applyDeltas ds j = .error e { j with memory := (stage [] ds).left j.memory } ∧
        j.memory.Peeks ((stage [] ds).left j.memory)
    | some c => ∃ log m,
        applyDeltas ds j = .ok (assign j.isLogged ds
          (j.log.writer.tail.pointers ((j.recordsOf ds).map Record.encode)))
          { j with log, memory := m } ∧
        j.log.Appended bs ((j.recordsOf ds).map Record.encode) log ∧
        j.memory.Like m ∧ m.contents = c := by
  have houtcome := j.applyDeltas_outcome ds
  cases hchanges : ds.foldlM (Contents.change j.memory) j.memory.contents with
  | none =>
    rw [hchanges] at houtcome
    exact houtcome
  | some c =>
    obtain ⟨log, happend, hout⟩ := hl.appendBatch _ (Record.admissible_map_encode (j.recordsOf ds))
    rw [hchanges] at houtcome
    simp only [happend] at houtcome
    obtain ⟨m, hrun, hlike, hc⟩ := houtcome
    exact ⟨log, m, hrun, hout, hlike, hc⟩

/-- A batch of changes that cannot be carried out is refused, and makes no difference; any other is
carried out. -/
theorem applyDeltas_eq (hl : j.log.Holds h (rs.map Record.encode) []) (ds : List PageDelta) :
    match ds.foldlM (Contents.change j.memory) j.memory.contents with
    | none => ∃ e m, applyDeltas ds j = .error e { j with memory := m } ∧ j.memory.Peeks m
    | some c => ∃ pointers j', applyDeltas ds j = .ok pointers j' ∧ j.CarriedOut h rs ds j' ∧
        j'.memory.contents = c := by
  have hcases := applyDeltas_cases hl.ready ds
  cases hchanges : ds.foldlM (Contents.change j.memory) j.memory.contents with
  | none =>
    rw [hchanges] at hcases
    obtain ⟨e, hrun, hpeeks⟩ := hcases
    exact ⟨e, _, hrun, hpeeks⟩
  | some c =>
    rw [hchanges] at hcases
    obtain ⟨log, m, hrun, hout, hlike, rfl⟩ := hcases
    have hl' := hl.appended (Record.admissible_map_encode (j.recordsOf ds)) hout
    rw [List.drop_nil, ← List.map_append] at hl'
    have hcounted := hout.counted
    rw [List.length_map] at hcounted
    exact ⟨_, _, hrun, ⟨rfl, hlike, hchanges, hl', hcounted⟩, rfl⟩

end Batch

/-- The records `rs` tell what the pages of a journal hold, if before them the pages were as in the
memory `m`. -/
structure Shows (j : Journal) (m : Memory) (rs : List Record) : Prop where
  /-- The formats and groups stayed. -/
  like : m.Like j.memory
  /-- Only changes of logged groups are among the records. -/
  logged : ∀ d ∈ Record.changes rs, j.isLogged d = true
  /-- The changes give what the pages of logged groups hold. -/
  pages : ∃ c, (Record.changes rs).foldlM (Contents.change m) m.contents = some c ∧
    ∀ g, j.switches.isEnabled g = true → j.memory.contents g = c g

/-- The records `rs` of a journal's log tell what its pages hold, if before them the pages were as
in the memory `m`. -/
structure Recorded (j : Journal) (h : FileHeader) (m : Memory) (rs : List Record) : Prop where
  /-- The log holds the records. -/
  log : j.log.Holds h (rs.map Record.encode) []
  /-- The formats and groups stayed. -/
  like : m.Like j.memory
  /-- Only changes of logged groups are among the records. -/
  logged : ∀ d ∈ Record.changes rs, j.isLogged d = true
  /-- The changes give what the pages of logged groups hold. -/
  pages : ∃ c, (Record.changes rs).foldlM (Contents.change m) m.contents = some c ∧
    ∀ g, j.switches.isEnabled g = true → j.memory.contents g = c g

/-! ### Operations -/

section Step

variable {j j' : Journal} {h : FileHeader} {m : Memory} {rs : List Record}

theorem Recorded.shows (hj : j.Recorded h m rs) : j.Shows m rs := ⟨hj.like, hj.logged, hj.pages⟩

theorem Shows.recorded (hj : j.Shows m rs) (hl : j.log.Holds h (rs.map Record.encode) []) :
    j.Recorded h m rs := ⟨hl, hj.like, hj.logged, hj.pages⟩

/-- Reading pages makes no difference, whatever becomes of the log. -/
theorem Shows.peeks (hj : j.Shows m rs) {m' : Memory} (hpeeks : j.memory.Peeks m') (log : Log) :
    Journal.Shows { j with log, memory := m' } m rs := by
  obtain ⟨c, hc, hpages⟩ := hj.pages
  refine ⟨hj.like.trans hpeeks.toLike, hj.logged, c, hc, fun g hg => ?_⟩
  rw [← hpages g hg]
  exact congrFun hpeeks.contents g

theorem Recorded.peeks (hj : j.Recorded h m rs) {m' : Memory} (hpeeks : j.memory.Peeks m') :
    Journal.Recorded { j with memory := m' } h m rs :=
  (hj.shows.peeks hpeeks j.log).recorded hj.log

/-- Changes that were carried out are told by their records, whatever becomes of the log. -/
theorem Shows.carriedOut {ds : List PageDelta} (hj : j.Shows m rs) {m' : Memory}
    (hlike : j.memory.Like m')
    (hc : ds.foldlM (Contents.change j.memory) j.memory.contents = some m'.contents) (log : Log) :
    Journal.Shows { j with log, memory := m' } m (rs ++ j.recordsOf ds) := by
  obtain ⟨c₀, hc₀, hpages⟩ := hj.pages
  rw [Contents.change_like hj.like] at hc
  -- the changes of other groups do not show on the pages of logged ones
  obtain ⟨c₁, hc₁, hsame, -⟩ := Contents.changes_filter j.switches.isEnabled hc hpages
  refine ⟨hj.like.trans hlike, ?_, c₁, ?_, hsame⟩
  · intro d hd
    rw [Record.changes_append, recordsOf, Record.changes_map_delta] at hd
    obtain hd | hd := List.mem_append.1 hd
    · exact hj.logged d hd
    · exact (List.mem_filter.1 hd).2
  · rw [Record.changes_append, recordsOf, Record.changes_map_delta, List.foldlM_append, hc₀]
    exact hc₁

/-- Changes that were carried out are recorded. -/
theorem Recorded.carriedOut {ds : List PageDelta} (hj : j.Recorded h m rs)
    (hout : j.CarriedOut h rs ds j') : j'.Recorded h m (rs ++ j.recordsOf ds) := by
  obtain ⟨log, memory, switches⟩ := j'
  obtain rfl : switches = j.switches := hout.switches
  exact (hj.shows.carriedOut hout.like hout.changes log).recorded hout.log

/-- A record that changes no page is recorded. -/
theorem Recorded.logRecord (hj : j.Recorded h m rs) (r : Record) :
    (∃ e, Journal.logRecord r j = .error e j) ∨
      ∃ pointer j', Journal.logRecord r j = .ok pointer j' ∧ j'.switches = j.switches ∧
        j'.Recorded h m (rs ++ [r]) ∧ j.log.Counted 1 j'.log := by
  by_cases hdelta : r.delta? = none
  · right
    obtain ⟨log, happend, hl, hcounted⟩ := hj.log.append r.admissible_encode
    have hchanges : Record.changes (rs ++ [r]) = Record.changes rs := by
      rw [Record.changes_append, Record.changes, Record.changes, List.filterMap_cons, hdelta]
      simp
    have hrun : Journal.logRecord r j =
        .ok (j.log.writer.tail.pointer r.encode) { j with log } := by
      cases r with
      | delta d => cases hdelta
      | snapshot id full => exact onLog_of_ok happend
      | checkpoint id => exact onLog_of_ok happend
    refine ⟨_, { j with log }, hrun, rfl, ⟨?_, hj.like, ?_, ?_⟩, hcounted⟩
    · rw [List.map_append]
      rw [List.drop_nil] at hl
      exact hl
    · rw [hchanges]
      exact hj.logged
    · rw [hchanges]
      exact hj.pages
  · left
    cases r with
    | delta d => exact ⟨_, rfl⟩
    | snapshot id full => exact absurd rfl hdelta
    | checkpoint id => exact absurd rfl hdelta

theorem applyBatch_of_changes {records : List Record}
    (h : records.any (·.delta?.isNone) = false) :
    applyBatch records j = applyDeltas (Record.changes records) j := by
  simp only [applyBatch, h]
  rfl

/-- A batch of records is refused, or its changes are carried out. -/
theorem applyBatch_eq (hl : j.log.Holds h (rs.map Record.encode) []) (records : List Record) :
    (∃ e m, applyBatch records j = .error e { j with memory := m } ∧ j.memory.Peeks m) ∨
      ∃ pointers j', applyBatch records j = .ok pointers j' ∧
        (Record.changes records).map .delta = records ∧
        j.CarriedOut h rs (Record.changes records) j' := by
  by_cases hwhole : (records.any (·.delta?.isNone)) = true
  · refine .inl ⟨.invalid .wholeRecordInBatch, j.memory, ?_, .refl _⟩
    simp only [applyBatch, hwhole, if_true]
    rfl
  · have happly := applyDeltas_eq hl (Record.changes records)
    rw [applyBatch_of_changes (Bool.eq_false_iff.2 hwhole)]
    cases hchanges : (Record.changes records).foldlM (Contents.change j.memory)
        j.memory.contents with
    | none =>
      rw [hchanges] at happly
      exact .inl happly
    | some c =>
      rw [hchanges] at happly
      obtain ⟨pointers, j', hok, hout, -⟩ := happly
      exact .inr ⟨pointers, j', hok, Record.map_delta_changes (Bool.eq_false_iff.2 hwhole), hout⟩

end Step

end Journal

/-- What is done with a journal. -/
inductive JournalOp where
  /-- A record that stands for itself is logged. -/
  | logRecord (r : Record)
  /-- A change is logged and carried out. -/
  | apply (r : Record)
  /-- A batch of changes is logged and carried out. -/
  | applyBatch (rs : List Record)
  deriving DecidableEq, Repr

/-- The records that an operation may leave in the log. -/
def JournalOp.records : JournalOp → List Record
  | logRecord r => [r]
  | apply r => [r]
  | applyBatch rs => rs

/-- The operation on the journal. -/
def JournalOp.run : JournalOp → Act Journal Unit
  | logRecord r => discard (Journal.logRecord r)
  | apply r => discard (Journal.apply r)
  | applyBatch rs => discard (Journal.applyBatch rs)

namespace Journal

/-- The journal after an operation, which may have been refused. -/
def after (j : Journal) (op : JournalOp) : Journal :=
  match op.run j with
  | .ok _ j' => j'
  | .error _ j' => j'

/-- The journal after several operations. -/
def afterAll (j : Journal) (ops : List JournalOp) : Journal := ops.foldl after j

section Run

variable {j j' : Journal} {h : FileHeader} {m : Memory} {rs : List Record}

theorem after_of_ok {α : Type} {op : JournalOp} {act : Act Journal α} {a : α}
    (hop : op.run = discard act) (hact : act j = .ok a j') : j.after op = j' := by
  rw [after, hop, Act.discard_of_ok hact]

theorem after_of_error {α : Type} {op : JournalOp} {act : Act Journal α} {e : Error}
    (hop : op.run = discard act) (hact : act j = .error e j') : j.after op = j' := by
  have herror : (discard act : Act Journal Unit) j = .error e j' := Act.map_of_error hact
  rw [after, hop, herror]

/-- The journal `j'` comes from `j`, in which the records are `rs`, by adding the records `more`. -/
structure Grown (j : Journal) (h : FileHeader) (m : Memory) (rs more : List Record) (j' : Journal) :
    Prop where
  /-- The switches stay. -/
  switches : j'.switches = j.switches
  /-- The records go on telling what the pages hold. -/
  recorded : j'.Recorded h m (rs ++ more)
  /-- The records were counted. -/
  counted : j.log.Counted more.length j'.log

theorem Recorded.grown_nil (hj : j.Recorded h m rs) {m' : Memory} (hpeeks : j.memory.Peeks m') :
    j.Grown h m rs [] { j with memory := m' } := by
  refine ⟨rfl, ?_, .refl _⟩
  rw [List.append_nil]
  exact hj.peeks hpeeks

theorem Grown.trans {j'' : Journal} {more more' : List Record} (hj : j.Grown h m rs more j')
    (hj' : j'.Grown h m (rs ++ more) more' j'') : j.Grown h m rs (more ++ more') j'' := by
  refine ⟨hj'.switches.trans hj.switches, ?_, ?_⟩
  · rw [← List.append_assoc]
    exact hj'.recorded
  · rw [List.length_append]
    exact hj.counted.trans hj'.counted

/-- Whatever is done with a journal, its records go on telling what its pages hold. -/
theorem Recorded.after (hj : j.Recorded h m rs) (op : JournalOp) :
    ∃ more, more.Sublist op.records ∧ j.Grown h m rs more (j.after op) := by
  -- a single change is a batch of one
  have hbatch : ∀ {α : Type} (f : List (Option LogPointer) → α),
      op.run = discard (f <$> Journal.applyBatch op.records) →
      ∃ more, more.Sublist op.records ∧ j.Grown h m rs more (j.after op) := by
    intro α f hop
    obtain ⟨e, m', hrun, hpeeks⟩ | ⟨pointers, j', hrun, hall, hout⟩ :=
      applyBatch_eq hj.log op.records
    · rw [after_of_error hop (Act.map_of_error hrun)]
      exact ⟨[], List.nil_sublist _, hj.grown_nil hpeeks⟩
    · rw [after_of_ok hop (Act.map_of_ok hrun)]
      refine ⟨_, ?_, hout.switches, hj.carriedOut hout, hout.counted⟩
      have hsub := (List.filter_sublist (l := Record.changes op.records)
        (p := j.isLogged)).map Record.delta
      rwa [hall] at hsub
  cases op with
  | logRecord r =>
    obtain ⟨e, hrun⟩ | ⟨pointer, j', hrun, hswitches, hrecorded, hcounted⟩ := hj.logRecord r
    · rw [after_of_error rfl hrun]
      exact ⟨[], List.nil_sublist _, hj.grown_nil (.refl _)⟩
    · rw [after_of_ok rfl hrun]
      exact ⟨[r], .refl _, hswitches, hrecorded, hcounted⟩
  | apply r => exact hbatch (·.getLast?.join) rfl
  | applyBatch records => exact hbatch id (by rw [id_map]; rfl)

theorem Recorded.afterAll (hj : j.Recorded h m rs) (ops : List JournalOp) :
    ∃ more, more.Sublist (ops.flatMap JournalOp.records) ∧
      j.Grown h m rs more (j.afterAll ops) := by
  induction ops generalizing j rs with
  | nil => exact ⟨[], List.nil_sublist _, hj.grown_nil (.refl _)⟩
  | cons op ops ih =>
    obtain ⟨more, hsub, hj'⟩ := hj.after op
    obtain ⟨more', hsub', hj''⟩ := ih hj'.recorded
    exact ⟨more ++ more', hsub.append hsub', hj'.trans hj''⟩

end Run

end Journal

end PageLog
