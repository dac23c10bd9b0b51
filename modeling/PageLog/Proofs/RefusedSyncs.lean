import PageLog.Proofs.CrashConsistency
import PageLog.Proofs.RefusedWrites

/-!
# Appending when syncs are refused

A sync that is refused comes after the frames are in the file.  The log goes on behind them, and
they are read like any others, though the operation that wrote them reports an error.  In every
other respect a log on a disk that refuses syncs goes the way of the log on the disk that refuses
none.

## Main definitions

* `Disk.Legible` — only writes and syncs may be refused.
* `Disk.willing`, `Log.willing` — the disk and the log with no sync refused.
* `Act.Tries` — a step that fails only in a call.
* `Log.Synced` — a sync was granted or refused, and nothing else happened.
* `Log.Fared` — the three ways of a batch.
* `Log.Exact` — just the frames for certain payloads are in the file.
* `Log.Torn` — some of the frames are there, then bytes that end the log.

## Main results

* `Log.Exact.fares`, `Log.Astray.fares`, `Log.Stuck.fares` — a batch in each state of the log.
* `Log.Exact.frames_eq`, `Log.Torn.frames_eq`, `Log.exact_ofDisk` — reading and opening.
-/

namespace PageLog

namespace Disk

/-- Only writes and syncs may be refused. -/
def Legible (d : Disk) : Prop := ∀ kind n, kind ≠ .write → kind ≠ .sync → d.plan kind n = none

/-- The disk with no sync refused. -/
def willing (d : Disk) : Disk :=
  { d with plan := fun kind => if kind = .sync then fun _ => none else d.plan kind }

theorem willing_plan {d : Disk} {kind : Call} (hkind : kind ≠ .sync) :
    d.willing.plan kind = d.plan kind := if_neg hkind

/-- Where syncs are not refused either, only writes may be. -/
theorem Legible.willing {d : Disk} (hd : d.Legible) : d.willing.Readable := by
  intro kind n hwrite
  by_cases hsync : kind = .sync
  · rw [hsync]
    rfl
  · rw [willing_plan hsync]
    exact hd kind n hwrite hsync

end Disk

/-! ### Steps that fail in a call -/

namespace Act

variable {σ α β : Type} {count : σ → Nat}

/-- The count never goes down, and the step fails only after it went up. -/
structure Tries (count : σ → Nat) (x : Act σ α) : Prop where
  ok : ∀ {s s' : σ} {a : α}, x s = .ok a s' → count s ≤ count s'
  error : ∀ {s s' : σ} {e : Error}, x s = .error e s' → count s < count s'

theorem tries_pure (a : α) : Tries count (pure a : Act σ α) := by
  refine ⟨fun h => ?_, fun h => ?_⟩
  · cases h
    exact Nat.le_refl _
  · cases h

theorem Tries.bind {x : Act σ α} {f : α → Act σ β} (hx : Tries count x)
    (hf : ∀ a, Tries count (f a)) : Tries count (x >>= f) := by
  refine ⟨fun {s s' b} h => ?_, fun {s s' e} h => ?_⟩
  · rcases bind_eq_ok.1 h with ⟨a, t, hfirst, hrest⟩
    exact Nat.le_trans (hx.ok hfirst) ((hf a).ok hrest)
  · cases hfirst : x s with
    | ok a t =>
      rw [bind_of_ok hfirst] at h
      exact Nat.lt_of_le_of_lt (hx.ok hfirst) ((hf a).error h)
    | error e' t =>
      rw [bind_of_error hfirst] at h
      cases h
      exact hx.error hfirst

end Act

namespace Disk

theorem tries_write (off : Nat) (data : Bytes) :
    Act.Tries (fun d => d.made.writes) (write off data) := by
  refine ⟨fun {d d' u} h => ?_, fun {d d' e} h => ?_⟩
  · simp only [write, call] at h
    cases hplan : d.plan .write (d.made.of .write) with
    | none =>
      rw [hplan] at h
      cases h
      exact Nat.le_succ _
    | some fault =>
      rw [hplan] at h
      cases h
  · simp only [write, call] at h
    cases hplan : d.plan .write (d.made.of .write) with
    | none =>
      rw [hplan] at h
      cases h
    | some fault =>
      rw [hplan] at h
      cases h
      exact Nat.lt_succ_self _

theorem tries_writeParts (off : Nat) (parts : List Bytes) :
    Act.Tries (fun d => d.made.writes) (writeParts off parts) := by
  induction parts generalizing off with
  | nil => exact Act.tries_pure ()
  | cons part parts ih =>
    rw [writeParts]
    split
    · exact ih off
    · exact (tries_write off part).bind fun _ => ih _

end Disk

namespace Log

/-- The log with no sync refused. -/
def willing (log : Log) : Log := { log with disk := log.disk.willing }

/-! ### Syncs -/

/-- The log `log'` comes from `log` by a sync, which was granted or refused. -/
structure Synced (log log' : Log) : Prop where
  file : log'.disk.file = log.disk.file
  plan : log'.disk.plan = log.disk.plan
  header : log'.writer.header = log.writer.header
  tail : log'.writer.tail = log.writer.tail
  made : log.disk.made.syncs < log'.disk.made.syncs

theorem makeDurable_cases (log : Log) :
    (∃ log', makeDurable log = .ok () log' ∧ log.Synced log') ∨
      ∃ report log', makeDurable log = .error (.io report) log' ∧ log.Synced log' := by
  have hmade : log.disk.made.syncs < (log.disk.made.add .sync).syncs := Nat.lt_succ_self _
  cases hplan : log.disk.plan .sync (log.disk.made.of .sync) with
  | none =>
    have hsync : Disk.sync log.disk = .ok () (log.disk.count .sync) := by
      simp only [Disk.sync, Disk.call, hplan]
      rfl
    refine .inl ⟨⟨log.disk.count .sync, { log.writer with
      stats := { log.writer.stats with syncs := log.writer.stats.syncs + 1 } }⟩, ?_, rfl, rfl, rfl,
      rfl, hmade⟩
    rw [makeDurable, Act.bind_of_ok (onDisk_of_ok hsync)]
    rfl
  | some fault =>
    have hsync : Disk.sync log.disk = .error (.io fault.report) (log.disk.count .sync) := by
      simp only [Disk.sync, Disk.call, hplan]
      rfl
    exact .inr ⟨fault.report, { log with disk := log.disk.count .sync },
      Act.bind_of_error (onDisk_of_error hsync), rfl, rfl, rfl, rfl, hmade⟩

section Synced

variable {log log' : Log} {h : FileHeader} {ps : List Bytes} {n : Nat}

theorem Begins.synced (hl : log.willing.Begins h ps) (hs : log.Synced log') :
    log'.willing.Begins h ps := by
  refine ⟨hl.readable.of_plan ?_, hs.header.trans hl.header, hl.admissible, ?_⟩
  · simp only [willing, Disk.willing, hs.plan]
  · show h.image ps <+: log'.disk.file.bytes
    rw [hs.file]
    exact hl.bytes

theorem InStep.synced (hl : log.willing.InStep h ps) (hs : log.Synced log') :
    log'.willing.InStep h ps :=
  ⟨hl.toBegins.synced hs, hs.tail.trans hl.tail⟩

theorem Stuck.synced {m : Nat} (hl : log.willing.Stuck h ps m) (hs : log.Synced log') :
    log'.willing.Stuck h ps m := by
  rcases hl with ⟨n, hn, hl⟩
  refine ⟨n, hn, ⟨hl.toBegins.synced hs, ?_, ?_, ?_, ?_⟩⟩
  · show ∃ fh j, _ ∧ _ ∧ _ ∧ h.image ps ++ FrameHeader.encode fh <+: log'.disk.file.bytes
    rw [hs.file]
    exact hl.misfit
  · show _ ≤ log'.writer.tail.offset
    rw [hs.tail]
    exact hl.behind
  · show log'.writer.tail.offset ≤ log'.disk.file.bytes.length
    rw [hs.tail, hs.file]
    exact hl.inside
  · show log'.writer.tail.nextLsn = _
    rw [hs.tail]
    exact hl.nextLsn

end Synced

/-! ### Writes -/

theorem tries_appendPiece (piece : List Bytes) :
    Act.Tries (fun log => log.disk.made.writes) (appendPiece piece) := by
  refine ⟨fun {log log' pointers} h => ?_, fun {log log' e} h => ?_⟩
  · cases hwrite : Disk.writeParts log.writer.tail.offset (log.writer.tail.parts piece)
        log.disk with
    | ok u d =>
      rw [appendPiece_of_ok hwrite] at h
      cases h
      exact (Disk.tries_writeParts ..).ok hwrite
    | error e d =>
      rw [appendPiece_of_error hwrite] at h
      cases h
  · cases hwrite : Disk.writeParts log.writer.tail.offset (log.writer.tail.parts piece)
        log.disk with
    | ok u d =>
      rw [appendPiece_of_ok hwrite] at h
      cases h
    | error e d =>
      rw [appendPiece_of_error hwrite] at h
      cases h
      exact (Disk.tries_writeParts ..).error hwrite

theorem tries_appendPieces (pieces : List (List Bytes)) :
    Act.Tries (fun log => log.disk.made.writes) (appendPieces pieces) := by
  induction pieces with
  | nil => exact Act.tries_pure []
  | cons piece pieces ih =>
    exact (tries_appendPiece piece).bind fun _ => ih.bind fun _ => Act.tries_pure _

/-- On the log that refuses no sync, pieces are written in the same way. -/
theorem appendPieces_willing (log : Log) (pieces : List (List Bytes)) :
    (∃ pointers log', appendPieces pieces log = .ok pointers log' ∧
        appendPieces pieces log.willing = .ok pointers log'.willing ∧
        log'.disk.made.syncs = log.disk.made.syncs) ∨
      ∃ e log', appendPieces pieces log = .error e log' ∧
        appendPieces pieces log.willing = .error e log'.willing ∧
        log'.disk.made.syncs = log.disk.made.syncs := by
  have hsame : ∀ log' : Log, log.disk.Called (· = .write) log'.disk →
      { log' with disk := { log'.disk with plan := log.disk.willing.plan } } = log'.willing := by
    intro log' hcalled
    simp only [willing, Disk.willing, hcalled.plan]
  rcases log.appendPieces_within pieces (Disk.willing_plan (d := log.disk) (by decide)) with
    ⟨pointers, log', hrun, hother, hcalled⟩ | ⟨e, log', hrun, hother, hcalled⟩
  · rw [hsame log' hcalled] at hother
    exact .inl ⟨pointers, log', hrun, hother, hcalled.others .sync (by decide)⟩
  · rw [hsame log' hcalled] at hother
    exact .inr ⟨e, log', hrun, hother, hcalled.others .sync (by decide)⟩

/-! ### Batches -/

theorem Stuck.mono {log : Log} {h : FileHeader} {ps : List Bytes} {m n : Nat}
    (hl : log.Stuck h ps m) (hmn : m ≤ n) : log.Stuck h ps n := by
  rcases hl with ⟨k, hk, hblocked⟩
  exact ⟨k, Nat.le_trans hk hmn, hblocked⟩

theorem Astray.mono {log : Log} {h : FileHeader} {ps : List Bytes} {m n : Nat}
    (hl : log.Astray h ps m) (hmn : m ≤ n) : log.Astray h ps n := by
  rcases hl with ⟨k, hk, hstate⟩
  exact ⟨k, Nat.le_trans hk hmn, hstate⟩

/-- How a batch fared: it succeeded and `P` holds of the log; or only its sync was refused, and `P`
holds no less; or one of its writes was refused and `Q` holds. -/
inductive Fared {α : Type} (P Q : Log → Prop) (log : Log) : EStateM.Result Error Log α → Prop where
  | ok {a : α} {log' : Log} (h : P log') : Fared P Q log (.ok a log')
  | unsynced {report : IoFault} {log' : Log} (h : P log')
      (made : log.disk.made.syncs < log'.disk.made.syncs) : Fared P Q log (.error (.io report) log')
  | unwritten {report : IoFault} {log' : Log} (h : Q log')
      (made : log'.disk.made.syncs = log.disk.made.syncs)
      (called : log.disk.made.writes < log'.disk.made.writes) :
      Fared P Q log (.error (.io report) log')

section Batch

variable {α : Type} {P P' Q Q' : Log → Prop} {log : Log} {h : FileHeader} {ps payloads : List Bytes}
  {m : Nat}

theorem Fared.mono {r : EStateM.Result Error Log α} (hr : Fared P Q log r)
    (hP : ∀ log, P log → P' log) (hQ : ∀ log, Q log → Q' log) : Fared P' Q' log r := by
  cases hr with
  | ok h => exact .ok (hP _ h)
  | unsynced h made => exact .unsynced (hP _ h) made
  | unwritten h made called => exact .unwritten (hQ _ h) made called

/-- What is known besides of the log behind a step. -/
theorem Came.and {R S : Log → Prop} {r : EStateM.Result Error Log α} (hr : Came P Q r)
    (hok : ∀ a log', r = .ok a log' → R log') (herror : ∀ e log', r = .error e log' → S log') :
    Came (fun log' => P log' ∧ R log') (fun log' => Q log' ∧ S log') r := by
  cases hr with
  | ok h => exact .ok ⟨h, hok _ _ rfl⟩
  | refused h => exact .refused ⟨h, herror _ _ rfl⟩

/-- What a batch comes to, from what its pieces come to on the log that refuses no sync. -/
theorem fared_appendBatch (hne : payloads ≠ [])
    (hall : ∀ p ∈ payloads, Log.admissible p = true)
    (hsync : ∀ {log log' : Log}, P log.willing → log.Synced log' → P log'.willing)
    (hpieces : Came P Q (appendPieces (pieces (pieceLength - 1) payloads) log.willing)) :
    Fared (fun log' => P log'.willing) (fun log' => Q log'.willing) log
      (appendBatch payloads log) := by
  have hempty : payloads.isEmpty = false := by
    rw [List.isEmpty_eq_false_iff]
    exact hne
  have hgood : (payloads.any fun p => !Log.admissible p) = false := by
    rw [List.any_eq_false]
    intro p hp
    rw [hall p hp]
    decide
  rw [appendBatch]
  simp only [hempty, hgood, Bool.false_eq_true, if_false]
  rcases log.appendPieces_willing (pieces (pieceLength - 1) payloads) with
    ⟨pointers, log₁, hrun, hother, hmade⟩ | ⟨e, log₁, hrun, hother, hmade⟩
  · rw [hother] at hpieces
    -- the sync comes after the pieces, and is the same as for the log that refuses none
    cases hpieces with
    | ok hP =>
      rw [Act.bind_of_ok hrun, Act.get_bind]
      split
      · -- the frames are in the file already
        rcases log₁.makeDurable_cases with ⟨log₂, hdurable, hs⟩ | ⟨report, log₂, hdurable, hs⟩
        · rw [Act.bind_of_ok hdurable]
          exact .ok (hsync hP hs)
        · rw [Act.bind_of_error hdurable]
          exact .unsynced (hsync hP hs) (hmade ▸ hs.made)
      · exact .ok hP
  · rw [hother] at hpieces
    cases hpieces with
    | refused hQ =>
      rw [Act.bind_of_error hrun]
      exact .unwritten hQ hmade ((tries_appendPieces _).error hrun)

end Batch

/-! ### Three states -/

/-- Just the frames for `ps` are in the file, and the log goes on behind them. -/
structure Exact (log : Log) (h : FileHeader) (ps : List Bytes) : Prop
    extends log.InStep h ps where
  length : log.disk.file.bytes.length = log.writer.tail.offset

/-- The first write that was refused is one for the frames for `qs`, and cut them off somewhere
behind those for `ps`. -/
structure Torn (log : Log) (h : FileHeader) (ps qs : List Bytes) : Prop where
  astray : ∃ rs, log.Astray h (ps ++ rs) (ps.length + qs.length)
  bytes : ∃ n, (h.image ps).length ≤ n ∧ log.disk.file.bytes = (h.image (ps ++ qs)).take n

section States

variable {log log' : Log} {h : FileHeader} {ps payloads : List Bytes} {m : Nat}

/-- Pieces that are written at the end of the file are the end of the file. -/
theorem length_appendPieces {pieces : List (List Bytes)} {pointers : List LogPointer}
    (hlength : log.disk.file.bytes.length = log.writer.tail.offset)
    (hrun : appendPieces pieces log = .ok pointers log') :
    log'.disk.file.bytes.length = log'.writer.tail.offset := by
  induction pieces generalizing log pointers with
  | nil =>
    cases hrun
    exact hlength
  | cons piece pieces ih =>
    rcases Act.bind_eq_ok.1 hrun with ⟨first, log₁, hfirst, hrest⟩
    rcases Act.bind_eq_ok.1 hrest with ⟨others, log₂, hothers, hpure⟩
    cases hpure
    refine ih ?_ hothers
    rcases log.appendPiece_cases piece (Nat.le_of_eq hlength.symm) with
      ⟨d, hrun₁, -, hbytes⟩ | ⟨report, d, k, hrun₁, -⟩
    · rw [hfirst] at hrun₁
      cases hrun₁
      show d.file.bytes.length = (log.writer.tail.pushAll piece).offset
      rw [hbytes, Bytes.length_overwrite_eq_max _ (Nat.le_of_eq hlength.symm),
        Tail.offset_pushAll, hlength]
      exact Nat.max_eq_right (Nat.le_add_right ..)
    · rw [hfirst] at hrun₁
      cases hrun₁

/-- Pieces that are refused at the end of the file are cut off somewhere. -/
theorem bytes_appendPieces {pieces : List (List Bytes)} {e : Error}
    (hbytes : log.disk.file.bytes = h.image ps)
    (htail : log.writer.tail = (Tail.start h).pushAll ps)
    (hrun : appendPieces pieces log = .error e log') :
    ∃ n, (h.image ps).length ≤ n ∧
      log'.disk.file.bytes = (h.image (ps ++ pieces.flatten)).take n := by
  induction pieces generalizing log ps with
  | nil => cases hrun
  | cons piece pieces ih =>
    have hoff : log.writer.tail.offset = log.disk.file.bytes.length := by
      rw [htail, hbytes, FileHeader.length_image]
    -- the log goes on at the end of the file, so that writing appends
    have hend : ∀ data : Bytes, Bytes.overwrite log.disk.file.bytes log.writer.tail.offset data =
        h.image ps ++ data := by
      intro data
      have hover := Bytes.overwrite_append log.disk.file.bytes [] data
      rw [List.append_nil, List.drop_nil, List.append_nil] at hover
      rw [hoff, hover, hbytes]
    rw [List.flatten_cons, ← List.append_assoc]
    rcases log.appendPiece_cases piece (Nat.le_of_eq hoff) with
      ⟨d, hfirst, -, hwritten⟩ | ⟨report, d, k, hfirst, -, hwritten⟩
    · -- the piece is all there, and the others are cut off behind it
      have himage : d.file.bytes = h.image (ps ++ piece) := by
        rw [hwritten, hend, htail, FileHeader.image_append]
      have hrest : appendPieces pieces ⟨d, log.writer.wrote piece⟩ = .error e log' := by
        cases hothers : appendPieces pieces ⟨d, log.writer.wrote piece⟩ with
        | ok others log₁ =>
          rw [appendPieces, Act.bind_of_ok hfirst, Act.bind_of_ok hothers] at hrun
          cases hrun
        | error e₁ log₁ =>
          rw [appendPieces, Act.bind_of_ok hfirst, Act.bind_of_error hothers] at hrun
          cases hrun
          rfl
      obtain ⟨n, hn, hcut⟩ := ih himage
        (by simp only [Writer.wrote, htail, Tail.pushAll_append]) hrest
      refine ⟨n, Nat.le_trans ?_ hn, hcut⟩
      rw [FileHeader.image_append, List.length_append]
      exact Nat.le_add_right ..
    · rw [appendPieces, Act.bind_of_error hfirst] at hrun
      cases hrun
      refine ⟨(h.image ps).length + min k (log.writer.tail.image piece).length,
        Nat.le_add_right .., ?_⟩
      show d.file.bytes = _
      rw [hwritten, hend, FileHeader.image_append, FileHeader.image_append,
        List.append_assoc, List.take_length_add_append, ← htail, List.take_append_of_le_length
          (Nat.min_le_right ..), ← List.take_eq_take_min]

theorem Exact.bytes_eq (hl : log.Exact h ps) : log.disk.file.bytes = h.image ps :=
  (hl.bytes.eq_of_length (hl.offset.symm.trans hl.length.symm)).symm

/-- While no write was refused, a batch is appended, or only its sync is refused, or its frames are
cut off. -/
theorem Exact.fares (hl : log.willing.Exact h ps)
    (hall : ∀ p ∈ payloads, Log.admissible p = true) :
    Fared (fun log' => log'.willing.Exact h (ps ++ payloads))
      (fun log' => log'.willing.Torn h ps payloads) log (Log.appendBatch payloads log) := by
  by_cases hne : payloads = []
  · subst hne
    refine .ok ?_
    rw [List.append_nil]
    exact hl
  · have hpieces := (hl.toInStep.appendPieces (pieces (pieceLength - 1) payloads)
      (fun _ => ne_nil_of_mem_pieces) (by rwa [flatten_pieces])).and
      (fun _ _ => length_appendPieces hl.length) fun _ _ => bytes_appendPieces hl.bytes_eq hl.tail
    rw [flatten_pieces] at hpieces
    refine fared_appendBatch (P := fun log' => log'.Exact h (ps ++ payloads))
      (Q := fun log' => log'.Torn h ps payloads) hne hall ?_
      (hpieces.mono (fun _ hlog => ⟨hlog.1, hlog.2⟩) fun _ hlog => ⟨hlog.1, hlog.2⟩)
    intro log₁ log₂ hlog hs
    refine ⟨hlog.toInStep.synced hs, ?_⟩
    show log₂.disk.file.bytes.length = log₂.writer.tail.offset
    rw [hs.file, hs.tail]
    exact hlog.length

/-- After a refused write, a batch that is written stands in the way of the scan. -/
theorem Astray.fares (hl : log.willing.Astray h ps m) (hne : payloads ≠ [])
    (hall : ∀ p ∈ payloads, Log.admissible p = true) :
    Fared (fun log' => log'.willing.Stuck h ps (m + payloads.length))
      (fun log' => log'.willing.Astray h ps (m + payloads.length)) log
      (Log.appendBatch payloads log) := by
  have hpieces := hl.appendPieces (pieces (pieceLength - 1) payloads)
    (fun _ => ne_nil_of_mem_pieces) (pieces_ne_nil hne)
  rw [flatten_pieces] at hpieces
  exact fared_appendBatch hne hall Stuck.synced hpieces

theorem Stuck.fares (hl : log.willing.Stuck h ps m)
    (hall : ∀ p ∈ payloads, Log.admissible p = true) :
    Fared (fun log' => log'.willing.Stuck h ps (m + payloads.length))
      (fun log' => log'.willing.Stuck h ps (m + payloads.length)) log
      (Log.appendBatch payloads log) := by
  by_cases hne : payloads = []
  · subst hne
    exact .ok hl
  · have hpieces := hl.appendPieces (pieces (pieceLength - 1) payloads)
    rw [flatten_pieces] at hpieces
    exact fared_appendBatch hne hall Stuck.synced hpieces

/-! ### Reading and opening -/

/-- What is read from the log with fewer refusals is read from the log itself. -/
theorem frames_of_willing {read : Scan.Harvest} (hrun : Log.frames log.willing = .ok read log') :
    ∃ log'', Log.frames log = .ok read log'' :=
  frames_within log.willing log.disk.plan (Disk.willing_plan (by decide)).symm
    (Disk.willing_plan (by decide)).symm hrun

/-- Just the frames that the file holds are read where it ends behind them. -/
theorem Begins.frames_eq {rest : Bytes} (hl : log.willing.Begins h ps)
    (hbytes : log.disk.file.bytes = h.image ps ++ rest) (hn : h.Numbers ps.length)
    (hends : h.Ends ps rest) :
    ∃ log', Log.frames log = .ok ⟨(Tail.start h).frames ps, none, (h.image ps).length⟩ log' := by
  have hd : log.willing.disk.disarm.Holds (h.image ps ++ rest) := by
    rw [← hbytes]
    exact log.willing.disk.holds_disarm
  rcases @frames_of_image ⟨log.willing.disk.disarm, log.writer⟩ _ _ _ hd hl.header hl.admissible hn
    hends with ⟨log₁, hframes⟩
  rcases frames_of_disarm hl.readable hframes with ⟨log₂, hwilling⟩
  exact frames_of_willing hwilling

theorem Exact.frames_eq (hl : log.willing.Exact h ps) (hn : h.Numbers ps.length) :
    ∃ log', Log.frames log = .ok ⟨(Tail.start h).frames ps, none, (h.image ps).length⟩ log' := by
  refine hl.toBegins.frames_eq ?_ hn (h.ends_nil ps)
  rw [List.append_nil]
  exact hl.bytes_eq

/-- The first of the frames that were cut off are read. -/
theorem Torn.frames_eq {qs : List Bytes} (hl : log.willing.Torn h ps qs)
    (hall : ∀ q ∈ qs, Log.admissible q = true) (hn : h.Numbers (ps.length + qs.length)) :
    ∃ k log', Log.frames log = .ok ⟨(Tail.start h).frames (ps ++ qs.take k), none,
      (h.image (ps ++ qs.take k)).length⟩ log' := by
  rcases hl.astray with ⟨rs, hastray⟩
  rcases hl.bytes with ⟨n, hkept, hbytes⟩
  have hbegins := hastray.begins
  have hps : ∀ p ∈ ps ++ qs, Log.admissible p = true := by
    intro p hp
    rcases List.mem_append.1 hp with hp | hp
    · exact hbegins.admissible p (List.mem_append_left _ hp)
    · exact hall p hp
  have hsize : FileHeader.size ≤ n := by
    refine Nat.le_trans ?_ hkept
    rw [← List.append_nil (h.image ps)]
    exact size_le_image h ps []
  rcases FileHeader.image_take hps (by rwa [List.length_append]) hsize with
    ⟨k, hk, rest, htake, hends, hcount⟩
  -- the frames for `ps` are not cut off
  have hlen : ps.length ≤ k := by
    refine (hcount ps.length ?_).1 ?_
    · rw [List.length_append]
      exact Nat.le_add_right ..
    · rwa [List.take_left]
  have hfirst : (ps ++ qs).take k = ps ++ qs.take (k - ps.length) := by
    rw [List.take_append, List.take_of_length_le hlen]
  rw [hfirst] at htake hends
  refine ⟨k - ps.length, Begins.frames_eq ⟨hbegins.readable, hbegins.header, ?_, ?_⟩
    (hbytes.trans htake) (hn.mono ?_) hends⟩
  · intro p hp
    refine hps p ?_
    rcases List.mem_append.1 hp with hp | hp
    · exact List.mem_append_left _ hp
    · exact List.mem_append_right _ (List.mem_of_mem_take hp)
  · rw [hbytes.trans htake]
    exact List.prefix_append ..
  · rw [List.length_append, List.length_take]
    omega

/-- A new log on a disk that may refuse writes and syncs. -/
theorem exact_ofDisk {d d' : Disk} {options : LogOptions} {w : Writer} (hd : d.Legible)
    (hnew : d.file.len < FileHeader.size) (hopen : Writer.ofDisk options d = .ok w d') :
    Log.Exact (Log.willing ⟨d', w⟩) ⟨options.salt, options.startLsn⟩ [] := by
  rcases (Writer.within_ofDisk options).of_ok (fun _ => Disk.willing_plan) hopen with
    ⟨hwilling, hcalled⟩
  have hsame : { d' with plan := d.willing.plan } = d'.willing := by
    simp only [Disk.willing, hcalled.plan]
  rw [hsame] at hwilling
  rcases (Writer.smooth_ofDisk options).ok d.willing w d'.willing hd.willing hwilling with
    ⟨hcalm, hplan⟩
  -- reads and writes were granted, so the disk might as well refuse nothing
  have hquiet : d.willing.disarm.Calm := fun _ _ => rfl
  rcases Writer.ofDisk_short options hquiet hnew with ⟨w₀, d₀, hopen₀, hl, -⟩
  rw [hcalm] at hopen₀
  cases hopen₀
  have hbytes : d'.file.bytes = FileHeader.image ⟨options.salt, options.startLsn⟩ [] := by
    rw [← List.append_nil (FileHeader.image _ _)]
    exact hl.disk.bytes
  refine ⟨⟨⟨hd.willing.of_plan hplan, hl.header, hl.admissible, ?_⟩, hl.tail⟩, ?_⟩
  · rw [← hbytes]
    exact List.prefix_rfl
  · show d'.file.bytes.length = w.tail.offset
    rw [hbytes]
    exact hl.offset.symm

end States

end Log

end PageLog
