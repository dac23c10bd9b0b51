import PageLog.Proofs.LogContents

/-!
# Which calls a step makes

A step that makes only calls of some kinds does not see what is planned for calls of other kinds: it
goes the same way under any plan that agrees on its own calls.  Reading a log asks for lengths and
bytes only, and writing frames does nothing but write, so that either may be followed on a disk that
is told to refuse less.

## Main definitions

* `Disk.Called` — only calls of some kinds were made.
* `Act.Within` — a step makes only calls of some kinds.

## Main results

* `Act.Within.bind`, `Disk.within_call` — from calls to steps.
* `Scan.Gives.within`, `Log.frames_within` — reading a log.
* `Log.appendPieces_within`, `Writer.within_ofDisk` — writing to a log, and opening one.
-/

namespace PageLog

/-! ### Kinds of calls -/

/-- From the disk `d` to the disk `d'` only calls of the kinds `K` were made. -/
structure Disk.Called (K : Call → Prop) (d d' : Disk) : Prop where
  plan : d'.plan = d.plan
  others : ∀ kind, ¬K kind → d'.made.of kind = d.made.of kind

theorem Disk.Called.refl {K : Call → Prop} (d : Disk) : d.Called K d := ⟨rfl, fun _ _ => rfl⟩

theorem Disk.Called.trans {K : Call → Prop} {d d' d'' : Disk} (h : d.Called K d')
    (h' : d'.Called K d'') : d.Called K d'' := by
  refine ⟨h'.plan.trans h.plan, fun kind hkind => ?_⟩
  rw [h'.others kind hkind, h.others kind hkind]

theorem Disk.Called.mono {K L : Call → Prop} {d d' : Disk} (h : d.Called K d')
    (hKL : ∀ kind, K kind → L kind) : d.Called L d' :=
  ⟨h.plan, fun kind hkind => h.others kind fun hK => hkind (hKL kind hK)⟩

namespace Act

variable {α β : Type} {K L : Call → Prop}

/-- The step makes only calls of the kinds `K`, and so goes the same way under any plan that agrees
on these. -/
structure Within (K : Call → Prop) (x : Act Disk α) : Prop where
  cases : ∀ (d : Disk) (plan : FaultPlan), (∀ kind, K kind → plan kind = d.plan kind) →
    (∃ a d', x d = .ok a d' ∧ x { d with plan } = .ok a { d' with plan } ∧ d.Called K d') ∨
      ∃ e d', x d = .error e d' ∧ x { d with plan } = .error e { d' with plan } ∧ d.Called K d'

section Cases

variable {x : Act Disk α} {d d' : Disk} {plan : FaultPlan}

theorem Within.of_ok (hx : x.Within K) (hplan : ∀ kind, K kind → plan kind = d.plan kind) {a : α}
    (hrun : x d = .ok a d') : x { d with plan } = .ok a { d' with plan } ∧ d.Called K d' := by
  rcases hx.cases d plan hplan with ⟨b, d₁, hrun', hother, hcalled⟩ | ⟨e, d₁, hrun', -⟩
  · rw [hrun] at hrun'
    cases hrun'
    exact ⟨hother, hcalled⟩
  · rw [hrun] at hrun'
    cases hrun'

theorem Within.of_error (hx : x.Within K) (hplan : ∀ kind, K kind → plan kind = d.plan kind)
    {e : Error} (hrun : x d = .error e d') :
    x { d with plan } = .error e { d' with plan } ∧ d.Called K d' := by
  rcases hx.cases d plan hplan with ⟨b, d₁, hrun', -⟩ | ⟨e', d₁, hrun', hother, hcalled⟩
  · rw [hrun] at hrun'
    cases hrun'
  · rw [hrun] at hrun'
    cases hrun'
    exact ⟨hother, hcalled⟩

end Cases

theorem Within.mono {x : Act Disk α} (h : x.Within K) (hKL : ∀ kind, K kind → L kind) :
    x.Within L := by
  refine ⟨fun d plan hplan => ?_⟩
  rcases h.cases d plan (fun kind hkind => hplan kind (hKL kind hkind)) with
    ⟨a, d', hrun, hother, hcalled⟩ | ⟨e, d', hrun, hother, hcalled⟩
  · exact .inl ⟨a, d', hrun, hother, hcalled.mono hKL⟩
  · exact .inr ⟨e, d', hrun, hother, hcalled.mono hKL⟩

theorem within_pure (a : α) : (pure a : Act Disk α).Within K :=
  ⟨fun d _ _ => .inl ⟨a, d, rfl, rfl, .refl d⟩⟩

theorem within_throw (e : Error) : (throw e : Act Disk α).Within K :=
  ⟨fun d _ _ => .inr ⟨e, d, rfl, rfl, .refl d⟩⟩

theorem within_ofResult (r : Result α) : (ofResult r : Act Disk α).Within K := by
  cases r with
  | ok a => exact within_pure a
  | error e => exact within_throw e

theorem Within.bind {x : Act Disk α} {f : α → Act Disk β} (hx : x.Within K)
    (hf : ∀ a, (f a).Within K) : (x >>= f).Within K := by
  refine ⟨fun d plan hplan => ?_⟩
  rcases hx.cases d plan hplan with ⟨a, d₁, hrun, hother, hcalled⟩ | ⟨e, d₁, hrun, hother, hcalled⟩
  · rw [bind_of_ok hrun, bind_of_ok hother]
    -- the plan is still the one that the disk began with
    have hplan₁ : ∀ kind, K kind → plan kind = d₁.plan kind := by
      intro kind hkind
      rw [hcalled.plan]
      exact hplan kind hkind
    rcases (hf a).cases d₁ plan hplan₁ with
      ⟨b, d₂, hrun₂, hother₂, hcalled₂⟩ | ⟨e, d₂, hrun₂, hother₂, hcalled₂⟩
    · exact .inl ⟨b, d₂, hrun₂, hother₂, hcalled.trans hcalled₂⟩
    · exact .inr ⟨e, d₂, hrun₂, hother₂, hcalled.trans hcalled₂⟩
  · exact .inr ⟨e, d₁, bind_of_error hrun, bind_of_error hother, hcalled⟩

theorem within_ite {c : Prop} [Decidable c] {x y : Act Disk α} (hx : x.Within K)
    (hy : y.Within K) : (if c then x else y).Within K := by
  split
  · exact hx
  · exact hy

end Act

namespace Disk

/-- A call is of its own kind. -/
theorem within_call {α : Type} (kind : Call) (refused : Fault → File → File)
    (granted : File → Except IoFault α × File) : (call kind refused granted).Within (· = kind) := by
  refine ⟨fun d plan hplan => ?_⟩
  have hothers : ∀ c, ¬c = kind → (d.made.add kind).of c = d.made.of c := by
    intro c hc
    rw [CallCounts.of_add, if_neg hc]
  simp only [call, hplan kind rfl]
  cases d.plan kind (d.made.of kind) with
  | some fault => exact .inr ⟨_, _, rfl, rfl, rfl, hothers⟩
  | none =>
    cases granted d.file with
    | mk result file =>
      cases result with
      | ok a => exact .inl ⟨a, _, rfl, rfl, rfl, hothers⟩
      | error report => exact .inr ⟨.io report, _, rfl, rfl, rfl, hothers⟩

theorem within_read (off len : Nat) : (read off len).Within (· = .read) := within_call ..

theorem within_len : len.Within (· = .len) := within_call ..

theorem within_writeParts (off : Nat) (parts : List Bytes) :
    (writeParts off parts).Within (· = .write) := by
  induction parts generalizing off with
  | nil => exact Act.within_pure ()
  | cons part parts ih =>
    exact Act.within_ite (ih off) ((within_call ..).bind fun _ => ih _)

end Disk

/-! ### Scans -/

namespace Scan

theorem within_readIfThere (off len : Nat) : (readIfThere off len).Within (· = .read) := by
  refine ⟨fun d plan hplan => ?_⟩
  unfold readIfThere
  rcases (Disk.within_read off len).cases d plan hplan with
    ⟨bs, d', hrun, hother, hcalled⟩ | ⟨e, d', hrun, hother, hcalled⟩
  · simp only [hrun, hother]
    exact .inl ⟨some bs, d', rfl, rfl, hcalled⟩
  · simp only [hrun, hother]
    cases e with
    | io fault =>
      simp only
      by_cases hend : fault.kind = .endOfFile
      · rw [if_pos hend, if_pos hend]
        exact .inl ⟨none, d', rfl, rfl, hcalled⟩
      · rw [if_neg hend, if_neg hend]
        exact .inr ⟨.io fault, d', rfl, rfl, hcalled⟩
    | _ => exact .inr ⟨_, d', rfl, rfl, hcalled⟩

/-- The next frame, in steps each of which reads or looks at what was read. -/
theorem next_eq_bind (s : Scan) : s.next =
    if s.stopped = true ∨ s.limit < s.tail.offset + FrameHeader.size then pure s.stop
    else do
      match ← readIfThere s.tail.offset FrameHeader.size with
      | none => return s.stop
      | some bs =>
          match ← Act.ofResult (s.judge bs) with
          | none => return s.stop
          | some h =>
              match ← readIfThere (s.tail.offset + FrameHeader.size) h.payloadLen.toNat with
              | none => return s.stop
              | some payload =>
                  return if crc32 payload = h.payloadCrc then s.pass bs payload else s.stop := by
  -- both make the same reads in the same order, so a case for each answer will do
  funext d
  unfold next
  split
  · rfl
  · cases hheader : readIfThere s.tail.offset FrameHeader.size d with
    | error e d₁ => exact (Act.bind_of_error hheader).symm
    | ok found d₁ =>
      rw [Act.bind_of_ok hheader]
      cases found with
      | none => rfl
      | some bs =>
        cases hjudge : s.judge bs with
        | error e => simp only [hjudge]; rfl
        | ok judged =>
          cases judged with
          | none => simp only [hjudge]; rfl
          | some h =>
            simp only [hjudge]
            cases hpayload : readIfThere (s.tail.offset + FrameHeader.size) h.payloadLen.toNat
                d₁ with
            | error e d₂ => exact (Act.bind_of_error hpayload).symm
            | ok found d₂ =>
              refine Eq.trans ?_ (Act.bind_of_ok hpayload).symm
              cases found with
              | none => rfl
              | some payload =>
                simp only
                split <;> rfl

theorem within_next (s : Scan) : s.next.Within (· = .read) := by
  rw [next_eq_bind]
  refine Act.within_ite (Act.within_pure _) ((within_readIfThere ..).bind fun header => ?_)
  cases header with
  | none => exact Act.within_pure _
  | some bs =>
    refine (Act.within_ofResult _).bind fun judged => ?_
    cases judged with
    | none => exact Act.within_pure _
    | some h =>
      refine (within_readIfThere ..).bind fun payload => ?_
      cases payload with
      | none => exact Act.within_pure _
      | some payload => exact Act.within_pure _

variable {s : Scan} {d : Disk} {fs : List Frame} {x : EStateM.Result Error Disk Scan}
  {plan : FaultPlan}

/-- A scan sees only what is planned for reads. -/
theorem Gives.within (h : s.Gives d fs x) (hplan : plan .read = d.plan .read) :
    (∃ s' d', x = .ok s' d' ∧ s.Gives { d with plan } fs (.ok s' { d' with plan }) ∧
        d.Called (· = .read) d') ∨
      ∃ e d', x = .error e d' ∧ s.Gives { d with plan } fs (.error e { d' with plan }) ∧
        d.Called (· = .read) d' := by
  have hagree : ∀ {d : Disk}, plan .read = d.plan .read →
      ∀ kind, kind = .read → plan kind = d.plan kind := by
    rintro d hplan _ rfl
    exact hplan
  induction h with
  | @stop s s₁ d d₁ hnext =>
    rcases s.within_next.of_ok (hagree hplan) hnext with ⟨hother, hcalled⟩
    exact .inl ⟨s₁, d₁, rfl, .stop hother, hcalled⟩
  | @fail s d d₁ e hnext =>
    rcases s.within_next.of_error (hagree hplan) hnext with ⟨hother, hcalled⟩
    exact .inr ⟨e, d₁, rfl, .fail hother, hcalled⟩
  | @frame s s₁ d d₁ f fs x hnext hrest ih =>
    rcases s.within_next.of_ok (hagree hplan) hnext with ⟨hother, hcalled⟩
    rcases ih (by rw [hcalled.plan]; exact hplan) with
      ⟨s', d', rfl, hgives, hcalled'⟩ | ⟨e, d', rfl, hgives, hcalled'⟩
    · exact .inl ⟨s', d', rfl, .frame hother hgives, hcalled.trans hcalled'⟩
    · exact .inr ⟨e, d', rfl, .frame hother hgives, hcalled.trans hcalled'⟩

theorem Gives.toEnd (h : s.Gives d fs x) : s.toEnd d = x := by
  have hwalk := h.forEach_ok (pass_frames fs)
  unfold Scan.toEnd
  rw [hwalk]
  cases x <;> rfl

theorem within_toEnd (s : Scan) : s.toEnd.Within (· = .read) := by
  refine ⟨fun d plan hplan => ?_⟩
  rcases s.exists_gives d with ⟨fs, x, hgives⟩
  rcases hgives.within (hplan .read rfl) with
    ⟨s', d', rfl, hother, hcalled⟩ | ⟨e, d', rfl, hother, hcalled⟩
  · exact .inl ⟨s', d', hgives.toEnd, hother.toEnd, hcalled⟩
  · exact .inr ⟨e, d', hgives.toEnd, hother.toEnd, hcalled⟩

theorem within_ofHeader (h : FileHeader) : (ofHeader h).Within (· = .len) :=
  Disk.within_len.bind fun _ =>
    Act.within_ite ((Act.within_throw _).bind fun _ => Act.within_pure _) (Act.within_pure _)

theorem harvest_within (s : Scan) (hplan : plan .read = d.plan .read) :
    (s.harvest { d with plan }).1 = (s.harvest d).1 := by
  rcases s.exists_gives d with ⟨fs, x, hgives⟩
  rcases hgives.within hplan with ⟨s', d', rfl, hother, -⟩ | ⟨e, d', rfl, hother, -⟩
  · exact hgives.harvest_eq hother rfl
  · exact hgives.harvest_eq hother rfl

end Scan

/-! ### Logs -/

namespace Log

variable {log log' : Log} {plan : FaultPlan}

/-- Reading a log sees only what is planned for reads and for the length of the file. -/
theorem frames_within (log : Log) (plan : FaultPlan) {read : Scan.Harvest}
    (hread : plan .read = log.disk.plan .read) (hlen : plan .len = log.disk.plan .len)
    (hrun : Log.frames log = .ok read log') :
    ∃ log'', Log.frames { log with disk := { log.disk with plan } } = .ok read log'' := by
  rcases Act.bind_eq_ok.1 hrun with ⟨scan, log₁, hscan, hharvest⟩
  -- the length is asked for once, and then there are only reads
  rcases (Scan.within_ofHeader log.writer.header).cases log.disk plan
      (by rintro _ rfl; exact hlen) with
    ⟨scan', d₁, hheader, hother, hcalled⟩ | ⟨e, d₁, hheader, -⟩
  · have hscan' : Log.scan log = .ok scan' { log with disk := d₁ } := onDisk_of_ok hheader
    rw [hscan] at hscan'
    cases hscan'
    cases hharvest
    refine ⟨{ log with disk := (scan.harvest { d₁ with plan }).2 }, ?_⟩
    have hframes : Log.frames { log with disk := { log.disk with plan } } =
        .ok (scan.harvest { d₁ with plan }).1
          { log with disk := (scan.harvest { d₁ with plan }).2 } :=
      Act.bind_of_ok (onDisk_of_ok hother)
    rw [hframes, scan.harvest_within]
    rw [hcalled.plan]
    exact hread
  · have hscan' : Log.scan log = .error e { log with disk := d₁ } := onDisk_of_error hheader
    rw [hscan] at hscan'
    cases hscan'

theorem appendPiece_of_error {piece : List Bytes} {e : Error} {d : Disk}
    (h : Disk.writeParts log.writer.tail.offset (log.writer.tail.parts piece) log.disk =
      .error e d) :
    appendPiece piece log = .error e ⟨d, { log.writer with
      tail := { log.writer.tail.pushAll piece with offset := log.writer.tail.offset } }⟩ := by
  rw [appendPiece, Act.get_bind, updateWriter_bind]
  exact Act.bind_of_error (onDisk_of_error h)

/-- Writing a piece sees only what is planned for writes. -/
theorem appendPiece_within (log : Log) (piece : List Bytes)
    (hplan : plan .write = log.disk.plan .write) :
    (∃ a log', appendPiece piece log = .ok a log' ∧
        appendPiece piece { log with disk := { log.disk with plan } } =
          .ok a { log' with disk := { log'.disk with plan } } ∧
        log.disk.Called (· = .write) log'.disk) ∨
      ∃ e log', appendPiece piece log = .error e log' ∧
        appendPiece piece { log with disk := { log.disk with plan } } =
          .error e { log' with disk := { log'.disk with plan } } ∧
        log.disk.Called (· = .write) log'.disk := by
  rcases (Disk.within_writeParts log.writer.tail.offset (log.writer.tail.parts piece)).cases
      log.disk plan (by rintro _ rfl; exact hplan) with
    ⟨u, d, hrun, hother, hcalled⟩ | ⟨e, d, hrun, hother, hcalled⟩
  · exact .inl ⟨_, _, appendPiece_of_ok hrun, appendPiece_of_ok hother, hcalled⟩
  · exact .inr ⟨_, _, appendPiece_of_error hrun, appendPiece_of_error hother, hcalled⟩

/-- Writing several pieces sees only what is planned for writes. -/
theorem appendPieces_within (log : Log) (pieces : List (List Bytes))
    (hplan : plan .write = log.disk.plan .write) :
    (∃ a log', appendPieces pieces log = .ok a log' ∧
        appendPieces pieces { log with disk := { log.disk with plan } } =
          .ok a { log' with disk := { log'.disk with plan } } ∧
        log.disk.Called (· = .write) log'.disk) ∨
      ∃ e log', appendPieces pieces log = .error e log' ∧
        appendPieces pieces { log with disk := { log.disk with plan } } =
          .error e { log' with disk := { log'.disk with plan } } ∧
        log.disk.Called (· = .write) log'.disk := by
  induction pieces generalizing log with
  | nil => exact .inl ⟨[], log, rfl, rfl, .refl _⟩
  | cons piece pieces ih =>
    rcases log.appendPiece_within piece hplan with
      ⟨first, log₁, hrun, hother, hcalled⟩ | ⟨e, log₁, hrun, hother, hcalled⟩
    · rcases ih log₁ (by rw [hcalled.plan]; exact hplan) with
        ⟨others, log₂, hrun₂, hother₂, hcalled₂⟩ | ⟨e, log₂, hrun₂, hother₂, hcalled₂⟩
      · exact .inl ⟨first ++ others, log₂,
          (Act.bind_of_ok hrun).trans (Act.bind_of_ok hrun₂),
          (Act.bind_of_ok hother).trans (Act.bind_of_ok hother₂), hcalled.trans hcalled₂⟩
      · exact .inr ⟨e, log₂, (Act.bind_of_ok hrun).trans (Act.bind_of_error hrun₂),
          (Act.bind_of_ok hother).trans (Act.bind_of_error hother₂), hcalled.trans hcalled₂⟩
    · exact .inr ⟨e, log₁, Act.bind_of_error hrun, Act.bind_of_error hother, hcalled⟩

end Log

/-- Opening a log makes no sync. -/
theorem Writer.within_ofDisk (options : LogOptions) :
    (Writer.ofDisk options).Within (· ≠ .sync) := by
  have hlen : Disk.len.Within (· ≠ .sync) := Disk.within_len.mono (by rintro _ rfl; decide)
  have hresume : ∀ h : FileHeader, (Writer.resume options.mode h).Within (· ≠ .sync) := by
    intro h
    refine ((Scan.within_ofHeader h).mono (by rintro _ rfl; decide)).bind fun scan => ?_
    exact (scan.within_toEnd.mono (by rintro _ rfl; decide)).bind fun _ => Act.within_pure _
  have hrecognize : (Writer.recognize options.salt).Within (· ≠ .sync) := by
    refine Act.Within.bind (Act.Within.bind ?_ fun _ => Act.within_ofResult _) fun h => ?_
    · exact (Disk.within_read ..).mono (by rintro _ rfl; decide)
    · exact Act.within_ite ((Act.within_throw _).bind fun _ => Act.within_pure _)
        (Act.within_pure _)
  have hcreate : ∀ h : FileHeader, (Writer.create h).Within (· ≠ .sync) := by
    intro h
    refine ((Disk.within_call ..).mono (by rintro _ rfl; decide)).bind fun _ => ?_
    exact (Disk.within_call ..).mono (by rintro _ rfl; decide)
  refine hlen.bind fun len => Act.within_ite ?_ ?_
  · exact (hcreate _).bind fun _ => hresume _
  · exact hrecognize.bind hresume

end PageLog
