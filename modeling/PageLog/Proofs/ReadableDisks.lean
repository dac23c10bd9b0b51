import PageLog.Proofs.CallKinds

/-!
# Disks that refuse only writes

A disk that refuses some writes and no other call serves everything that does not write as if it
refused nothing, and everything else too, as long as no write is refused.  What is known of calm
disks is carried over to it by disarming it.

## Main definitions

* `Disk.Readable` — only writes may be refused.
* `Act.Undisturbed` — a step that goes the same way once the disk is disarmed.
* `Act.Smooth` — a step that succeeds in the same way once the disk is disarmed, if it succeeds.

## Main results

* `Disk.writeParts_cases` — a write in parts that may be refused on the way.
* `Writer.smooth_ofDisk`, `Log.frames_of_disarm` — opening a log and reading it.
-/

namespace PageLog

namespace Disk

/-- Only writes may be refused. -/
def Readable (d : Disk) : Prop := ∀ kind n, kind ≠ .write → d.plan kind n = none

variable {d d' : Disk}

theorem Readable.of_plan (h : d.Readable) (hplan : d'.plan = d.plan) : d'.Readable := by
  intro kind n hkind
  rw [hplan]
  exact h kind n hkind

theorem holds_disarm (d : Disk) : d.disarm.Holds d.file.bytes := ⟨fun _ _ => rfl, rfl⟩

end Disk

/-! ### Steps that do not notice -/

namespace Act

variable {α β : Type}

/-- On a readable disk the step goes the same way as on the disarmed one. -/
structure Undisturbed (x : Act Disk α) : Prop where
  cases : ∀ d : Disk, d.Readable →
    (∃ a d', x d = .ok a d' ∧ x d.disarm = .ok a d'.disarm ∧ d'.plan = d.plan) ∨
      ∃ e d', x d = .error e d' ∧ x d.disarm = .error e d'.disarm ∧ d'.plan = d.plan

/-- If the step succeeds on a readable disk, then in the same way as on the disarmed one. -/
structure Smooth (x : Act Disk α) : Prop where
  ok : ∀ (d : Disk) (a : α) (d' : Disk), d.Readable → x d = .ok a d' →
    x d.disarm = .ok a d'.disarm ∧ d'.plan = d.plan

theorem Undisturbed.smooth {x : Act Disk α} (h : x.Undisturbed) : x.Smooth := by
  refine ⟨fun d a d' hd hrun => ?_⟩
  rcases h.cases d hd with ⟨b, d₁, hrun', hcalm, hplan⟩ | ⟨e, d₁, hrun', -⟩
  · rw [hrun] at hrun'
    cases hrun'
    exact ⟨hcalm, hplan⟩
  · rw [hrun] at hrun'
    cases hrun'

/-- A step that does not write goes the same way on the disarmed disk. -/
theorem Within.undisturbed {K : Call → Prop} {x : Act Disk α} (h : x.Within K)
    (hK : ∀ kind, K kind → kind ≠ .write) : x.Undisturbed := by
  refine ⟨fun d hd => ?_⟩
  have hplan : ∀ kind, K kind → FaultPlan.none kind = d.plan kind := by
    intro kind hkind
    funext n
    exact (hd kind n (hK kind hkind)).symm
  rcases h.cases d .none hplan with ⟨a, d', hrun, hcalm, hcalled⟩ | ⟨e, d', hrun, hcalm, hcalled⟩
  · exact .inl ⟨a, d', hrun, hcalm, hcalled.plan⟩
  · exact .inr ⟨e, d', hrun, hcalm, hcalled.plan⟩

theorem smooth_pure (a : α) : (pure a : Act Disk α).Smooth := by
  refine ⟨fun d b d' _ hrun => ?_⟩
  cases hrun
  exact ⟨rfl, rfl⟩

theorem smooth_throw (e : Error) : (throw e : Act Disk α).Smooth := by
  refine ⟨fun d a d' _ hrun => ?_⟩
  cases hrun

theorem smooth_ofResult (r : Result α) : (ofResult r : Act Disk α).Smooth := by
  refine ⟨fun d a d' _ hrun => ?_⟩
  rcases ofResult_eq_ok.1 hrun with ⟨rfl, rfl⟩
  exact ⟨rfl, rfl⟩

theorem Smooth.bind {x : Act Disk α} {f : α → Act Disk β} (hx : x.Smooth)
    (hf : ∀ a, (f a).Smooth) : (x >>= f).Smooth := by
  refine ⟨fun d b d' hd hrun => ?_⟩
  rcases bind_eq_ok.1 hrun with ⟨a, d₁, hfirst, hrest⟩
  rcases hx.ok d a d₁ hd hfirst with ⟨hfirst', hplan⟩
  rcases (hf a).ok d₁ b d' (hd.of_plan hplan) hrest with ⟨hrest', hplan'⟩
  exact ⟨by rw [bind_of_ok hfirst', hrest'], hplan'.trans hplan⟩

theorem smooth_ite {c : Prop} [Decidable c] {x y : Act Disk α} (hx : x.Smooth) (hy : y.Smooth) :
    (if c then x else y).Smooth := by
  split
  · exact hx
  · exact hy

end Act

namespace Disk

/-! ### Calls -/

theorem undisturbed_read (off len : Nat) : (read off len).Undisturbed :=
  (within_read off len).undisturbed (by rintro _ rfl; decide)

theorem undisturbed_len : len.Undisturbed := within_len.undisturbed (by rintro _ rfl; decide)

theorem undisturbed_sync : sync.Undisturbed :=
  (within_call ..).undisturbed (by rintro _ rfl; decide)

theorem undisturbed_truncate (n : Nat) : (truncate n).Undisturbed :=
  (within_call ..).undisturbed (by rintro _ rfl; decide)

theorem smooth_write (off : Nat) (data : Bytes) : (write off data).Smooth := by
  refine ⟨fun d a d' _ hrun => ?_⟩
  simp only [write, call] at hrun
  cases hplan : d.plan .write (d.made.of .write) with
  | none =>
    rw [hplan] at hrun
    cases hrun
    exact ⟨rfl, rfl⟩
  | some fault =>
    rw [hplan] at hrun
    cases hrun

variable {d : Disk}

/-- A write is granted, or refused with some of its bytes in the file. -/
theorem write_cases (d : Disk) {off : Nat} (data : Bytes) (hoff : off ≤ d.file.bytes.length) :
    (∃ d', write off data d = .ok () d' ∧ d'.plan = d.plan ∧
        d'.file.bytes = Bytes.overwrite d.file.bytes off data) ∨
      ∃ report d' k, write off data d = .error (.io report) d' ∧ d'.plan = d.plan ∧
        d'.file.bytes = Bytes.overwrite d.file.bytes off (data.take k) := by
  rw [File.length_bytes] at hoff
  simp only [write, call]
  cases d.plan .write (d.made.of .write) with
  | none => exact .inl ⟨_, rfl, rfl, File.bytes_write _ _ hoff⟩
  | some fault =>
    refine .inr ⟨fault.report, _, fault.kept, rfl, rfl, ?_⟩
    simp only
    by_cases hkept : fault.kept = 0
    · rw [if_pos hkept, hkept, List.take_zero]
      simp [Bytes.overwrite]
    · rw [if_neg hkept]
      exact File.bytes_write _ _ hoff

/-- A write in parts is granted, or refused with some of its bytes in the file. -/
theorem writeParts_cases (d : Disk) {off : Nat} (parts : List Bytes)
    (hoff : off ≤ d.file.bytes.length) :
    (∃ d', writeParts off parts d = .ok () d' ∧ d'.plan = d.plan ∧
        d'.file.bytes = Bytes.overwrite d.file.bytes off parts.flatten) ∨
      ∃ report d' k, writeParts off parts d = .error (.io report) d' ∧ d'.plan = d.plan ∧
        d'.file.bytes = Bytes.overwrite d.file.bytes off (parts.flatten.take k) := by
  induction parts generalizing d off with
  | nil => exact .inl ⟨d, rfl, rfl, by simp [Bytes.overwrite]⟩
  | cons part parts ih =>
    rw [writeParts, List.flatten_cons]
    -- empty parts are passed over without a call
    by_cases hempty : part = []
    · rw [if_pos hempty, hempty, List.nil_append]
      exact ih d hoff
    · rw [if_neg hempty]
      rcases d.write_cases part hoff with
        ⟨d₁, hfirst, hplan₁, hbytes₁⟩ | ⟨report, d₁, k, hfirst, hplan₁, hbytes₁⟩
      · have hlen := Bytes.length_overwrite_eq_max part hoff
        rw [Act.bind_of_ok hfirst]
        have hoff₁ : off + part.length ≤ d₁.file.bytes.length := by
          rw [hbytes₁, hlen]
          omega
        rcases ih d₁ hoff₁ with
          ⟨d₂, hrest, hplan₂, hbytes₂⟩ | ⟨report, d₂, k, hrest, hplan₂, hbytes₂⟩
        · rw [hbytes₁, Bytes.overwrite_overwrite _ _ hoff] at hbytes₂
          exact .inl ⟨d₂, hrest, hplan₂.trans hplan₁, hbytes₂⟩
        · rw [hbytes₁, Bytes.overwrite_overwrite _ _ hoff] at hbytes₂
          -- the first part is all there, and some of the others
          refine .inr ⟨report, d₂, part.length + k, hrest, hplan₂.trans hplan₁, ?_⟩
          rw [hbytes₂, List.take_length_add_append]
      · refine .inr ⟨report, d₁, min k part.length, Act.bind_of_error hfirst, hplan₁, ?_⟩
        rw [hbytes₁, List.take_append_of_le_length (Nat.min_le_right ..), ← List.take_eq_take_min]

end Disk

/-! ### Scans -/

namespace Scan

theorem smooth_toEnd (s : Scan) : s.toEnd.Smooth :=
  (s.within_toEnd.undisturbed (by rintro _ rfl; decide)).smooth

theorem undisturbed_ofHeader (h : FileHeader) : (ofHeader h).Undisturbed :=
  (within_ofHeader h).undisturbed (by rintro _ rfl; decide)

end Scan

/-! ### Logs -/

/-- A log that is opened on a readable disk is the one that is opened on the disarmed disk. -/
theorem Writer.smooth_ofDisk (options : LogOptions) : (Writer.ofDisk options).Smooth := by
  have hresume : ∀ h : FileHeader, (Writer.resume options.mode h).Smooth := fun h =>
    (Scan.undisturbed_ofHeader h).smooth.bind fun scan =>
      scan.smooth_toEnd.bind fun _ => Act.smooth_pure _
  have hrecognize : (Writer.recognize options.salt).Smooth := by
    refine Act.Smooth.bind ?_ fun h => ?_
    · exact (Disk.undisturbed_read ..).smooth.bind fun _ => Act.smooth_ofResult _
    · exact Act.smooth_ite ((Act.smooth_throw _).bind fun _ => Act.smooth_pure _)
        (Act.smooth_pure _)
  have hcreate : ∀ h : FileHeader, (Writer.create h).Smooth := fun h =>
    (Disk.smooth_write ..).bind fun _ => (Disk.undisturbed_truncate _).smooth
  refine Disk.undisturbed_len.smooth.bind fun len => Act.smooth_ite ?_ ?_
  · exact (hcreate _).bind fun _ => hresume _
  · exact hrecognize.bind hresume

/-- What is read from a log on a disarmed disk is read from the log on the disk itself. -/
theorem Log.frames_of_disarm {d : Disk} {w : Writer} {read : Scan.Harvest} {log : Log}
    (hd : d.Readable) (hcalm : Log.frames ⟨d.disarm, w⟩ = .ok read log) :
    ∃ log', Log.frames ⟨d, w⟩ = .ok read log' := by
  have hread : d.plan .read = FaultPlan.none .read := funext fun n => hd .read n (by decide)
  have hlen : d.plan .len = FaultPlan.none .len := funext fun n => hd .len n (by decide)
  exact Log.frames_within ⟨d.disarm, w⟩ d.plan hread hlen hcalm

end PageLog
