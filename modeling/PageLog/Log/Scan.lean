import PageLog.Log.Frame
import PageLog.File.Disk

/-!
# Reading a log from its beginning

A scan goes through the frames of a log file in order and stops at the first place where no frame
continues the log: the file ends, a checksum does not hold, or a frame does not follow from those
before it.  Everything behind that place is left alone.  A frame numbered below the first number
of the log is reported as damage, and so is a refusal of the file; both leave the scan where it
was.

## Main definitions

* `Scan`, `Scan.ofHeader`, `Scan.existing` — a scan and how it begins.
* `Scan.next` — one frame further.
* `Scan.forEach` — all the way to the end, with a step for every frame.
* `Scan.seek` — up to a given offset.

## Main results

* `Scan.next_progress` — every frame moves the scan forward inside the limit it began with.
-/

namespace PageLog

/-- A walk through the frames of a log. -/
structure Scan where
  /-- The header of the file. -/
  header : FileHeader
  /-- The length of the file when the scan began. -/
  limit : Nat
  /-- The state of the log up to here. -/
  tail : Tail
  /-- Whether the end was found. -/
  stopped : Bool
  deriving DecidableEq, Repr, Inhabited

namespace Scan

/-- How far the log has been found valid. -/
def validUpTo (s : Scan) : Nat := s.tail.offset

/-- A scan of a file whose header is known. -/
def ofHeader (h : FileHeader) : Act Disk Scan := do
  let limit ← Disk.len
  if limit < FileHeader.size then throw (.corruption .logHeaderLost)
  return ⟨h, limit, .start h, false⟩

/-- Reads the header of the file. -/
def readHeader : Act Disk FileHeader := do
  let bs ← Disk.read 0 FileHeader.size
  Act.ofResult (FileHeader.decode bs)

/-- A scan of a file that must hold a log already. -/
def existing : Act Disk Scan := do
  let len ← Disk.len
  if len < FileHeader.size then throw (.corruption .logHeaderTruncated)
  let h ← readHeader
  ofHeader h

/-- The bytes at an offset, or nothing when the file is too short. -/
def readIfThere (off len : Nat) : Act Disk (Option Bytes) := fun d =>
  match Disk.read off len d with
  | .ok bs d' => .ok (some bs) d'
  | .error (.io fault) d' =>
      if fault.kind = .endOfFile then .ok none d' else .error (.io fault) d'
  | .error e d' => .error e d'

/-- The scan at its end. -/
def stop (s : Scan) : Option Frame × Scan := (none, { s with stopped := true })

/-- The scan behind a frame, and the frame. -/
def pass (s : Scan) (header payload : Bytes) : Option Frame × Scan :=
  (some ⟨s.tail.pointer payload, payload⟩, { s with tail := s.tail.pass header payload })

/-- Whether a frame with this header continues the log. -/
def continues (t : Tail) (h : FrameHeader) : Bool :=
  h.chain == t.chain && h.lsn == t.nextLsn && 0 < h.payloadLen.toNat &&
    h.payloadLen.toNat ≤ maxPayload

/-- What the 32 bytes where a frame should begin say: the header of a frame that continues the
log, nothing if the log ends here, or damage. -/
def judge (s : Scan) (bs : Bytes) : Result (Option FrameHeader) :=
  match FrameHeader.decode? bs with
  | none => .ok none
  | some h =>
      if h.lsn < s.header.startLsn then .error (.corruption .frameBelowStart)
      else if continues s.tail h then .ok (some h)
      else .ok none

/-- The next frame, if there is one, and the scan behind it. -/
def next (s : Scan) : Act Disk (Option Frame × Scan) := fun d =>
  if s.stopped = true ∨ s.limit < s.tail.offset + FrameHeader.size then .ok s.stop d
  else
    match readIfThere s.tail.offset FrameHeader.size d with
    | .error e d => .error e d
    | .ok none d => .ok s.stop d
    | .ok (some bs) d =>
        match s.judge bs with
        | .error e => .error e d
        | .ok none => .ok s.stop d
        | .ok (some h) =>
            match readIfThere (s.tail.offset + FrameHeader.size) h.payloadLen.toNat d with
            | .error e d => .error e d
            | .ok none d => .ok s.stop d
            | .ok (some payload) d =>
                if crc32 payload = h.payloadCrc then .ok (s.pass bs payload) d
                else .ok s.stop d

/-- Every frame moves the scan forward, and begins inside the limit. -/
theorem next_progress {s s' : Scan} {d d' : Disk} {f : Frame}
    (h : s.next d = .ok (some f, s') d') :
    s.tail.offset < s.limit ∧ s'.limit = s.limit ∧ s.tail.offset < s'.tail.offset := by
  unfold next at h
  split at h
  · simp [stop] at h
  · rename_i hin
    simp only [FrameHeader.size, not_or, Nat.not_lt] at hin
    repeat' split at h
    all_goals simp only [stop, pass, reduceCtorEq, EStateM.Result.ok.injEq, Prod.mk.injEq,
      Option.some.injEq, false_and] at h
    obtain ⟨⟨-, rfl⟩, -⟩ := h
    refine ⟨by omega, rfl, ?_⟩
    simp only [Tail.pass, FrameHeader.size]
    omega

/-- Goes through all frames from here on and takes a step for each.  The walk ends where the log
ends, or as soon as the scan or a step fails. -/
def forEach {τ : Type} (visit : Frame → Act τ Unit) (s : Scan) : Act (Disk × τ) Scan :=
  fun (d, t) =>
    match _ : s.next d with
    | .error e d => .error e (d, t)
    | .ok (none, s) d => .ok s (d, t)
    | .ok (some f, s) d =>
        match visit f t with
        | .error e t => .error e (d, t)
        | .ok () t => forEach visit s (d, t)
termination_by s.limit - s.tail.offset
decreasing_by
  have := next_progress ‹_›
  omega

/-- Goes to the end of the log. -/
def toEnd (s : Scan) : Act Disk Scan := fun d =>
  match s.forEach (fun _ => pure ()) (d, ()) with
  | .ok s (d, ()) => .ok s d
  | .error e (d, ()) => .error e d

/-- Goes on until just `off` bytes are known to be valid, if the end of a frame lies there. -/
def seek (off : Nat) (s : Scan) : Act Disk Tail := fun d =>
  if s.tail.offset = off then .ok s.tail d
  else
    match _ : s.next d with
    | .error e d => .error e d
    | .ok (none, _) d => .error (.invalid .truncateInsideFrame) d
    | .ok (some _, s) d => seek off s d
termination_by s.limit - s.tail.offset
decreasing_by
  have := next_progress ‹_›
  omega

/-- The frames from here on, and what ended the scan if it was not the end of the log. -/
structure Harvest where
  /-- The frames, in order. -/
  frames : List Frame
  /-- What ended the scan early. -/
  failure : Option Error
  /-- How far the log was found valid. -/
  validUpTo : Nat
  deriving Inhabited

/-- All frames from here on. -/
def harvest (s : Scan) (d : Disk) : Harvest × Disk :=
  match s.forEach (fun f => modify (f :: ·)) (d, []) with
  | .ok s (d, frames) => (⟨frames.reverse, none, s.validUpTo⟩, d)
  | .error e (d, frames) =>
      -- The scan that failed stood behind the last frame it gave.
      (⟨frames.reverse, some e, (frames.head?.map Frame.stop).getD s.validUpTo⟩, d)

end Scan

end PageLog
