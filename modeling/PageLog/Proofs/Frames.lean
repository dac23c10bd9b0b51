import PageLog.Log.Basic
import PageLog.Proofs.FrameFormat

/-!
# Rows of frames

The frames for a row of payloads are fixed by the state of the log in front of them: their bytes,
their pointers and the state behind them.  The rest of the theory of the log speaks of the row of
payloads that a log holds, and comes back here for the bytes.

## Main definitions

* `Tail.frames`, `Tail.image` — the frames for payloads, as read and as bytes.
* `FileHeader.image` — the bytes of a log file that holds payloads.

## Main results

* `Tail.offset_pushAll`, `Tail.nextLsn_pushAll` — the state behind the frames.
* `Tail.image_append`, `Tail.frames_append` — rows one behind the other.
* `Tail.stop_mem_frames` — where a frame of a row stops.
-/

namespace PageLog
namespace Tail

/-- The frames for payloads, as a scan gives them. -/
def frames (t : Tail) : List Bytes → List Frame
  | [] => []
  | payload :: payloads => ⟨t.pointer payload, payload⟩ :: (t.push payload).frames payloads

/-- The bytes of the frames for payloads. -/
def image (t : Tail) (payloads : List Bytes) : Bytes := (t.parts payloads).flatten

variable (t : Tail) (p : Bytes) (ps qs : List Bytes)

@[simp] theorem frames_nil : t.frames [] = [] := rfl

@[simp] theorem frames_cons :
    t.frames (p :: ps) = ⟨t.pointer p, p⟩ :: (t.push p).frames ps := rfl

@[simp] theorem image_nil : t.image [] = [] := rfl

theorem image_cons : t.image (p :: ps) = (t.header p).encode ++ (p ++ (t.push p).image ps) := by
  simp [image, parts]

@[simp] theorem offset_push : (t.push p).offset = t.offset + (FrameHeader.size + p.length) := rfl

@[simp] theorem nextLsn_push : (t.push p).nextLsn = t.nextLsn + 1 := rfl

theorem frames_append : t.frames (ps ++ qs) = t.frames ps ++ (t.pushAll ps).frames qs := by
  induction ps generalizing t with
  | nil => rfl
  | cons p ps ih => simp [ih]

theorem image_append : t.image (ps ++ qs) = t.image ps ++ (t.pushAll ps).image qs := by
  induction ps generalizing t with
  | nil => rfl
  | cons p ps ih => simp [image_cons, ih]

@[simp] theorem length_frames : (t.frames ps).length = ps.length := by
  induction ps generalizing t with
  | nil => rfl
  | cons p ps ih => simp [ih]

@[simp] theorem map_payload_frames : (t.frames ps).map Frame.payload = ps := by
  induction ps generalizing t with
  | nil => rfl
  | cons p ps ih => simp [ih]

/-- The pointers that appending gives back are those of the frames. -/
theorem zipWith_pointers : List.zipWith Frame.mk (t.pointers ps) ps = t.frames ps := by
  induction ps generalizing t with
  | nil => rfl
  | cons p ps ih => simp [pointers, ih]

/-- The frames fill the file up to the next place. -/
theorem offset_pushAll : (t.pushAll ps).offset = t.offset + (t.image ps).length := by
  induction ps generalizing t with
  | nil => rfl
  | cons p ps ih =>
    rw [pushAll_cons, ih, offset_push, image_cons]
    simp only [List.length_append, FrameHeader.length_encode, FrameHeader.size]
    omega

/-- The numbers go on by one with every frame. -/
theorem nextLsn_pushAll : (t.pushAll ps).nextLsn = t.nextLsn + UInt64.ofNat ps.length := by
  induction ps generalizing t with
  | nil => simp
  | cons p ps ih =>
    rw [pushAll_cons, ih, nextLsn_push, List.length_cons, Nat.add_comm, UInt64.ofNat_add,
      UInt64.add_assoc]
    rfl

theorem offset_le_pushAll : t.offset ≤ (t.pushAll ps).offset := by
  rw [offset_pushAll]
  exact Nat.le_add_right ..

/-- Every frame takes some room. -/
theorem offset_lt_pushAll {ps : List Bytes} (h : ps ≠ []) : t.offset < (t.pushAll ps).offset := by
  cases ps with
  | nil => exact absurd rfl h
  | cons p ps =>
    have hle := (t.push p).offset_le_pushAll ps
    rw [pushAll_cons]
    simp only [offset_push, FrameHeader.size] at hle
    omega

/-- A frame of a row stops where the row up to it stops. -/
theorem stop_mem_frames {f : Frame} (h : f ∈ t.frames ps) :
    ∃ i, i < ps.length ∧ f.stop = (t.pushAll (ps.take (i + 1))).offset := by
  induction ps generalizing t with
  | nil => simp at h
  | cons p ps ih =>
    rw [frames_cons, List.mem_cons] at h
    obtain rfl | h := h
    · exact ⟨0, by simp, by simp [Frame.stop, pointer]⟩
    · obtain ⟨i, hi, hstop⟩ := ih _ h
      exact ⟨i + 1, by simpa using hi, by simpa using hstop⟩

end Tail

namespace FileHeader

/-- The bytes of a log file with this header that holds payloads. -/
def image (h : FileHeader) (ps : List Bytes) : Bytes := h.encode ++ (Tail.start h).image ps

variable (h : FileHeader) (ps qs : List Bytes)

theorem image_append :
    h.image (ps ++ qs) = h.image ps ++ ((Tail.start h).pushAll ps).image qs := by
  rw [image, Tail.image_append, ← List.append_assoc, image]

theorem length_image : (h.image ps).length = ((Tail.start h).pushAll ps).offset := by
  rw [Tail.offset_pushAll, image, List.length_append, length_encode]
  rfl

end FileHeader
end PageLog
