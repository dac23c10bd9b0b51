import PageLog.File.Basic

/-!
# A file behind calls that may fail

The log reaches its file through calls of five kinds.  Each call may be refused; a refused write
may leave some of its bytes behind.  Which calls are refused is a plan that depends only on the
kind of the call and on how many calls of that kind came before.

## Main definitions

* `Call`, `CallCounts` — the kinds of call, and how many calls of each were made.
* `Fault`, `FaultPlan` — which calls are refused, and how.
* `Disk` — a file, a plan and the calls made so far.
* `Disk.read`, `Disk.write`, `Disk.writeParts`, `Disk.sync`, `Disk.len`, `Disk.truncate` — the
  calls.
-/

namespace PageLog

/-- The kinds of call. -/
inductive Call where
  /-- Reading bytes. -/
  | read
  /-- Writing bytes. -/
  | write
  /-- Making written bytes durable. -/
  | sync
  /-- Asking for the length. -/
  | len
  /-- Setting the length. -/
  | truncate
  deriving DecidableEq, Repr, Inhabited

/-- The call with a given name. -/
def Call.ofName? : String → Option Call
  | "read" => some .read
  | "write" => some .write
  | "sync" => some .sync
  | "len" => some .len
  | "truncate" => some .truncate
  | _ => none

/-- How many calls of each kind were made. -/
structure CallCounts where
  /-- Reads. -/
  reads : Nat
  /-- Writes. -/
  writes : Nat
  /-- Times the file was made durable. -/
  syncs : Nat
  /-- Questions for the length. -/
  lens : Nat
  /-- Times the length was set. -/
  truncates : Nat
  deriving DecidableEq, Repr, Inhabited

namespace CallCounts

/-- No calls. -/
def zero : CallCounts := ⟨0, 0, 0, 0, 0⟩

/-- How many calls of one kind were made. -/
def of (n : CallCounts) : Call → Nat
  | .read => n.reads
  | .write => n.writes
  | .sync => n.syncs
  | .len => n.lens
  | .truncate => n.truncates

/-- The counts after one more call. -/
def add (n : CallCounts) : Call → CallCounts
  | .read => { n with reads := n.reads + 1 }
  | .write => { n with writes := n.writes + 1 }
  | .sync => { n with syncs := n.syncs + 1 }
  | .len => { n with lens := n.lens + 1 }
  | .truncate => { n with truncates := n.truncates + 1 }

theorem of_add (n : CallCounts) (call c : Call) :
    (n.add call).of c = if c = call then n.of c + 1 else n.of c := by
  cases call <;> cases c <;> rfl

end CallCounts

/-- A refusal: what is reported, and how many bytes of a refused write reach the file all the
same. -/
structure Fault where
  /-- What is reported. -/
  report : IoFault
  /-- How many bytes are written nevertheless. -/
  kept : Nat
  deriving DecidableEq, Repr, Inhabited

/-- For each kind of call and each count of such calls before, whether the call is refused. -/
abbrev FaultPlan := Call → Nat → Option Fault

/-- No call is refused. -/
def FaultPlan.none : FaultPlan := fun _ _ => Option.none

/-- A file behind calls. -/
structure Disk where
  /-- The file. -/
  file : File
  /-- Which calls are refused. -/
  plan : FaultPlan
  /-- How many calls of each kind were made. -/
  made : CallCounts

namespace Disk

/-- A file that no call was made to, and that refuses none. -/
def ofFile (file : File) : Disk := ⟨file, .none, .zero⟩

/-- The disk with one more call on its record. -/
def count (d : Disk) (call : Call) : Disk := { d with made := d.made.add call }

/-- Refuses `times` calls of a kind after letting `after` such calls pass, in place of what was
planned for that kind of call. -/
def arm (d : Disk) (call : Call) (after times : Nat) (report : IoFault) : Disk :=
  let first := d.made.of call + after
  let earlier := d.plan
  { d with plan := fun c n =>
      if c = call then
        if first ≤ n ∧ n < first + times then some ⟨report, 0⟩ else Option.none
      else earlier c n }

/-- Refuses nothing any more. -/
def disarm (d : Disk) : Disk := { d with plan := .none }

/-- A call: `refused` says what a refusal leaves behind, `granted` what is done otherwise. -/
def call {α : Type} (kind : Call) (refused : Fault → File → File)
    (granted : File → Except IoFault α × File) : Act Disk α := fun d =>
  let d' := d.count kind
  match d.plan kind (d.made.of kind) with
  | some fault => .error (.io fault.report) { d' with file := refused fault d.file }
  | none =>
      match granted d.file with
      | (.ok a, file) => .ok a { d' with file }
      | (.error report, file) => .error (.io report) { d' with file }

/-- `len` bytes at offset `off`. -/
def read (off len : Nat) : Act Disk Bytes :=
  call .read (fun _ file => file) (fun file => file.read off len)

/-- Writes `data` at offset `off`. -/
def write (off : Nat) (data : Bytes) : Act Disk Unit :=
  call .write
    (fun fault file => if fault.kept = 0 then file else file.write off (data.take fault.kept))
    (fun file => (.ok (), file.write off data))

/-- Writes several byte strings one after the other from offset `off` on, one call for each that
is not empty.  The offset never leaves 64 bits: once a part is written the file is at least as long
as the offset behind it, and neither memory nor the operating system keeps a file of `2 ^ 63` bytes,
so that a write that would get that far is refused itself. -/
def writeParts (off : Nat) : List Bytes → Act Disk Unit
  | [] => pure ()
  | part :: parts =>
      if part = [] then writeParts off parts
      else do
        write off part
        writeParts (off + part.length) parts

/-- Makes what was written durable. -/
def sync : Act Disk Unit := call .sync (fun _ file => file) (fun file => (.ok (), file))

/-- The length of the file. -/
def len : Act Disk Nat := call .len (fun _ file => file) (fun file => (.ok file.len, file))

/-- Sets the length of the file. -/
def truncate (n : Nat) : Act Disk Unit :=
  call .truncate (fun _ file => file) (fun file => (.ok (), file.truncate n))

end Disk

end PageLog
