import PageLog.Log.Basic
import PageLog.Record.Apply
import PageLog.Record.Codec
import PageLog.Switches

/-!
# Changing pages through the log

A change of pages is first tried out on copies, then logged, then carried out.  A batch of changes
that cannot be carried out is thus refused before anything of it is logged.  The changes of groups
that are not logged take part in the batch, but leave no record.

## Main definitions

* `Journal` — a log, the pages it protects, and the switches.
* `stage` — trying changes out.
* `Journal.logRecord` — logging a record that stands for itself.
* `Journal.applyBatch`, `Journal.apply` — logging and carrying out changes.
-/

namespace PageLog

/-- A log, the pages it protects, and the switches that say which groups are logged. -/
structure Journal where
  /-- The log. -/
  log : Log
  /-- The pages. -/
  memory : Memory
  /-- The switches. -/
  switches : Switches

/-- A refusal of the file while a change was handled names the change. -/
def Error.during (d : PageDelta) : Error → Error
  | .io fault => .ioFailure d.target.group d.target.page d.change.recordType.name fault
  | e => e

/-- Carries out a change on the pages in memory. -/
def Memory.applyDelta (d : PageDelta) : Act Memory Unit := fun m =>
  Memory.change d.target.group d.target.page ((Record.delta d).apply m) m

/-! ### Trying out -/

/-- Copies of pages, the newest copy of each first. -/
abbrev Scratch := List ((GroupId × PageId) × Bytes)

/-- The copy of the page of a change as earlier changes left it, or else the page itself. -/
def Scratch.page (scratch : Scratch) (d : PageDelta) : Act Memory Bytes :=
  match scratch.lookup (d.target.group, d.target.page) with
  | some bytes => pure bytes
  | none => Memory.page d.target.group d.target.page

/-- Carries out a change on copies only. -/
def Scratch.apply (scratch : Scratch) (d : PageDelta) : Act Memory Scratch := do
  let page ← Act.mapError (·.during d) (scratch.page d)
  let m ← get
  match (Record.delta d).apply m page with
  | .ok () page => return ((d.target.group, d.target.page), page) :: scratch
  | .error e _ => throw e

/-- Tries out changes one after the other on copies. -/
def stage : Scratch → List PageDelta → Act Memory Unit
  | _, [] => pure ()
  | scratch, d :: rest => do
      let scratch ← scratch.apply d
      stage scratch rest

namespace Journal

/-- A step on the log. -/
def onLog {α : Type} (act : Act Log α) : Act Journal α :=
  Act.on Journal.log (fun j log => { j with log }) act

/-- A step on the pages. -/
def onMemory {α : Type} (act : Act Memory α) : Act Journal α :=
  Act.on Journal.memory (fun j memory => { j with memory }) act

/-- Whether a change leaves a record. -/
def isLogged (j : Journal) (d : PageDelta) : Bool := j.switches.isEnabled d.target.group

/-- Logs a record that stands for itself. -/
def logRecord (r : Record) : Act Journal LogPointer := do
  match r with
  | .delta _ => throw (.invalid .deltaLoggedAlone)
  | _ => onLog (Log.append r.encode)

/-- Logs those of the changes that leave a record.  A refusal of the file names the first change. -/
def logDeltas (ds : List PageDelta) : Act Journal (List LogPointer) := do
  let j ← get
  let payloads := (ds.filter j.isLogged).map fun d => (Record.delta d).encode
  Act.mapError (fun e => match ds with | d :: _ => e.during d | [] => e)
    (onLog (Log.appendBatch payloads))

/-- Hands the pointers out to the changes that left a record, in order. -/
def assign (logged : PageDelta → Bool) : List PageDelta → List LogPointer →
    List (Option LogPointer)
  | [], _ => []
  | d :: ds, pointers =>
      if logged d then pointers.head? :: assign logged ds pointers.tail
      else none :: assign logged ds pointers

/-- Carries out changes one after the other. -/
def applyAll : List PageDelta → Act Memory Unit
  | [] => pure ()
  | d :: ds => do
      Act.mapError (·.during d) (Memory.applyDelta d)
      applyAll ds

/-- Tries out changes, logs them and carries them out.  Each change that left a record comes with
the pointer to it. -/
def applyDeltas (ds : List PageDelta) : Act Journal (List (Option LogPointer)) := do
  onMemory (stage [] ds)
  -- From here on no change can fail: each was carried out on a copy of its page.
  let pointers ← logDeltas ds
  onMemory (applyAll ds)
  return assign (← get).isLogged ds pointers

/-- Tries out, logs and carries out records, all of which must describe changes. -/
def applyBatch (records : List Record) : Act Journal (List (Option LogPointer)) := do
  if records.any (·.delta?.isNone) then throw (.invalid .wholeRecordInBatch)
  applyDeltas (records.filterMap Record.delta?)

/-- Tries out, logs and carries out a record that must describe a change. -/
def apply (r : Record) : Act Journal (Option LogPointer) := do
  let pointers ← applyBatch [r]
  return pointers.getLast?.join

end Journal

end PageLog
