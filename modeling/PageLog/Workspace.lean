import PageLog.FreeList.Basic
import PageLog.Recovery

/-!
# Several logs, memories and lists side by side

A workspace holds one file and everything that was opened over it.  Logs and memories are kept
side by side: opening a log or bringing in a memory makes it the current one, and those before it
stay for the free lists that were made over them.  Free lists and scans have names.

## Main definitions

* `BoundList` — a free list with the log and the memory it was made over.
* `Workspace` — a file and what was opened over it.
* `Workspace.onLog`, `Workspace.onMemory`, `Workspace.onJournal`, `Workspace.onList` — steps on its
  parts.
-/

namespace PageLog

/-- A free list, with the log and the memory it was made over. -/
structure BoundList where
  /-- The log. -/
  log : Nat
  /-- The memory. -/
  memory : Nat
  /-- The list. -/
  list : FreeList
  deriving Inhabited

/-- A file and what was opened over it. -/
structure Workspace where
  /-- The file. -/
  disk : Disk
  /-- All logs. -/
  logs : Array Writer
  /-- All memories. -/
  memories : Array Memory
  /-- The switches. -/
  switches : Switches
  /-- The free lists, by name. -/
  lists : List (String × BoundList)
  /-- The scans, by name. -/
  scans : List (String × Scan)

namespace Workspace

/-- A workspace over a file, with a memory without groups. -/
def ofFile (file : File) : Workspace :=
  ⟨.ofFile file, #[], #[.empty .standard], .empty, [], []⟩

/-- The number of the current log. -/
def log (w : Workspace) : Nat := w.logs.size - 1

/-- The number of the current memory. -/
def memory (w : Workspace) : Nat := w.memories.size - 1

/-- Whether a log was opened. -/
def hasLog (w : Workspace) : Bool := !w.logs.isEmpty

/-- The current log, without its file. -/
def currentLog (w : Workspace) : Writer := w.logs.getD w.log default

/-- The current memory. -/
def currentMemory (w : Workspace) : Memory := w.memories.getD w.memory default

/-- The workspace with another state of the current memory. -/
def putMemory (w : Workspace) (m : Memory) : Workspace :=
  { w with memories := w.memories.setIfInBounds w.memory m }

/-- The workspace with a further memory, which is the current one. -/
def addMemory (w : Workspace) (m : Memory) : Workspace :=
  { w with memories := w.memories.push m }

/-- A step on the file. -/
def onDisk {α : Type} (act : Act Disk α) : Act Workspace α :=
  Act.on Workspace.disk (fun w disk => { w with disk }) act

/-- A step on the current memory. -/
def onMemory {α : Type} (act : Act Memory α) : Act Workspace α :=
  Act.on currentMemory putMemory act

/-- A step on the journal over a log and a memory. -/
def onJournal {α : Type} (log memory : Nat) (act : Act Journal α) : Act Workspace α :=
  Act.on
    (fun w => ⟨⟨w.disk, w.logs.getD log default⟩, w.memories.getD memory default, w.switches⟩)
    (fun w j => { w with
      disk := j.log.disk
      logs := w.logs.setIfInBounds log j.log.writer
      memories := w.memories.setIfInBounds memory j.memory
      switches := j.switches })
    act

/-- A step on the current journal. -/
def onCurrent {α : Type} (act : Act Journal α) : Act Workspace α := fun w =>
  onJournal w.log w.memory act w

/-- A step on the current log. -/
def onLog {α : Type} (act : Act Log α) : Act Workspace α := onCurrent (Journal.onLog act)

/-- Opens the log in the file and tells whether it is empty.  It becomes the current one once both
are done. -/
def openLog (options : LogOptions) : Act Workspace (Writer × Bool) := do
  let writer ← onDisk (Writer.ofDisk options)
  let empty ← onDisk Writer.fileIsEmpty
  modify fun w => { w with logs := w.logs.push writer }
  return (writer, empty)

/-- A scan of the current log. -/
def scan : Act Workspace Scan := fun w => onDisk (Scan.ofHeader w.currentLog.header) w

/-- All frames of a scan. -/
def harvest (scan : Scan) : Act Workspace Scan.Harvest := fun w =>
  let (h, disk) := scan.harvest w.disk
  .ok h { w with disk }

/-- Gives a scan a name. -/
def nameScan (name : String) (scan : Scan) : Act Workspace Unit :=
  modify fun w => { w with scans := (name, scan) :: w.scans }

/-- The next frame of a named scan. -/
def nextFrame (name : String) (scan : Scan) : Act Workspace (Option Frame) := do
  let (frame, scan) ← onDisk scan.next
  nameScan name scan
  return frame

/-- Replays the current log, onto a memory of its own if one is given or else onto the current
one, which then has the outcome.  Gives back the report and the memory. -/
def replay (policy : ReplayPolicy) (target : Option Memory) (w : Workspace) :
    Result ReplayReport × Memory × Workspace :=
  match Log.replay policy (⟨w.disk, w.currentLog⟩, target.getD w.currentMemory) with
  | .ok r (log, m) =>
      (.ok r, m, { if target.isSome then w else w.putMemory m with disk := log.disk })
  | .error e (log, m) =>
      (.error e, m, { if target.isSome then w else w.putMemory m with disk := log.disk })

/-- Gives a name to a free list made over the current log and memory. -/
def nameList (name : String) (make : Act Journal FreeList) : Act Workspace FreeList := do
  let list ← onCurrent make
  modify fun w => { w with lists := (name, ⟨w.log, w.memory, list⟩) :: w.lists }
  return list

/-- A step on the journal of a named free list, which may change what is known of the list. -/
def onList {α : Type} (name : String) (act : FreeList → Act Journal (α × FreeList)) :
    Act Workspace α := do
  match (← get).lists.lookup name with
  | none => throw .notFound
  | some l =>
      let (a, list) ← onJournal l.log l.memory (act l.list)
      modify fun w => { w with lists := (name, { l with list }) :: w.lists }
      return a

/-- Gives a page back to a named free list. -/
def put (name : String) (page : PageId) : Act Workspace Unit :=
  onList name fun l => ((), ·) <$> l.put page

/-- Takes a page from a named free list. -/
def take (name : String) : Act Workspace (Option PageId) := onList name FreeList.take

/-- Looks at the chain of a named free list. -/
def lookAt {α : Type} (name : String) (look : GroupId → PageId → Act Memory α) :
    Act Workspace α :=
  onList name fun l => (·, l) <$> Journal.onMemory (look l.group l.head)

end Workspace

end PageLog
