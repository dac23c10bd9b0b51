import PageLog.FreeList.Chain
import PageLog.Report.Json
import PageLog.Settings.Basic

/-!
# Auditing a log

An audit replays a log file onto fresh pages and then looks at every free list that is found on
them.  Groups that the settings do not mention get pages of the default size as soon as the log
mentions them.  A free list is found by its head: a changed page that is formatted as a node and
names no node before it.  Pages in quarantine are not looked at.

## Main definitions

* `ListCheck` — a free list that was found, and how it was.
* `Audit` and `Audit.ofDisk` — the report of a replay, and the free lists.
* `Audit.isClean` — whether nothing is wrong.
* `Audit.lines`, `Audit.json` — an audit for people and for programs.
-/

namespace PageLog

open Report (Json)

/-- A free list that was found. -/
structure ListCheck where
  /-- The group. -/
  group : GroupId
  /-- Its first node. -/
  head : PageId
  /-- The count of its nodes, or what is wrong with it. -/
  outcome : Result Nat

/-- What came of an audit. -/
structure Audit where
  /-- What the replay did. -/
  report : ReplayReport
  /-- The free lists, by group and head. -/
  lists : List ListCheck

namespace Audit

/-! ### Bringing the pages back -/

/-- Makes the group known whose page a frame changes. -/
def registerLogged (settings : Settings) (f : Frame) : Act Memory Unit := fun m =>
  match (Record.decode f.payload).toOption.bind Record.delta? with
  | none => .ok () m
  | some d =>
      let group := d.target.group
      if m.groups.contains group then .ok () m
      else
        match m.register group (settings.pageSize group) with
        | .ok m => .ok () m
        | .error e => .error e m

/-- Pages with all groups that the settings or the log mention. -/
def freshPages (settings : Settings) : Act Log Memory := do
  let memory ← Act.ofResult settings.memory
  let scan ← Log.scan
  fun log =>
    match scan.forEach (registerLogged settings) (log.disk, memory) with
    | .ok _ (disk, memory) => .ok memory { log with disk }
    | .error e (disk, _) => .error e { log with disk }

/-! ### Looking at free lists -/

/-- Whether a page is the first node of a free list. -/
def isHead (formats : Formats) (page : Bytes) : Bool :=
  match formats.ofPage page, Node.prev page with
  | .ok _, .ok prev => prev == PageId.null
  | _, _ => false

/-- The heads of the free lists of a group, in ascending order. -/
def heads (m : Memory) (group : GroupId) : List PageId :=
  ((m.dirtyPages group).filter fun (_, page) => isHead m.formats page).map (·.1)

/-- Looks at the free list with a given head. -/
def checkList (group : GroupId) (head : PageId) : Act Memory ListCheck := do
  match ← Act.attempt (Chain.verify group head) with
  | .ok () => return ⟨group, head, .ok (← Chain.nodes group head).length⟩
  | .error e => return ⟨group, head, .error e⟩

/-- Looks at the free lists of a group whose heads are not in quarantine. -/
def checkGroup (report : ReplayReport) (group : GroupId) : Act Memory (List ListCheck) := do
  let isQuarantined (head : PageId) : Bool :=
    report.quarantined.any fun q => q.group == group && q.page == head
  ((heads (← get) group).filter (!isQuarantined ·)).mapM (checkList group)

/-- Looks at all free lists. -/
def checkAll (report : ReplayReport) : Act Memory (List ListCheck) := do
  let lists ← (← get).groupIds.mapM (checkGroup report)
  return lists.flatten

/-! ### The audit -/

/-- Opens the log in a file, whoever's it is. -/
def openLog (settings : Settings) : Act Disk Writer := do
  let scan ← Scan.existing
  Writer.ofDisk { settings.logOptions 0 with salt := scan.header.salt }

/-- Audits a log. -/
def ofLog (settings : Settings) (policy : ReplayPolicy) : Act Log Audit := do
  let memory ← freshPages settings
  fun log =>
    match Log.replay policy (log, memory) with
    | .error e (log, _) => .error e log
    | .ok report (log, memory) =>
        match checkAll report memory with
        | .ok lists _ => .ok ⟨report, lists⟩ log
        | .error e _ => .error e log

/-- Audits the log in a file. -/
def ofDisk (settings : Settings) (policy : ReplayPolicy) : Act Disk Audit := do
  let writer ← openLog settings
  fun disk =>
    match ofLog settings policy ⟨disk, writer⟩ with
    | .ok audit log => .ok audit log.disk
    | .error e log => .error e log.disk

/-- Whether all changes were carried out and all free lists are whole. -/
def isClean (a : Audit) : Bool := a.report.isClean && a.lists.all (·.outcome.isOk)

/-! ### For people -/

/-- What a replay did, for people to read. -/
def reportLines (r : ReplayReport) : List String :=
  [s!"  applied={r.applied} skipped={r.skipped} whole_records={r.whole} " ++
      s!"valid_up_to={r.validUpTo}"] ++
    (r.lastLsn.map fun lsn => s!"  last_lsn={Lsn.text lsn}").toList ++
    (r.lastSnapshot.map fun (id, full) => s!"  last_snapshot id={id.toNat} full={full}").toList ++
    (r.lastCheckpoint.map fun id => s!"  last_checkpoint={id.toNat}").toList ++
    r.quarantined.map fun q =>
      s!"  quarantined grp={GroupId.text q.group} page={PageId.text q.page} " ++
        s!"lsn={Lsn.text q.lsn}: {q.reason.message}"

/-- A free list for people to read. -/
def listLine (c : ListCheck) : String :=
  s!"  grp={GroupId.text c.group} head={PageId.text c.head} " ++
    match c.outcome with
    | .ok nodes => s!"nodes={nodes} ok"
    | .error e => s!"BROKEN: {e.message}"

/-- The lines of an audit for people to read. -/
def lines (a : Audit) : List String :=
  ["Replay:"] ++ reportLines a.report ++ ["Free lists:"] ++
    if a.lists.isEmpty then ["  (none)"] else a.lists.map listLine

/-! ### For programs -/

/-- A page in quarantine. -/
def quarantinedJson (q : QuarantinedPage) : Json :=
  .record [("group", .number q.group.toInt), ("page", .word q.page), ("lsn", .word q.lsn),
    ("reason", .text q.reason.message)]

/-- What a replay did. -/
def reportJson (r : ReplayReport) : Json :=
  .record [("applied", .number r.applied), ("skipped", .number r.skipped),
    ("whole_records", .number r.whole), ("last_lsn", .optional .word r.lastLsn),
    ("last_snapshot", .optional
      (fun (id, full) => .record [("snapshot_id", .word id), ("full", .boolean full)])
      r.lastSnapshot),
    ("last_checkpoint", .optional .word r.lastCheckpoint),
    ("quarantined", .list (r.quarantined.map quarantinedJson)),
    ("valid_up_to", .number r.validUpTo)]

/-- A free list. -/
def listJson (c : ListCheck) : Json :=
  let (nodes, fault) : Nat × List (String × Json) :=
    match c.outcome with
    | .ok nodes => (nodes, [])
    | .error e => (0, [("error", .text e.message)])
  .record ([("group", .number c.group.toInt), ("head", .word c.head),
    ("nodes", .number nodes)] ++ fault)

/-- An audit. -/
def json (a : Audit) : Json :=
  .record [("report", reportJson a.report), ("free_lists", .list (a.lists.map listJson))]

end Audit

end PageLog
