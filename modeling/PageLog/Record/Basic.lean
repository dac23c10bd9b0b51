import PageLog.Id

/-!
# What the log records

A record either stands for itself (a snapshot was begun, a checkpoint was reached) or describes a
change of one page.  A change names its page together with the format the page had when the change
was made, so that it is never applied to a page of another format.

## Main definitions

* `PageTarget`, `PageChange`, `PageDelta` — a change of one page.
* `Record` — a record.
* `RecordType` — the kinds of record, with their codes and names.
* `Record.text` — a record as it is written in reports.
-/

namespace PageLog

/-- A page, and the format it has. -/
structure PageTarget where
  /-- The group of the page. -/
  group : GroupId
  /-- The page. -/
  page : PageId
  /-- The type of the page. -/
  ioType : UInt16
  /-- The version of its format. -/
  ioVersion : UInt16
  deriving DecidableEq, Repr, Inhabited

/-- A change of a node page. -/
inductive PageChange where
  /-- The page becomes a node behind `prev`, holding `data` unless that is the null page. -/
  | init (prev data : PageId)
  /-- The node behind becomes `next`. -/
  | setNext (next : PageId)
  /-- The node before becomes `prev`. -/
  | setPrev (prev : PageId)
  /-- A slot gets the page number `data`. -/
  | add (slot : UInt16) (data : PageId)
  /-- The last slot, which holds `data`, is emptied. -/
  | remove (slot : UInt16) (data : PageId)
  deriving DecidableEq, Repr, Inhabited

/-- A change of a certain page. -/
structure PageDelta where
  /-- The page. -/
  target : PageTarget
  /-- The change. -/
  change : PageChange
  deriving DecidableEq, Repr, Inhabited

/-- A record of the log. -/
inductive Record where
  /-- A snapshot was begun, either of everything or of what changed. -/
  | snapshot (id : UInt64) (full : Bool)
  /-- A checkpoint was reached. -/
  | checkpoint (id : UInt64)
  /-- A page was changed. -/
  | delta (d : PageDelta)
  deriving DecidableEq, Repr, Inhabited

/-- The kinds of record. -/
inductive RecordType where
  /-- A snapshot was begun. -/
  | snapshot
  /-- A checkpoint was reached. -/
  | checkpoint
  /-- A page became a node. -/
  | initNewPage
  /-- A node got another node behind it. -/
  | setNext
  /-- A node got another node before it. -/
  | setPrevious
  /-- A slot was filled. -/
  | addPage
  /-- A slot was emptied. -/
  | removePage
  deriving DecidableEq, Repr, Inhabited

namespace RecordType

/-- The code that a record begins with. -/
def code : RecordType → Nat
  | .snapshot => 1
  | .checkpoint => 2
  | .initNewPage => 20
  | .setNext => 21
  | .setPrevious => 22
  | .addPage => 23
  | .removePage => 24

/-- The kind of record with a given code. -/
def ofCode? : Nat → Option RecordType
  | 1 => some .snapshot
  | 2 => some .checkpoint
  | 20 => some .initNewPage
  | 21 => some .setNext
  | 22 => some .setPrevious
  | 23 => some .addPage
  | 24 => some .removePage
  | _ => none

@[simp] theorem ofCode?_code (t : RecordType) : ofCode? t.code = some t := by
  cases t <;> rfl

/-- Whether such records change a page. -/
def isPageDelta : RecordType → Bool
  | .snapshot | .checkpoint => false
  | _ => true

/-- The name of the kind. -/
def name : RecordType → String
  | .snapshot => "Snapshot"
  | .checkpoint => "Checkpoint"
  | .initNewPage => "PagesListInitNewPage"
  | .setNext => "PagesListSetNext"
  | .setPrevious => "PagesListSetPrevious"
  | .addPage => "PagesListAddPage"
  | .removePage => "PagesListRemovePage"

end RecordType

/-- The kind of record that describes a change. -/
def PageChange.recordType : PageChange → RecordType
  | .init .. => .initNewPage
  | .setNext .. => .setNext
  | .setPrev .. => .setPrevious
  | .add .. => .addPage
  | .remove .. => .removePage

/-- What a change sets, as it is written in reports. -/
def PageChange.text : PageChange → String
  | .init prev data => s!"prevPageId={PageId.text prev}, addDataPageId={PageId.text data}"
  | .setNext next => s!"nextPageId={PageId.text next}"
  | .setPrev prev => s!"prevPageId={PageId.text prev}"
  | .add slot data => s!"slot={slot.toNat}, dataPageId={PageId.text data}"
  | .remove slot data => s!"slot={slot.toNat}, dataPageId={PageId.text data}"

/-- A page and its format, as they are written in reports. -/
def PageTarget.text (t : PageTarget) : String :=
  s!"grp={GroupId.text t.group}, page={PageId.text t.page}, " ++
    s!"ioType={t.ioType.toNat}, ioVer={t.ioVersion.toNat}"

namespace Record

/-- The kind of a record. -/
def recordType : Record → RecordType
  | .snapshot .. => .snapshot
  | .checkpoint _ => .checkpoint
  | .delta d => d.change.recordType

/-- The change that a record describes, if it describes one. -/
def delta? : Record → Option PageDelta
  | .delta d => some d
  | _ => none

/-- What a record says, as it is written in reports. -/
def detail : Record → String
  | .snapshot id full => s!"snapshotId={id.toNat}, full={full}"
  | .checkpoint id => s!"checkpointId={id.toNat}"
  | .delta d => s!"{d.target.text}, {d.change.text}"

/-- A record as it is written in reports. -/
def text (r : Record) : String := s!"{r.recordType.name} [{r.detail}]"

end Record

end PageLog
