import PageLog.Record.Basic
import PageLog.Memory

/-!
# Applying records to pages

A change is applied to the bytes of its page.  A page that becomes a node is built aside and put
in place only when it is complete; every other change needs a page that carries a known format,
the very format the change was made for, and the number of the page the change is about.

## Main definitions

* `PageDelta.nodeFormat` — whether a page is the one a change is about.
* `PageDelta.apply`, `Record.apply` — the effect of a change, and of a record.
-/

namespace PageLog

namespace PageDelta

/-- Checks that a page is formatted, and is the page in the format that the change is about. -/
def nodeFormat (d : PageDelta) (formats : Formats) (page : Bytes) : Result NodeFormat := do
  let h ← PageHeader.parse page
  let format ← formats.ofPage page
  if h.ioType ≠ d.target.ioType ∨ h.ioVersion ≠ d.target.ioVersion then
    throw (.corruptPageFormat h.ioType h.ioVersion .recordDisagrees)
  if h.pageId ≠ d.target.page then
    throw (.structuralInvariant d.target.group d.target.page (.headerNames h.pageId))
  return format

/-- Makes a page a node behind `prev`, holding `data` unless that is the null page. -/
def initNode (target : PageTarget) (format : NodeFormat) (prev data : PageId) (pageSize : Nat) :
    Act Bytes Unit := do
  format.initNewPage target.page pageSize
  Node.setPrev prev
  if data ≠ PageId.null then
    let count ← Act.look Node.count
    if count ≠ 0 then
      throw (.structuralInvariant target.group target.page (.nodeInUse count))
    discard (format.add data pageSize)

/-- Takes a step on a copy of the first `size` bytes, and puts the copy in their place if the step
succeeds. -/
def onCopy (size : Nat) (act : Act Bytes Unit) : Act Bytes Unit := fun page =>
  match act (page.take size) with
  | .ok () fresh => .ok () (fresh ++ page.drop size)
  | .error e _ => .error e page

/-- The effect of a change on a page of a group whose pages have `pageSize` bytes. -/
def apply (d : PageDelta) (formats : Formats) (pageSize : Nat) : Act Bytes Unit := do
  match d.change with
  | .init prev data =>
      let format ← Act.ofResult (formats.lookup d.target.ioType d.target.ioVersion)
      onCopy pageSize (initNode d.target format prev data pageSize)
  | .setNext next =>
      let _ ← Act.look (d.nodeFormat formats)
      Node.setNext next
  | .setPrev prev =>
      let _ ← Act.look (d.nodeFormat formats)
      Node.setPrev prev
  | .add slot data =>
      let _ ← Act.look (d.nodeFormat formats)
      Node.setPageAt slot.toNat data pageSize
  | .remove slot data =>
      let _ ← Act.look (d.nodeFormat formats)
      discard (Node.removeAt slot.toNat data)

end PageDelta

/-- The effect of a record on a page, given the formats and page sizes of a memory. -/
def Record.apply (r : Record) (m : Memory) : Act Bytes Unit := do
  match r with
  | .delta d =>
      let pageSize ← Act.ofResult (m.pageSize d.target.group)
      if (← get).length < pageSize then throw (.invalid .bufferBelowGroupSize)
      d.apply m.formats pageSize
  | _ => throw (.unsupported .wholeRecordDelta)

end PageLog
