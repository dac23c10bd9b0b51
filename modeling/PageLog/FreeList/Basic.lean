import PageLog.FreeList.Chain
import PageLog.Journal

/-!
# Free lists

A free list keeps the numbers of pages that are free to use, in the slots of a chain of node
pages.  Numbers are put into the last node and taken from there.  A full last node gets another
node behind it; an empty last node that is not also the first is itself taken for use.  All
changes go through the journal, so that replaying the log brings the chain back.

## Main definitions

* `FreeList` — what is known of a list besides its pages.
* `FreeList.create`, `FreeList.ofHead` — a new list, and one that is on pages already.
* `FreeList.put`, `FreeList.take` — giving back a page, and taking one.
-/

namespace PageLog

/-- A free list, as far as it is kept beside the pages. -/
structure FreeList where
  /-- The group whose pages the list is about. -/
  group : GroupId
  /-- The first node. -/
  head : PageId
  /-- The last node. -/
  tail : PageId
  /-- All nodes. -/
  nodes : List PageId
  /-- All free pages. -/
  free : List PageId
  deriving DecidableEq, Repr, Inhabited

/-- A page, written in a certain format, as the target of changes. -/
def NodeFormat.target (f : NodeFormat) (group : GroupId) (page : PageId) : PageTarget :=
  ⟨group, page, f.ioType, f.version⟩

/-- The first element of a list that is in `seen` or came before in the list. -/
def firstRepeated? : (seen : List PageId) → List PageId → Option PageId
  | _, [] => none
  | seen, id :: rest => if id ∈ seen then some id else firstRepeated? (id :: seen) rest

namespace FreeList

/-! ### Beginnings -/

/-- A new list of a single node without slots in use. -/
def create (group : GroupId) : Act Journal FreeList := do
  let head ← Journal.onMemory (Memory.allocate group)
  let format ← Act.ofResult (← get).memory.formats.latest
  discard (Journal.apply (.delta
    ⟨format.target group head, .init PageId.null PageId.null⟩))
  return ⟨group, head, head, [head], []⟩

/-- What is kept beside the pages of the list that begins at `head`. -/
def ofChain (group : GroupId) (head : PageId) : Act Memory FreeList := do
  if head = PageId.null then throw (.invalid .nullHead)
  Chain.verify group head
  let nodes ← Chain.nodes group head
  let free ← Chain.pages group head
  match firstRepeated? [] free with
  | some page => throw (.structuralInvariant group page .referencedTwice)
  | none => return ⟨group, head, nodes.getLast?.getD head, nodes, free⟩

/-- The list that begins at `head`. -/
def ofHead (group : GroupId) (head : PageId) : Act Journal FreeList :=
  Journal.onMemory (ofChain group head)

/-! ### Giving back -/

/-- Puts a page number into a slot of the last node. -/
def fillSlot (l : FreeList) (tail : PageTarget) (slot : Nat) (data : PageId) :
    Act Journal FreeList := do
  discard (Journal.apply (.delta ⟨tail, .add (UInt16.ofNat slot) data⟩))
  return { l with free := l.free.insert data }

/-- Puts a page number into the first slot of a new node behind the last. -/
def linkNode (l : FreeList) (tail : PageTarget) (data : PageId) : Act Journal FreeList := do
  let node ← Journal.onMemory (Memory.allocate l.group)
  let format ← Act.ofResult (← get).memory.formats.latest
  discard (Journal.applyBatch [
    .delta ⟨format.target l.group node, .init l.tail data⟩,
    .delta ⟨tail, .setNext node⟩])
  return { l with tail := node, nodes := l.nodes.insert node, free := l.free.insert data }

/-- Gives a page back. -/
def put (l : FreeList) (data : PageId) : Act Journal FreeList := do
  if data = PageId.null then throw (.invalid .freeNull)
  let pageSize ← Act.ofResult ((← get).memory.pageSize l.group)
  if data ∈ l.free then throw (.invalidValue (.alreadyFree data))
  if data ∈ l.nodes then throw (.invalidValue (.isNode data))
  let (format, count) ← Journal.onMemory (Chain.readNode l.group l.tail fun format page => do
    return (format, ← Node.count page))
  let tail := format.target l.group l.tail
  if count < format.capacity pageSize then fillSlot l tail count data
  else linkNode l tail data

/-! ### Taking -/

/-- The last node as `take` finds it. -/
structure TailView where
  /-- Its format. -/
  format : NodeFormat
  /-- The last slot in use and the page number in it, if any slot is in use. -/
  last : Option (Nat × PageId)
  /-- The node before. -/
  prev : PageId

/-- Looks at the last node. -/
def viewTail (format : NodeFormat) (page : Bytes) : Result TailView := do
  let last ←
    match ← Node.count page with
    | 0 => pure none
    | n + 1 => do pure (some (n, ← Node.pageAt page n))
  return ⟨format, last, ← Node.prev page⟩

/-- Takes the page in the last slot. -/
def emptySlot (l : FreeList) (tail : PageTarget) (slot : Nat) (data : PageId) :
    Act Journal (Option PageId × FreeList) := do
  discard (Journal.apply (.delta ⟨tail, .remove (UInt16.ofNat slot) data⟩))
  return (some data, { l with free := l.free.erase data })

/-- Takes the last node itself, which holds nothing. -/
def unlinkNode (l : FreeList) (prev : PageId) : Act Journal (Option PageId × FreeList) := do
  let format ← Journal.onMemory (Chain.readNode l.group prev fun format _ => pure format)
  discard (Journal.apply (.delta ⟨format.target l.group prev, .setNext PageId.null⟩))
  return (some l.tail, { l with tail := prev, nodes := l.nodes.erase l.tail })

/-- Takes a page, if there is one. -/
def take (l : FreeList) : Act Journal (Option PageId × FreeList) := do
  let view ← Journal.onMemory (Chain.readNode l.group l.tail viewTail)
  match view.last with
  | some (slot, data) => emptySlot l (view.format.target l.group l.tail) slot data
  | none => if l.tail = l.head then return (none, l) else unlinkNode l view.prev

end FreeList

end PageLog
