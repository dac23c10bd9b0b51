import PageLog.Page.Header

/-!
# The pages of a free list

A node page holds page numbers in slots.  Behind the common header stand the numbers of the nodes
before and after it, the count of slots in use, and the slots themselves; slots past the count are
zero on a page that was written by these operations.  Slots are filled and emptied at the end;
only `Node.remove` closes a gap.

## Main definitions

* `Node.prev`, `Node.next`, `Node.count`, `Node.pageAt`, `Node.slots` — what a node page holds.
* `Node.setPrev`, `Node.setNext`, `Node.setPageAt`, `Node.add`, `Node.remove`, `Node.removeAt` —
  changes to it.
* `Node.format` — a blank node.
-/

namespace PageLog.Node

/-- Where the number of the node before stands. -/
def prevOffset : Nat := 16

/-- Where the number of the node behind stands. -/
def nextOffset : Nat := 24

/-- Where the count of slots stands. -/
def countOffset : Nat := 32

/-- Where the slots begin. -/
def slotsOffset : Nat := 40

/-- The length of a slot. -/
def slotSize : Nat := 8

/-- Where a slot stands. -/
def slotOffset (idx : Nat) : Nat := slotsOffset + idx * slotSize

/-- How many slots fit on a page. -/
def capacity (pageSize : Nat) : Nat := (pageSize - slotsOffset) / slotSize

/-! ### Reading -/

/-- The node before. -/
def prev (page : Bytes) : Result PageId := Field.readU64 page prevOffset

/-- The node behind. -/
def next (page : Bytes) : Result PageId := Field.readU64 page nextOffset

/-- Whether the page is too short for `n` slots.  What lies behind them is not looked at, so that
counting the slots of a long page is cheap. -/
def lacksRoom (page : Bytes) (n : Nat) : Bool :=
  ((page.drop slotsOffset).take (n * slotSize)).length < n * slotSize

/-- A page is too short for more slots than fit on it. -/
theorem lacksRoom_iff (page : Bytes) (n : Nat) :
    lacksRoom page n = true ↔ capacity page.length < n := by
  rw [lacksRoom, decide_eq_true_iff, List.length_take, List.length_drop, capacity,
    Nat.div_lt_iff_lt_mul (by decide)]
  omega

/-- How many slots are in use. -/
def count (page : Bytes) : Result Nat := do
  let n ← Field.readU16 page countOffset
  if lacksRoom page n.toNat then throw (.corruption .countPastCapacity)
  return n.toNat

/-- The page number in a slot. -/
def pageAt (page : Bytes) (idx : Nat) : Result PageId := do
  if (← count page) ≤ idx then throw (.invalid .slotPastCount)
  Field.readU64 page (slotOffset idx)

/-- The first `n` eight-byte numbers of `bs`. -/
def words : Nat → Bytes → List UInt64
  | 0, _ => []
  | n + 1, bs => Bytes.toU64 (bs.take slotSize) :: words n (bs.drop slotSize)

/-- The page numbers in all slots that are in use. -/
def slots (page : Bytes) : Result (List PageId) := do
  let n ← count page
  return words n (page.drop slotsOffset)

/-! ### Changing -/

/-- Sets the node before. -/
def setPrev (prev : PageId) : Act Bytes Unit := Field.writeU64 prevOffset prev

/-- Sets the node behind. -/
def setNext (next : PageId) : Act Bytes Unit := Field.writeU64 nextOffset next

/-- Sets the count of slots in use, which has 16 bits. -/
def setCount (n : Nat) : Act Bytes Unit := Field.writeU16 countOffset (UInt16.ofNat n)

/-- Puts a page number into a slot in use or into the first one behind them. -/
def setPageAt (idx : Nat) (data : PageId) (pageSize : Nat) : Act Bytes Unit := do
  if capacity pageSize ≤ idx then throw (.invalid .slotPastCapacity)
  let n ← Act.look count
  if n < idx then throw (.invalid .slotGap)
  Field.writeU64 (slotOffset idx) data
  if idx = n then setCount (n + 1)

/-- Puts a page number into the first slot behind those in use, if it is one of the first `limit`
slots, and tells which slot it is. -/
def addWithin (limit : Nat) (data : PageId) (pageSize : Nat) : Act Bytes Nat := do
  let n ← Act.look count
  if limit ≤ n then throw (.invalid .nodeFull)
  setPageAt n data pageSize
  return n

/-- Puts a page number into the first slot behind those in use. -/
def add (data : PageId) (pageSize : Nat) : Act Bytes Nat :=
  addWithin (capacity pageSize) data pageSize

/-- Removes a page number from the first slot that holds it; the slots behind move up.  Tells
whether there was one. -/
def remove (data : PageId) : Act Bytes Bool := do
  let ids ← Act.look slots
  match ids.findIdx? (· == data) with
  | none => return false
  | some idx =>
      -- The slots behind move up by one, which leaves the last of them blank.
      let behind := ids.length - (idx + 1)
      let moved := ((← get).drop (slotOffset (idx + 1))).take (behind * slotSize)
      Field.write (slotOffset idx) (moved ++ bytesOfU64 0)
      setCount (ids.length - 1)
      return true

/-- Empties a slot if it holds the given page number; it must be the last one in use.  Tells
whether it was emptied. -/
def removeAt (idx : Nat) (data : PageId) : Act Bytes Bool := do
  let n ← Act.look count
  if n ≤ idx then return false
  if (← Act.look (pageAt · idx)) ≠ data then return false
  if idx + 1 ≠ n then throw (.invalid .removalNotLast)
  Field.writeU64 (slotOffset idx) 0
  setCount idx
  return true

/-- Makes the first `pageSize` bytes blank but for the common header. -/
def format (header : PageHeader) (pageSize : Nat) : Act Bytes Unit := do
  if pageSize < minPageSize ∨ (← get).length < pageSize then
    throw (.invalid .bufferBelowPageSize)
  modify fun page => Bytes.overwrite page 0 (Bytes.zeros pageSize)
  header.write

end PageLog.Node
