import Std.Data.TreeMap
import PageLog.Page.Format

/-!
# Pages in memory

Pages are kept by group.  A group has pages of one size, and every page number but the null one
names a page of it: a page that was never touched is blank, and comes into being when it is first
touched.  Numbers for new pages are given out above all numbers given out or touched before, until
the last 64-bit number is used up.

## Main definitions

* `CachedPage`, `GroupPages`, `Memory` — a page, the pages of a group, all pages.
* `Memory.register`, `Memory.allocate` — a group, a number for a new page.
* `Memory.page`, `Memory.change` — reading a page and changing it.
* `Memory.dirtyPages`, `Memory.clearDirty` — the pages that were opened for changing.
-/

namespace PageLog

/-- A page. -/
structure CachedPage where
  /-- Its bytes. -/
  bytes : Bytes
  /-- Whether it was opened for changing. -/
  dirty : Bool
  deriving DecidableEq, Repr, Inhabited

/-- A page that was never touched. -/
def CachedPage.blank (pageSize : Nat) : CachedPage := ⟨Bytes.zeros pageSize, false⟩

/-- The pages of a group. -/
structure GroupPages where
  /-- The size of every page. -/
  pageSize : Nat
  /-- The number that the next new page gets, unless all are used up. -/
  nextId : Option PageId
  /-- The pages that were touched. -/
  pages : Std.TreeMap PageId CachedPage
  deriving Inhabited

namespace GroupPages

/-- A group without touched pages. -/
def empty (pageSize : Nat) : GroupPages := ⟨pageSize, some 1, ∅⟩

/-- The number after `id`, unless that was the last. -/
def successor (id : PageId) : Option PageId := if id + 1 = 0 then none else some (id + 1)

/-- The number for the next new page once `id` is in use. -/
def nextAfter (g : GroupPages) (id : PageId) : Option PageId :=
  match g.nextId with
  | none => none
  | some next => if next ≤ id then successor id else some next

/-- Touches a page: the page, and the group in which it is present. -/
def touch (g : GroupPages) (id : PageId) : CachedPage × GroupPages :=
  match g.pages[id]? with
  | some page => (page, g)
  | none =>
      let page := CachedPage.blank g.pageSize
      (page, { g with nextId := g.nextAfter id, pages := g.pages.insert id page })

/-- The group with another content of a page. -/
def put (g : GroupPages) (id : PageId) (page : CachedPage) : GroupPages :=
  { g with pages := g.pages.insert id page }

/-- The pages that were opened for changing, in ascending order. -/
def dirtyPages (g : GroupPages) : List (PageId × Bytes) :=
  g.pages.toList.filterMap fun (id, page) => if page.dirty then some (id, page.bytes) else none

/-- The group with no page marked as changed. -/
def clearDirty (g : GroupPages) : GroupPages :=
  { g with pages := g.pages.map fun _ page => { page with dirty := false } }

end GroupPages

/-- All pages, and the formats they may have. -/
structure Memory where
  /-- The formats of node pages. -/
  formats : Formats
  /-- The groups. -/
  groups : Std.TreeMap GroupId GroupPages
  deriving Inhabited

namespace Memory

/-- No groups. -/
def empty (formats : Formats) : Memory := ⟨formats, ∅⟩

/-- Makes a group known.  A group that is known already must have the same page size. -/
def register (m : Memory) (group : GroupId) (pageSize : Nat) : Result Memory :=
  if pageSize < minPageSize then .error (.invalid .pageSizeTooSmall)
  else
    match m.groups[group]? with
    | some g =>
        if g.pageSize = pageSize then .ok m else .error (.invalid .groupSizeConflict)
    | none => .ok { m with groups := m.groups.insert group (.empty pageSize) }

/-- Makes several groups known, each with its page size, and tells how each was taken. -/
def registerAll (m : Memory) : List (GroupId × Nat) → List (Result Unit) × Memory
  | [] => ([], m)
  | (group, pageSize) :: rest =>
      match m.register group pageSize with
      | .ok m =>
          let (results, m) := m.registerAll rest
          (.ok () :: results, m)
      | .error e =>
          let (results, m) := m.registerAll rest
          (.error e :: results, m)

/-- The known groups, in ascending order. -/
def groupIds (m : Memory) : List GroupId := m.groups.toList.map (·.1)

/-- A known group. -/
def group (m : Memory) (group : GroupId) : Result GroupPages :=
  match m.groups[group]? with
  | some g => .ok g
  | none => .error .notFound

/-- The size of the pages of a group. -/
def pageSize (m : Memory) (group : GroupId) : Result Nat :=
  match m.groups[group]? with
  | some g => .ok g.pageSize
  | none => .error .notFound

/-- The memory with another state of a group. -/
def putGroup (m : Memory) (group : GroupId) (g : GroupPages) : Memory :=
  { m with groups := m.groups.insert group g }

/-- Gives out the number of a new page. -/
def allocate (group : GroupId) : Act Memory PageId := do
  let g ← Act.look (Memory.group · group)
  match g.nextId with
  | none => throw (.invalid .pageIdsExhausted)
  | some id =>
      modify fun m => m.putGroup group { g with nextId := GroupPages.successor id }
      return id

/-- Touches a page. -/
def touch (group : GroupId) (id : PageId) : Act Memory CachedPage := do
  if id = PageId.null then throw (.invalid .nullPage)
  let g ← Act.look (Memory.group · group)
  let (page, g) := g.touch id
  modify (·.putGroup group g)
  return page

theorem touch_eq (group : GroupId) (id : PageId) (m : Memory) :
    touch group id m =
      if id = PageId.null then .error (.invalid .nullPage) m
      else
        match m.groups[group]? with
        | none => .error .notFound m
        | some g => .ok (g.touch id).1 (m.putGroup group (g.touch id).2) := by
  unfold touch
  split
  · rfl
  · cases hg : m.groups[group]? with
    | none => simp [bind, EStateM.bind, Act.look, Memory.group, hg]
    | some g => simp [bind, EStateM.bind, Act.look, Memory.group, hg]; rfl

/-- The bytes of a page. -/
def page (group : GroupId) (id : PageId) : Act Memory Bytes := (·.bytes) <$> touch group id

/-- The memory with other bytes of a page of a known group; the page counts as changed. -/
def write (m : Memory) (group : GroupId) (id : PageId) (bytes : Bytes) : Memory :=
  match m.groups[group]? with
  | some g => m.putGroup group (g.put id ⟨bytes, true⟩)
  | none => m

/-- Opens a page for changing, and takes a step on its bytes. -/
def change {α : Type} (group : GroupId) (id : PageId) (act : Act Bytes α) : Act Memory α := do
  let page ← touch group id
  match act page.bytes with
  | .ok a bytes =>
      modify (·.write group id bytes)
      return a
  | .error e bytes =>
      modify (·.write group id bytes)
      throw e

/-- Whether a page was touched. -/
def containsPage (m : Memory) (group : GroupId) (id : PageId) : Bool :=
  match m.groups[group]? with
  | some g => g.pages.contains id
  | none => false

/-- The pages of a group that were opened for changing, in ascending order. -/
def dirtyPages (m : Memory) (group : GroupId) : List (PageId × Bytes) :=
  match m.groups[group]? with
  | some g => g.dirtyPages
  | none => []

/-- The memory with no page marked as changed. -/
def clearDirty (m : Memory) : Memory :=
  { m with groups := m.groups.map fun _ g => g.clearDirty }

end Memory

end PageLog
