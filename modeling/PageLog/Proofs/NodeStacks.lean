import PageLog.Proofs.Depots
import PageLog.Proofs.LogIndependence

/-!
# Free lists are stacks of nodes

A free list is compared here with a machine that knows no bytes: a row of nodes, each a stack of
page numbers of bounded height.  A page is pushed on the last node or, only if that is full, on a
new one; it is popped from the last node or, if that is empty, the node itself is.  Lists over one
journal go the way of as many such machines, none of which sees the others, and the machine asks
the memory for nothing but the number of the next new page.

## Main definitions

* `NodeStack`, `NodeStack.push`, `NodeStack.pop` — the machine.
* `Depot.shelve`, `Depot.shelveAll` — what operations on the lists of a depot do to the machines.
* `FreeList.Shows`, `Depot.Displays` — what walks along the chains find is what the machines hold.
* `Depot.Answers` — an operation answers as the machines do, and leaves no trace if it is refused.

## Main results

* `FreeList.Stacked.put`, `FreeList.Stacked.take` — an operation on one list.
* `Depot.Shelved.after` — an operation on the lists of a depot.
* `lists_are_node_stacks` — **free lists are stacks of nodes**.
-/

namespace PageLog

/-! ### The machine -/

/-- A stack of nodes, which are stacks of page numbers. -/
structure NodeStack where
  /-- The group whose pages it is about. -/
  group : GroupId
  /-- How many page numbers a node holds at most. -/
  cap : Nat
  /-- The nodes from the first to the last, each with its page numbers. -/
  nodes : Links
  deriving DecidableEq, Repr

namespace NodeStack

/-- Pushes a page number, where `next` is the number of the next new page, if there is one.  The
null page, a page held already and a node are refused, and so is a page for which no node has
room. -/
def push (s : NodeStack) (next : Option PageId) (page : PageId) : Option NodeStack :=
  if page = PageId.null ∨ page ∈ s.nodes.held ∨ page ∈ s.nodes.ids then none
  else
    match s.nodes.getLast? with
    | none => none
    | some (tail, pages) =>
        if pages.length < s.cap then
          some { s with nodes := s.nodes.dropLast ++ [(tail, pages ++ [page])] }
        else next.map fun node => { s with nodes := s.nodes ++ [(node, [page])] }

/-- Pops the last page number, or the last node if that holds none and is not the first. -/
def pop (s : NodeStack) : Option PageId × NodeStack :=
  match s.nodes.getLast? with
  | none => (none, s)
  | some (tail, pages) =>
      match pages.getLast? with
      | some page => (some page, { s with nodes := s.nodes.dropLast ++ [(tail, pages.dropLast)] })
      | none =>
          if s.nodes.dropLast = [] then (none, s)
          else (some tail, { s with nodes := s.nodes.dropLast })

/-- All nodes but the last are full, and none holds too much. -/
structure Packed (s : NodeStack) : Prop where
  full : ∀ node ∈ s.nodes.dropLast, node.2.length = s.cap
  bounded : ∀ node ∈ s.nodes, node.2.length ≤ s.cap

/-- No page is a node of two stacks. -/
def Apart (shelf : List NodeStack) : Prop :=
  ∀ (i k : Nat) (s t : NodeStack), shelf[i]? = some s → shelf[k]? = some t → i ≠ k →
    s.group = t.group → ∀ id ∈ s.nodes.ids, id ∉ t.nodes.ids

section Packed

variable {g : GroupId} {cap : Nat} {L : Links} {t : PageId} {pages : List PageId}

theorem packed_snoc : Packed ⟨g, cap, L ++ [(t, pages)]⟩ ↔
    (∀ node ∈ L, node.2.length = cap) ∧ pages.length ≤ cap := by
  constructor
  · intro h
    have hfull := h.full
    simp only [List.dropLast_concat] at hfull
    exact ⟨hfull, h.bounded (t, pages) (by simp)⟩
  · rintro ⟨hfull, hlast⟩
    refine ⟨by simpa only [List.dropLast_concat] using hfull, ?_⟩
    intro node hnode
    obtain hnode | hnode := List.mem_append.1 hnode
    · exact Nat.le_of_eq (hfull node hnode)
    · obtain rfl := List.mem_singleton.1 hnode
      exact hlast

end Packed

end NodeStack

/-! ### What walks find -/

/-- The step gives `a` and makes no difference to what pages hold. -/
def Memory.Finds {α : Type} (m : Memory) (act : Act Memory α) (a : α) : Prop :=
  ∃ m', act m = .ok a m' ∧ m.Peeks m'

/-- Walks along the chain of a list, and what is kept beside the chain, show the stack. -/
structure FreeList.Shows (l : FreeList) (m : Memory) (s : NodeStack) : Prop where
  /-- The stack is about pages of the same group. -/
  group : s.group = l.group
  /-- The height of nodes comes from the size of pages. -/
  cap : ∃ size, m.pageSize l.group = .ok size ∧ s.cap = Node.capacity size
  /-- The nodes of the chain. -/
  nodes : m.Finds (Chain.nodes l.group l.head) s.nodes.ids
  /-- The page numbers in each of them. -/
  slots : ∀ node ∈ s.nodes,
    m.Finds (Chain.readNode l.group node.1 fun _ => Node.slots) node.2
  /-- The page numbers in the chain. -/
  pages : m.Finds (Chain.pages l.group l.head) s.nodes.held
  /-- Nodes name the nodes before them. -/
  verified : m.Finds (Chain.verify l.group l.head) ()
  /-- The list knows the last node. -/
  tail : s.nodes.ids.getLast? = some l.tail
  /-- No node comes twice. -/
  distinct : s.nodes.ids.Nodup
  /-- Nodes are full up to the last. -/
  packed : s.Packed
  /-- No page number comes twice. -/
  once : s.nodes.held.Nodup
  /-- The list knows just the page numbers in the chain. -/
  free : ∀ id, id ∈ l.free ↔ id ∈ s.nodes.held
  /-- The list knows just the nodes of the chain. -/
  known : ∀ id, id ∈ l.nodes ↔ id ∈ s.nodes.ids

/-- A node of a stretch is on its page. -/
theorem Links.On.mem {c : Contents} {g : GroupId} {size : Nat} {before behind : PageId} {L : Links}
    (h : L.On c g size before behind) {node : PageId × List PageId} (hnode : node ∈ L) :
    ∃ prev next, NodeView.In ⟨prev, next, node.2⟩ c g size node.1 := by
  induction L generalizing before with
  | nil => cases hnode
  | cons entry L ih =>
    obtain ⟨hin, hrest⟩ := h
    obtain rfl | hnode := List.mem_cons.1 hnode
    · exact ⟨_, _, hin⟩
    · exact ih hrest hnode

namespace FreeList

variable {l l' : FreeList} {j j' : Journal} {h : FileHeader} {rs : List Record} {size : Nat}
  {s : NodeStack} {page : PageId}

/-- The list lies on the chain of the stack, on pages that have few enough slots for their count. -/
structure Stacked (l : FreeList) (j : Journal) (h : FileHeader) (rs : List Record) (size : Nat)
    (s : NodeStack) : Prop where
  kept : l.Kept j h rs size s.nodes
  group : s.group = l.group
  cap : s.cap = Node.capacity size
  small : size < 524328
  packed : s.Packed

theorem capacity_lt (hsize : size < 524328) : Node.capacity size < 2 ^ 16 := by
  simp only [Node.capacity, Node.slotsOffset, Node.slotSize]
  omega

theorem capacity_pos (hsize : minPageSize ≤ size) : 0 < Node.capacity size := by
  have hsize' : 64 ≤ size := hsize
  simp only [Node.capacity, Node.slotsOffset, Node.slotSize]
  omega

theorem Stacked.free_iff (hs : l.Stacked j h rs size s) (id : PageId) :
    id ∈ l.free ↔ id ∈ s.nodes.held :=
  ⟨fun hid => hs.kept.lies.all (capacity_lt hs.small) hid, fun hid => hs.kept.lies.held hid⟩

theorem Stacked.accepts_iff (hs : l.Stacked j h rs size s) :
    l.Accepts page ↔ ¬(page = PageId.null ∨ page ∈ s.nodes.held ∨ page ∈ s.nodes.ids) := by
  have hnodes := hs.kept.lies.nodes.mem_iff (a := page)
  have hfree := hs.free_iff page
  constructor
  · rintro ⟨hnull, hnew, hnode⟩ (hbad | hbad | hbad)
    · exact hnull hbad
    · exact hnew (hfree.2 hbad)
    · exact hnode (hnodes.2 hbad)
  · intro hnot
    simp only [not_or] at hnot
    exact ⟨hnot.1, fun hid => hnot.2.1 (hfree.1 hid), fun hid => hnot.2.2 (hnodes.1 hid)⟩

/-- Walks along a chain that a list lies on find the chain. -/
theorem Stacked.shows (hs : l.Stacked j h rs size s) : l.Shows j.memory s := by
  have hlies := hs.kept.lies
  have hformats := hs.kept.sound.formats
  obtain ⟨m₁, hnodes, hpeeks₁, -⟩ := Chain.nodes_ok hlies.on hformats hlies.distinct
  obtain ⟨m₂, hpages, hpeeks₂⟩ := Chain.pages_ok hlies.on hformats hlies.distinct
  obtain ⟨m₃, hverify, hpeeks₃⟩ := Chain.verify_ok hlies.on hformats hlies.distinct
  rw [← hlies.head] at hnodes hpages hverify
  refine ⟨hs.group, ⟨size, hs.kept.pageSize, hs.cap⟩, ⟨m₁, hnodes, hpeeks₁⟩, ?_,
    ⟨m₂, hpages, hpeeks₂⟩, ⟨m₃, hverify, hpeeks₃⟩, ?_, hlies.distinct, hs.packed, hlies.once,
    hs.free_iff, fun id => hlies.nodes.mem_iff⟩
  · intro node hnode
    obtain ⟨prev, next, hin⟩ := hlies.on.mem hnode
    obtain ⟨m', hread, hreach, hsame⟩ := @Chain.readNode_ok _ _ _ _ _ _ hin hformats
      (fun _ => Node.slots) node.2 fun page hon => hon.slots_eq
    exact ⟨m', hread, hreach.toLike, hsame⟩
  · obtain hnone | ⟨L, ⟨t, pages⟩, hsnoc⟩ := List.eq_nil_or_concat s.nodes
    · exact absurd hnone hlies.nonempty
    · rw [List.concat_eq_append] at hsnoc
      rw [hlies.tail, hsnoc, Links.last_append, Links.ids_snoc, List.getLast?_concat]
      rfl

/-- The list that a step left lies on the chain of the stack. -/
theorem Stepped.stacked {ds : List PageDelta} {s' : NodeStack} (hs : l.Stacked j h rs size s)
    (hstep : Stepped l.group size s.nodes s'.nodes j h rs ds l' j') (hgroup : s'.group = s.group)
    (hcap : s'.cap = s.cap) (hpacked : s'.Packed) :
    l'.Stacked j' h (rs ++ j.recordsOf ds) size s' :=
  ⟨hstep.kept hs.kept.sound hs.kept.pageSize, by rw [hgroup, hs.group, hstep.group],
    hcap.trans hs.cap, hs.small, hpacked⟩

/-- What an operation did that took the stack `s` to the stack `s'`: it made no difference, or it
stepped from the one chain to the other. -/
inductive Moved (l : FreeList) (j : Journal) (h : FileHeader) (rs : List Record) (size : Nat)
    (s s' : NodeStack) (l' : FreeList) (j' : Journal) : Prop
  | peeks {m : Memory} (same : s' = s) (list : l' = l) (journal : j' = { j with memory := m })
      (peeks : j.memory.Peeks m)
  | steps {ds : List PageDelta} (step : Stepped l.group size s.nodes s'.nodes j h rs ds l' j')
      (stacked : l'.Stacked j' h (rs ++ j.recordsOf ds) size s')

/-- A page is given back just when it is pushed. -/
theorem Stacked.put (hs : l.Stacked j h rs size s) (page : PageId) :
    match s.push (j.memory.nextId s.group) page with
    | none => ∃ e m, l.put page j = .error e { j with memory := m } ∧ j.memory.Peeks m
    | some s' => ∃ l' j', l.put page j = .ok l' j' ∧ l.Moved j h rs size s s' l' j' := by
  obtain ⟨g, cap, L⟩ := s
  obtain rfl | ⟨L₀, ⟨t, pages⟩, rfl⟩ := List.eq_nil_or_concat L
  · exact absurd rfl hs.kept.lies.nonempty
  rw [List.concat_eq_append] at hs ⊢
  have hk := hs.kept
  have hcap : cap = Node.capacity size := hs.cap
  have hbits := capacity_lt hs.small
  obtain ⟨hfull, hlast⟩ := NodeStack.packed_snoc.1 hs.packed
  obtain rfl : g = l.group := hs.group
  by_cases haccepts : l.Accepts page
  · simp only [NodeStack.push, if_neg (hs.accepts_iff.1 haccepts), List.getLast?_concat,
      List.dropLast_concat]
    by_cases hroom : pages.length < cap
    · rw [if_pos hroom]
      -- the last node has room, and gets one page more
      obtain ⟨j', hput, hstep⟩ := put_fills hk haccepts (hcap ▸ hroom)
      rw [NodeView.filled, if_pos (by omega)] at hstep
      refine ⟨_, j', hput, .steps hstep (hstep.stacked hs rfl rfl ?_)⟩
      refine NodeStack.packed_snoc.2 ⟨hfull, ?_⟩
      rw [List.length_append, List.length_singleton]
      omega
    · rw [if_neg hroom]
      have hnone : Node.capacity size ≤ pages.length := by omega
      cases hnext : j.memory.nextId l.group with
      | none => exact put_exhausted hk haccepts hnone hnext
      | some node =>
        obtain ⟨j', d, d', hput, hstep⟩ := put_links hk haccepts hnone hnext
        refine ⟨_, j', hput, .steps hstep (hstep.stacked hs rfl rfl ?_)⟩
        have hpos := capacity_pos (hk.sound.large _ _ hk.pageSize)
        refine NodeStack.packed_snoc.2 ⟨?_, by rw [List.length_singleton]; omega⟩
        -- the last node was full, and is not the last any more
        intro entry hentry
        obtain hentry | hentry := List.mem_append.1 hentry
        · exact hfull entry hentry
        · obtain rfl := List.mem_singleton.1 hentry
          show pages.length = cap
          omega
  · simp only [NodeStack.push, if_pos (not_not.1 fun hnot => haccepts (hs.accepts_iff.2 hnot))]
    obtain ⟨e, hput⟩ := put_refused haccepts (j := j)
    exact ⟨e, j.memory, hput, .refl _⟩

/-- What is taken is what is popped. -/
theorem Stacked.take (hs : l.Stacked j h rs size s) :
    ∃ l' j', l.take j = .ok (s.pop.1, l') j' ∧ l.Moved j h rs size s s.pop.2 l' j' := by
  obtain ⟨g, cap, L⟩ := s
  obtain rfl | ⟨L₀, ⟨t, pages⟩, rfl⟩ := List.eq_nil_or_concat L
  · exact absurd rfl hs.kept.lies.nonempty
  rw [List.concat_eq_append] at hs ⊢
  have hk := hs.kept
  obtain ⟨hfull, hlast⟩ := NodeStack.packed_snoc.1 hs.packed
  simp only [NodeStack.pop, List.getLast?_concat, List.dropLast_concat]
  -- the last node holds a page; or it holds none, and is the only node or not
  obtain rfl | ⟨pages, page, rfl⟩ := List.eq_nil_or_concat pages
  · obtain rfl | ⟨L₁, ⟨p, held⟩, rfl⟩ := List.eq_nil_or_concat L₀
    · obtain ⟨m, htake, hpeeks⟩ := take_none hk
      exact ⟨l, _, htake, .peeks rfl rfl rfl hpeeks⟩
    · rw [List.concat_eq_append] at hs hk hfull ⊢
      have hne : L₁ ++ [(p, held)] ≠ [] := by simp
      simp only [List.getLast?_nil, if_neg hne]
      obtain ⟨j', d, htake, hstep⟩ := take_node hk
      refine ⟨_, j', htake, .steps hstep (hstep.stacked hs rfl rfl ?_)⟩
      refine NodeStack.packed_snoc.2 ⟨?_, Nat.le_of_eq (hfull (p, held) (by simp))⟩
      exact fun entry hentry => hfull entry (List.mem_append_left _ hentry)
  · rw [List.concat_eq_append] at hs hk hlast ⊢
    simp only [List.getLast?_concat, List.dropLast_concat]
    obtain ⟨j', htake, hstep⟩ := take_slot hk
    refine ⟨_, j', htake, .steps hstep (hstep.stacked hs rfl rfl ?_)⟩
    rw [List.length_append, List.length_singleton] at hlast
    exact NodeStack.packed_snoc.2 ⟨hfull, by omega⟩

end FreeList

/-! ### Lists over one journal -/

/-- How many slots the pages of a group have. -/
def Memory.nodeCapacity (m : Memory) (g : GroupId) : Nat :=
  match m.pageSize g with
  | .ok size => Node.capacity size
  | .error _ => 0

namespace Depot

/-- What an operation on the lists of a depot does to their stacks: a new list has a single node, a
page that is put is pushed on its stack only, and a page that is taken is popped from its stack
only. -/
def shelve (d : Depot) (shelf : List NodeStack) : ListOp → List NodeStack
  | .create g =>
      match d.journal.memory.nextId g with
      | none => shelf
      | some head => shelf ++ [⟨g, d.journal.memory.nodeCapacity g, [(head, [])]⟩]
  | .put i page =>
      match shelf[i]? with
      | none => shelf
      | some s =>
          match s.push (d.journal.memory.nextId s.group) page with
          | none => shelf
          | some s' => shelf.set i s'
  | .take i =>
      match shelf[i]? with
      | none => shelf
      | some s => shelf.set i s.pop.2

/-- What several operations do to the stacks. -/
def shelveAll (d : Depot) (shelf : List NodeStack) : List ListOp → List NodeStack
  | [] => shelf
  | op :: ops => (d.after op).shelveAll (d.shelve shelf op) ops

/-- Each list shows its stack, and no node is in two of them or is the next new page. -/
structure Displays (d : Depot) (shelf : List NodeStack) : Prop where
  /-- There are as many stacks as lists. -/
  count : shelf.length = d.lists.length
  /-- Each list shows its stack. -/
  shows : ∀ (i : Nat) (s : NodeStack), shelf[i]? = some s →
    ∃ l, d.list? i = some l ∧ l.Shows d.journal.memory s
  /-- No page is a node of two lists. -/
  apart : NodeStack.Apart shelf
  /-- New nodes are new. -/
  unused : ∀ (i : Nat) (s : NodeStack), shelf[i]? = some s →
    ∀ id, d.journal.memory.nextId s.group = some id → id ∉ s.nodes.ids

/-- An operation is answered as the stacks answer it, and is refused just when they refuse it. -/
def Answers (d : Depot) (shelf : List NodeStack) : ListOp → Prop
  | .create g =>
      match d.journal.memory.nextId g with
      | none => d.journal.Refuses (FreeList.create g)
      | some _ => ∃ l j', FreeList.create g d.journal = .ok l j'
  | .put i page => ∀ l s, d.list? i = some l → shelf[i]? = some s →
      match s.push (d.journal.memory.nextId s.group) page with
      | none => d.journal.Refuses (l.put page)
      | some _ => ∃ l' j', l.put page d.journal = .ok l' j'
  | .take i => ∀ l s, d.list? i = some l → shelf[i]? = some s →
      ∃ l' j', l.take d.journal = .ok (s.pop.1, l') j'

/-- The lists of the depot lie on the chains of the stacks. -/
structure Shelved (d : Depot) (h : FileHeader) (rs : List Record) (shelf : List NodeStack) :
    Prop where
  log : d.journal.log.Holds h (rs.map Record.encode) []
  memory : d.journal.memory.Sound
  small : ∀ g size, d.journal.memory.pageSize g = .ok size → size < 524328
  count : shelf.length = d.lists.length
  stacked : ∀ (i : Nat) (s : NodeStack), shelf[i]? = some s →
    ∃ l size, d.list? i = some l ∧ l.Stacked d.journal h rs size s
  apart : NodeStack.Apart shelf

section Shelved

variable {d : Depot} {h : FileHeader} {rs : List Record} {shelf : List NodeStack}

theorem Shelved.displays (hd : d.Shelved h rs shelf) : d.Displays shelf := by
  refine ⟨hd.count, fun i s hs => ?_, hd.apart, fun i s hs id hnext hid => ?_⟩
  · obtain ⟨l, size, hi, hstacked⟩ := hd.stacked i s hs
    exact ⟨l, hi, hstacked.shows⟩
  · obtain ⟨l, size, hi, hstacked⟩ := hd.stacked i s hs
    obtain ⟨m, hallocate⟩ := Memory.allocate_of_nextId hnext
    obtain ⟨-, -, -, hnew, -⟩ := Memory.allocate_ok hallocate
    exact hnew (hstacked.group ▸ hstacked.kept.issued id hid)

theorem Shelved.list?_eq_none (hd : d.Shelved h rs shelf) {i : Nat} (hi : shelf[i]? = none) :
    d.list? i = none := by
  rw [List.getElem?_eq_none_iff, hd.count] at hi
  rw [list?, List.getElem?_eq_none hi]
  rfl

/-- Reading pages makes no difference. -/
theorem Shelved.peeks (hd : d.Shelved h rs shelf) {m : Memory}
    (hpeeks : d.journal.memory.Peeks m) :
    Shelved ⟨{ d.journal with memory := m }, d.lists⟩ h rs shelf := by
  refine ⟨hd.log, hd.memory.like hpeeks.toLike, fun g size hsize => ?_, hd.count, fun i s hs => ?_,
    hd.apart⟩
  · rw [hpeeks.pageSize] at hsize
    exact hd.small g size hsize
  · obtain ⟨l, size, hi, hstacked⟩ := hd.stacked i s hs
    exact ⟨l, size, hi, { hstacked with kept := hstacked.kept.peeks hpeeks }⟩

/-- An operation on list `i`, which is new or lies on the chain of its stack, leaves the other lists
and stacks alone. -/
theorem Shelved.step (hd : d.Shelved h rs shelf) {d' : Depot} {shelf' : List NodeStack} {i : Nat}
    {g : GroupId} {size : Nat} {L : Links} {ds : List PageDelta} {l' : FreeList} {s' : NodeStack}
    (hstep : FreeList.Stepped g size L s'.nodes d.journal h rs ds l' d'.journal)
    (hnew : l'.Stacked d'.journal h (rs ++ d.journal.recordsOf ds) size s')
    (hold : ∀ id ∈ L.ids, ∃ s, shelf[i]? = some s ∧ s.group = g ∧ id ∈ s.nodes.ids)
    (hcount : shelf'.length = d'.lists.length)
    (hlists : ∀ k, d'.list? k = if k = i then some l' else d.list? k)
    (hshelf : ∀ k, shelf'[k]? = if k = i then some s' else shelf[k]?) :
    d'.Shelved h (rs ++ d.journal.recordsOf ds) shelf' := by
  have hgroup : s'.group = g := by rw [hnew.group, hstep.group]
  -- no other chain has a node in common with the chain that changes
  have hapart : ∀ k t, k ≠ i → shelf[k]? = some t → t.group = g →
      ∀ id ∈ t.nodes.ids, id ∉ L.ids := by
    intro k t hki ht hg id hid hmem
    obtain ⟨s, hs, hsg, hin⟩ := hold id hmem
    exact hd.apart k i t s ht hs hki (hg.trans hsg.symm) id hid hin
  have hapart' : ∀ k t, k ≠ i → shelf[k]? = some t → t.group = g →
      ∀ id ∈ t.nodes.ids, id ∉ s'.nodes.ids := by
    intro k t hki ht hg
    obtain ⟨l, size', -, hstacked⟩ := hd.stacked k t ht
    exact hstep.apart hstacked.kept (hstacked.group ▸ hg) (hapart k t hki ht hg)
  refine ⟨hstep.out.log, hd.memory.like hstep.out.like, fun g size hsize => ?_, hcount,
    fun k t ht => ?_, fun k k' t t' ht ht' hne hg => ?_⟩
  · rw [hstep.out.like.pageSize] at hsize
    exact hd.small g size hsize
  · rw [hshelf] at ht
    rw [hlists]
    by_cases hki : k = i
    · rw [if_pos hki] at ht ⊢
      cases ht
      exact ⟨l', size, rfl, hnew⟩
    · rw [if_neg hki] at ht ⊢
      obtain ⟨l, size', hk, hstacked⟩ := hd.stacked k t ht
      refine ⟨l, size', hk, { hstacked with kept := hstep.kept_beside hstacked.kept fun hg => ?_ }⟩
      exact hapart k t hki ht (hstacked.group.trans hg)
  · -- of two stacks at most one is that of the operation
    rw [hshelf] at ht ht'
    intro id hid hid'
    by_cases hki : k = i
    · rw [if_pos hki] at ht
      rw [if_neg (by omega)] at ht'
      cases ht
      exact hapart' k' t' (by omega) ht' (hg.symm.trans hgroup) id hid' hid
    · rw [if_neg hki] at ht
      by_cases hki' : k' = i
      · rw [if_pos hki'] at ht'
        cases ht'
        exact hapart' k t hki ht (hg.trans hgroup) id hid hid'
      · rw [if_neg hki'] at ht'
        exact hd.apart k k' t t' ht ht' hne hg id hid hid'

/-- An operation on a list moves its stack. -/
theorem Shelved.moved (hd : d.Shelved h rs shelf) {i : Nat} {l l' : FreeList} {size : Nat}
    {s s' : NodeStack} {j' : Journal} (hi : d.list? i = some l) (hs : shelf[i]? = some s)
    (hstacked : l.Stacked d.journal h rs size s)
    (hmoved : l.Moved d.journal h rs size s s' l' j') :
    ∃ rs', Shelved ⟨j', d.lists.set i (some l')⟩ h rs' (shelf.set i s') := by
  obtain ⟨hlt, hget⟩ := List.getElem?_eq_some_iff.1 hs
  cases hmoved with
  | peeks same list journal peeks =>
    subst same list journal
    have hshelf : shelf.set i s' = shelf := by rw [← hget, List.set_getElem_self]
    rw [set_list? hi, hshelf]
    exact ⟨rs, hd.peeks peeks⟩
  | @steps ds step stacked =>
    refine ⟨_, hd.step step stacked (i := i) ?_ ?_ (list?_set d j' hi) ?_⟩
    · exact fun id hid => ⟨s, hs, hstacked.group, hid⟩
    · rw [List.length_set, List.length_set, hd.count]
    · intro k
      rw [List.getElem?_set]
      by_cases hki : k = i
      · rw [if_pos hki.symm, if_pos hki, if_pos hlt]
      · rw [if_neg (Ne.symm hki), if_neg hki]

/-- A list is begun if there is a number for its node. -/
theorem Shelved.after_create (hd : d.Shelved h rs shelf) (g : GroupId) :
    d.Answers shelf (.create g) ∧
      ∃ rs', (d.after (.create g)).Shelved h rs' (d.shelve shelf (.create g)) := by
  cases hnext : d.journal.memory.nextId g with
  | none =>
    obtain ⟨e, hcreate⟩ := FreeList.create_exhausted hnext
    simp only [Answers, Depot.after, shelve, hnext, hcreate]
    exact ⟨⟨e, d.journal.memory, hcreate, .refl _⟩, rs, hd⟩
  | some head =>
    obtain ⟨size, j', c, hcreate, hsize, hstep⟩ := FreeList.create_ok hd.memory hd.log hnext
    simp only [Answers, Depot.after, shelve, hnext, hcreate]
    have hcap : d.journal.memory.nodeCapacity g = Node.capacity size := by
      simp only [Memory.nodeCapacity, hsize]
    -- the new list is a stack of one empty node
    let stack : NodeStack := ⟨g, d.journal.memory.nodeCapacity g, [(head, [])]⟩
    have hstacked : FreeList.Stacked _ j' h _ size stack :=
      ⟨hstep.kept hd.memory hsize, rfl, hcap, hd.small g size hsize,
        (NodeStack.packed_snoc (L := [])).2 ⟨fun _ hnode => absurd hnode List.not_mem_nil,
          Nat.zero_le _⟩⟩
    refine ⟨⟨_, j', rfl⟩, _, hd.step (i := d.lists.length) hstep hstacked ?_ ?_
      (list?_append d j' _) ?_⟩
    · exact fun id hid => absurd hid List.not_mem_nil
    · rw [List.length_append, List.length_append, hd.count]
      rfl
    · intro k
      rw [List.getElem?_append, hd.count]
      split
      · rw [if_neg (by omega)]
      · split
        · rename_i hk
          rw [hk, Nat.sub_self]
          rfl
        · have hcount := hd.count
          rw [List.getElem?_eq_none (by simp; omega), List.getElem?_eq_none (by omega)]

/-- A page that is put on a list is pushed on its stack. -/
theorem Shelved.after_put (hd : d.Shelved h rs shelf) (i : Nat) (page : PageId) :
    d.Answers shelf (.put i page) ∧
      ∃ rs', (d.after (.put i page)).Shelved h rs' (d.shelve shelf (.put i page)) := by
  cases hs : shelf[i]? with
  | none =>
    have hi := hd.list?_eq_none hs
    refine ⟨fun l s hl => ?_, rs, ?_⟩
    · rw [hi] at hl
      cases hl
    · simp only [Depot.after, shelve, hs, hi]
      exact hd
  | some s =>
    obtain ⟨l, size, hi, hstacked⟩ := hd.stacked i s hs
    have hput := hstacked.put page
    simp only [Answers, Depot.after, shelve, hs, hi]
    cases hpush : s.push (d.journal.memory.nextId s.group) page with
    | none =>
      rw [hpush] at hput
      -- what is not pushed is refused, and only pages were read
      obtain ⟨e, m, hput, hpeeks⟩ := hput
      rw [hput]
      refine ⟨?_, rs, hd.peeks hpeeks⟩
      intro l₁ s₁ hl hs₁
      cases hl
      cases hs₁
      rw [hpush]
      exact ⟨e, m, hput, hpeeks⟩
    | some s' =>
      rw [hpush] at hput
      obtain ⟨l', j', hput, hmoved⟩ := hput
      rw [hput]
      refine ⟨?_, hd.moved hi hs hstacked hmoved⟩
      intro l₁ s₁ hl hs₁
      cases hl
      cases hs₁
      rw [hpush]
      exact ⟨l', j', hput⟩

/-- A page that is taken from a list is popped from its stack. -/
theorem Shelved.after_take (hd : d.Shelved h rs shelf) (i : Nat) :
    d.Answers shelf (.take i) ∧
      ∃ rs', (d.after (.take i)).Shelved h rs' (d.shelve shelf (.take i)) := by
  cases hs : shelf[i]? with
  | none =>
    have hi := hd.list?_eq_none hs
    refine ⟨fun l s hl => ?_, rs, ?_⟩
    · rw [hi] at hl
      cases hl
    · simp only [Depot.after, shelve, hs, hi]
      exact hd
  | some s =>
    obtain ⟨l, size, hi, hstacked⟩ := hd.stacked i s hs
    obtain ⟨l', j', htake, hmoved⟩ := hstacked.take
    simp only [Answers, Depot.after, shelve, hs, hi, htake]
    refine ⟨?_, hd.moved hi hs hstacked hmoved⟩
    intro l₁ s₁ hl hs₁
    cases hl
    cases hs₁
    exact ⟨l', j', htake⟩

/-- An operation on the lists does to them what it does to their stacks, and answers as they do. -/
theorem Shelved.after (hd : d.Shelved h rs shelf) (op : ListOp) :
    d.Answers shelf op ∧ ∃ rs', (d.after op).Shelved h rs' (d.shelve shelf op) := by
  cases op with
  | create g => exact hd.after_create g
  | put i page => exact hd.after_put i page
  | take i => exact hd.after_take i

/-- However the lists are used, they lie on the chains of their stacks. -/
theorem Shelved.afterAll (hd : d.Shelved h rs shelf) (ops : List ListOp) :
    ∃ rs', (d.afterAll ops).Shelved h rs' (d.shelveAll shelf ops) := by
  induction ops generalizing d rs shelf with
  | nil => exact ⟨rs, hd⟩
  | cons op ops ih =>
    obtain ⟨-, rs', hd'⟩ := hd.after op
    exact ih hd'

end Shelved

/-! ### Any log -/

/-- The depots have the same lists, over journals that differ in their logs only. -/
structure Twin (d k : Depot) : Prop where
  journal : d.journal.Twin k.journal
  lists : k.lists = d.lists

section Twin

variable {d k : Depot} {shelf : List NodeStack}

theorem Twin.list? (h : d.Twin k) (i : Nat) : k.list? i = d.list? i := by
  rw [Depot.list?, Depot.list?, h.lists]

theorem Twin.after (h : d.Twin k) (op : ListOp) : (d.after op).Twin (k.after op) := by
  -- each operation goes the same way on both sides, and what it reads there is the same
  cases op with
  | create g =>
    cases (FreeList.blind_create g).alongside h.journal with
    | ok left right twin _ _ =>
      simp only [Depot.after, left, right]
      exact ⟨twin, by rw [h.lists]⟩
    | error left right twin _ _ =>
      simp only [Depot.after, left, right]
      exact ⟨twin, h.lists⟩
  | put i page =>
    simp only [Depot.after, h.list?]
    cases d.list? i with
    | none => exact h
    | some l =>
      cases (l.blind_put page).alongside h.journal with
      | ok left right twin _ _ =>
        simp only [left, right]
        exact ⟨twin, by rw [h.lists]⟩
      | error left right twin _ _ =>
        simp only [left, right]
        exact ⟨twin, h.lists⟩
  | take i =>
    simp only [Depot.after, h.list?]
    cases d.list? i with
    | none => exact h
    | some l =>
      cases l.blind_take.alongside h.journal with
      | ok left right twin _ _ =>
        simp only [left, right]
        exact ⟨twin, by rw [h.lists]⟩
      | error left right twin _ _ =>
        simp only [left, right]
        exact ⟨twin, h.lists⟩

/-- The stacks depend on the pages only. -/
theorem Twin.shelve (h : d.Twin k) (op : ListOp) : k.shelve shelf op = d.shelve shelf op := by
  cases op with
  | create g => simp only [Depot.shelve, h.journal.memory]
  | put i page => simp only [Depot.shelve, h.journal.memory]
  | take i => rfl

theorem Twin.afterAll (h : d.Twin k) (ops : List ListOp) :
    (d.afterAll ops).Twin (k.afterAll ops) ∧ k.shelveAll shelf ops = d.shelveAll shelf ops := by
  induction ops generalizing d k shelf with
  | nil => exact ⟨h, rfl⟩
  | cons op ops ih =>
    rw [Depot.shelveAll, Depot.shelveAll, h.shelve]
    exact ih (h.after op)

theorem Twin.displays (h : d.Twin k) (hk : k.Displays shelf) : d.Displays shelf := by
  refine ⟨?_, fun i s hs => ?_, hk.apart, ?_⟩
  · rw [hk.count, h.lists]
  · rw [← h.journal.memory, ← h.list?]
    exact hk.shows i s hs
  · rw [← h.journal.memory]
    exact hk.unused

theorem Twin.answers (h : d.Twin k) {op : ListOp} (hk : k.Answers shelf op) :
    d.Answers shelf op := by
  cases op with
  | create g =>
    simp only [Answers, h.journal.memory] at hk ⊢
    cases hnext : d.journal.memory.nextId g with
    | none =>
      rw [hnext] at hk
      exact (FreeList.blind_create g).refuses h.journal hk
    | some head =>
      rw [hnext] at hk
      obtain ⟨l, k', hcreate⟩ := hk
      exact ⟨l, (FreeList.blind_create g).of_ok h.journal hcreate⟩
  | put i page =>
    simp only [Answers, h.journal.memory] at hk ⊢
    intro l s hi hs
    have hput := hk l s ((h.list? i).trans hi) hs
    cases hpush : s.push (d.journal.memory.nextId s.group) page with
    | none =>
      rw [hpush] at hput
      exact (l.blind_put page).refuses h.journal hput
    | some s' =>
      rw [hpush] at hput
      obtain ⟨l', k', hput⟩ := hput
      exact ⟨l', (l.blind_put page).of_ok h.journal hput⟩
  | take i =>
    simp only [Answers] at hk ⊢
    intro l s hi hs
    obtain ⟨l', k', htake⟩ := hk l s ((h.list? i).trans hi) hs
    exact ⟨l', l.blind_take.of_ok h.journal htake⟩

end Twin

/-- Over a new log no list is there yet. -/
theorem shelved_nil {j : Journal} {h : FileHeader} (hl : j.log.Holds h [] []) (hm : j.memory.Sound)
    (hsizes : ∀ g size, j.memory.pageSize g = .ok size → size < 524328) :
    Shelved ⟨j, []⟩ h [] [] := by
  refine ⟨hl, hm, hsizes, rfl, fun i s hs => ?_, fun i k s t hs => ?_⟩
  · simp at hs
  · simp at hs

end Depot

/-- **Free lists are stacks of nodes.**  Whatever is done with lists over one journal, each list
shows what its stack of nodes came to, and the next operation is answered as the stacks answer it.
What the log holds and where it goes on does not matter, nor which pages there are already. -/
theorem lists_are_node_stacks {j : Journal} {bs : Bytes} (hl : j.log.Ready bs)
    (hm : j.memory.Sound) (hsizes : ∀ g size, j.memory.pageSize g = .ok size → size < 524328)
    (ops : List ListOp) :
    let d : Depot := Depot.afterAll ⟨j, []⟩ ops
    let shelf := Depot.shelveAll ⟨j, []⟩ [] ops
    d.Displays shelf ∧ ∀ op, d.Answers shelf op := by
  -- the same lists over a new log in memory
  have hcalm : (Disk.ofFile .inMemory).Calm := fun _ _ => rfl
  have hnew : (Disk.ofFile .inMemory).file.len < FileHeader.size := by decide
  obtain ⟨w, disk, -, hlog, -⟩ := Writer.ofDisk_short ⟨0, 0, .off⟩ hcalm hnew
  have hstart : Depot.Twin ⟨j, []⟩ ⟨{ j with log := ⟨disk, w⟩ }, []⟩ :=
    ⟨⟨rfl, rfl, ⟨bs, hl⟩, ⟨_, hlog.ready⟩⟩, rfl⟩
  obtain ⟨rs, hshelved⟩ := (Depot.shelved_nil (j := { j with log := ⟨disk, w⟩ }) hlog hm
    hsizes).afterAll ops
  obtain ⟨htwin, hshelf⟩ := @Depot.Twin.afterAll _ _ [] hstart ops
  rw [hshelf] at hshelved
  exact ⟨htwin.displays hshelved.displays, fun op => htwin.answers (hshelved.after op).1⟩

/-- Two lists of one group over a log with stray bytes: the first gets a second node, which is empty
again and is handed out next. -/
theorem lists_are_node_stacks_of_two_lists :
    let j : Journal := ⟨⟨.ofFile ⟨.ofBytes (FileHeader.encode ⟨7, 1⟩ ++ [1, 2, 3]), .memory⟩,
      ⟨.off, ⟨7, 1⟩, .start ⟨7, 1⟩, .zero⟩⟩, Memory.fresh [(1, 64)], .empty⟩
    let ops : List ListOp := [.create 1, .create 1, .put 0 100, .put 1 100, .put 0 101, .put 0 102,
      .put 0 101, .put 0 103, .take 0]
    let d : Depot := Depot.afterAll ⟨j, []⟩ ops
    let shelf : List NodeStack := [⟨1, 3, [(1, [100, 101, 102]), (3, [])]⟩, ⟨1, 3, [(2, [100])]⟩]
    d.Displays shelf ∧ ∃ l l' j', d.list? 0 = some l ∧ l.take d.journal = .ok (some 3, l') j' := by
  intro j ops d shelf
  have hl : j.log.Ready (FileHeader.encode ⟨7, 1⟩ ++ [1, 2, 3]) := by
    refine ⟨⟨fun _ _ => rfl, ?_⟩, ?_⟩
    · exact Content.bytes_ofBytes _
    · decide
  have hsizes : ∀ g size, j.memory.pageSize g = .ok size → size < 524328 := by
    intro g size hsize
    cases List.mem_singleton.1 (Memory.pageSize_fresh hsize)
    decide
  have hshelf : Depot.shelveAll ⟨j, []⟩ [] ops = shelf := by decide +kernel
  obtain ⟨hdisplays, hanswers⟩ :=
    lists_are_node_stacks hl (Memory.fresh_untouched [(1, 64)]).sound hsizes ops
  rw [hshelf] at hdisplays hanswers
  obtain ⟨l, hi, -⟩ := hdisplays.shows 0 _ rfl
  obtain ⟨l', j', htake⟩ := hanswers (.take 0) l _ hi rfl
  exact ⟨hdisplays, l, l', j', hi, htake⟩

end PageLog
