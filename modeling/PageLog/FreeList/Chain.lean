import PageLog.Memory

/-!
# Chains of nodes

The nodes of a free list form a chain: each names the node behind it, and the last names the null
page.  Following the names through arbitrary page contents must end: it ends at the null page, at a
page that is no node, or at a node seen before.  A page that was not in memory is blank, so a walk
can go on only from pages that were there when it began.

## Main definitions

* `Chain.readNode` — reading from a node page.
* `Chain.nodes` — the nodes of a chain in order.
* `Chain.pages` — the page numbers in their slots, in order.
* `Chain.verify` — every node also names the node before it.

## Main results

* `PageHeader.parse_zeros`, `Formats.ofPage_blank` — a blank page has a header of zeros, and no
  format.
* `Chain.readNode_present` — a page that can be read as a node was in memory before.
-/

namespace PageLog

/-! ### Blank pages -/

/-- A blank page reads as a header of zeros. -/
theorem PageHeader.parse_zeros {n : Nat} (h : PageHeader.size ≤ n) :
    PageHeader.parse (Bytes.zeros n) = .ok ⟨0, 0, 0⟩ := by
  have hwindow : Bytes.window (Bytes.zeros n) 0 PageHeader.size =
      some (Bytes.zeros PageHeader.size) := by
    rw [Bytes.window_eq_some (by rw [Bytes.length_zeros]; omega)]
    simp only [Bytes.zeros, List.drop_zero, List.take_replicate, Nat.min_eq_left h]
  rw [PageHeader.parse, hwindow]
  rfl

/-- A blank page has no format. -/
theorem Formats.ofPage_blank (fs : Formats) (n : Nat) :
    ∃ e, fs.ofPage (Bytes.zeros n) = .error e := by
  by_cases h : n < PageHeader.size
  · refine ⟨.corruption .pageTooShort, ?_⟩
    have hwindow : Bytes.window (Bytes.zeros n) 0 PageHeader.size = none :=
      Bytes.window_eq_none (by rw [Bytes.length_zeros]; omega)
    simp [ofPage, PageHeader.parse, hwindow, bind, Except.bind]
  · refine ⟨.corruptPageFormat 0 0 .neverInitialized, ?_⟩
    rw [ofPage, PageHeader.parse_zeros (Nat.le_of_not_lt h)]
    rfl

namespace Chain

/-! ### Walking -/

/-- Reads something from a node page, given the format it has. -/
def readNode {α : Type} (group : GroupId) (id : PageId) (read : NodeFormat → Bytes → Result α) :
    Act Memory α := fun m =>
  match Memory.page group id m with
  | .error e m => .error e m
  | .ok page m =>
      match m.formats.ofPage page with
      | .error e => .error e m
      | .ok format =>
          match read format page with
          | .error e => .error e m
          | .ok a => .ok a m

/-- The pages of a group that were touched. -/
def present (m : Memory) (group : GroupId) : List PageId :=
  match m.groups[group]? with
  | some g => g.pages.keys
  | none => []

/-- A page that can be read as a node was in memory before, and reading it touched no other. -/
theorem readNode_present {α : Type} {group : GroupId} {id : PageId}
    {read : NodeFormat → Bytes → Result α} {m m' : Memory} {a : α}
    (h : readNode group id read m = .ok a m') :
    id ∈ present m group ∧ present m' group = present m group := by
  unfold readNode at h
  split at h
  · cases h
  rename_i page m₁ hpage
  simp only [Memory.page, Functor.map, EStateM.map, Memory.touch_eq] at hpage
  split at hpage
  · rename_i htouch
    split at htouch
    · cases htouch
    split at htouch
    · cases htouch
    rename_i g hg
    cases htouch
    cases hpage
    cases hid : g.pages[id]? with
    | none =>
        obtain ⟨e, he⟩ := (Memory.putGroup m group (g.touch id).2).formats.ofPage_blank g.pageSize
        simp [GroupPages.touch, hid, CachedPage.blank] at h he
        simp [he] at h
    | some page =>
        have hmem : id ∈ g.pages := by
          rw [Std.TreeMap.mem_iff_isSome_getElem?, hid]
          rfl
        have hm : m' = m.putGroup group g := by
          simp only [GroupPages.touch, hid] at h
          repeat' split at h
          all_goals first | (cases h; rfl) | cases h
        subst hm
        simp [present, hg, Memory.putGroup, Std.TreeMap.mem_keys, hmem]
  · cases hpage

/-- How many touched pages of a group a walk has not seen yet. -/
def unseen (m : Memory) (group : GroupId) (seen : List PageId) : Nat :=
  ((present m group).filter fun id => !seen.contains id).length

/-- Reading a node not seen before leaves fewer pages unseen. -/
theorem unseen_lt {α : Type} {group : GroupId} {id : PageId}
    {read : NodeFormat → Bytes → Result α} {m m' : Memory} {a : α} {seen : List PageId}
    (h : readNode group id read m = .ok a m') (hid : id ∉ seen) :
    unseen m' group (id :: seen) < unseen m group seen := by
  obtain ⟨hmem, heq⟩ := readNode_present h
  simp only [unseen, heq]
  have hsplit : (present m group).filter (fun x => !(id :: seen).contains x) =
      ((present m group).filter fun x => !seen.contains x).filter (· != id) := by
    rw [List.filter_filter]
    congr 1
    funext x
    simp only [List.contains_cons, Bool.not_or, bne]
  rw [hsplit]
  refine List.length_filter_lt_length_iff_exists.2 ⟨id, ?_, by simp⟩
  simp [hmem, hid]

/-- The nodes from `cur` on, of a chain in which `seen` came before. -/
def nodesFrom (group : GroupId) (seen : List PageId) (cur : PageId) : Act Memory (List PageId) :=
  fun m =>
    if cur = PageId.null then .ok [] m
    else if _ : cur ∈ seen then .error (.corruption .chainCycle) m
    else
      match _ : readNode group cur (fun _ => Node.next) m with
      | .error e m => .error e m
      | .ok next m =>
          match nodesFrom group (cur :: seen) next m with
          | .error e m => .error e m
          | .ok rest m => .ok (cur :: rest) m
termination_by m => unseen m group seen
decreasing_by exact unseen_lt ‹_› ‹¬cur ∈ seen›

/-- The nodes of the chain that begins at `head`. -/
def nodes (group : GroupId) (head : PageId) : Act Memory (List PageId) :=
  nodesFrom group [] head

/-- The page numbers in the slots of nodes. -/
def slotsOf (group : GroupId) : List PageId → Act Memory (List PageId)
  | [] => pure []
  | node :: rest => do
      let ids ← readNode group node fun _ => Node.slots
      let others ← slotsOf group rest
      return ids ++ others

/-- The page numbers in the slots of the chain that begins at `head`. -/
def pages (group : GroupId) (head : PageId) : Act Memory (List PageId) := do
  let nodes ← nodes group head
  slotsOf group nodes

/-- Checks that nodes name the nodes before them, where `before` comes before the first. -/
def verifyFrom (group : GroupId) : (before : PageId) → List PageId → Act Memory Unit
  | _, [] => pure ()
  | before, node :: rest => do
      let prev ← readNode group node fun _ => Node.prev
      if prev ≠ before then throw (.structuralInvariant group node (.prevPointer prev before))
      verifyFrom group node rest

/-- Checks that the nodes of the chain that begins at `head` name the nodes before them. -/
def verify (group : GroupId) (head : PageId) : Act Memory Unit := do
  let nodes ← nodes group head
  verifyFrom group PageId.null nodes

end Chain

end PageLog
