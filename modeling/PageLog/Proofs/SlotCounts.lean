import PageLog.Proofs.NodeImages

/-!
# Sixteen bits for the count

A node page tells with 16 bits how many of its slots are in use, while the slots that it has room
for grow with the size of the page.  From 524328 bytes on, a page has room for one slot more than
can be counted.  Adding a page number to a node keeps the numbers in its slots and puts the new one
last, until the slot with number 65535 is filled: then the count begins again at zero, and the node
says that it holds nothing.

## Main results

* `NodeView.exists_on` — every page with a good header and a good count says something.
* `NodeView.On.apply_add` — adding to a node by a record.
* `Node.adding_appends_or_empties` — **adding to a node appends, but for the slot with number
  65535.**
* `Node.adding_to_largest_node` — a node that loses its slots.
-/

namespace PageLog

namespace Node

@[simp] theorem length_words (n : Nat) (bs : Bytes) : (words n bs).length = n := by
  induction n generalizing bs with
  | zero => rfl
  | succ n ih => rw [words, List.length_cons, ih]

/-- All slots can be read just where the count can. -/
theorem slots_eq_ok {page : Bytes} {ids : List PageId} :
    slots page = .ok ids ↔
      count page = .ok ids.length ∧ words ids.length (page.drop slotsOffset) = ids := by
  unfold slots
  cases hcount : count page with
  | error e => simp [bind, Except.bind]
  | ok n =>
    simp only [bind, Except.bind, pure, Except.pure, Except.ok.injEq]
    constructor
    · rintro rfl
      simp
    · rintro ⟨rfl, hwords⟩
      exact hwords

end Node

namespace NodeView

variable {v : NodeView} {size : Nat} {id : PageId} {page : Bytes} {ids : List PageId}

/-- A page of a group that has a good header and whose slots can be read says something. -/
theorem exists_on (hlarge : minPageSize ≤ size) (hpage : page.length = size)
    (hheader : PageHeader.parse page = .ok ⟨nodeType, 1, id⟩) (hslots : Node.slots page = .ok ids) :
    ∃ v : NodeView, v.On size id page ∧ v.slots = ids := by
  have hlarge' : 64 ≤ size := hlarge
  obtain ⟨hcount, hwords⟩ := Node.slots_eq_ok.1 hslots
  have hcapacity := (Node.count_eq_ok.1 hcount).2.2
  have hread : ∀ off, off + 8 ≤ page.length →
      Field.readU64 page off = .ok (Bytes.toU64 ((page.drop off).take 8)) := by
    intro off hoff
    rw [Field.readU64, Field.read_eq_ok hoff]
    rfl
  -- the nodes before and behind can always be read, whatever they are
  refine ⟨⟨_, _, ids⟩, ⟨hlarge, hpage, hheader, hread 16 (by omega), hread 24 (by omega), hcount,
    ?_⟩, rfl⟩
  intro i a hi
  have hlt : i < ids.length := (List.getElem?_eq_some_iff.1 hi).1
  rw [hread _ (Node.slotOffset_lt (by omega))]
  rw [← hwords, Node.getElem?_words, if_pos hlt, List.drop_drop] at hi
  exact congrArg Except.ok (Option.some.inj hi)

/-- A record that fills the first slot behind those in use does what the call does. -/
theorem On.apply_add (h : v.On size id page) {m : Memory} {g : GroupId}
    (hformats : m.formats = .standard) (hsize : m.pageSize g = .ok size) (data : PageId) :
    (Record.delta ⟨NodeFormat.v1.target g id, .add (UInt16.ofNat v.slots.length) data⟩).apply m
      page = Node.setPageAt v.slots.length data size page := by
  rw [Record.apply_delta hsize (Nat.le_of_eq h.length.symm) rfl, hformats]
  simp only [PageDelta.apply]
  rw [Act.bind_of_ok (Act.look_of_ok (h.nodeFormat g _)),
    UInt16.toNat_ofNat_of_lt' h.length_slots_lt]

end NodeView

namespace Node

variable {size : Nat} {page : Bytes} {id : PageId} {ids : List PageId} {m : Memory} {g : GroupId}

/-- **Adding to a node appends, but for the slot with number 65535.**  Where there is room on a
node, a page number is added, by a call as well as by the record of that call.  It comes behind the
numbers that are there, unless these are 65535; then the count is zero afterwards and nothing is
left to be read. -/
theorem adding_appends_or_empties (hlarge : minPageSize ≤ size) (hpage : page.length = size)
    (hheader : PageHeader.parse page = .ok ⟨nodeType, 1, id⟩) (hslots : slots page = .ok ids)
    (hroom : ids.length < capacity size) (hformats : m.formats = .standard)
    (hsize : m.pageSize g = .ok size) (data : PageId) :
    ∃ page', NodeFormat.v1.add data size page = .ok ids.length page' ∧
      (Record.delta ⟨NodeFormat.v1.target g id, .add (UInt16.ofNat ids.length) data⟩).apply m page =
        .ok () page' ∧
      if ids.length = 65535 then count page' = .ok 0 ∧ slots page' = .ok []
      else count page' = .ok (ids.length + 1) ∧ slots page' = .ok (ids ++ [data]) := by
  obtain ⟨v, hon, rfl⟩ := NodeView.exists_on hlarge hpage hheader hslots
  have hlt := hon.length_slots_lt
  -- the call and the record fill the same slot, so that one page answers for both
  obtain ⟨page', hset, hadd, hon'⟩ := hon.add hroom data
  have hcount := hon'.count
  have hslots' := hon'.slots_eq
  refine ⟨page', hadd, by rw [hon.apply_add hformats hsize, hset], ?_⟩
  unfold NodeView.filled at hcount hslots'
  split
  · rw [if_neg (by omega)] at hcount hslots'
    exact ⟨hcount, hslots'⟩
  · rw [if_pos (by omega)] at hcount hslots'
    rw [List.length_append, List.length_singleton] at hcount
    exact ⟨hcount, hslots'⟩

/-- A page number is added to a node that holds one. -/
theorem adding_appends_to_one_slot :
    let page := NodeView.image ⟨0, 0, [9]⟩ 64 5
    let m := Memory.fresh [(1, 64)]
    ∃ page', NodeFormat.v1.add 7 64 page = .ok 1 page' ∧
      (Record.delta ⟨NodeFormat.v1.target 1 5, .add 1 7⟩).apply m page = .ok () page' ∧
      count page' = .ok 2 ∧ slots page' = .ok [9, 7] := by
  intro page m
  have hgroup : m.pageSize 1 = .ok 64 := by decide +kernel
  have hpage : page.length = 64 := by decide +kernel
  have hheader : PageHeader.parse page = .ok ⟨nodeType, 1, 5⟩ := by decide +kernel
  have hslots : slots page = .ok [9] := by decide +kernel
  exact adding_appends_or_empties (by decide) hpage hheader hslots (by decide) rfl hgroup 7

/-- A node with 65535 slots in use says that it holds nothing once another page number is added. -/
theorem adding_to_largest_node (hlength : ids.length = 65535) (hroom : 65535 < capacity size)
    (hlarge : minPageSize ≤ size) (hformats : m.formats = .standard)
    (hsize : m.pageSize g = .ok size) (data : PageId) :
    let page := NodeView.image ⟨0, 0, ids⟩ size id
    PageHeader.parse page = .ok ⟨nodeType, 1, id⟩ ∧ count page = .ok 65535 ∧
      ∃ page', NodeFormat.v1.add data size page = .ok 65535 page' ∧
        (Record.delta ⟨NodeFormat.v1.target g id, .add 65535 data⟩).apply m page = .ok () page' ∧
        count page' = .ok 0 := by
  intro page
  have hon : NodeView.On ⟨0, 0, ids⟩ size id page :=
    NodeView.on_image hlarge (by rw [hlength]; exact Nat.le_of_lt hroom) (by rw [hlength]; decide)
  obtain ⟨page', hset, hadd, hon'⟩ := hon.add (by rw [hlength]; exact hroom) data
  have hfilled : NodeView.filled ids data = [] := by
    rw [NodeView.filled, hlength, if_neg (by decide)]
  have happly := hon.apply_add hformats hsize data
  have hcount := hon.count
  have hcount' := hon'.count
  simp only [hlength] at hset hadd happly hcount
  rw [hfilled] at hcount'
  exact ⟨hon.header, hcount, page', hadd, happly.trans hset, hcount'⟩

/-- On a page of 524328 bytes there is room for one slot more than can be counted. -/
theorem adding_empties_largest_node :
    let page := NodeView.image ⟨0, 0, List.replicate 65535 9⟩ 524328 5
    let m := Memory.fresh [(1, 524328)]
    65535 < capacity 524328 ∧ PageHeader.parse page = .ok ⟨nodeType, 1, 5⟩ ∧
      count page = .ok 65535 ∧
      ∃ page', NodeFormat.v1.add 7 524328 page = .ok 65535 page' ∧
        (Record.delta ⟨NodeFormat.v1.target 1 5, .add 65535 7⟩).apply m page = .ok () page' ∧
        count page' = .ok 0 := by
  intro page m
  have hroom : 65535 < capacity 524328 := by decide
  have hgroup : m.pageSize 1 = .ok 524328 := by decide +kernel
  exact ⟨hroom, adding_to_largest_node List.length_replicate hroom (by decide) rfl hgroup 7⟩

end Node
end PageLog
