import Mathlib.Data.List.Basic
import PageLog.Proofs.PageWords

/-!
# Node pages as images of lists

A node page is the image of what it says: the header, the nodes before and behind, the count and the
slots in use, and zeros in the reserved bytes and from the last slot in use to the end of the page.
Every operation on node pages takes the image of a view to the image of another, the one that the
same operation on plain lists gives, so that nothing but the view can be told from the bytes.  The
slots are written before the count; in between the page is an image but for the count.

## Main definitions

* `NodeView.sheet`, `NodeView.image` — the bytes of a node page, with another count or with its own.
* `NodeOp`, `NodeOp.run` — the operations, on the bytes of a page.
* `NodeOp.onList` — the same on lists.

## Main results

* `NodeView.on_image` — the image of a view says what the view says.
* `NodeView.writeSlot_sheet_set`, `NodeView.writeSlot_sheet_append`, `NodeView.setCount_sheet` —
  writing fields.
* `NodeOp.run_image` — one operation on an image.
* `NodeOp.pages_are_images` — **all node pages are images of lists.**
-/

namespace PageLog

/-! ### Fields between others -/

namespace Field

variable {front back old data page : Bytes} {off : Nat}

theorem write_between (hoff : front.length = off) (hwidth : old.length = data.length) :
    write off data (front ++ (old ++ back)) = .ok () (front ++ (data ++ back)) := by
  subst hoff
  rw [write_eq_ok (by simp only [List.length_append]; omega), Bytes.overwrite_append, ← hwidth,
    List.drop_left]

theorem write_first (hwidth : old.length = data.length) :
    write 0 data (old ++ back) = .ok () (data ++ back) :=
  @write_between [] back old data 0 rfl hwidth

theorem write_fits {page' : Bytes} (h : write off data page = .ok () page') :
    off + data.length ≤ page.length := by
  by_contra hshort
  rw [write_refused (Nat.not_le.1 hshort)] at h
  cases h

theorem writeU64_between (v : UInt64) (hoff : front.length = off) (hwidth : old.length = 8) :
    writeU64 off v (front ++ (old ++ back)) = .ok () (front ++ (bytesOfU64 v ++ back)) :=
  write_between hoff (by rw [hwidth, length_bytesOfU64])

/-- A number that can be written without a change is there. -/
theorem readU64_of_write {v : UInt64} (h : writeU64 off v page = .ok () page) :
    readU64 page off = .ok v := by
  have hfit : off + 8 ≤ page.length := by
    rw [← length_bytesOfU64 v]
    exact write_fits h
  rw [writeU64_ok hfit] at h
  rw [← (EStateM.Result.ok.inj h).2, readU64_there hfit]

theorem readU16_of_write {v : UInt16} (h : writeU16 off v page = .ok () page) :
    readU16 page off = .ok v := by
  have hfit : off + 2 ≤ page.length := by
    rw [← length_bytesOfU16 v]
    exact write_fits h
  rw [writeU16_ok hfit] at h
  rw [← (EStateM.Result.ok.inj h).2, readU16_there hfit]

end Field

theorem Bytes.zeros_add (m n : Nat) : Bytes.zeros (m + n) = Bytes.zeros m ++ Bytes.zeros n :=
  List.replicate_append_replicate.symm

/-! ### Images -/

/-- The common header of a node page of the first version. -/
def Node.head (id : PageId) : Bytes :=
  bytesOfU16 nodeType ++ bytesOfU16 1 ++ Bytes.zeros 4 ++ bytesOfU64 id

@[simp] theorem Node.length_head (id : PageId) : (Node.head id).length = PageHeader.size := by
  simp [Node.head, PageHeader.size]

/-- The header is put on a blank page. -/
theorem Node.write_head (id : PageId) (rest : Bytes) :
    PageHeader.write ⟨nodeType, 1, id⟩ (Bytes.zeros PageHeader.size ++ rest) =
      .ok () (Node.head id ++ rest) := by
  have hblank : Bytes.zeros PageHeader.size ++ rest =
      Bytes.zeros 2 ++ (Bytes.zeros 2 ++ (Bytes.zeros 4 ++ (Bytes.zeros 8 ++ rest))) := rfl
  have hhead : Node.head id ++ rest =
      bytesOfU16 nodeType ++ bytesOfU16 1 ++ bytesOfU32 0 ++ (bytesOfU64 id ++ rest) := by
    simp only [Node.head, List.append_assoc]
    rfl
  -- the fields are written from the left to the right, each into zeros of its width
  have htype : ∀ behind, Field.writeU16 0 nodeType (Bytes.zeros 2 ++ behind) =
      .ok () (bytesOfU16 nodeType ++ behind) := by
    intro behind
    exact Field.write_first (by rfl)
  have hversion : ∀ behind, Field.writeU16 2 1 (bytesOfU16 nodeType ++ (Bytes.zeros 2 ++ behind)) =
      .ok () (bytesOfU16 nodeType ++ (bytesOfU16 1 ++ behind)) := by
    intro behind
    exact Field.write_between rfl rfl
  have hreserved : ∀ behind, Field.writeU32 4 0
      (bytesOfU16 nodeType ++ bytesOfU16 1 ++ (Bytes.zeros 4 ++ behind)) =
      .ok () (bytesOfU16 nodeType ++ bytesOfU16 1 ++ (bytesOfU32 0 ++ behind)) := by
    intro behind
    exact Field.write_between rfl rfl
  have hid : ∀ behind, Field.writeU64 8 id
      (bytesOfU16 nodeType ++ bytesOfU16 1 ++ bytesOfU32 0 ++ (Bytes.zeros 8 ++ behind)) =
      .ok () (bytesOfU16 nodeType ++ bytesOfU16 1 ++ bytesOfU32 0 ++
        (bytesOfU64 id ++ behind)) := by
    intro behind
    exact Field.writeU64_between id rfl rfl
  rw [PageHeader.write, hblank, hhead, Act.bind_of_ok (htype _), Act.bind_of_ok (hversion _),
    ← List.append_assoc, Act.bind_of_ok (hreserved _), ← List.append_assoc, hid]

namespace NodeView

/-- The bytes of slots one after another. -/
def row (slots : List PageId) : Bytes := slots.flatMap bytesOfU64

@[simp] theorem row_nil : row [] = [] := rfl

@[simp] theorem row_cons (a : PageId) (slots : List PageId) :
    row (a :: slots) = bytesOfU64 a ++ row slots := rfl

@[simp] theorem row_append (slots slots' : List PageId) :
    row (slots ++ slots') = row slots ++ row slots' := List.flatMap_append

@[simp] theorem length_row (slots : List PageId) :
    (row slots).length = slots.length * Node.slotSize := by
  induction slots with
  | nil => rfl
  | cons a slots ih =>
    rw [row_cons, List.length_append, length_bytesOfU64, ih, List.length_cons, Nat.succ_mul,
      Nat.add_comm]
    rfl

/-- What stands before the slots on the page `id`, if the count is `n`. -/
def front (v : NodeView) (n : Nat) (id : PageId) : Bytes :=
  Node.head id ++ bytesOfU64 v.prev ++ bytesOfU64 v.next ++ bytesOfU16 (UInt16.ofNat n) ++
    Bytes.zeros 6

@[simp] theorem length_front (v : NodeView) (n : Nat) (id : PageId) :
    (v.front n id).length = Node.slotsOffset := by
  simp [front, PageHeader.size, Node.slotsOffset]

/-- The page `id` of `size` bytes that says what the view says, but for the count, which is `n`. -/
def sheet (v : NodeView) (n size : Nat) (id : PageId) : Bytes :=
  v.front n id ++ (row v.slots ++ Bytes.zeros (size - Node.slotOffset v.slots.length))

/-- The page `id` of `size` bytes that says what the view says. -/
def image (v : NodeView) (size : Nat) (id : PageId) : Bytes := v.sheet v.slots.length size id

variable {v : NodeView} {n size i : Nat} {id : PageId} {ids : List PageId}

/-- The end of the last slot that there is room for. -/
theorem slotOffset_le (hlarge : minPageSize ≤ size) (hroom : n ≤ Node.capacity size) :
    Node.slotOffset n ≤ size := by
  have hlarge' : 64 ≤ size := hlarge
  simp only [Node.slotOffset, Node.capacity, Node.slotsOffset, Node.slotSize] at hroom ⊢
  omega

theorem length_sheet (hlarge : minPageSize ≤ size) (hroom : v.slots.length ≤ Node.capacity size) :
    (v.sheet n size id).length = size := by
  have hfit := slotOffset_le hlarge hroom
  rw [sheet, List.length_append, length_front, List.length_append, length_row, Bytes.length_zeros,
    ← Nat.add_assoc]
  exact Nat.add_sub_of_le hfit

/-! ### Writing fields -/

theorem setPrev_sheet (prev : PageId) :
    Node.setPrev prev (v.sheet n size id) = .ok () (sheet { v with prev := prev } n size id) := by
  have hbefore : (Node.head id).length = Node.prevOffset := Node.length_head id
  simp only [sheet, front, List.append_assoc]
  rw [Node.setPrev, Field.writeU64_between prev hbefore (length_bytesOfU64 _)]

theorem setNext_sheet (next : PageId) :
    Node.setNext next (v.sheet n size id) = .ok () (sheet { v with next := next } n size id) := by
  have hbefore : (Node.head id ++ bytesOfU64 v.prev).length = Node.nextOffset := by
    rw [List.length_append, Node.length_head, length_bytesOfU64]
    rfl
  have hnext : ∀ next, sheet { v with next := next } n size id =
      (Node.head id ++ bytesOfU64 v.prev) ++ (bytesOfU64 next ++
        (bytesOfU16 (UInt16.ofNat n) ++ Bytes.zeros 6 ++
          (row v.slots ++ Bytes.zeros (size - Node.slotOffset v.slots.length)))) := by
    intro next
    simp only [sheet, front, List.append_assoc]
  have hself : v.sheet n size id = _ := hnext v.next
  rw [hnext next, hself, Node.setNext,
    Field.writeU64_between next hbefore (length_bytesOfU64 _)]

theorem setCount_sheet (k : Nat) :
    Node.setCount k (v.sheet n size id) = .ok () (v.sheet k size id) := by
  have hbefore : (Node.head id ++ bytesOfU64 v.prev ++ bytesOfU64 v.next).length =
      Node.countOffset := by
    simp only [List.length_append, Node.length_head, length_bytesOfU64]
    rfl
  have hcount : ∀ k, v.sheet k size id =
      (Node.head id ++ bytesOfU64 v.prev ++ bytesOfU64 v.next) ++ (bytesOfU16 (UInt16.ofNat k) ++
        (Bytes.zeros 6 ++
          (row v.slots ++ Bytes.zeros (size - Node.slotOffset v.slots.length)))) := by
    intro k
    simp only [sheet, front, List.append_assoc]
  rw [hcount n, hcount k, Node.setCount, Field.writeU16,
    Field.write_between hbefore (by rw [length_bytesOfU16, length_bytesOfU16])]

/-- The slots from one on stand behind those with lower numbers. -/
theorem sheet_cut (v : NodeView) (n size : Nat) (id : PageId) (i : Nat) :
    v.sheet n size id = (v.front n id ++ row (v.slots.take i)) ++
      (row (v.slots.drop i) ++ Bytes.zeros (size - Node.slotOffset v.slots.length)) := by
  have hcut : row v.slots = row (v.slots.take i) ++ row (v.slots.drop i) := by
    rw [← row_append, List.take_append_drop]
  simp only [sheet, hcut, List.append_assoc]

theorem length_before_slot (hi : i ≤ v.slots.length) :
    (v.front n id ++ row (v.slots.take i)).length = Node.slotOffset i := by
  rw [List.length_append, length_front, length_row, List.length_take, Nat.min_eq_left hi]
  rfl

/-- The zeros behind the slots have room for one more. -/
theorem zeros_behind (hlarge : minPageSize ≤ size) (hroom : i < Node.capacity size) :
    Bytes.zeros (size - Node.slotOffset i) =
      Bytes.zeros 8 ++ Bytes.zeros (size - Node.slotOffset (i + 1)) := by
  have hfit := slotOffset_le hlarge hroom
  rw [← Bytes.zeros_add]
  congr 1
  simp only [Node.slotOffset, Node.slotSize] at hfit ⊢
  omega

/-- A slot in use is written. -/
theorem writeSlot_sheet_set (hi : i < v.slots.length) (data : PageId) :
    Field.writeU64 (Node.slotOffset i) data (v.sheet n size id) =
      .ok () (sheet { v with slots := v.slots.set i data } n size id) := by
  have hold : v.slots.drop i = v.slots[i] :: v.slots.drop (i + 1) := List.drop_eq_getElem_cons hi
  have hnew : (v.slots.set i data).drop i = data :: v.slots.drop (i + 1) := by
    rw [List.drop_eq_getElem_cons (by rwa [List.length_set]), List.getElem_set_self,
      List.drop_set_of_lt (Nat.lt_succ_self i)]
  have hfront : front { v with slots := v.slots.set i data } n id = v.front n id := rfl
  rw [sheet_cut v n size id i, sheet_cut _ n size id i, hfront]
  simp only [hold, hnew, List.take_set_of_le (Nat.le_refl i), List.length_set, row_cons]
  rw [List.append_assoc (bytesOfU64 _), List.append_assoc (bytesOfU64 _),
    Field.writeU64_between data (length_before_slot (Nat.le_of_lt hi)) (length_bytesOfU64 _)]

/-- The slot behind those in use is written. -/
theorem writeSlot_sheet_append (hlarge : minPageSize ≤ size)
    (hroom : v.slots.length < Node.capacity size) (data : PageId) :
    Field.writeU64 (Node.slotOffset v.slots.length) data (v.sheet n size id) =
      .ok () (sheet { v with slots := v.slots ++ [data] } n size id) := by
  have hbefore : (v.front n id ++ row v.slots).length = Node.slotOffset v.slots.length := by
    rw [← length_before_slot (Nat.le_refl _), List.take_length]
  simp only [sheet, zeros_behind hlarge hroom, row_append, row_cons, row_nil, List.append_nil,
    List.length_append, List.length_singleton, List.append_assoc]
  rw [← List.append_assoc, Field.writeU64_between data hbefore (Bytes.length_zeros 8),
    List.append_assoc]
  rfl

/-- A null slot behind the others looks like a slot that is not in use. -/
theorem sheet_snoc_null (hlarge : minPageSize ≤ size) (hroom : ids.length < Node.capacity size) :
    sheet { v with slots := ids ++ [0] } n size id = sheet { v with slots := ids } n size id := by
  have hnull : bytesOfU64 0 = Bytes.zeros 8 := by decide
  simp only [sheet, zeros_behind hlarge hroom, row_append, row_cons, row_nil, List.append_nil,
    hnull, List.length_append, List.length_singleton, List.append_assoc]
  rfl

/-- The slots behind one move up by one, and what was the last of them is blank. -/
theorem moveUp_sheet (hlarge : minPageSize ≤ size) (hi : i < v.slots.length)
    (hroom : v.slots.length ≤ Node.capacity size) :
    Field.write (Node.slotOffset i) (row (v.slots.drop (i + 1)) ++ bytesOfU64 0)
      (v.sheet n size id) = .ok () (sheet { v with slots := v.slots.eraseIdx i } n size id) := by
  have herased : (v.slots.eraseIdx i).length + 1 = v.slots.length := by
    rw [List.length_eraseIdx_of_lt hi]
    omega
  have hold : (row (v.slots.drop i)).length =
      (row (v.slots.drop (i + 1)) ++ bytesOfU64 0).length := by
    rw [List.length_append, length_row, length_row, length_bytesOfU64, List.length_drop,
      List.length_drop]
    simp only [Node.slotSize]
    omega
  have hnew : sheet { v with slots := v.slots.eraseIdx i ++ [0] } n size id =
      (v.front n id ++ row (v.slots.take i)) ++ ((row (v.slots.drop (i + 1)) ++ bytesOfU64 0) ++
        Bytes.zeros (size - Node.slotOffset v.slots.length)) := by
    simp only [sheet, List.length_append, List.length_singleton, herased]
    simp only [List.eraseIdx_eq_take_drop_succ, row_append, row_cons, row_nil, List.append_nil,
      List.append_assoc]
    rfl
  -- a page with a null slot at the end is the page without this slot
  have hblank := @sheet_snoc_null v n size id (v.slots.eraseIdx i) hlarge (by omega)
  rw [← hblank, hnew, sheet_cut _ _ _ _ i]
  exact Field.write_between (length_before_slot (Nat.le_of_lt hi)) hold

/-! ### Reading -/

theorem parse_sheet (hlarge : minPageSize ≤ size) (hroom : v.slots.length ≤ Node.capacity size) :
    PageHeader.parse (v.sheet n size id) = .ok ⟨nodeType, 1, id⟩ := by
  have hlength : PageHeader.size ≤ (v.sheet n size id).length := by
    rw [length_sheet hlarge hroom]
    exact Nat.le_trans (by decide) hlarge
  have hsheet : ∃ behind, v.sheet n size id = bytesOfU16 nodeType ++ (bytesOfU16 1 ++
      (Bytes.zeros 4 ++ (bytesOfU64 id ++ behind))) := by
    simp only [sheet, front, Node.head, List.append_assoc]
    exact ⟨_, rfl⟩
  obtain ⟨behind, hsheet⟩ := hsheet
  -- every field of the header can be written without a change
  have htype : Field.writeU16 0 nodeType (v.sheet n size id) = .ok () (v.sheet n size id) := by
    rw [hsheet]
    exact Field.write_first rfl
  have hversion : Field.writeU16 2 1 (v.sheet n size id) = .ok () (v.sheet n size id) := by
    rw [hsheet]
    exact Field.write_between (length_bytesOfU16 _) rfl
  have hpage : Field.writeU64 8 id (v.sheet n size id) = .ok () (v.sheet n size id) := by
    rw [hsheet, ← List.append_assoc, ← List.append_assoc]
    exact Field.write_between rfl rfl
  rw [PageHeader.parse_eq hlength, Field.readU16_of_write htype, Field.readU16_of_write hversion,
    Field.readU64_of_write hpage]
  rfl

/-- The image of a view says what the view says. -/
theorem on_image (hlarge : minPageSize ≤ size) (hroom : v.slots.length ≤ Node.capacity size)
    (hlt : v.slots.length < 2 ^ 16) : v.On size id (v.image size id) := by
  have hlength : (v.image size id).length = size := length_sheet hlarge hroom
  -- writing what is there already changes nothing, which tells what is there
  refine ⟨hlarge, hlength, parse_sheet hlarge hroom, Field.readU64_of_write (setPrev_sheet v.prev),
    Field.readU64_of_write (setNext_sheet v.next), Node.count_eq_ok.2 ⟨?_, hlt, ?_⟩,
    fun i a hi => Field.readU64_of_write ?_⟩
  · exact Field.readU16_of_write (setCount_sheet _)
  · rwa [hlength]
  · obtain ⟨hused, rfl⟩ := List.getElem?_eq_some_iff.1 hi
    have hwrite := @writeSlot_sheet_set v v.slots.length size i id hused v.slots[i]
    rwa [List.set_getElem_self hused] at hwrite

/-- A page that becomes a node without slots, whatever stood there. -/
theorem initNewPage_image {page : Bytes} (hlarge : minPageSize ≤ size) (hpage : page.length = size)
    (id : PageId) :
    NodeFormat.v1.initNewPage id size page = .ok () (image ⟨0, 0, []⟩ size id) := by
  have hlarge' : 64 ≤ size := hlarge
  have hblank : Bytes.zeros size = Bytes.zeros PageHeader.size ++ Bytes.zeros (size - 16) := by
    rw [← Bytes.zeros_add]
    congr 1
    simp only [PageHeader.size]
    omega
  have himage : image ⟨0, 0, []⟩ size id = Node.head id ++ Bytes.zeros (size - 16) := by
    have hnull : bytesOfU64 0 = Bytes.zeros 8 := by decide
    have hcount : bytesOfU16 (UInt16.ofNat 0) = Bytes.zeros 2 := by decide
    simp only [image, sheet, front, row_nil, List.length_nil, List.append_assoc, hnull, hcount,
      List.nil_append, ← Bytes.zeros_add]
    congr 2
    simp only [Node.slotOffset, Node.slotsOffset]
    omega
  have hformat : NodeFormat.v1.initNewPage id size = Node.format ⟨nodeType, 1, id⟩ size := rfl
  rw [hformat, format_eq hlarge hpage, hblank, himage, Node.write_head]

/-! ### Changing slots -/

/-- The slots in use once one of them, or the first behind them, is filled. -/
def put (slots : List PageId) (i : Nat) (data : PageId) : List PageId :=
  if i = slots.length then slots ++ [data] else slots.set i data

section Slots

variable {data : PageId} (hlarge : minPageSize ≤ size)
include hlarge

/-- A slot gets a page number. -/
theorem setPageAt_image (hroom : i < Node.capacity size) (hi : i ≤ v.slots.length)
    (hon : v.On size id (v.image size id)) :
    Node.setPageAt i data size (v.image size id) =
      .ok () (image { v with slots := put v.slots i data } size id) := by
  simp only [Node.setPageAt, if_neg (Nat.not_le.2 hroom)]
  rw [Act.bind_of_ok (Act.look_of_ok hon.count)]
  simp only [if_neg (Nat.not_lt.2 hi)]
  by_cases htop : i = v.slots.length
  · subst htop
    rw [image, Act.bind_of_ok (writeSlot_sheet_append hlarge hroom data)]
    simp only [if_true]
    rw [setCount_sheet, image, put, if_pos rfl, List.length_append, List.length_singleton]
  · rw [image, Act.bind_of_ok (writeSlot_sheet_set (Nat.lt_of_le_of_ne hi htop) data), put,
      if_neg htop]
    simp only [if_neg htop, image, List.length_set]
    rfl

/-- The last slot is emptied. -/
theorem removeAt_image (hslots : v.slots = ids ++ [data])
    (hon : v.On size id (v.image size id)) :
    Node.removeAt ids.length data (v.image size id) =
      .ok true (image { v with slots := ids } size id) := by
  have hlength : v.slots.length = ids.length + 1 := by rw [hslots, List.length_append]; rfl
  have hroom := hon.length_slots_le
  have hlast : v.slots[ids.length]? = some data := by rw [hslots]; simp
  have hcleared : v.slots.set ids.length 0 = ids ++ [0] := by
    rw [hslots, List.set_append_right _ _ (Nat.le_refl _), Nat.sub_self]
    rfl
  -- the cleared slot joins the zeros behind while the count still takes it in
  have hwrite := @writeSlot_sheet_set v v.slots.length size ids.length id (by omega) 0
  rw [hcleared, sheet_snoc_null hlarge (by omega)] at hwrite
  rw [Node.removeAt_eq data hon.count (by omega) (hon.pageAt hlast), if_neg (not_not.2 rfl),
    if_neg (not_not.2 hlength.symm), image, Act.bind_of_ok hwrite,
    Act.bind_of_ok (setCount_sheet _)]
  rfl

/-- A slot is taken out; those behind it move up. -/
theorem remove_image (hfind : v.slots.findIdx? (· == data) = some i)
    (hon : v.On size id (v.image size id)) :
    Node.remove data (v.image size id) =
      .ok true (image { v with slots := v.slots.eraseIdx i } size id) := by
  have hi : i < v.slots.length := (List.findIdx?_eq_some_iff_getElem.1 hfind).1
  have herased : (v.slots.eraseIdx i).length = v.slots.length - 1 := List.length_eraseIdx_of_lt hi
  have hmoved : ((v.image size id).drop (Node.slotOffset (i + 1))).take
      ((v.slots.length - (i + 1)) * Node.slotSize) = row (v.slots.drop (i + 1)) := by
    have hbefore := @length_before_slot v v.slots.length (i + 1) id hi
    rw [image, sheet_cut _ _ _ _ (i + 1), ← hbefore, List.drop_left]
    refine List.take_left' ?_
    rw [length_row, List.length_drop]
  rw [Node.remove, Act.bind_of_ok (Act.look_of_ok hon.slots_eq)]
  simp only [hfind]
  rw [Act.get_bind, hmoved, image, Act.bind_of_ok (moveUp_sheet hlarge hi hon.length_slots_le),
    Act.bind_of_ok (setCount_sheet _), image, herased]
  rfl

end Slots

end NodeView

/-! ### Operations -/

/-- A change of a node page. -/
inductive NodeOp where
  /-- The node before is set. -/
  | setPrev (prev : PageId)
  /-- The node behind is set. -/
  | setNext (next : PageId)
  /-- A page number goes behind the others. -/
  | add (data : PageId)
  /-- A slot gets a page number. -/
  | setPageAt (idx : Nat) (data : PageId)
  /-- A page number is removed from the first slot that holds it. -/
  | remove (data : PageId)
  /-- The last slot is emptied. -/
  | removeAt (idx : Nat) (data : PageId)
  deriving DecidableEq, Repr

/-- What a change of a node page answers. -/
inductive NodeAnswer where
  /-- It was made. -/
  | done
  /-- The slot that the page number went to. -/
  | slot (idx : Nat)
  /-- Whether the page number was there. -/
  | found (yes : Bool)
  deriving DecidableEq, Repr

namespace NodeOp

/-- The operation on the bytes of a page of `size` bytes. -/
def run (size : Nat) : NodeOp → Act Bytes NodeAnswer
  | .setPrev prev => do Node.setPrev prev; return .done
  | .setNext next => do Node.setNext next; return .done
  | .add data => do return .slot (← NodeFormat.v1.add data size)
  | .setPageAt idx data => do Node.setPageAt idx data size; return .done
  | .remove data => do return .found (← Node.remove data)
  | .removeAt idx data => do return .found (← Node.removeAt idx data)

/-- The operation on lists, where there is room for `capacity` page numbers. -/
def onList (capacity : Nat) (op : NodeOp) : Act NodeView NodeAnswer := do
  let v ← get
  match op with
  | .setPrev prev =>
      set { v with prev := prev }
      return .done
  | .setNext next =>
      set { v with next := next }
      return .done
  | .add data =>
      if capacity ≤ v.slots.length then throw (.invalid .nodeFull)
      set { v with slots := v.slots ++ [data] }
      return .slot v.slots.length
  | .setPageAt idx data =>
      if capacity ≤ idx then throw (.invalid .slotPastCapacity)
      if v.slots.length < idx then throw (.invalid .slotGap)
      set { v with slots := NodeView.put v.slots idx data }
      return .done
  | .remove data =>
      set { v with slots := v.slots.erase data }
      return .found (v.slots.contains data)
  | .removeAt idx data =>
      if v.slots[idx]? ≠ some data then return .found false
      if idx + 1 ≠ v.slots.length then throw (.invalid .removalNotLast)
      set { v with slots := v.slots.dropLast }
      return .found true

variable {v : NodeView} {size : Nat} {id : PageId}

section Image

variable {data : PageId} {idx : Nat} (hlarge : minPageSize ≤ size)
  (hon : v.On size id (v.image size id))
include hlarge hon

theorem run_add : (add data).run size (v.image size id) =
    Act.pictured (NodeView.image · size id) ((add data).onList (Node.capacity size) v) := by
  simp only [run, onList]
  rw [Act.get_bind]
  by_cases hfull : Node.capacity size ≤ v.slots.length
  · have hadd : NodeFormat.v1.add data size (v.image size id) =
        .error (.invalid .nodeFull) (v.image size id) := by
      rw [NodeFormat.add, Node.addWithin, Act.bind_of_ok (Act.look_of_ok hon.count)]
      exact congrFun (if_pos hfull) _
    simp only [if_pos hfull]
    exact Act.bind_of_error hadd
  · have hroom := Nat.not_le.1 hfull
    obtain ⟨page', hset, hadd, -⟩ := hon.add hroom data
    rw [NodeView.setPageAt_image hlarge hroom (Nat.le_refl _) hon, NodeView.put, if_pos rfl] at hset
    cases hset
    simp only [if_neg hfull]
    exact Act.bind_of_ok hadd

theorem run_setPageAt : (setPageAt idx data).run size (v.image size id) =
    Act.pictured (NodeView.image · size id)
      ((setPageAt idx data).onList (Node.capacity size) v) := by
  simp only [run, onList]
  rw [Act.get_bind]
  by_cases hpast : Node.capacity size ≤ idx
  · have hset : Node.setPageAt idx data size (v.image size id) =
        .error (.invalid .slotPastCapacity) (v.image size id) := congrFun (if_pos hpast) _
    simp only [if_pos hpast]
    exact Act.bind_of_error hset
  by_cases hgap : v.slots.length < idx
  · have hset : Node.setPageAt idx data size (v.image size id) =
        .error (.invalid .slotGap) (v.image size id) := by
      simp only [Node.setPageAt, if_neg hpast]
      rw [Act.bind_of_ok (Act.look_of_ok hon.count)]
      exact congrFun (if_pos hgap) _
    simp only [if_neg hpast, if_pos hgap]
    exact Act.bind_of_error hset
  · simp only [if_neg hpast, if_neg hgap]
    exact Act.bind_of_ok
      (NodeView.setPageAt_image hlarge (Nat.not_le.1 hpast) (Nat.not_lt.1 hgap) hon)

theorem run_remove : (remove data).run size (v.image size id) =
    Act.pictured (NodeView.image · size id) ((remove data).onList (Node.capacity size) v) := by
  simp only [run, onList]
  rw [Act.get_bind]
  cases hfind : v.slots.findIdx? (· == data) with
  | none =>
    have hnone : data ∉ v.slots := by
      intro hmem
      simpa using List.findIdx?_eq_none_iff.1 hfind data hmem
    have hremove : Node.remove data (v.image size id) = .ok false (v.image size id) := by
      rw [Node.remove, Act.bind_of_ok (Act.look_of_ok hon.slots_eq)]
      simp only [hfind]
      rfl
    rw [Act.bind_of_ok hremove, List.erase_of_not_mem hnone, List.contains_eq_mem,
      decide_eq_false hnone]
    rfl
  | some i =>
    -- the list erases the same place that the page looks for
    have hmem : data ∈ v.slots := by
      obtain ⟨hi, hdata, -⟩ := List.findIdx?_eq_some_iff_getElem.1 hfind
      rw [← eq_of_beq hdata]
      exact List.getElem_mem hi
    have herase : v.slots.erase data = v.slots.eraseIdx i := by
      rw [List.erase_eq_eraseP', List.eraseP_eq_eraseIdx, hfind]
    rw [Act.bind_of_ok (NodeView.remove_image hlarge hfind hon), herase, List.contains_eq_mem,
      decide_eq_true hmem]
    rfl

theorem run_removeAt : (removeAt idx data).run size (v.image size id) =
    Act.pictured (NodeView.image · size id)
      ((removeAt idx data).onList (Node.capacity size) v) := by
  simp only [run, onList]
  rw [Act.get_bind]
  by_cases hholds : v.slots[idx]? = some data
  · have hidx := (List.getElem?_eq_some_iff.1 hholds).1
    simp only [if_neg (not_not.2 hholds)]
    by_cases hlast : idx + 1 = v.slots.length
    · have hslots : v.slots = v.slots.dropLast ++ [data] := by
        refine (List.dropLast_append_getLast? data ?_).symm
        rw [Option.mem_def, List.getLast?_eq_getElem?, ← hlast, Nat.add_sub_cancel, hholds]
      have hlength : v.slots.dropLast.length = idx := by
        rw [List.length_dropLast]
        omega
      -- the last slot goes
      have hremove := NodeView.removeAt_image hlarge hslots hon
      rw [hlength] at hremove
      simp only [if_neg (not_not.2 hlast)]
      exact Act.bind_of_ok hremove
    · have hremove : Node.removeAt idx data (v.image size id) =
          .error (.invalid .removalNotLast) (v.image size id) := by
        rw [Node.removeAt_eq data hon.count hidx (hon.pageAt hholds), if_neg (not_not.2 rfl),
          if_pos hlast]
      simp only [if_pos hlast]
      exact Act.bind_of_error hremove
  · have hremove : Node.removeAt idx data (v.image size id) = .ok false (v.image size id) := by
      -- the slot holds something else, or is not there at all
      by_cases hidx : idx < v.slots.length
      · have hother := List.getElem?_eq_getElem hidx
        rw [Node.removeAt_eq data hon.count hidx (hon.pageAt hother), if_pos]
        rintro rfl
        exact hholds hother
      · rw [Node.removeAt, Act.bind_of_ok (Act.look_of_ok hon.count)]
        exact congrFun (if_pos (Nat.not_lt.1 hidx)) _
    simp only [if_pos hholds]
    exact Act.bind_of_ok hremove

/-- One operation on an image is the picture of the same operation on lists. -/
theorem run_image (op : NodeOp) : op.run size (v.image size id) =
    Act.pictured (NodeView.image · size id) (op.onList (Node.capacity size) v) := by
  cases op with
  | setPrev prev => exact Act.bind_of_ok (NodeView.setPrev_sheet prev)
  | setNext next => exact Act.bind_of_ok (NodeView.setNext_sheet next)
  | add data => exact run_add hlarge hon
  | setPageAt idx data => exact run_setPageAt hlarge hon
  | remove data => exact run_remove hlarge hon
  | removeAt idx data => exact run_removeAt hlarge hon

end Image

/-- No operation takes a list beyond the room there is. -/
theorem fits_onList {capacity : Nat} (op : NodeOp) (v : NodeView)
    (hroom : v.slots.length ≤ capacity) :
    ((op.onList capacity).left v).slots.length ≤ capacity := by
  unfold Act.left onList
  rw [Act.get_bind]
  cases op with
  | setPrev prev => exact hroom
  | setNext next => exact hroom
  | add data =>
    by_cases hfull : capacity ≤ v.slots.length
    · simp only [if_pos hfull]
      exact hroom
    · simp only [if_neg hfull]
      show (v.slots ++ [data]).length ≤ capacity
      rw [List.length_append, List.length_singleton]
      omega
  | setPageAt idx data =>
    by_cases hpast : capacity ≤ idx
    · simp only [if_pos hpast]
      exact hroom
    -- the slot is one of those there are, or the one behind them
    by_cases hgap : v.slots.length < idx
    · simp only [if_neg hpast, if_pos hgap]
      exact hroom
    · simp only [if_neg hpast, if_neg hgap]
      show (NodeView.put v.slots idx data).length ≤ capacity
      rw [NodeView.put]
      split
      · rw [List.length_append, List.length_singleton]
        omega
      · rwa [List.length_set]
  | remove data => exact Nat.le_trans List.length_erase_le hroom
  | removeAt idx data =>
    by_cases hholds : v.slots[idx]? = some data
    · by_cases hlast : idx + 1 = v.slots.length
      · simp only [if_neg (not_not.2 hholds), if_neg (not_not.2 hlast)]
        exact Nat.le_trans (List.length_dropLast ▸ Nat.sub_le ..) hroom
      · simp only [if_neg (not_not.2 hholds), if_pos hlast]
        exact hroom
    · simp only [if_pos hholds]
      exact hroom

/-- **All node pages are images of lists.**  A page of fewer than 524328 bytes becomes a node,
whatever stood on it, and any operations follow, successful or not.  Each answers what the same
operation answers on lists, the page is the image of what these come to, and reading the page gives
it back. -/
theorem pages_are_images {page : Bytes} (hlarge : minPageSize ≤ size) (hsmall : size < 524328)
    (hpage : page.length = size) (id : PageId) (ops : List NodeOp) :
    let listed := Act.series (onList (Node.capacity size)) ops ⟨0, 0, []⟩
    let image := listed.2.image size id
    (∃ blank, NodeFormat.v1.initNewPage id size page = .ok () blank ∧
      Act.series (run size) ops blank = (listed.1, image)) ∧
    Node.prev image = .ok listed.2.prev ∧ Node.next image = .ok listed.2.next ∧
      Node.count image = .ok listed.2.slots.length ∧ Node.slots image = .ok listed.2.slots ∧
      ∀ i, Node.pageAt image i =
        (listed.2.slots[i]?).elim (.error (.invalid .slotPastCount)) .ok := by
  intro listed image
  have hcapacity : Node.capacity size ≤ 65535 := Node.capacity_le_iff.2 hsmall
  have hon : ∀ v : NodeView, v.slots.length ≤ Node.capacity size →
      v.On size id (v.image size id) := by
    intro v hroom
    exact NodeView.on_image hlarge hroom (by omega)
  have hempty : (⟨0, 0, []⟩ : NodeView).slots.length ≤ Node.capacity size := Nat.zero_le _
  -- the picture is kept by each operation, and so by all of them
  obtain ⟨hrun, hroom⟩ := Act.series_picture (NodeView.image · size id)
    (fun v => v.slots.length ≤ Node.capacity size)
    (fun op v hroom => run_image hlarge (hon v hroom) op) fits_onList ops hempty
  have himage := hon listed.2 hroom
  refine ⟨⟨_, NodeView.initNewPage_image hlarge hpage id, hrun⟩, himage.prev, himage.next,
    himage.count, himage.slots_eq, fun i => ?_⟩
  cases hi : listed.2.slots[i]? with
  | some a => exact himage.pageAt hi
  | none => exact himage.pageAt_past (List.getElem?_eq_none_iff.1 hi)

/-- A page of 64 bytes, which has room for three slots, is filled and emptied again but for one
slot; what cannot be done is refused. -/
theorem pages_are_images_of_three_slots :
    let ops : List NodeOp := [add 5, add 6, setPageAt 1 7, setNext 9, add 8, add 10, remove 5,
      removeAt 0 5, removeAt 0 7, removeAt 1 8, setPageAt 3 1, setPageAt 2 1]
    let answers : List (Result NodeAnswer) := [.ok (.slot 0), .ok (.slot 1), .ok .done, .ok .done,
      .ok (.slot 2), .error (.invalid .nodeFull), .ok (.found true), .ok (.found false),
      .error (.invalid .removalNotLast), .ok (.found true), .error (.invalid .slotPastCapacity),
      .error (.invalid .slotGap)]
    let image : Bytes := [0, 12, 0, 1, 0, 0, 0, 0] ++ bytesOfU64 3 ++ bytesOfU64 0 ++
      bytesOfU64 9 ++ [0, 1, 0, 0, 0, 0, 0, 0] ++ bytesOfU64 7 ++ Bytes.zeros 16
    (∃ blank, NodeFormat.v1.initNewPage 3 64 (List.replicate 64 255) = .ok () blank ∧
      Act.series (run 64) ops blank = (answers, image)) ∧ Node.slots image = .ok [7] := by
  intro ops answers image
  have hlisted : Act.series (onList (Node.capacity 64)) ops ⟨0, 0, []⟩ =
      (answers, ⟨0, 9, [7]⟩) := by
    decide +kernel
  have himage : NodeView.image ⟨0, 9, [7]⟩ 64 3 = image := by decide +kernel
  have hpage : (List.replicate 64 255 : Bytes).length = 64 := List.length_replicate
  have hall := pages_are_images (by decide) (by decide) hpage 3 ops
  simp only [hlisted, himage] at hall
  exact ⟨hall.1, hall.2.2.2.2.1⟩

end NodeOp
end PageLog
