import PageLog.FreeList.Basic
import PageLog.Proofs.Act
import PageLog.Proofs.Bytes
import PageLog.Proofs.Changes

/-!
# What node pages say

A node page is described by what is read from it: the nodes before and behind it and the page
numbers in its slots.  Each change of a node page changes one of these.  Filling the slot that
brings the count to 65536 is the exception: the count has 16 bits, so that afterwards no slot counts
as used.

## Main definitions

* `NodeView` — what a node page says.
* `NodeView.On` — these bytes are a node that says so.
* `NodeView.In` — so does a page among the contents of all pages.

## Main results

* `NodeView.On.pageAt`, `NodeView.On.slots_eq` — what the slots hold.
* `NodeView.On.setNext`, `NodeView.On.setPageAt`, `NodeView.On.removeAt` — steps on the bytes.
* `NodeView.In.change_setNext`, `NodeView.In.change_add`, `NodeView.In.change_remove`,
  `NodeView.change_init` — the changes of a page.
-/

namespace PageLog

/-! ### Fields beside a write -/

namespace Field

variable {page data : Bytes} {off : Nat}

theorem readU64_beside (h : off + data.length ≤ page.length) {o : Nat}
    (hdisj : o + 8 ≤ off ∨ off + data.length ≤ o) :
    readU64 (Bytes.overwrite page off data) o = readU64 page o := by
  rw [readU64, readU64, read_overwrite_of_disjoint h hdisj]

theorem readU16_beside (h : off + data.length ≤ page.length) {o : Nat}
    (hdisj : o + 2 ≤ off ∨ off + data.length ≤ o) :
    readU16 (Bytes.overwrite page off data) o = readU16 page o := by
  rw [readU16, readU16, read_overwrite_of_disjoint h hdisj]

theorem readU64_there {v : UInt64} (h : off + 8 ≤ page.length) :
    readU64 (Bytes.overwrite page off (bytesOfU64 v)) off = .ok v := by
  have hread : read (Bytes.overwrite page off (bytesOfU64 v)) off (bytesOfU64 v).length = _ :=
    read_overwrite_self (by rwa [length_bytesOfU64])
  rw [length_bytesOfU64] at hread
  rw [readU64, hread, Except.map, Bytes.toU64_bytesOfU64]

theorem readU16_there {v : UInt16} (h : off + 2 ≤ page.length) :
    readU16 (Bytes.overwrite page off (bytesOfU16 v)) off = .ok v := by
  have hread : read (Bytes.overwrite page off (bytesOfU16 v)) off (bytesOfU16 v).length = _ :=
    read_overwrite_self (by rwa [length_bytesOfU16])
  rw [length_bytesOfU16] at hread
  rw [readU16, hread, Except.map, Bytes.toU16_bytesOfU16]

theorem writeU64_ok {v : UInt64} (h : off + 8 ≤ page.length) :
    writeU64 off v page = .ok () (Bytes.overwrite page off (bytesOfU64 v)) :=
  write_eq_ok (by rwa [length_bytesOfU64])

theorem writeU32_ok {v : UInt32} (h : off + 4 ≤ page.length) :
    writeU32 off v page = .ok () (Bytes.overwrite page off (bytesOfU32 v)) :=
  write_eq_ok (by rwa [length_bytesOfU32])

theorem writeU16_ok {v : UInt16} (h : off + 2 ≤ page.length) :
    writeU16 off v page = .ok () (Bytes.overwrite page off (bytesOfU16 v)) :=
  write_eq_ok (by rwa [length_bytesOfU16])

/-- A field that does not lie within the page is not written. -/
theorem write_refused (h : page.length < off + data.length) :
    write off data page = .error (.invalid .fieldOutOfBounds) page := by
  rw [write, Bytes.window_eq_none h]

/-- A field in the first bytes of a page is read from these bytes alone. -/
theorem read_take {n w : Nat} (h : off + w ≤ n) (hn : n ≤ page.length) :
    read (page.take n) off w = read page off w := by
  rw [read_eq_ok (by rw [List.length_take]; omega), read_eq_ok (by omega), List.drop_take,
    List.take_take, Nat.min_eq_left (by omega)]

theorem readU64_zeros {n : Nat} (h : off + 8 ≤ n) : readU64 (Bytes.zeros n) off = .ok 0 := by
  rw [readU64, read_eq_ok (by rwa [Bytes.length_zeros]), Bytes.zeros, List.drop_replicate,
    List.take_replicate, Nat.min_eq_left (by omega)]
  rfl

theorem readU16_zeros {n : Nat} (h : off + 2 ≤ n) : readU16 (Bytes.zeros n) off = .ok 0 := by
  rw [readU16, read_eq_ok (by rwa [Bytes.length_zeros]), Bytes.zeros, List.drop_replicate,
    List.take_replicate, Nat.min_eq_left (by omega)]
  rfl

end Field

/-! ### Headers -/

namespace PageHeader

variable {page data : Bytes}

/-- The header is read field by field from the beginning of the page. -/
theorem parse_eq (h : size ≤ page.length) :
    parse page = do
      let ioType ← Field.readU16 page 0
      let ioVersion ← Field.readU16 page 2
      let pageId ← Field.readU64 page 8
      return ⟨ioType, ioVersion, pageId⟩ := by
  have hwindow : Bytes.window page 0 size = some (page.take size) := by
    rw [Bytes.window_eq_some (by omega), List.drop_zero]
  rw [parse, hwindow]
  simp only [Field.readU16, Field.readU64]
  rw [Field.read_take (by decide) h, Field.read_take (by decide) h, Field.read_take (by decide) h]

/-- A write behind the header leaves the header alone. -/
theorem parse_beside {off : Nat} (h : off + data.length ≤ page.length) (hoff : size ≤ off) :
    parse (Bytes.overwrite page off data) = parse page := by
  have hoff' : 16 ≤ off := hoff
  rw [parse_eq (by rw [Bytes.length_overwrite h]; omega), parse_eq (by omega),
    Field.readU16_beside h (.inl (by omega)), Field.readU16_beside h (.inl (by omega)),
    Field.readU64_beside h (.inl (by omega))]

/-- A header that was written is read back, and what stands behind it stays. -/
theorem write_ok (header : PageHeader) (h : size ≤ page.length) :
    ∃ page', header.write page = .ok () page' ∧ page'.length = page.length ∧
      parse page' = .ok header ∧
      ∀ off width, size ≤ off → Field.read page' off width = Field.read page off width := by
  have h' : 16 ≤ page.length := h
  -- the pages between the four writes
  generalize hp₁ : Bytes.overwrite page 0 (bytesOfU16 header.ioType) = p₁
  have hl₁ : p₁.length = page.length := by
    rw [← hp₁, Bytes.length_overwrite (by rw [length_bytesOfU16]; omega)]
  generalize hp₂ : Bytes.overwrite p₁ 2 (bytesOfU16 header.ioVersion) = p₂
  have hl₂ : p₂.length = page.length := by
    rw [← hp₂, Bytes.length_overwrite (by rw [length_bytesOfU16]; omega), hl₁]
  generalize hp₃ : Bytes.overwrite p₂ 4 (bytesOfU32 0) = p₃
  have hl₃ : p₃.length = page.length := by
    rw [← hp₃, Bytes.length_overwrite (by rw [length_bytesOfU32]; omega), hl₂]
  have hfit₁ : 0 + (bytesOfU16 header.ioType).length ≤ page.length := by
    rw [length_bytesOfU16]
    omega
  have hfit₂ : 2 + (bytesOfU16 header.ioVersion).length ≤ p₁.length := by
    rw [length_bytesOfU16]
    omega
  have hfit₃ : 4 + (bytesOfU32 0).length ≤ p₂.length := by
    rw [length_bytesOfU32]
    omega
  have hfit₄ : 8 + (bytesOfU64 header.pageId).length ≤ p₃.length := by
    rw [length_bytesOfU64]
    omega
  have hl₄ := Bytes.length_overwrite hfit₄
  refine ⟨Bytes.overwrite p₃ 8 (bytesOfU64 header.pageId), ?_, by rw [hl₄, hl₃], ?_, ?_⟩
  · rw [write, Act.bind_of_ok (Field.writeU16_ok (by omega)), hp₁,
      Act.bind_of_ok (Field.writeU16_ok (by omega)), hp₂,
      Act.bind_of_ok (Field.writeU32_ok (by omega)), hp₃, Field.writeU64_ok (by omega)]
  · -- each field is read where it was written, and the later writes are beside it
    have htype : Field.readU16 (Bytes.overwrite p₃ 8 (bytesOfU64 header.pageId)) 0 =
        .ok header.ioType := by
      rw [Field.readU16_beside hfit₄ (.inl (by decide)), ← hp₃,
        Field.readU16_beside hfit₃ (.inl (by decide)), ← hp₂,
        Field.readU16_beside hfit₂ (.inl (by decide)), ← hp₁, Field.readU16_there (by omega)]
    have hversion : Field.readU16 (Bytes.overwrite p₃ 8 (bytesOfU64 header.pageId)) 2 =
        .ok header.ioVersion := by
      rw [Field.readU16_beside hfit₄ (.inl (by decide)), ← hp₃,
        Field.readU16_beside hfit₃ (.inl (by decide)), ← hp₂, Field.readU16_there (by omega)]
    rw [parse_eq (by rw [hl₄, hl₃]; exact h), htype, hversion, Field.readU64_there (by omega)]
    rfl
  · intro off width hoff
    have hoff' : 16 ≤ off := hoff
    rw [Field.read_overwrite_of_disjoint hfit₄ (.inr (by rw [length_bytesOfU64]; omega)), ← hp₃,
      Field.read_overwrite_of_disjoint hfit₃ (.inr (by rw [length_bytesOfU32]; omega)), ← hp₂,
      Field.read_overwrite_of_disjoint hfit₂ (.inr (by rw [length_bytesOfU16]; omega)), ← hp₁,
      Field.read_overwrite_of_disjoint hfit₁ (.inr (by rw [length_bytesOfU16]; omega))]

end PageHeader

/-! ### Changes of a page -/

/-- On a page that has room for it a change is carried out as it is. -/
theorem Record.apply_delta {m : Memory} {g : GroupId} {size : Nat} {page : Bytes}
    (hsize : m.pageSize g = .ok size) (hroom : size ≤ page.length)
    {d : PageDelta} (hd : d.target.group = g) :
    (Record.delta d).apply m page = d.apply m.formats size page := by
  have hlook : Act.ofResult (m.pageSize g) page = .ok size page :=
    Act.ofResult_eq_ok.2 ⟨hsize, rfl⟩
  simp only [Record.apply, hd]
  rw [Act.bind_of_ok hlook, Act.get_bind]
  simp only [if_neg (Nat.not_lt.2 hroom)]

/-- A record that can be applied is a change of a page that is not smaller than the group's. -/
theorem Record.apply_eq_ok {r : Record} {m : Memory} {page page' : Bytes} :
    r.apply m page = .ok () page' ↔
      ∃ d size, r = .delta d ∧ m.pageSize d.target.group = .ok size ∧ size ≤ page.length ∧
        d.apply m.formats size page = .ok () page' := by
  constructor
  · intro h
    cases r with
    | snapshot id full => cases h
    | checkpoint id => cases h
    | delta d =>
      obtain ⟨size, page₁, hlook, hrest⟩ := Act.bind_eq_ok.1 h
      obtain ⟨hsize, rfl⟩ := Act.ofResult_eq_ok.1 hlook
      rw [Act.get_bind] at hrest
      split at hrest
      · cases hrest
      · exact ⟨d, size, rfl, hsize, Nat.not_lt.1 ‹_›, hrest⟩
  · rintro ⟨d, size, rfl, hsize, hroom, h⟩
    rw [Record.apply_delta hsize hroom rfl, h]

/-! ### Counts and slots -/

namespace Node

/-- The count is a number of 16 bits, and no larger than the slots allow. -/
theorem count_eq_ok {page : Bytes} {n : Nat} :
    count page = .ok n ↔
      Field.readU16 page countOffset = .ok (UInt16.ofNat n) ∧ n < 2 ^ 16 ∧
        n ≤ capacity page.length := by
  unfold count
  cases hread : Field.readU16 page countOffset with
  | error e => simp [bind, Except.bind]
  | ok v =>
    have hv := v.toNat_lt
    simp only [bind, Except.bind, lacksRoom_iff]
    split
    · rename_i hlt
      constructor
      · intro h
        cases h
      · rintro ⟨h, hn, hle⟩
        cases h
        rw [UInt16.toNat_ofNat_of_lt' hn] at hlt
        omega
    · rename_i hle
      constructor
      · intro h
        cases h
        exact ⟨by rw [UInt16.ofNat_toNat], hv, Nat.not_lt.1 hle⟩
      · rintro ⟨h, hn, -⟩
        cases h
        rw [UInt16.toNat_ofNat_of_lt' hn]
        rfl

/-- The slots a page has room for lie within it. -/
theorem slotOffset_lt {size n : Nat} (h : n < capacity size) : slotOffset n + 8 ≤ size := by
  simp only [capacity, slotOffset, slotsOffset, slotSize] at h ⊢
  omega

/-- Only on pages of at least 524328 bytes there is room for a slot that the count cannot tell. -/
theorem capacity_le_iff {size : Nat} : capacity size ≤ 65535 ↔ size < 524328 := by
  simp only [capacity, slotsOffset, slotSize]
  omega

/-- Where the numbers in the slots are read from. -/
theorem getElem?_words (n : Nat) (bs : Bytes) (i : Nat) :
    (words n bs)[i]? =
      if i < n then some (Bytes.toU64 ((bs.drop (i * slotSize)).take slotSize))
      else none := by
  induction n generalizing bs i with
  | zero => simp [words]
  | succ n ih =>
    cases i with
    | zero => simp [words]
    | succ i =>
      rw [words, List.getElem?_cons_succ, ih, List.drop_drop]
      simp only [Nat.add_lt_add_iff_right, Nat.succ_mul, Nat.add_comm]

end Node

/-! ### Nodes -/

/-- What a node page says. -/
structure NodeView where
  /-- The node before. -/
  prev : PageId
  /-- The node behind. -/
  next : PageId
  /-- The page numbers in its slots. -/
  slots : List PageId
  deriving DecidableEq, Repr

namespace NodeView

/-- The bytes `page` are the page `id` of a group whose pages have `size` bytes, and a node of the
first version that says what the view says. -/
structure On (v : NodeView) (size : Nat) (id : PageId) (page : Bytes) : Prop where
  /-- Pages are not smaller than allowed. -/
  large : minPageSize ≤ size
  /-- The page has the size of the group's pages. -/
  length : page.length = size
  /-- The header names the page and the first version of the format. -/
  header : PageHeader.parse page = .ok ⟨nodeType, 1, id⟩
  /-- The node before. -/
  prev : Node.prev page = .ok v.prev
  /-- The node behind. -/
  next : Node.next page = .ok v.next
  /-- The count of slots in use. -/
  count : Node.count page = .ok v.slots.length
  /-- The slots in use. -/
  slot : ∀ (i : Nat) (a : PageId), v.slots[i]? = some a →
    Field.readU64 page (Node.slotOffset i) = .ok a

/-- The slots in use once another page number is put into the first slot behind them. -/
def filled (slots : List PageId) (data : PageId) : List PageId :=
  if slots.length + 1 < 2 ^ 16 then slots ++ [data] else []

theorem filled_sublist (slots : List PageId) (data : PageId) :
    (filled slots data).Sublist (slots ++ [data]) := by
  unfold filled
  split
  · exact .refl _
  · exact List.nil_sublist _

variable {v : NodeView} {size : Nat} {id : PageId} {page : Bytes}

theorem On.length_slots_lt (h : v.On size id page) : v.slots.length < 2 ^ 16 :=
  (Node.count_eq_ok.1 h.count).2.1

theorem On.length_slots_le (h : v.On size id page) : v.slots.length ≤ Node.capacity size := by
  rw [← h.length]
  exact (Node.count_eq_ok.1 h.count).2.2

/-- A write between the header and the count. -/
theorem On.beside (h : v.On size id page) {off : Nat} {data : Bytes}
    (hoff : PageHeader.size ≤ off) (hcount : off + data.length ≤ Node.countOffset)
    {prev next : PageId} (hprev : Node.prev (Bytes.overwrite page off data) = .ok prev)
    (hnext : Node.next (Bytes.overwrite page off data) = .ok next) :
    On ⟨prev, next, v.slots⟩ size id (Bytes.overwrite page off data) := by
  have hfit : off + data.length ≤ page.length := by
    have hlarge : 64 ≤ size := h.large
    have hcount' : off + data.length ≤ 32 := hcount
    rw [h.length]
    omega
  have hlen := Bytes.length_overwrite hfit
  refine ⟨h.large, by rw [hlen, h.length], ?_, hprev, hnext, ?_, ?_⟩
  · rw [PageHeader.parse_beside hfit hoff, h.header]
  · have hread := Node.count_eq_ok.1 h.count
    rw [Node.count_eq_ok, hlen, Field.readU16_beside hfit (.inr hcount)]
    exact hread
  · intro i a hi
    rw [Field.readU64_beside hfit (.inr ?_), h.slot i a hi]
    simp only [Node.slotOffset, Node.slotsOffset, Node.countOffset] at hcount ⊢
    omega

/-- The node behind is set. -/
theorem On.setNext (h : v.On size id page) (next : PageId) :
    ∃ page', Node.setNext next page = .ok () page' ∧
      On { v with next := next } size id page' := by
  have hfit : Node.nextOffset + 8 ≤ page.length := by
    have hlarge : 64 ≤ size := h.large
    rw [h.length]
    simp only [Node.nextOffset]
    omega
  have hfit' : Node.nextOffset + (bytesOfU64 next).length ≤ page.length := by
    rwa [length_bytesOfU64]
  refine ⟨_, Field.writeU64_ok hfit, h.beside (by decide) (by rw [length_bytesOfU64]; decide) ?_
    (Field.readU64_there hfit)⟩
  · rw [Node.prev, Field.readU64_beside hfit' (.inl (by decide))]
    exact h.prev

/-- The node before is set. -/
theorem On.setPrev (h : v.On size id page) (prev : PageId) :
    ∃ page', Node.setPrev prev page = .ok () page' ∧
      On { v with prev := prev } size id page' := by
  have hfit : Node.prevOffset + 8 ≤ page.length := by
    have hlarge : 64 ≤ size := h.large
    rw [h.length]
    simp only [Node.prevOffset]
    omega
  have hfit' : Node.prevOffset + (bytesOfU64 prev).length ≤ page.length := by
    rwa [length_bytesOfU64]
  refine ⟨_, Field.writeU64_ok hfit, h.beside (by decide) (by rw [length_bytesOfU64]; decide)
    (Field.readU64_there hfit) ?_⟩
  · rw [Node.next, Field.readU64_beside hfit' (.inr (by rw [length_bytesOfU64]; decide))]
    exact h.next

/-- The count is set, where the slots that count from then on hold certain page numbers. -/
theorem On.setCount (h : v.On size id page) {slots : List PageId} (hlt : slots.length < 2 ^ 16)
    (hle : slots.length ≤ Node.capacity size)
    (hslots : ∀ (i : Nat) (a : PageId), slots[i]? = some a →
      Field.readU64 page (Node.slotOffset i) = .ok a) {n : Nat}
    (hn : UInt16.ofNat n = UInt16.ofNat slots.length) :
    ∃ page', Node.setCount n page = .ok () page' ∧
      On { v with slots := slots } size id page' := by
  have hfit : Node.countOffset + 2 ≤ page.length := by
    have hlarge : 64 ≤ size := h.large
    rw [h.length]
    simp only [Node.countOffset]
    omega
  have hfit' : Node.countOffset + (bytesOfU16 (UInt16.ofNat n)).length ≤ page.length := by
    rwa [length_bytesOfU16]
  refine ⟨_, Field.writeU16_ok hfit, h.large, by rw [Bytes.length_overwrite hfit', h.length],
    ?_, ?_, ?_, ?_, ?_⟩
  · rw [PageHeader.parse_beside hfit' (by decide), h.header]
  · rw [Node.prev, Field.readU64_beside hfit' (.inl (by decide))]
    exact h.prev
  · rw [Node.next, Field.readU64_beside hfit' (.inl (by decide))]
    exact h.next
  · rw [Node.count_eq_ok, Field.readU16_there hfit, Bytes.length_overwrite hfit', h.length, hn]
    exact ⟨rfl, hlt, hle⟩
  · intro i a hi
    rw [Field.readU64_beside hfit' (.inr ?_), hslots i a hi]
    rw [length_bytesOfU16]
    simp only [Node.countOffset, Node.slotOffset, Node.slotsOffset]
    omega

/-- A slot is written that is in use, or not; then the count stays all the same. -/
theorem On.writeSlot (h : v.On size id page) {i : Nat} (hi : i < Node.capacity size)
    (data : PageId) :
    ∃ page', Field.writeU64 (Node.slotOffset i) data page = .ok () page' ∧
      On { v with slots := v.slots.set i data } size id page' ∧
      Field.readU64 page' (Node.slotOffset i) = .ok data := by
  have hfit : Node.slotOffset i + 8 ≤ page.length := by
    rw [h.length]
    exact Node.slotOffset_lt hi
  have hfit' : Node.slotOffset i + (bytesOfU64 data).length ≤ page.length := by
    rwa [length_bytesOfU64]
  have hoff : Node.slotsOffset ≤ Node.slotOffset i := Nat.le_add_right ..
  have hlen := Bytes.length_overwrite hfit'
  refine ⟨_, Field.writeU64_ok hfit, ⟨h.large, by rw [hlen, h.length], ?_, ?_, ?_, ?_, ?_⟩,
    Field.readU64_there hfit⟩
  · rw [PageHeader.parse_beside hfit' (Nat.le_trans (by decide) hoff), h.header]
  · rw [Node.prev, Field.readU64_beside hfit' (.inl (Nat.le_trans (by decide) hoff))]
    exact h.prev
  · rw [Node.next, Field.readU64_beside hfit' (.inl (Nat.le_trans (by decide) hoff))]
    exact h.next
  · have hread := Node.count_eq_ok.1 h.count
    rw [Node.count_eq_ok, hlen, Field.readU16_beside hfit' (.inl (Nat.le_trans (by decide) hoff)),
      List.length_set]
    exact hread
  · -- the slot that is written reads as written, and the others lie beside it
    intro j a hj
    rw [List.getElem?_set] at hj
    split at hj
    · rename_i hij
      subst hij
      split at hj
      · cases hj
        exact Field.readU64_there hfit
      · cases hj
    · rw [Field.readU64_beside hfit' ?_, h.slot j a hj]
      rw [length_bytesOfU64]
      simp only [Node.slotOffset, Node.slotSize]
      omega

/-- A page number is put into the first slot behind those in use. -/
theorem On.setPageAt (h : v.On size id page) (hfull : v.slots.length < Node.capacity size)
    (data : PageId) :
    ∃ page', Node.setPageAt v.slots.length data size page = .ok () page' ∧
      On { v with slots := filled v.slots data } size id page' := by
  have hlt := h.length_slots_lt
  -- the slot is written while it is not in use yet, and then the count takes it in
  obtain ⟨page₁, hwrite, h₁, hslot⟩ := h.writeSlot hfull data
  rw [List.set_eq_of_length_le (Nat.le_refl _)] at h₁
  obtain ⟨page₂, hcount, h₂⟩ : ∃ page₂, Node.setCount (v.slots.length + 1) page₁ = .ok () page₂ ∧
      On { v with slots := filled v.slots data } size id page₂ := by
    by_cases hmore : v.slots.length + 1 < 2 ^ 16
    · rw [filled, if_pos hmore]
      refine h₁.setCount (by rwa [List.length_append]) (by rwa [List.length_append]) ?_ (by simp)
      intro i a hi
      rw [List.getElem?_append] at hi
      split at hi
      · exact h₁.slot i a hi
      · obtain ⟨rfl, rfl⟩ : i = v.slots.length ∧ data = a := by
          rw [List.getElem?_singleton] at hi
          split at hi
          · exact ⟨by omega, Option.some.inj hi⟩
          · cases hi
        exact hslot
    · rw [filled, if_neg hmore]
      refine h₁.setCount (by simp) (Nat.zero_le _) (by simp) ?_
      -- the count begins again at zero
      rw [show v.slots.length + 1 = 2 ^ 16 by omega]
      rfl
  refine ⟨page₂, ?_, h₂⟩
  simp only [Node.setPageAt, if_neg (Nat.not_le.2 hfull)]
  rw [Act.bind_of_ok (Act.look_of_ok h.count)]
  simp only [if_neg (Nat.lt_irrefl _)]
  rw [Act.bind_of_ok hwrite]
  simpa using hcount

/-- Adding a page number to a node that has room fills that slot, and tells which one it is. -/
theorem On.add (h : v.On size id page) (hfull : v.slots.length < Node.capacity size)
    (data : PageId) :
    ∃ page', Node.setPageAt v.slots.length data size page = .ok () page' ∧
      NodeFormat.v1.add data size page = .ok v.slots.length page' ∧
      On { v with slots := filled v.slots data } size id page' := by
  obtain ⟨page', hset, hon⟩ := h.setPageAt hfull data
  refine ⟨page', hset, ?_, hon⟩
  have hcapacity : NodeFormat.v1.capacity size = Node.capacity size := rfl
  rw [NodeFormat.add, hcapacity, Node.addWithin, Act.bind_of_ok (Act.look_of_ok h.count)]
  simp only [if_neg (Nat.not_le.2 hfull)]
  rw [Act.bind_of_ok hset]
  rfl

/-- The page number in a slot in use. -/
theorem On.pageAt (h : v.On size id page) {i : Nat} {a : PageId} (hi : v.slots[i]? = some a) :
    Node.pageAt page i = .ok a := by
  have hlt : i < v.slots.length := (List.getElem?_eq_some_iff.1 hi).1
  simp only [Node.pageAt, h.count, bind, Except.bind, if_neg (Nat.not_le.2 hlt)]
  exact h.slot i a hi

/-- Slots that are not in use are not read. -/
theorem On.pageAt_past (h : v.On size id page) {i : Nat} (hi : v.slots.length ≤ i) :
    Node.pageAt page i = .error (.invalid .slotPastCount) := by
  simp only [Node.pageAt, h.count, bind, Except.bind, if_pos hi]
  rfl

/-- The page number in the last slot is removed. -/
theorem On.removeAt {ids : List PageId} {data : PageId} (h : v.On size id page)
    (hslots : v.slots = ids ++ [data]) :
    ∃ page', Node.removeAt ids.length data page = .ok true page' ∧
      On { v with slots := ids } size id page' := by
  have hlen : v.slots.length = ids.length + 1 := by rw [hslots, List.length_append]; rfl
  have hlt := h.length_slots_lt
  have hle := h.length_slots_le
  have hlast : v.slots[ids.length]? = some data := by rw [hslots]; simp
  obtain ⟨page₁, hwrite, h₁, -⟩ :=
    h.writeSlot (show ids.length < Node.capacity size by omega) 0
  -- the slot is cleared while it is still in use, and then the count leaves it out
  have hslots₁ : v.slots.set ids.length 0 = ids ++ [0] := by
    rw [hslots, List.set_append_right _ _ (Nat.le_refl _), Nat.sub_self]
    rfl
  rw [hslots₁] at h₁
  obtain ⟨page₂, hcount, h₂⟩ := h₁.setCount (show ids.length < 2 ^ 16 by omega) (by omega)
    (fun i a hi => h₁.slot i a (List.getElem?_append_left (List.getElem?_eq_some_iff.1 hi).1 ▸ hi))
    rfl
  have hlook : Act.look (Node.pageAt · ids.length) page = .ok data page :=
    Act.look_of_ok (h.pageAt hlast)
  refine ⟨page₂, ?_, h₂⟩
  rw [Node.removeAt, Act.bind_of_ok (Act.look_of_ok h.count)]
  simp only [hlen, Nat.not_succ_le_self, if_false]
  rw [Act.bind_of_ok hlook]
  simp only [ne_eq, not_true_eq_false, if_false]
  rw [Act.bind_of_ok hwrite, Act.bind_of_ok hcount]
  rfl

/-- All slots at once. -/
theorem On.slots_eq (h : v.On size id page) : Node.slots page = .ok v.slots := by
  rw [Node.slots, h.count]
  refine congrArg Except.ok (List.ext_getElem? fun i => ?_)
  rw [Node.getElem?_words]
  split
  · rename_i hi
    have hlast := Node.slotOffset_lt (Nat.lt_of_lt_of_le hi h.length_slots_le)
    have hread := h.slot i _ (List.getElem?_eq_getElem hi)
    rw [Field.readU64, Field.read_eq_ok (by rw [h.length]; exact hlast)] at hread
    rw [List.getElem?_eq_getElem hi, List.drop_drop]
    exact congrArg some (Except.ok.inj hread)
  · rename_i hi
    rw [List.getElem?_eq_none (Nat.not_lt.1 hi)]

/-! ### New nodes -/

/-- What stood on a page that becomes a node is gone. -/
theorem format_eq {page : Bytes} (hlarge : minPageSize ≤ size) (hpage : page.length = size)
    (header : PageHeader) : Node.format header size page = header.write (Bytes.zeros size) := by
  have hblank : Bytes.overwrite page 0 (Bytes.zeros size) = Bytes.zeros size := by
    rw [Bytes.overwrite, List.take_zero, List.nil_append, Bytes.length_zeros, Nat.zero_add,
      List.drop_eq_nil_of_le (Nat.le_of_eq hpage), List.append_nil]
  rw [Node.format, Act.get_bind]
  simp only [hpage, Nat.lt_irrefl, or_false, if_neg (Nat.not_lt.2 hlarge)]
  rw [Act.modify_bind, hblank]

/-- A blank page with a header is a node without slots. -/
theorem on_format {page : Bytes} (hlarge : minPageSize ≤ size) (hpage : page.length = size)
    (id : PageId) :
    ∃ page', Node.format ⟨nodeType, 1, id⟩ size page = .ok () page' ∧
      On ⟨0, 0, []⟩ size id page' := by
  have hlarge' : 64 ≤ size := hlarge
  have hsize : PageHeader.size ≤ (Bytes.zeros size).length := by
    rw [Bytes.length_zeros]
    exact Nat.le_trans (by decide) hlarge
  obtain ⟨page', hwrite, hlen, hheader, hbehind⟩ := PageHeader.write_ok ⟨nodeType, 1, id⟩ hsize
  rw [Bytes.length_zeros] at hlen
  refine ⟨page', by rw [format_eq hlarge hpage, hwrite], hlarge, hlen, hheader, ?_, ?_, ?_, by simp⟩
  · rw [Node.prev, Field.readU64, hbehind _ _ (by decide)]
    exact Field.readU64_zeros (Nat.le_trans (by decide) hlarge)
  · rw [Node.next, Field.readU64, hbehind _ _ (by decide)]
    exact Field.readU64_zeros (Nat.le_trans (by decide) hlarge)
  · rw [Node.count_eq_ok, Field.readU16, hbehind _ _ (by decide)]
    exact ⟨Field.readU16_zeros (Nat.le_trans (by decide) hlarge), by simp, Nat.zero_le _⟩

/-! ### Changes of nodes -/

/-- A node of the first version is read as one. -/
theorem On.ofPage (h : v.On size id page) : Formats.standard.ofPage page = .ok .v1 := by
  rw [Formats.ofPage, h.header]
  rfl

/-- A change that is about a node finds the format that the node has. -/
theorem On.nodeFormat (h : v.On size id page) (g : GroupId) (change : PageChange) :
    PageDelta.nodeFormat ⟨NodeFormat.v1.target g id, change⟩ .standard page = .ok .v1 := by
  rw [PageDelta.nodeFormat, h.header, h.ofPage]
  simp [NodeFormat.target, NodeFormat.v1, bind, Except.bind, pure, Except.pure]

section Change

variable {m : Memory} {c : Contents} {g : GroupId}

/-- The contents `c` have the page `id` of group `g` as a node that says what the view says. -/
def In (v : NodeView) (c : Contents) (g : GroupId) (size : Nat) (id : PageId) : Prop :=
  ∃ page, c g id = .ok page ∧ v.On size id page

/-- Other pages make no difference to a node. -/
theorem In.congr {c' : Contents} (h : v.In c g size id) (hsame : c' g id = c g id) :
    v.In c' g size id := by
  obtain ⟨page, hpage, hon⟩ := h
  exact ⟨page, hsame.trans hpage, hon⟩

/-- A change of a node is carried out if it can be on the bytes of the node. -/
theorem In.change {w : NodeView} (h : v.In c g size id) (hformats : m.formats = .standard)
    (hsize : m.pageSize g = .ok size) {change : PageChange}
    (hact : ∀ page, v.On size id page → ∃ page',
      PageDelta.apply ⟨NodeFormat.v1.target g id, change⟩ .standard size page = .ok () page' ∧
        w.On size id page') :
    ∃ page', c.change m ⟨NodeFormat.v1.target g id, change⟩ = some (c.put g id page') ∧
      w.In (c.put g id page') g size id := by
  obtain ⟨page, hpage, hon⟩ := h
  obtain ⟨page', happly, hon'⟩ := hact page hon
  refine ⟨page', Contents.change_eq_some.2 ⟨page, page', hpage, ?_, rfl⟩, page', ?_, hon'⟩
  · rw [Record.apply_delta hsize (Nat.le_of_eq hon.length.symm) rfl, hformats, happly]
  · rw [Contents.put, if_pos ⟨rfl, rfl⟩]

/-- The node behind is changed. -/
theorem In.change_setNext (h : v.In c g size id) (hformats : m.formats = .standard)
    (hsize : m.pageSize g = .ok size) (next : PageId) :
    ∃ page', c.change m ⟨NodeFormat.v1.target g id, .setNext next⟩ = some (c.put g id page') ∧
      In { v with next := next } (c.put g id page') g size id := by
  refine h.change hformats hsize fun page hon => ?_
  obtain ⟨page', hset, hon'⟩ := hon.setNext next
  refine ⟨page', ?_, hon'⟩
  simp only [PageDelta.apply]
  rw [Act.bind_of_ok (Act.look_of_ok (hon.nodeFormat g _)), hset]

/-- A slot is filled. -/
theorem In.change_add (h : v.In c g size id) (hformats : m.formats = .standard)
    (hsize : m.pageSize g = .ok size) (hfull : v.slots.length < Node.capacity size)
    (data : PageId) :
    ∃ page', c.change m ⟨NodeFormat.v1.target g id, .add (UInt16.ofNat v.slots.length) data⟩ =
        some (c.put g id page') ∧
      In { v with slots := filled v.slots data } (c.put g id page') g size id := by
  refine h.change hformats hsize fun page hon => ?_
  obtain ⟨page', hset, hon'⟩ := hon.setPageAt hfull data
  refine ⟨page', ?_, hon'⟩
  simp only [PageDelta.apply]
  rw [Act.bind_of_ok (Act.look_of_ok (hon.nodeFormat g _)),
    UInt16.toNat_ofNat_of_lt' hon.length_slots_lt, hset]

/-- The last slot is emptied. -/
theorem In.change_remove {ids : List PageId} {data : PageId} (h : v.In c g size id)
    (hformats : m.formats = .standard) (hsize : m.pageSize g = .ok size)
    (hslots : v.slots = ids ++ [data]) :
    ∃ page', c.change m ⟨NodeFormat.v1.target g id, .remove (UInt16.ofNat ids.length) data⟩ =
        some (c.put g id page') ∧
      In { v with slots := ids } (c.put g id page') g size id := by
  refine h.change hformats hsize fun page hon => ?_
  obtain ⟨page', hset, hon'⟩ := hon.removeAt hslots
  have hlt : ids.length < 2 ^ 16 := by
    have hall := hon.length_slots_lt
    rw [hslots, List.length_append] at hall
    omega
  refine ⟨page', ?_, hon'⟩
  simp only [PageDelta.apply]
  rw [Act.bind_of_ok (Act.look_of_ok (hon.nodeFormat g _)),
    UInt16.toNat_ofNat_of_lt' hlt, Act.discard_of_ok hset]

/-- A page is made a node. -/
theorem on_initNode (g : GroupId) (hlarge : minPageSize ≤ size) (hlen : page.length = size)
    (prev data : PageId) :
    ∃ page', PageDelta.initNode (NodeFormat.v1.target g id) .v1 prev data size page =
        .ok () page' ∧
      On ⟨prev, 0, if data = PageId.null then [] else [data]⟩ size id page' := by
  obtain ⟨page₁, hformat, hon₁⟩ := on_format hlarge hlen id
  obtain ⟨page₂, hprev, hon₂⟩ := hon₁.setPrev prev
  have hnew : NodeFormat.v1.initNewPage (NodeFormat.v1.target g id).page size page =
      .ok () page₁ := hformat
  simp only [PageDelta.initNode]
  rw [Act.bind_of_ok hnew, Act.bind_of_ok hprev]
  by_cases hdata : data = PageId.null
  · refine ⟨page₂, ?_, by rwa [if_pos hdata]⟩
    simp only [hdata, ne_eq, not_true_eq_false, if_false]
    rfl
  · have hroom : 0 < Node.capacity size := by
      have hlarge' : 64 ≤ size := hlarge
      simp only [Node.capacity, Node.slotsOffset, Node.slotSize]
      omega
    obtain ⟨page₃, -, hadd, hon₃⟩ := hon₂.add hroom data
    refine ⟨page₃, ?_, by rwa [if_neg hdata]⟩
    simp only [ne_eq, hdata, not_false_eq_true, if_true]
    rw [Act.bind_of_ok (Act.look_of_ok hon₂.count)]
    simp only [List.length_nil, not_true_eq_false, if_false]
    rw [Act.discard_of_ok hadd]

/-- A page becomes a node. -/
theorem change_init (hformats : m.formats = .standard) (hsize : m.pageSize g = .ok size)
    (hlarge : minPageSize ≤ size) (hpage : c g id = .ok page) (hlen : page.length = size)
    (prev data : PageId) :
    ∃ page', c.change m ⟨NodeFormat.v1.target g id, .init prev data⟩ = some (c.put g id page') ∧
      In ⟨prev, 0, if data = PageId.null then [] else [data]⟩ (c.put g id page') g size id := by
  obtain ⟨page', hinit, hon⟩ := on_initNode g hlarge hlen prev data
  refine ⟨page', Contents.change_eq_some.2 ⟨page, page', hpage, ?_, rfl⟩, page', ?_, hon⟩
  · have hcopy : PageDelta.onCopy size
        (PageDelta.initNode (NodeFormat.v1.target g id) .v1 prev data size) page =
        .ok () page' := by
      simp only [PageDelta.onCopy, List.take_of_length_le (Nat.le_of_eq hlen), hinit,
        List.drop_eq_nil_of_le (Nat.le_of_eq hlen), List.append_nil]
    rw [Record.apply_delta hsize (Nat.le_of_eq hlen.symm) rfl, hformats, ← hcopy]
    rfl
  · rw [Contents.put, if_pos ⟨rfl, rfl⟩]

end Change

end NodeView

end PageLog
