import PageLog.Memory
import PageLog.Proofs.Act

/-!
# What pages hold

A memory is described by what is found on its pages when they are read: a page that was never
touched is found blank, so that touching it makes no difference.  A step on one page changes the
contents of this page alone.

## Main definitions

* `GroupPages.bytesOf`, `Memory.contents` — what reading a page gives.
* `GroupPages.Issued`, `Memory.Issued` — a number is not given out any more.
* `GroupPages.Numbered`, `Memory.Numbered` — the numbers of touched pages are not given out.
* `GroupPages.Marked`, `Memory.Marked` — touched pages count as changed unless they are blank.
* `Memory.Like`, `Memory.Reaches` — one memory came from another by touching and changing pages.
* `Memory.fresh`, `Memory.Untouched` — a memory without touched pages.

## Main results

* `Memory.page_of_contents`, `Memory.page_of_error` — reading a page.
* `Memory.change_of_contents`, `Memory.change_of_ok` — a step on a page.
* `Memory.allocate_ok` — a number for a new page.
-/

namespace PageLog

/-! ### The pages of a group -/

namespace GroupPages

variable (g : GroupPages) (id : PageId) (page : CachedPage)

/-- The bytes of a page, which is blank unless it was touched. -/
def bytesOf : Bytes :=
  match g.pages[id]? with
  | some page => page.bytes
  | none => Bytes.zeros g.pageSize

theorem getElem?_insert (k a : PageId) :
    (g.pages.insert k page)[a]? = if k = a then some page else g.pages[a]? := by
  rw [Std.TreeMap.getElem?_insert]
  simp only [Std.LawfulEqCmp.compare_eq_iff_eq]

@[simp] theorem touch_bytes : (g.touch id).1.bytes = g.bytesOf id := by
  unfold touch bytesOf
  cases g.pages[id]? <;> rfl

@[simp] theorem touch_pageSize : (g.touch id).2.pageSize = g.pageSize := by
  unfold touch
  cases g.pages[id]? <;> rfl

/-- Touching a page leaves all contents as they are. -/
@[simp] theorem touch_bytesOf (a : PageId) : (g.touch id).2.bytesOf a = g.bytesOf a := by
  unfold touch
  cases hid : g.pages[id]? with
  | some page => rfl
  | none =>
    simp only [bytesOf, getElem?_insert]
    by_cases heq : id = a
    · rw [if_pos heq, ← heq, hid]
      rfl
    · rw [if_neg heq]

theorem put_bytesOf (a : PageId) :
    (g.put id page).bytesOf a = if id = a then page.bytes else g.bytesOf a := by
  simp only [put, bytesOf, getElem?_insert]
  by_cases heq : id = a
  · rw [if_pos heq, if_pos heq]
  · rw [if_neg heq, if_neg heq]

/-! ### Numbers in use -/

/-- The number is not given out any more. -/
def Issued (g : GroupPages) (id : PageId) : Prop := ∀ next, g.nextId = some next → id < next

/-- The numbers of all touched pages are in use, and the null page is none of the others. -/
structure Numbered (g : GroupPages) : Prop where
  /-- The null page is never given out. -/
  null : g.Issued PageId.null
  /-- Nor is a touched page. -/
  touched : ∀ id ∈ g.pages, g.Issued id

theorem lt_successor {id a next : PageId} (h : successor id = some next) (ha : a ≤ id) :
    a < next := by
  unfold successor at h
  split at h
  · cases h
  · rename_i hne
    cases h
    rw [UInt64.le_iff_toNat_le] at ha
    have hlt : id.toNat + 1 < 2 ^ 64 := by
      have hid := id.toNat_lt
      refine Nat.lt_of_le_of_ne hid fun heq => hne ?_
      rw [← UInt64.toNat_inj, UInt64.toNat_add, UInt64.toNat_one, heq]
      rfl
    rw [UInt64.lt_iff_toNat_lt, UInt64.toNat_add, UInt64.toNat_one, Nat.mod_eq_of_lt hlt]
    omega

theorem touch_nextId_of_issued {g : GroupPages} {id : PageId} (h : g.Issued id) :
    (g.touch id).2.nextId = g.nextId := by
  unfold touch
  cases g.pages[id]? with
  | some page => rfl
  | none =>
    simp only [nextAfter]
    cases hnext : g.nextId with
    | none => rfl
    | some next =>
      have hlt := h next hnext
      simp only
      rw [if_neg (by rw [UInt64.le_iff_toNat_le]; rw [UInt64.lt_iff_toNat_lt] at hlt; omega)]

/-- Numbers in use stay in use when a page is touched. -/
theorem Issued.touch {g : GroupPages} {a : PageId} (h : g.Issued a) (id : PageId) :
    (g.touch id).2.Issued a := by
  intro next hnext
  unfold GroupPages.touch at hnext
  cases hid : g.pages[id]? with
  | some page =>
    rw [hid] at hnext
    exact h next hnext
  | none =>
    rw [hid] at hnext
    simp only [nextAfter] at hnext
    cases hg : g.nextId with
    | none =>
      rw [hg] at hnext
      cases hnext
    | some old =>
      rw [hg] at hnext
      simp only at hnext
      -- the next number moves up past a page that is touched beyond it
      split at hnext
      · rename_i hle
        refine lt_successor hnext ?_
        have hlt := h old hg
        rw [UInt64.lt_iff_toNat_lt] at hlt
        rw [UInt64.le_iff_toNat_le] at hle ⊢
        omega
      · cases hnext
        exact h _ hg

/-- The number of a touched page is in use. -/
theorem Numbered.issued_touch {g : GroupPages} (h : g.Numbered) (id : PageId) :
    (g.touch id).2.Issued id := by
  cases hid : g.pages[id]? with
  | some page =>
    refine (h.touched id ?_).touch id
    rw [Std.TreeMap.mem_iff_isSome_getElem?, hid]
    rfl
  | none =>
    intro next hnext
    simp only [GroupPages.touch, hid, nextAfter] at hnext
    cases hg : g.nextId with
    | none =>
      rw [hg] at hnext
      cases hnext
    | some old =>
      rw [hg] at hnext
      simp only at hnext
      -- either the next number moves past the page, or it was past it before
      split at hnext
      · exact lt_successor hnext (UInt64.le_iff_toNat_le.2 (Nat.le_refl _))
      · rename_i hle
        cases hnext
        rw [UInt64.le_iff_toNat_le] at hle
        rw [UInt64.lt_iff_toNat_lt]
        omega

/-- A page is present once it was touched. -/
theorem mem_touch : id ∈ (g.touch id).2.pages := by
  unfold touch
  cases hid : g.pages[id]? with
  | some page =>
    rw [Std.TreeMap.mem_iff_isSome_getElem?, hid]
    rfl
  | none => simp

theorem Numbered.touch {g : GroupPages} (h : g.Numbered) (id : PageId) :
    (g.touch id).2.Numbered := by
  refine ⟨h.null.touch id, fun a ha => ?_⟩
  by_cases heq : id = a
  · rw [← heq]
    exact h.issued_touch id
  · refine (h.touched a ?_).touch id
    unfold GroupPages.touch at ha
    cases hid : g.pages[id]? with
    | some page =>
      rw [hid] at ha
      exact ha
    | none =>
      rw [hid] at ha
      simp only [Std.TreeMap.mem_iff_isSome_getElem?, getElem?_insert, if_neg heq] at ha ⊢
      exact ha

theorem Numbered.put {g : GroupPages} (h : g.Numbered) {id : PageId} (hid : g.Issued id)
    (page : CachedPage) : (g.put id page).Numbered := by
  refine ⟨h.null, fun a ha => ?_⟩
  by_cases heq : id = a
  · rw [← heq]
    exact hid
  · refine h.touched a ?_
    simp only [GroupPages.put, Std.TreeMap.mem_iff_isSome_getElem?, getElem?_insert,
      if_neg heq] at ha ⊢
    exact ha

/-- Numbers in use stay in use when a number is given out. -/
theorem Issued.allocate {g : GroupPages} {a id : PageId} (h : g.Issued a)
    (hid : g.nextId = some id) : Issued { g with nextId := successor id } a := by
  intro next hnext
  refine lt_successor hnext ?_
  have hlt := h id hid
  rw [UInt64.lt_iff_toNat_lt] at hlt
  rw [UInt64.le_iff_toNat_le]
  omega

/-- The number that is given out is in use. -/
theorem issued_allocate (g : GroupPages) (id : PageId) :
    Issued { g with nextId := successor id } id := by
  intro next hnext
  exact lt_successor hnext (UInt64.le_iff_toNat_le.2 (Nat.le_refl _))

theorem Numbered.allocate {g : GroupPages} {id : PageId} (h : g.Numbered)
    (hid : g.nextId = some id) : Numbered { g with nextId := successor id } :=
  ⟨h.null.allocate hid, fun a ha => (h.touched a ha).allocate hid⟩

theorem numbered_empty (pageSize : Nat) : (empty pageSize).Numbered := by
  refine ⟨?_, fun id hid => ?_⟩
  · rintro _ ⟨⟩
    decide
  · simp [empty] at hid

/-! ### Changed pages -/

/-- Every page that was touched has a number, and was opened for changing unless it is blank. -/
def Marked (g : GroupPages) : Prop :=
  ∀ (id : PageId) (page : CachedPage), g.pages[id]? = some page →
    id ≠ PageId.null ∧ (page.dirty = true ∨ page.bytes = Bytes.zeros g.pageSize)

theorem Marked.touch {g : GroupPages} {id : PageId} (h : g.Marked) (hid : id ≠ PageId.null) :
    (g.touch id).2.Marked := by
  unfold GroupPages.touch
  cases hpage : g.pages[id]? with
  | some page => exact h
  | none =>
    intro a page ha
    simp only [getElem?_insert] at ha
    split at ha
    · rename_i heq
      cases ha
      exact ⟨heq ▸ hid, .inr rfl⟩
    · exact h a page ha

theorem Marked.put {g : GroupPages} {id : PageId} (h : g.Marked) (hid : id ≠ PageId.null)
    (bs : Bytes) : (g.put id ⟨bs, true⟩).Marked := by
  intro a page ha
  simp only [GroupPages.put, getElem?_insert] at ha
  split at ha
  · rename_i heq
    cases ha
    exact ⟨heq ▸ hid, .inl rfl⟩
  · exact h a page ha

end GroupPages

/-! ### All pages -/

/-- What is found on pages. -/
abbrev Contents := GroupId → PageId → Result Bytes

/-- The contents with those of one page replaced. -/
def Contents.put (c : Contents) (g : GroupId) (id : PageId) (bs : Bytes) : Contents :=
  fun g' id' => if g = g' ∧ id = id' then .ok bs else c g' id'

theorem Contents.put_of_ne (c : Contents) {g g' : GroupId} {id id' : PageId} (bs : Bytes)
    (h : g = g' → id ≠ id') : c.put g id bs g' id' = c g' id' :=
  if_neg fun heq => h heq.1 heq.2

namespace Memory

/-- What is found on a page when it is read. -/
def contents (m : Memory) : Contents := fun g id =>
  match page g id m with
  | .ok bytes _ => .ok bytes
  | .error e _ => .error e

/-- The number is not given out any more. -/
def Issued (m : Memory) (g : GroupId) (id : PageId) : Prop :=
  ∀ pages, m.groups[g]? = some pages → pages.Issued id

/-- The numbers of all touched pages are in use. -/
def Numbered (m : Memory) : Prop :=
  ∀ (g : GroupId) (pages : GroupPages), m.groups[g]? = some pages → pages.Numbered

/-- The number that the next new page of a group gets. -/
def nextId (m : Memory) (g : GroupId) : Option PageId := m.groups[g]?.bind (·.nextId)

/-- The memory `m'` comes from `m` by touching and changing pages and by giving out numbers. -/
structure Like (m m' : Memory) : Prop where
  /-- The formats stay. -/
  formats : m'.formats = m.formats
  /-- The groups and their page sizes stay. -/
  pageSize : ∀ g, m'.pageSize g = m.pageSize g
  /-- Numbers in use stay in use. -/
  issued : ∀ g id, m.Issued g id → m'.Issued g id
  /-- The numbers of touched pages stay in use. -/
  numbered : m.Numbered → m'.Numbered

/-- The memory `m'` comes from `m` by touching one page and perhaps changing it. -/
structure Reaches (m : Memory) (g : GroupId) (id : PageId) (m' : Memory) : Prop
    extends m.Like m' where
  /-- If the number is in use, the next numbers stay. -/
  nextId : m.Issued g id → ∀ a, m'.nextId a = m.nextId a
  /-- Other groups stay as they are. -/
  others : ∀ a, g ≠ a → m'.groups[a]? = m.groups[a]?
  /-- The page is touched. -/
  touched : m.Numbered → m'.Issued g id

theorem Like.refl (m : Memory) : m.Like m := ⟨rfl, fun _ => rfl, fun _ _ h => h, id⟩

theorem Like.trans {m m' m'' : Memory} (h : m.Like m') (h' : m'.Like m'') : m.Like m'' :=
  ⟨h'.formats.trans h.formats, fun g => (h'.pageSize g).trans (h.pageSize g),
    fun g id hid => h'.issued g id (h.issued g id hid), fun hn => h'.numbered (h.numbered hn)⟩

section Group

variable {m : Memory} {g : GroupId} {id : PageId} {pages pages' : GroupPages}

theorem groups_putGroup (m : Memory) (g : GroupId) (pages : GroupPages) (a : GroupId) :
    (m.putGroup g pages).groups[a]? = if g = a then some pages else m.groups[a]? := by
  simp only [putGroup, Std.TreeMap.getElem?_insert, Std.LawfulEqCmp.compare_eq_iff_eq]

theorem putGroup_like (hg : m.groups[g]? = some pages) (hsize : pages'.pageSize = pages.pageSize)
    (hissued : ∀ id, pages.Issued id → pages'.Issued id)
    (hnumbered : pages.Numbered → pages'.Numbered) : m.Like (m.putGroup g pages') := by
  refine ⟨rfl, fun a => ?_, fun a id hid other ha => ?_, fun hn a other ha => ?_⟩
  · simp only [Memory.pageSize, groups_putGroup]
    by_cases heq : g = a
    · rw [if_pos heq, ← heq, hg]
      simp only [hsize]
    · rw [if_neg heq]
  · rw [groups_putGroup] at ha
    split at ha
    · rename_i heq
      cases ha
      exact hissued id (hid pages (by rw [← heq, hg]))
    · exact hid other ha
  · rw [groups_putGroup] at ha
    split at ha
    · cases ha
      exact hnumbered (hn g pages hg)
    · exact hn a other ha

theorem page_eq (m : Memory) (g : GroupId) (id : PageId) :
    page g id m =
      if id = PageId.null then .error (.invalid .nullPage) m
      else
        match m.groups[g]? with
        | none => .error .notFound m
        | some pages => .ok (pages.bytesOf id) (m.putGroup g (pages.touch id).2) := by
  simp only [page, Functor.map, EStateM.map, touch_eq]
  by_cases hid : id = PageId.null
  · rw [if_pos hid, if_pos hid]
  · rw [if_neg hid, if_neg hid]
    cases m.groups[g]? with
    | none => rfl
    | some pages => simp only [GroupPages.touch_bytes]

theorem contents_eq (m : Memory) (g : GroupId) (id : PageId) :
    m.contents g id =
      if id = PageId.null then .error (.invalid .nullPage)
      else
        match m.groups[g]? with
        | none => .error .notFound
        | some pages => .ok (pages.bytesOf id) := by
  simp only [contents, page_eq]
  by_cases hid : id = PageId.null
  · rw [if_pos hid, if_pos hid]
  · rw [if_neg hid, if_neg hid]
    cases m.groups[g]? with
    | none => rfl
    | some pages => rfl

/-- Memories in which a group is the same hold the same on its pages. -/
theorem contents_of_groups {m' : Memory} (h : m'.groups[g]? = m.groups[g]?) :
    m'.contents g = m.contents g := by
  funext id
  rw [contents_eq, contents_eq, h]

/-- The contents depend on the pages of known groups only. -/
theorem contents_putGroup (hg : m.groups[g]? = some pages)
    (hsame : ∀ a, pages'.bytesOf a = pages.bytesOf a) :
    (m.putGroup g pages').contents = m.contents := by
  funext a id
  rw [contents_eq, contents_eq, groups_putGroup]
  by_cases heq : g = a
  · rw [if_pos heq, ← heq, hg]
    simp only [hsame]
  · rw [if_neg heq]

theorem contents_eq_ok {bs : Bytes} (h : m.contents g id = .ok bs) :
    id ≠ PageId.null ∧ ∃ pages, m.groups[g]? = some pages ∧ pages.bytesOf id = bs := by
  rw [contents_eq] at h
  split at h
  · cases h
  · rename_i hid
    split at h
    · cases h
    · rename_i pages hg
      cases h
      exact ⟨hid, pages, hg, rfl⟩

theorem putGroup_touch_reaches (hg : m.groups[g]? = some pages) :
    m.Reaches g id (m.putGroup g (pages.touch id).2) := by
  refine ⟨putGroup_like hg (by simp) (fun a ha => ha.touch id) (fun h => h.touch id), ?_, ?_, ?_⟩
  · intro hid a
    simp only [nextId, groups_putGroup]
    by_cases heq : g = a
    · rw [if_pos heq, ← heq, hg]
      exact GroupPages.touch_nextId_of_issued (hid pages hg)
    · rw [if_neg heq]
  · intro a ha
    rw [groups_putGroup, if_neg ha]
  · intro hn other hother
    rw [groups_putGroup, if_pos rfl] at hother
    cases hother
    exact (hn g pages hg).issued_touch id

/-- Reading a page makes no difference to what is found on pages. -/
theorem page_of_contents {bs : Bytes} (h : m.contents g id = .ok bs) :
    ∃ m', page g id m = .ok bs m' ∧ m.Reaches g id m' ∧ m'.contents = m.contents := by
  obtain ⟨hid, pages, hg, rfl⟩ := contents_eq_ok h
  refine ⟨_, ?_, putGroup_touch_reaches hg, contents_putGroup hg (by simp)⟩
  rw [page_eq, if_neg hid, hg]

theorem page_of_error {e : Error} (h : m.contents g id = .error e) : page g id m = .error e m := by
  rw [contents_eq] at h
  rw [page_eq]
  split at h
  · rename_i hid
    cases h
    rw [if_pos hid]
  · rename_i hid
    rw [if_neg hid]
    split at h
    · rename_i hg
      cases h
      rfl
    · cases h

/-- Changing a page that is present changes what is found on it. -/
theorem putGroup_put_reaches (hg : m.groups[g]? = some pages) (hmem : id ∈ pages.pages)
    (page : CachedPage) :
    m.Reaches g id (m.putGroup g (pages.put id page)) := by
  refine ⟨putGroup_like hg rfl (fun _ ha => ha)
    (fun h => h.put (h.touched id hmem) page), ?_, ?_, ?_⟩
  · intro _ a
    simp only [nextId, groups_putGroup]
    by_cases heq : g = a
    · rw [if_pos heq, ← heq, hg]
      rfl
    · rw [if_neg heq]
  · intro a ha
    rw [groups_putGroup, if_neg ha]
  · intro hn other hother
    rw [groups_putGroup, if_pos rfl] at hother
    cases hother
    exact (hn g pages hg).touched id hmem

theorem contents_putGroup_put (hg : m.groups[g]? = some pages) (hid : id ≠ PageId.null)
    (page : CachedPage) :
    (m.putGroup g (pages.put id page)).contents = m.contents.put g id page.bytes := by
  funext a b
  by_cases hab : g = a ∧ id = b
  · obtain ⟨rfl, rfl⟩ := hab
    rw [Contents.put, if_pos ⟨rfl, rfl⟩, contents_eq, if_neg hid, groups_putGroup, if_pos rfl]
    simp only [GroupPages.put_bytesOf, if_pos]
  · rw [Contents.put, if_neg hab, contents_eq, contents_eq, groups_putGroup]
    by_cases hga : g = a
    · rw [if_pos hga, ← hga, hg]
      simp only [GroupPages.put_bytesOf, if_neg (fun hib => hab ⟨hga, hib⟩)]
    · rw [if_neg hga]

theorem Reaches.trans {m' m'' : Memory} (h : m.Reaches g id m') (h' : m'.Reaches g id m'') :
    m.Reaches g id m'' :=
  ⟨h.toLike.trans h'.toLike,
    fun hid a => (h'.nextId (h.issued g id hid) a).trans (h.nextId hid a),
    fun a ha => (h'.others a ha).trans (h.others a ha), fun hn => h'.issued g id (h.touched hn)⟩

/-- A step on a page ends as it does on the bytes of the page, and what it leaves of them is found
there afterwards. -/
theorem change_of_contents {α : Type} {bs : Bytes} (h : m.contents g id = .ok bs)
    (act : Act Bytes α) :
    ∃ m', m.Reaches g id m' ∧ m'.contents = m.contents.put g id (act.left bs) ∧
      change g id act m = match act bs with
        | .ok a _ => .ok a m'
        | .error e _ => .error e m' := by
  obtain ⟨hid, pages, hg, rfl⟩ := contents_eq_ok h
  have hg₁ : (m.putGroup g (pages.touch id).2).groups[g]? = some (pages.touch id).2 := by
    rw [groups_putGroup, if_pos rfl]
  have htouch : touch g id m = .ok (pages.touch id).1 (m.putGroup g (pages.touch id).2) := by
    rw [touch_eq, if_neg hid, hg]
  -- the page is touched, and then written back, changed or not
  refine ⟨_, (putGroup_touch_reaches hg).trans (putGroup_put_reaches hg₁ (pages.mem_touch id)
    ⟨act.left (pages.bytesOf id), true⟩), ?_, ?_⟩
  · rw [contents_putGroup_put hg₁ hid, contents_putGroup hg (by simp)]
  · rw [change, Act.bind_of_ok htouch, GroupPages.touch_bytes, Act.left]
    cases act (pages.bytesOf id) with
    | ok a bs' =>
      simp only [Act.modify_bind, write, hg₁]
      rfl
    | error e bs' =>
      simp only [Act.modify_bind, write, hg₁]
      rfl

/-- A step that succeeds on the bytes of a page succeeds on the page, and changes what is found on
this page alone. -/
theorem change_of_ok {α : Type} {act : Act Bytes α} {bs bs' : Bytes} {a : α}
    (h : m.contents g id = .ok bs) (hact : act bs = .ok a bs') :
    ∃ m', change g id act m = .ok a m' ∧ m.Reaches g id m' ∧
      m'.contents = m.contents.put g id bs' := by
  obtain ⟨m', hreach, hcontents, hchange⟩ := change_of_contents h act
  rw [Act.left_of_ok hact] at hcontents
  rw [hact] at hchange
  exact ⟨m', hchange, hreach, hcontents⟩

/-- No step is taken on a page that cannot be read. -/
theorem change_of_no_page {α : Type} {e : Error} (h : m.contents g id = .error e)
    (act : Act Bytes α) : change g id act m = .error e m := by
  have hread := page_of_error h
  cases htouch : touch g id m with
  | ok cached m' =>
    rw [page, Act.map_of_ok htouch] at hread
    cases hread
  | error e' m' =>
    rw [page, Act.map_of_error htouch] at hread
    cases hread
    exact Act.bind_of_error htouch

/-- In all groups the pages that were touched have numbers, and were opened for changing unless they
are blank. -/
def Marked (m : Memory) : Prop :=
  ∀ (g : GroupId) (pages : GroupPages), m.groups[g]? = some pages → pages.Marked

theorem Marked.putGroup (h : m.Marked) (hpages : pages.Marked) : (m.putGroup g pages).Marked := by
  intro a other ha
  rw [groups_putGroup] at ha
  split at ha
  · cases ha
    exact hpages
  · exact h a other ha

/-- A page on which a step is taken counts as changed. -/
theorem Marked.change {α : Type} (h : m.Marked) (g : GroupId) (id : PageId) (act : Act Bytes α) :
    ((Memory.change g id act).left m).Marked := by
  by_cases hid : id = PageId.null
  · have htouch : touch g id m = .error (.invalid .nullPage) m := by rw [touch_eq, if_pos hid]
    rwa [Memory.change, Act.left_bind_of_error htouch]
  · cases hg : m.groups[g]? with
    | none =>
      have htouch : touch g id m = .error .notFound m := by rw [touch_eq, if_neg hid, hg]
      rwa [Memory.change, Act.left_bind_of_error htouch]
    | some pages =>
      have htouch : touch g id m = .ok (pages.touch id).1 (m.putGroup g (pages.touch id).2) := by
        rw [touch_eq, if_neg hid, hg]
      have htouched := (h g pages hg).touch hid
      have hg₁ : (m.putGroup g (pages.touch id).2).groups[g]? = some (pages.touch id).2 := by
        rw [groups_putGroup, if_pos rfl]
      rw [Memory.change, Act.left_bind_of_ok htouch]
      -- the bytes are written back whether the step went through or not
      have hwritten : ∀ bs, ((m.putGroup g (pages.touch id).2).putGroup g
          ((pages.touch id).2.put id ⟨bs, true⟩)).Marked :=
        fun bs => (h.putGroup htouched).putGroup (htouched.put hid bs)
      cases act (pages.touch id).1.bytes with
      | ok a bs =>
        simp only [Act.left, Act.modify_bind, write, hg₁]
        exact hwritten bs
      | error e bs =>
        simp only [Act.left, Act.modify_bind, write, hg₁]
        exact hwritten bs

/-- A number for a new page was not in use, and is from then on. -/
theorem allocate_ok {m' : Memory} (h : allocate g m = .ok id m') :
    m.nextId g = some id ∧ m.Like m' ∧ m'.contents = m.contents ∧ ¬m.Issued g id ∧
      m'.Issued g id := by
  obtain ⟨pages, m₁, hgroup, hnext⟩ := Act.bind_eq_ok.1 h
  obtain ⟨hgroup, rfl⟩ := Act.look_eq_ok.1 hgroup
  have hg : m₁.groups[g]? = some pages := by
    unfold Memory.group at hgroup
    split at hgroup
    · rename_i hg
      cases hgroup
      exact hg
    · cases hgroup
  cases hid : pages.nextId with
  | none =>
    simp only [hid] at hnext
    cases hnext
  | some next =>
    simp only [hid] at hnext
    cases hnext
    refine ⟨?_, putGroup_like hg rfl (fun a ha => ha.allocate hid)
      (fun hn => hn.allocate hid), contents_putGroup hg fun _ => rfl, fun hbad => ?_,
      fun other hother => ?_⟩
    · rw [nextId, hg]
      exact hid
    · have hlt := hbad pages hg id hid
      rw [UInt64.lt_iff_toNat_lt] at hlt
      omega
    · rw [groups_putGroup, if_pos rfl] at hother
      cases hother
      exact GroupPages.issued_allocate pages id

/-- While numbers are left, one is given out. -/
theorem allocate_of_nextId (h : m.nextId g = some id) : ∃ m', allocate g m = .ok id m' := by
  cases hg : m.groups[g]? with
  | none =>
    rw [nextId, hg] at h
    cases h
  | some pages =>
    rw [nextId, hg] at h
    have hid : pages.nextId = some id := h
    have hlook : Act.look (Memory.group · g) m = .ok pages m :=
      Act.look_of_ok (by simp only [Memory.group, hg])
    refine ⟨m.putGroup g { pages with nextId := GroupPages.successor id }, ?_⟩
    rw [allocate, Act.bind_of_ok hlook]
    simp only [hid]
    rfl

/-- When no numbers are left, none is given out. -/
theorem allocate_of_none (h : m.nextId g = none) : ∃ e, allocate g m = .error e m := by
  cases hg : m.groups[g]? with
  | none =>
    exact ⟨.notFound, Act.bind_of_error (Act.look_of_error (by simp only [Memory.group, hg]))⟩
  | some pages =>
    rw [nextId, hg] at h
    have hid : pages.nextId = none := h
    have hlook : Act.look (Memory.group · g) m = .ok pages m :=
      Act.look_of_ok (by simp only [Memory.group, hg])
    refine ⟨.invalid .pageIdsExhausted, ?_⟩
    rw [allocate, Act.bind_of_ok hlook]
    simp only [hid]
    rfl

/-- A group whose pages get numbers has pages of some size. -/
theorem pageSize_of_nextId (h : m.nextId g = some id) : ∃ size, m.pageSize g = .ok size := by
  unfold Memory.pageSize
  cases hg : m.groups[g]? with
  | none =>
    rw [nextId, hg] at h
    cases h
  | some pages => exact ⟨pages.pageSize, rfl⟩

end Group

/-! ### Memories without touched pages -/

/-- The memory in which the groups of a list are known and no page was touched. -/
def fresh (groups : List (GroupId × Nat)) : Memory := ((empty .standard).registerAll groups).2

/-- No page was touched, and no page is smaller than allowed. -/
structure Untouched (m : Memory) : Prop where
  /-- Only the first format is known. -/
  formats : m.formats = .standard
  /-- The groups have no pages yet. -/
  groups : ∀ (g : GroupId) (pages : GroupPages), m.groups[g]? = some pages →
    ∃ pageSize, minPageSize ≤ pageSize ∧ pages = .empty pageSize

theorem Untouched.register {m m' : Memory} {g : GroupId} {pageSize : Nat} (h : m.Untouched)
    (hm : m.register g pageSize = .ok m') : m'.Untouched := by
  unfold Memory.register at hm
  split at hm
  · cases hm
  rename_i hsize
  split at hm
  · split at hm
    · cases hm
      exact h
    · cases hm
  · cases hm
    refine ⟨h.formats, fun a pages ha => ?_⟩
    simp only [Std.TreeMap.getElem?_insert, Std.LawfulEqCmp.compare_eq_iff_eq] at ha
    split at ha
    · cases ha
      exact ⟨pageSize, Nat.not_lt.1 hsize, rfl⟩
    · exact h.groups a pages ha

theorem Untouched.registerAll {m : Memory} (h : m.Untouched) (groups : List (GroupId × Nat)) :
    (m.registerAll groups).2.Untouched := by
  induction groups generalizing m with
  | nil => exact h
  | cons entry groups ih =>
    obtain ⟨g, pageSize⟩ := entry
    rw [Memory.registerAll]
    cases hm : m.register g pageSize with
    | ok m' => exact ih (h.register hm)
    | error e => exact ih h

theorem fresh_untouched (groups : List (GroupId × Nat)) : (fresh groups).Untouched := by
  refine Untouched.registerAll ⟨rfl, fun g pages hg => ?_⟩ groups
  simp [empty] at hg

theorem pageSize_register {m m' : Memory} {a g : GroupId} {n size : Nat}
    (hm : m.register a n = .ok m') (h : m'.pageSize g = .ok size) :
    m.pageSize g = .ok size ∨ (g, size) = (a, n) := by
  unfold Memory.register at hm
  split at hm
  · cases hm
  · split at hm
    · split at hm
      · cases hm
        exact .inl h
      · cases hm
    · cases hm
      simp only [Memory.pageSize, Std.TreeMap.getElem?_insert,
        Std.LawfulEqCmp.compare_eq_iff_eq] at h ⊢
      split at h
      · rename_i pages hg
        split at hg
        · rename_i heq
          cases hg
          cases h
          exact .inr (by rw [heq]; rfl)
        · rw [hg]
          exact .inl h
      · cases h

/-- The page size of a group that is known at first is one of those given. -/
theorem pageSize_fresh {groups : List (GroupId × Nat)} {g : GroupId} {size : Nat}
    (h : (fresh groups).pageSize g = .ok size) : (g, size) ∈ groups := by
  -- a group keeps the first size that it is given
  have hall : ∀ m : Memory, (m.registerAll groups).2.pageSize g = .ok size →
      m.pageSize g = .ok size ∨ (g, size) ∈ groups := by
    clear h
    induction groups with
    | nil => exact fun m h => .inl h
    | cons entry groups ih =>
      obtain ⟨a, n⟩ := entry
      intro m h
      rw [Memory.registerAll] at h
      cases hm : m.register a n with
      | ok m' =>
        rw [hm] at h
        obtain h | h := ih m' h
        · obtain h | h := pageSize_register hm h
          · exact .inl h
          · exact .inr (h ▸ List.mem_cons_self)
        · exact .inr (List.mem_cons_of_mem _ h)
      | error e =>
        rw [hm] at h
        obtain h | h := ih m h
        · exact .inl h
        · exact .inr (List.mem_cons_of_mem _ h)
  obtain h | h := hall (empty .standard) h
  · simp [Memory.pageSize, empty] at h
  · exact h

theorem Untouched.numbered {m : Memory} (h : m.Untouched) : m.Numbered := by
  intro g pages hg
  obtain ⟨pageSize, -, rfl⟩ := h.groups g pages hg
  exact GroupPages.numbered_empty pageSize

theorem Untouched.marked {m : Memory} (h : m.Untouched) : m.Marked := by
  intro g pages hg id page hid
  obtain ⟨pageSize, -, rfl⟩ := h.groups g pages hg
  simp [GroupPages.empty] at hid

theorem Untouched.containsPage {m : Memory} (h : m.Untouched) (g : GroupId) (id : PageId) :
    m.containsPage g id = false := by
  unfold Memory.containsPage
  cases hg : m.groups[g]? with
  | none => rfl
  | some pages =>
    obtain ⟨pageSize, -, rfl⟩ := h.groups g pages hg
    simp [GroupPages.empty]

/-- Untouched pages are found blank. -/
theorem Untouched.contents_blank {m : Memory} (h : m.Untouched) {g : GroupId} {id : PageId}
    {size : Nat} (hsize : m.pageSize g = .ok size) (hid : id ≠ PageId.null) :
    m.contents g id = .ok (Bytes.zeros size) := by
  unfold Memory.pageSize at hsize
  split at hsize
  · rename_i pages hg
    obtain ⟨pageSize, -, rfl⟩ := h.groups g pages hg
    cases hsize
    rw [contents_eq, if_neg hid, hg]
    simp [GroupPages.bytesOf, GroupPages.empty]
  · cases hsize

end Memory

end PageLog
