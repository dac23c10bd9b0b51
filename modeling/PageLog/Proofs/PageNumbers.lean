import Mathlib.Data.List.Basic
import PageLog.Proofs.MemoryContents

/-!
# Numbers for new pages

A group gives out numbers for new pages and has its pages touched under any numbers, in any order.
The next number moves with both, so that it stays above all numbers that were given out or touched.
Once there is no number above them, the last one is in use, and none is given out any more.

## Main definitions

* `MemoryOp`, `MemoryOp.step` — what may be done with pages in memory.
* `MemoryOp.uses`, `Memory.used` — the page numbers that a run gives out or touches.
* `MemoryOp.Does` — what an operation does to its group.
* `Memory.Counts` — the next numbers are above the numbers in use.

## Main results

* `Memory.Counts.after` — an operation keeps the next numbers above the numbers in use.
* `Memory.groups_afterAll` — a group sees only what is done with it.
* `page_numbers_are_given_out_once` — **numbers for new pages are not in use.**
-/

namespace PageLog

/-- The last page number. -/
def PageId.last : PageId := 0xffffffffffffffff

namespace Memory

variable {m : Memory} {g : GroupId}

/-- Numbers are given out while there is a next one. -/
theorem allocate_answer_eq_ok {id : PageId} :
    (allocate g).answer m = .ok id ↔ m.nextId g = some id := by
  cases hnext : m.nextId g with
  | none =>
    obtain ⟨e, hrun⟩ := allocate_of_none hnext
    rw [Act.answer_of_error hrun]
    exact ⟨nofun, nofun⟩
  | some next =>
    obtain ⟨m', hrun⟩ := allocate_of_nextId hnext
    rw [Act.answer_of_ok hrun, Except.ok.injEq, Option.some.injEq]

theorem allocate_answer_eq_error :
    (∃ e, (allocate g).answer m = .error e) ↔ m.nextId g = none := by
  cases hnext : m.nextId g with
  | none =>
    obtain ⟨e, hrun⟩ := allocate_of_none hnext
    exact ⟨fun _ => rfl, fun _ => ⟨e, Act.answer_of_error hrun⟩⟩
  | some next =>
    obtain ⟨m', hrun⟩ := allocate_of_nextId hnext
    rw [Act.answer_of_ok hrun]
    exact ⟨nofun, nofun⟩

theorem pageSize_eq_ok {size : Nat} :
    m.pageSize g = .ok size ↔ ∃ pages, m.groups[g]? = some pages ∧ pages.pageSize = size := by
  unfold pageSize
  cases m.groups[g]? with
  | none => exact ⟨nofun, nofun⟩
  | some pages => simp

end Memory

/-! ### Operations -/

/-- What may be done with pages in memory. -/
inductive MemoryOp where
  /-- Making a group known, with the size of its pages. -/
  | register (group : GroupId) (pageSize : Nat)
  /-- Reading a page, or opening it without writing to it. -/
  | access (group : GroupId) (page : PageId)
  /-- Writing to a page. -/
  | write (group : GroupId) (page : PageId) (act : Act Bytes Unit)
  /-- Asking for the number of a new page. -/
  | allocate (group : GroupId)

/-- The answer to an operation that was carried out. -/
inductive MemoryAnswer where
  /-- There is nothing to tell. -/
  | done
  /-- The bytes of a page. -/
  | page (bytes : Bytes)
  /-- The number of a new page. -/
  | number (id : PageId)
  deriving DecidableEq

namespace MemoryOp

/-- The group that an operation is about. -/
def group : MemoryOp → GroupId
  | .register g _ | .access g _ | .write g _ _ | .allocate g => g

/-- Carries an operation out. -/
def step : MemoryOp → Act Memory MemoryAnswer
  | .register g pageSize => fun m =>
      match m.register g pageSize with
      | .ok m => .ok .done m
      | .error e => .error e m
  | .access g id => .page <$> Memory.page g id
  | .write g id act => (fun _ => .done) <$> Memory.change g id act
  | .allocate g => .number <$> Memory.allocate g

/-- What an operation does to the state of its group, if the group is known. -/
def onGroup : MemoryOp → Act (Option GroupPages) MemoryAnswer
  | .register _ pageSize => fun s =>
      if pageSize < minPageSize then .error (.invalid .pageSizeTooSmall) s
      else
        match s with
        | some pages =>
            if pages.pageSize = pageSize then .ok .done s
            else .error (.invalid .groupSizeConflict) s
        | none => .ok .done (some (.empty pageSize))
  | .access _ id => fun s =>
      if id = PageId.null then .error (.invalid .nullPage) s
      else
        match s with
        | some pages => .ok (.page (pages.bytesOf id)) (some (pages.touch id).2)
        | none => .error .notFound s
  | .write _ id act => fun s =>
      if id = PageId.null then .error (.invalid .nullPage) s
      else
        match s with
        | some pages =>
            match act (pages.bytesOf id) with
            | .ok _ bs => .ok .done (some ((pages.touch id).2.put id ⟨bs, true⟩))
            | .error e bs => .error e (some ((pages.touch id).2.put id ⟨bs, true⟩))
        | none => .error .notFound s
  | .allocate _ => fun s =>
      match s with
      | some pages =>
          match pages.nextId with
          | some id => .ok (.number id) (some { pages with nextId := GroupPages.successor id })
          | none => .error (.invalid .pageIdsExhausted) s
      | none => .error .notFound s

/-- The page that an operation touches or whose number it gives out. -/
def uses (m : Memory) : MemoryOp → Option PageId
  | .register _ _ => none
  | .access g id | .write g id _ =>
      match (Memory.touch g id).answer m with
      | .ok _ => some id
      | .error _ => none
  | .allocate g =>
      match (Memory.allocate g).answer m with
      | .ok id => some id
      | .error _ => none

/-- The operation does to its group in the memory `m` what it does to the state of this group. -/
def Concerns (op : MemoryOp) (m : Memory) : Prop :=
  op.step.answer m = op.onGroup.answer m.groups[op.group]? ∧
    ∀ a, (op.step.left m).groups[a]? =
      if op.group = a then op.onGroup.left m.groups[op.group]? else m.groups[a]?

section Steps

variable {op : MemoryOp} {m m' : Memory} {s s' : Option GroupPages}

/-- An operation that is carried out. -/
theorem concerns_of_ok {a : MemoryAnswer} (hs : m.groups[op.group]? = s)
    (hrun : op.step m = .ok a m') (hgroup : op.onGroup s = .ok a s')
    (hm' : ∀ b, m'.groups[b]? = if op.group = b then s' else m.groups[b]?) : op.Concerns m := by
  subst hs
  unfold Concerns
  rw [Act.answer_of_ok hrun, Act.answer_of_ok hgroup, Act.left_of_ok hrun, Act.left_of_ok hgroup]
  exact ⟨rfl, hm'⟩

/-- An operation that fails on the way. -/
theorem concerns_of_error {e : Error} (hs : m.groups[op.group]? = s)
    (hrun : op.step m = .error e m') (hgroup : op.onGroup s = .error e s')
    (hm' : ∀ b, m'.groups[b]? = if op.group = b then s' else m.groups[b]?) : op.Concerns m := by
  subst hs
  unfold Concerns
  rw [Act.answer_of_error hrun, Act.answer_of_error hgroup, Act.left_of_error hrun,
    Act.left_of_error hgroup]
  exact ⟨rfl, hm'⟩

theorem groups_self (hs : m.groups[op.group]? = s) (b : GroupId) :
    m.groups[b]? = if op.group = b then s else m.groups[b]? := by
  split
  · rename_i heq
    rw [← heq, hs]
  · rfl

theorem concerns_register (g : GroupId) (pageSize : Nat) (m : Memory) :
    (MemoryOp.register g pageSize).Concerns m := by
  by_cases hsmall : pageSize < minPageSize
  · have hrun : (MemoryOp.register g pageSize).step m = .error (.invalid .pageSizeTooSmall) m := by
      simp only [step, Memory.register, if_pos hsmall]
    exact concerns_of_error rfl hrun (by simp only [onGroup, if_pos hsmall]) (groups_self rfl)
  cases hs : m.groups[g]? with
  | none =>
    have hrun : (MemoryOp.register g pageSize).step m =
        .ok .done (m.putGroup g (.empty pageSize)) := by
      simp only [step, Memory.register, if_neg hsmall, hs, Memory.putGroup]
    exact concerns_of_ok hs hrun (by simp only [onGroup, if_neg hsmall])
      (Memory.groups_putGroup m g _)
  | some pages =>
    -- a group may be registered again with the size that it has
    by_cases hsize : pages.pageSize = pageSize
    · have hrun : (MemoryOp.register g pageSize).step m = .ok .done m := by
        simp only [step, Memory.register, if_neg hsmall, hs, if_pos hsize]
      exact concerns_of_ok hs hrun (by simp only [onGroup, if_neg hsmall, if_pos hsize])
        (groups_self hs)
    · have hrun : (MemoryOp.register g pageSize).step m =
          .error (.invalid .groupSizeConflict) m := by
        simp only [step, Memory.register, if_neg hsmall, hs, if_neg hsize]
      exact concerns_of_error hs hrun (by simp only [onGroup, if_neg hsmall, if_neg hsize])
        (groups_self hs)

theorem concerns_access (g : GroupId) (id : PageId) (m : Memory) :
    (MemoryOp.access g id).Concerns m := by
  by_cases hid : id = PageId.null
  · have hpage : Memory.page g id m = .error (.invalid .nullPage) m := by
      rw [Memory.page_eq, if_pos hid]
    exact concerns_of_error rfl (Act.map_of_error hpage) (by simp only [onGroup, if_pos hid])
      (groups_self rfl)
  cases hs : m.groups[g]? with
  | none =>
    have hpage : Memory.page g id m = .error .notFound m := by
      rw [Memory.page_eq, if_neg hid, hs]
    exact concerns_of_error hs (Act.map_of_error hpage) (by simp only [onGroup, if_neg hid])
      (groups_self hs)
  | some pages =>
    have hpage : Memory.page g id m =
        .ok (pages.bytesOf id) (m.putGroup g (pages.touch id).2) := by
      rw [Memory.page_eq, if_neg hid, hs]
    exact concerns_of_ok hs (Act.map_of_ok hpage) (by simp only [onGroup, if_neg hid])
      (Memory.groups_putGroup m g _)

theorem concerns_write (g : GroupId) (id : PageId) (act : Act Bytes Unit) (m : Memory) :
    (MemoryOp.write g id act).Concerns m := by
  by_cases hid : id = PageId.null
  · have htouch : Memory.touch g id m = .error (.invalid .nullPage) m := by
      rw [Memory.touch_eq, if_pos hid]
    exact concerns_of_error rfl (Act.map_of_error (Act.bind_of_error htouch))
      (by simp only [onGroup, if_pos hid]) (groups_self rfl)
  cases hs : m.groups[g]? with
  | none =>
    have htouch : Memory.touch g id m = .error .notFound m := by
      rw [Memory.touch_eq, if_neg hid, hs]
    exact concerns_of_error hs (Act.map_of_error (Act.bind_of_error htouch))
      (by simp only [onGroup, if_neg hid]) (groups_self hs)
  | some pages =>
    have htouch : Memory.touch g id m =
        .ok (pages.touch id).1 (m.putGroup g (pages.touch id).2) := by
      rw [Memory.touch_eq, if_neg hid, hs]
    have hput : (m.putGroup g (pages.touch id).2).groups[g]? = some (pages.touch id).2 := by
      rw [Memory.groups_putGroup, if_pos rfl]
    -- touching the page and writing its bytes change its group alone
    have hwrite : ∀ bs (b : GroupId), ((m.putGroup g (pages.touch id).2).write g id bs).groups[b]? =
        if g = b then some ((pages.touch id).2.put id ⟨bs, true⟩) else m.groups[b]? := by
      intro bs b
      rw [Memory.write, hput]
      simp only [Memory.groups_putGroup]
      split <;> rfl
    cases hact : act (pages.bytesOf id) with
    | ok u bs =>
      have hchange : Memory.change g id act m =
          .ok u ((m.putGroup g (pages.touch id).2).write g id bs) := by
        rw [Memory.change, Act.bind_of_ok htouch]
        simp only [GroupPages.touch_bytes, hact]
        rfl
      exact concerns_of_ok hs (Act.map_of_ok hchange) (by simp only [onGroup, if_neg hid, hact])
        (hwrite bs)
    | error e bs =>
      -- what the step wrote before it failed stays
      have hchange : Memory.change g id act m =
          .error e ((m.putGroup g (pages.touch id).2).write g id bs) := by
        rw [Memory.change, Act.bind_of_ok htouch]
        simp only [GroupPages.touch_bytes, hact]
        rfl
      exact concerns_of_error hs (Act.map_of_error hchange)
        (by simp only [onGroup, if_neg hid, hact]) (hwrite bs)

theorem concerns_allocate (g : GroupId) (m : Memory) : (MemoryOp.allocate g).Concerns m := by
  cases hs : m.groups[g]? with
  | none =>
    have hlook : Act.look (Memory.group · g) m = .error .notFound m :=
      Act.look_of_error (by simp only [Memory.group, hs])
    exact concerns_of_error hs (Act.map_of_error (Act.bind_of_error hlook)) rfl (groups_self hs)
  | some pages =>
    have hlook : Act.look (Memory.group · g) m = .ok pages m :=
      Act.look_of_ok (by simp only [Memory.group, hs])
    -- each group has numbers of its own
    cases hnext : pages.nextId with
    | none =>
      have hrun : Memory.allocate g m = .error (.invalid .pageIdsExhausted) m := by
        rw [Memory.allocate, Act.bind_of_ok hlook]
        simp only [hnext]
        rfl
      exact concerns_of_error hs (Act.map_of_error hrun) (by simp only [onGroup, hnext])
        (groups_self hs)
    | some id =>
      have hrun : Memory.allocate g m =
          .ok id (m.putGroup g { pages with nextId := GroupPages.successor id }) := by
        rw [Memory.allocate, Act.bind_of_ok hlook]
        simp only [hnext]
        rfl
      exact concerns_of_ok hs (Act.map_of_ok hrun) (by simp only [onGroup, hnext])
        (Memory.groups_putGroup m g _)

/-- An operation concerns its own group alone, and only the state of this group counts for it. -/
theorem concerns (op : MemoryOp) (m : Memory) : op.Concerns m := by
  cases op with
  | register g pageSize => exact concerns_register g pageSize m
  | access g id => exact concerns_access g id m
  | write g id act => exact concerns_write g id act m
  | allocate g => exact concerns_allocate g m

/-- The page of its group that an operation touches or whose number it gives out. -/
def usesIn (s : Option GroupPages) : MemoryOp → Option PageId
  | .register _ _ => none
  | .access _ id | .write _ id _ => if id ≠ PageId.null ∧ s.isSome then some id else none
  | .allocate _ => s.bind (·.nextId)

theorem touch_answer (g : GroupId) (id : PageId) (m : Memory) :
    (match (Memory.touch g id).answer m with
      | .ok _ => some id
      | .error _ => none) =
        if id ≠ PageId.null ∧ (m.groups[g]?).isSome then some id else none := by
  unfold Act.answer
  rw [Memory.touch_eq]
  by_cases hid : id = PageId.null
  · rw [if_pos hid, if_neg fun h => h.1 hid]
  · rw [if_neg hid]
    cases hs : m.groups[g]? with
    | none => rw [if_neg fun h => Bool.false_ne_true h.2]
    | some pages => rw [if_pos ⟨hid, rfl⟩]

/-- Which page an operation uses can be told from the state of its group. -/
theorem uses_eq (op : MemoryOp) (m : Memory) : op.uses m = op.usesIn m.groups[op.group]? := by
  cases op with
  | register g pageSize => rfl
  | access g id => exact touch_answer g id m
  | write g id act => exact touch_answer g id m
  | allocate g =>
    change (match (Memory.allocate g).answer m with
      | .ok id => some id
      | .error _ => none) = m.nextId g
    cases hanswer : (Memory.allocate g).answer m with
    | ok id => exact (Memory.allocate_answer_eq_ok.1 hanswer).symm
    | error e => exact (Memory.allocate_answer_eq_error.1 ⟨e, hanswer⟩).symm

/-- What an operation does to the state `s` of its group. -/
inductive Does (op : MemoryOp) (s : Option GroupPages) : Option GroupPages → Prop
  /-- It does nothing, and uses no page. -/
  | nothing (huses : op.usesIn s = none) : Does op s s
  /-- It makes the group known. -/
  | begins (hs : s = none) (pageSize : Nat) (huses : op.usesIn s = none) :
      Does op s (some (.empty pageSize))
  /-- It touches a page. -/
  | touches {pages : GroupPages} {id : PageId} (hs : s = some pages)
      (huses : op.usesIn s = some id) : Does op s (some (pages.touch id).2)
  /-- It writes to a page that it touches. -/
  | writes {pages : GroupPages} {id : PageId} {act : Act Bytes Unit} (hs : s = some pages)
      (huses : op.usesIn s = some id) (hop : op = .write op.group id act) (bs : Bytes) :
      Does op s (some ((pages.touch id).2.put id ⟨bs, true⟩))
  /-- It gives out a number. -/
  | givesOut {pages : GroupPages} {id : PageId} (hs : s = some pages)
      (hnext : pages.nextId = some id) (huses : op.usesIn s = some id) :
      Does op s (some { pages with nextId := GroupPages.successor id })

theorem does_register (g : GroupId) (pageSize : Nat) (s : Option GroupPages) :
    (MemoryOp.register g pageSize).Does s ((MemoryOp.register g pageSize).onGroup.left s) := by
  simp only [Act.left, onGroup]
  by_cases hsmall : pageSize < minPageSize
  · rw [if_pos hsmall]
    exact .nothing rfl
  · rw [if_neg hsmall]
    cases s with
    | none => exact .begins rfl pageSize rfl
    | some pages =>
      simp only
      by_cases hsize : pages.pageSize = pageSize
      · rw [if_pos hsize]
        exact .nothing rfl
      · rw [if_neg hsize]
        exact .nothing rfl

/-- A page that is the null page or of no known group is not used. -/
theorem usesIn_none {id : PageId} {s : Option GroupPages} (h : id = PageId.null ∨ s = none) :
    (if id ≠ PageId.null ∧ s.isSome then some id else none) = none := by
  rw [if_neg]
  rintro ⟨hid, hs⟩
  obtain h | h := h
  · exact hid h
  · rw [h] at hs
    cases hs

theorem does_access (g : GroupId) (id : PageId) (s : Option GroupPages) :
    (MemoryOp.access g id).Does s ((MemoryOp.access g id).onGroup.left s) := by
  simp only [Act.left, onGroup]
  by_cases hid : id = PageId.null
  · rw [if_pos hid]
    exact .nothing (usesIn_none (.inl hid))
  · rw [if_neg hid]
    cases s with
    | none => exact .nothing (usesIn_none (.inr rfl))
    | some pages => exact .touches rfl (if_pos ⟨hid, rfl⟩)

theorem does_write (g : GroupId) (id : PageId) (act : Act Bytes Unit) (s : Option GroupPages) :
    (MemoryOp.write g id act).Does s ((MemoryOp.write g id act).onGroup.left s) := by
  simp only [Act.left, onGroup]
  by_cases hid : id = PageId.null
  · rw [if_pos hid]
    exact .nothing (usesIn_none (.inl hid))
  · rw [if_neg hid]
    cases s with
    | none => exact .nothing (usesIn_none (.inr rfl))
    | some pages =>
      have huses : (MemoryOp.write g id act).usesIn (some pages) = some id := if_pos ⟨hid, rfl⟩
      simp only
      cases act (pages.bytesOf id) with
      | ok u bs => exact .writes rfl huses rfl bs
      | error e bs => exact .writes rfl huses rfl bs

theorem does_allocate (g : GroupId) (s : Option GroupPages) :
    (MemoryOp.allocate g).Does s ((MemoryOp.allocate g).onGroup.left s) := by
  simp only [Act.left, onGroup]
  cases s with
  | none => exact .nothing rfl
  | some pages =>
    simp only
    cases hnext : pages.nextId with
    | none => exact .nothing hnext
    | some id => exact .givesOut rfl hnext hnext

/-- What an operation does to its group. -/
theorem does (op : MemoryOp) (s : Option GroupPages) : op.Does s (op.onGroup.left s) := by
  cases op with
  | register g pageSize => exact does_register g pageSize s
  | access g id => exact does_access g id s
  | write g id act => exact does_write g id act s
  | allocate g => exact does_allocate g s

end Steps

end MemoryOp

/-! ### Numbers in use -/

namespace GroupPages

variable {pages : GroupPages} {p q : PageId → Prop} {id : PageId}

/-- The next number is above the numbers of which `p` holds, and there is one unless `p` holds of
the last. -/
structure Counts (pages : GroupPages) (p : PageId → Prop) : Prop where
  /-- The numbers of touched pages are in use, and so is that of the null page. -/
  numbered : pages.Numbered
  /-- So are the numbers of which `p` holds. -/
  issued : ∀ id, p id → pages.Issued id
  /-- Numbers are left up to the last. -/
  exhausted : pages.nextId = none → p PageId.last

theorem Counts.congr (h : pages.Counts p) (hpq : ∀ id, p id ↔ q id) : pages.Counts q :=
  ⟨h.numbered, fun id hid => h.issued id ((hpq id).2 hid), fun hnext =>
    (hpq _).1 (h.exhausted hnext)⟩

theorem successor_eq_none (h : successor id = none) : id = PageId.last := by
  unfold successor at h
  split at h
  · rename_i hzero
    have hlt := id.toNat_lt
    rw [← UInt64.toNat_inj, UInt64.toNat_add, UInt64.toNat_one] at hzero
    rw [← UInt64.toNat_inj]
    change (id.toNat + 1) % 2 ^ 64 = 0 at hzero
    change id.toNat = 2 ^ 64 - 1
    omega
  · cases h

/-- No number comes behind the last one. -/
theorem nextId_of_issued_last (h : pages.Issued PageId.last) : pages.nextId = none := by
  cases hnext : pages.nextId with
  | none => rfl
  | some next =>
    have hlt : 2 ^ 64 - 1 < next.toNat := h next hnext
    have hnext := next.toNat_lt
    omega

/-- A touched page comes to the numbers in use. -/
theorem Counts.touch (h : pages.Counts p) (id : PageId) :
    (pages.touch id).2.Counts fun a => p a ∨ id = a := by
  refine ⟨h.numbered.touch id, ?_, ?_⟩
  · rintro a (ha | rfl)
    · exact (h.issued a ha).touch id
    · exact h.numbered.issued_touch id
  · intro hnext
    unfold GroupPages.touch at hnext
    cases hid : pages.pages[id]? with
    | some page =>
      rw [hid] at hnext
      exact .inl (h.exhausted hnext)
    | none =>
      rw [hid] at hnext
      simp only [nextAfter] at hnext
      cases hold : pages.nextId with
      | none => exact .inl (h.exhausted hold)
      | some next =>
        rw [hold] at hnext
        simp only at hnext
        split at hnext
        · exact .inr (successor_eq_none hnext)
        · cases hnext

/-- Writing to a touched page makes no difference to the numbers in use. -/
theorem Counts.put (h : pages.Counts p) (hid : id ∈ pages.pages) (page : CachedPage) :
    (pages.put id page).Counts p :=
  ⟨h.numbered.put (h.numbered.touched id hid) page, h.issued, h.exhausted⟩

/-- A number that is given out comes to the numbers in use. -/
theorem Counts.allocate (h : pages.Counts p) (hnext : pages.nextId = some id) :
    Counts { pages with nextId := successor id } fun a => p a ∨ id = a := by
  refine ⟨h.numbered.allocate hnext, ?_, ?_⟩
  · rintro a (ha | rfl)
    · exact (h.issued a ha).allocate hnext
    · exact issued_allocate pages id
  · intro hafter
    exact .inr (successor_eq_none hafter)

/-- The same for a group that may not be known yet, and then has no numbers in use. -/
def Counted (p : PageId → Prop) : Option GroupPages → Prop
  | none => ∀ id, ¬p id
  | some pages => pages.Counts p

theorem Counted.congr {s : Option GroupPages} (h : Counted p s) (hpq : ∀ id, p id ↔ q id) :
    Counted q s := by
  cases s with
  | none => exact fun id hid => h id ((hpq id).2 hid)
  | some pages => exact Counts.congr h hpq

/-- Where nothing is put in use, the same numbers are in use. -/
theorem Counted.unused {s : Option GroupPages} {used : Option PageId} (h : Counted p s)
    (hused : used = none) : Counted (fun id => p id ∨ used = some id) s := by
  refine h.congr fun id => ⟨.inl, ?_⟩
  rintro (hid | hid)
  · exact hid
  · rw [hused] at hid
    cases hid

theorem Counted.used {pages : GroupPages} {used : Option PageId}
    (h : pages.Counts fun a => p a ∨ id = a) (hused : used = some id) :
    Counted (fun a => p a ∨ used = some a) (some pages) := by
  refine Counts.congr h fun a => or_congr_right ?_
  rw [hused, Option.some.injEq]

theorem counted_empty (pageSize : Nat) (h : ∀ id, ¬p id) : Counted p (some (.empty pageSize)) :=
  ⟨numbered_empty pageSize, fun id hid => absurd hid (h id), nofun⟩

/-- An operation keeps the next number of its group above the numbers in use. -/
theorem Counted.step {s : Option GroupPages} (h : Counted p s) (op : MemoryOp) :
    Counted (fun id => p id ∨ op.usesIn s = some id) (op.onGroup.left s) := by
  have hdoes := op.does s
  generalize op.onGroup.left s = s' at hdoes ⊢
  cases hdoes with
  | nothing huses => exact h.unused huses
  | begins hs pageSize huses =>
    subst hs
    exact Counted.unused (counted_empty pageSize h) huses
  | touches hs huses =>
    subst hs
    exact Counted.used (Counts.touch h _) huses
  | writes hs huses _ bs =>
    subst hs
    exact Counted.used ((Counts.touch h _).put (mem_touch _ _) ⟨bs, true⟩) huses
  | givesOut hs hnext huses =>
    subst hs
    exact Counted.used (Counts.allocate h hnext) huses

end GroupPages

/-! ### Runs -/

namespace Memory

variable {m m' : Memory} {inUse : List (GroupId × PageId)}

/-- The memory after operations, whether they were carried out or refused. -/
def afterAll (m : Memory) : List MemoryOp → Memory
  | [] => m
  | op :: ops => (op.step.left m).afterAll ops

/-- The pages that are touched in a run and those whose numbers are given out. -/
def used (m : Memory) : List MemoryOp → List (GroupId × PageId)
  | [] => []
  | op :: ops => ((op.uses m).map (op.group, ·)).toList ++ (op.step.left m).used ops

/-- The next numbers of all groups are above the numbers in use. -/
def Counts (m : Memory) (inUse : List (GroupId × PageId)) : Prop :=
  ∀ g : GroupId, GroupPages.Counted (fun id => (g, id) ∈ inUse) m.groups[g]?

theorem groups_empty (formats : Formats) (g : GroupId) : (empty formats).groups[g]? = none := by
  simp [empty]

theorem counts_empty (formats : Formats) : (empty formats).Counts [] := by
  intro g
  rw [groups_empty]
  exact fun id => List.not_mem_nil

/-- An operation keeps the next numbers above the numbers in use. -/
theorem Counts.after (h : m.Counts inUse) (op : MemoryOp) :
    (op.step.left m).Counts (inUse ++ ((op.uses m).map (op.group, ·)).toList) := by
  intro g
  rw [(op.concerns m).2 g, op.uses_eq]
  split
  · rename_i hg
    subst hg
    refine ((h op.group).step op).congr fun id => ?_
    simp
  · rename_i hg
    refine (h g).congr fun id => ?_
    simp [hg]

theorem Counts.afterAll (h : m.Counts inUse) (ops : List MemoryOp) :
    (m.afterAll ops).Counts (inUse ++ m.used ops) := by
  induction ops generalizing m inUse with
  | nil =>
    rw [Memory.used, List.append_nil]
    exact h
  | cons op ops ih =>
    rw [Memory.used, ← List.append_assoc]
    exact ih (h.after op)

/-- A group sees only what is done with it. -/
theorem groups_afterAll {g : GroupId} (h : m.groups[g]? = m'.groups[g]?) (ops : List MemoryOp) :
    (m.afterAll ops).groups[g]? = (m'.afterAll (ops.filter (·.group = g))).groups[g]? := by
  induction ops generalizing m m' with
  | nil => exact h
  | cons op ops ih =>
    by_cases hg : op.group = g
    · rw [List.filter_cons_of_pos (by simpa using hg)]
      refine ih ?_
      rw [(op.concerns m).2, (op.concerns m').2, if_pos hg, if_pos hg, hg, h]
    · rw [List.filter_cons_of_neg (by simpa using hg)]
      refine ih ?_
      rw [(op.concerns m).2, if_neg hg, h]

/-- The page is blank, if its group is known. -/
def BlankIn (id : PageId) (s : Option GroupPages) : Prop :=
  ∀ pages, s = some pages → pages.bytesOf id = Bytes.zeros pages.pageSize

/-- A page stays blank while no operation writes to it. -/
theorem BlankIn.step {s : Option GroupPages} {id : PageId} (h : BlankIn id s) {op : MemoryOp}
    (hop : ∀ act, op ≠ .write op.group id act) : BlankIn id (op.onGroup.left s) := by
  have hdoes := op.does s
  generalize op.onGroup.left s = s' at hdoes ⊢
  cases hdoes with
  | nothing _ => exact h
  | begins _ pageSize _ =>
    rintro _ ⟨⟩
    simp [GroupPages.bytesOf, GroupPages.empty]
  | @touches pages a hs _ =>
    rintro _ ⟨⟩
    rw [GroupPages.touch_bytesOf, GroupPages.touch_pageSize]
    exact h pages hs
  | @writes pages a act hs _ hwrite bs =>
    rintro _ ⟨⟩
    have hne : a ≠ id := by
      rintro rfl
      exact hop act hwrite
    rw [GroupPages.put_bytesOf, if_neg hne, GroupPages.touch_bytesOf, h pages hs]
    exact congrArg Bytes.zeros (pages.touch_pageSize a).symm
  | @givesOut pages next hs _ _ =>
    rintro _ ⟨⟩
    exact h pages hs

theorem BlankIn.afterAll {g : GroupId} {id : PageId} (h : BlankIn id m.groups[g]?)
    {ops : List MemoryOp} (hops : ∀ act, .write g id act ∉ ops) :
    BlankIn id (m.afterAll ops).groups[g]? := by
  induction ops generalizing m with
  | nil => exact h
  | cons op ops ih =>
    refine ih ?_ fun act hact => hops act (List.mem_cons_of_mem _ hact)
    rw [(op.concerns m).2]
    split
    · rename_i hg
      subst hg
      refine h.step fun act hact => hops act ?_
      rw [← hact]
      exact List.mem_cons_self
    · exact h

end Memory

/-- **Numbers for new pages are not in use.**  Whatever is done with pages in memory, a number that
is given out for a new page is not that of the null page nor one that was given out or touched
before; numbers are given out until the last one is in use.  What is done with a group makes no
difference to other groups, and a page is blank until something is written to it. -/
theorem page_numbers_are_given_out_once (formats : Formats) (ops : List MemoryOp) (g : GroupId) :
    let start := Memory.empty formats
    let m := start.afterAll ops
    (∀ id, (Memory.allocate g).answer m = .ok id →
      id ≠ PageId.null ∧ (g, id) ∉ start.used ops) ∧
    (∀ size, m.pageSize g = .ok size →
      ((∃ e, (Memory.allocate g).answer m = .error e) ↔ (g, PageId.last) ∈ start.used ops)) ∧
    (∀ op : MemoryOp, op.group = g →
      op.step.answer m = op.step.answer (start.afterAll (ops.filter (·.group = g)))) ∧
    ∀ id size, id ≠ PageId.null → m.pageSize g = .ok size → (∀ act, .write g id act ∉ ops) →
      (Memory.page g id).answer m = .ok (Bytes.zeros size) := by
  intro start m
  have hcounts : m.Counts (start.used ops) := (Memory.counts_empty formats).afterAll ops
  refine ⟨?_, ?_, ?_, ?_⟩
  · -- every number in use lies below the one that is given out
    intro id hid
    obtain ⟨pages, hpages, hnext⟩ := Option.bind_eq_some_iff.1 (Memory.allocate_answer_eq_ok.1 hid)
    have hg := hcounts g
    rw [hpages] at hg
    have hfresh : ∀ a, pages.Issued a → a ≠ id := by
      rintro a ha rfl
      exact UInt64.lt_irrefl a (ha a hnext)
    exact ⟨(hfresh _ hg.numbered.null).symm, fun hused => hfresh id (hg.issued id hused) rfl⟩
  · -- there is none left exactly when the last one was issued
    intro size hsize
    obtain ⟨pages, hpages, -⟩ := Memory.pageSize_eq_ok.1 hsize
    have hg := hcounts g
    rw [hpages] at hg
    rw [Memory.allocate_answer_eq_error, Memory.nextId, hpages]
    exact ⟨hg.exhausted, fun hused => GroupPages.nextId_of_issued_last (hg.issued _ hused)⟩
  · -- an operation reads and changes its own group only
    intro op hop
    rw [(op.concerns _).1, (op.concerns _).1, hop]
    exact congrArg op.onGroup.answer (Memory.groups_afterAll rfl ops)
  · -- a group begins with blank pages, and these stay so
    intro id size hid hsize hops
    obtain ⟨pages, hpages, rfl⟩ := Memory.pageSize_eq_ok.1 hsize
    have hblank : Memory.BlankIn id m.groups[g]? := by
      refine Memory.BlankIn.afterAll ?_ hops
      rw [Memory.groups_empty]
      intro pages hpages
      cases hpages
    rw [Act.answer, Memory.page_eq, if_neg hid, hpages]
    simp only [hblank pages hpages]

/-- The page before the last is touched, so that the last number is given out next and no number
after it; another group is not concerned. -/
theorem page_numbers_are_given_out_once_up_to_the_last :
    let start := Memory.empty .standard
    let ops : List MemoryOp := [.register 1 64, .register 2 128, .access 1 (PageId.last - 1)]
    ((Memory.allocate 1).answer (start.afterAll ops) = .ok PageId.last ∧
      (1, PageId.last) ∉ start.used ops) ∧
    (∃ e, (Memory.allocate 1).answer (start.afterAll (ops ++ [.allocate 1])) = .error e) ∧
    (MemoryOp.step (.allocate 2)).answer (start.afterAll (ops ++ [.allocate 1])) = .ok (.number 1) ∧
    (Memory.page 2 7).answer (start.afterAll (ops ++ [.allocate 1])) = .ok (Bytes.zeros 128) := by
  intro start ops
  have hallocate : (Memory.allocate 1).answer (start.afterAll ops) = .ok PageId.last := by
    decide +kernel
  have hsize : (start.afterAll (ops ++ [.allocate 1])).pageSize 1 = .ok 64 := by decide +kernel
  have hsize' : (start.afterAll (ops ++ [.allocate 1])).pageSize 2 = .ok 128 := by decide +kernel
  have hused : (1, PageId.last) ∈ start.used (ops ++ [.allocate 1]) := by decide +kernel
  have hother : (MemoryOp.step (.allocate 2)).answer (start.afterAll [.register 2 128]) =
      .ok (.number 1) := by decide +kernel
  obtain ⟨hfresh, -⟩ := page_numbers_are_given_out_once .standard ops 1
  obtain ⟨-, hexhausted, -⟩ :=
    page_numbers_are_given_out_once .standard (ops ++ [.allocate 1]) 1
  obtain ⟨-, -, halone, hblank⟩ :=
    page_numbers_are_given_out_once .standard (ops ++ [.allocate 1]) 2
  refine ⟨⟨hallocate, (hfresh _ hallocate).2⟩, (hexhausted 64 hsize).2 hused, ?_, ?_⟩
  · exact (halone (.allocate 2) rfl).trans hother
  · refine hblank 7 128 (by decide) hsize' fun act hact => ?_
    simp [ops] at hact

end PageLog
