import PageLog.Proofs.NodePages

/-!
# Chains on pages

A chain is described by its nodes in order, each with the page numbers in its slots.  A stretch of a
chain names what comes before it and what comes behind it, so that two stretches put together are a
stretch again, and the last node can be looked at apart from the others.

## Main definitions

* `Links` — the nodes of a stretch of a chain with what they hold.
* `Links.On` — the contents of pages show this stretch.

## Main results

* `Links.on_append`, `Links.on_snoc` — stretches put together.
* `Chain.nodes_ok`, `Chain.pages_ok`, `Chain.verify_ok` — walks along a chain.
* `FreeList.ofChain_ok`, `FreeList.ofChain_blank` — the list on a chain.
-/

namespace PageLog

/-- The nodes of a stretch of a chain in order, each with the page numbers in its slots. -/
abbrev Links := List (PageId × List PageId)

namespace Links

/-- The nodes. -/
def ids (L : Links) : List PageId := L.map (·.1)

/-- The page numbers in the slots. -/
def held (L : Links) : List PageId := L.flatMap (·.2)

/-- The first node of a stretch in front of `behind`. -/
def first : Links → (behind : PageId) → PageId
  | [], behind => behind
  | (id, _) :: _, _ => id

/-- The last node of a stretch behind `before`. -/
def last : (before : PageId) → Links → PageId
  | before, [] => before
  | _, (id, _) :: rest => last id rest

/-- The contents `c` show the stretch on pages of group `g`, between `before` and `behind`. -/
def On (c : Contents) (g : GroupId) (size : Nat) : (before : PageId) → Links → (behind : PageId) →
    Prop
  | _, [], _ => True
  | before, (id, slots) :: rest, behind =>
      NodeView.In ⟨before, first rest behind, slots⟩ c g size id ∧ On c g size id rest behind

section Stretch

variable {c c' : Contents} {g : GroupId} {size : Nat} {before behind : PageId} {L : Links}

theorem ids_cons (id : PageId) (slots : List PageId) (L : Links) :
    ids ((id, slots) :: L) = id :: L.ids := rfl

theorem ids_append (L₁ L₂ : Links) : ids (L₁ ++ L₂) = L₁.ids ++ L₂.ids := List.map_append

theorem held_append (L₁ L₂ : Links) : held (L₁ ++ L₂) = L₁.held ++ L₂.held := List.flatMap_append

theorem ids_snoc (L : Links) (id : PageId) (slots : List PageId) :
    ids (L ++ [(id, slots)]) = L.ids ++ [id] := ids_append ..

theorem held_snoc (L : Links) (id : PageId) (slots : List PageId) :
    held (L ++ [(id, slots)]) = L.held ++ slots := by
  rw [held_append]
  simp [held]

theorem first_append (L₁ L₂ : Links) (behind : PageId) :
    first (L₁ ++ L₂) behind = L₁.first (L₂.first behind) := by
  cases L₁ <;> rfl

theorem last_append (before : PageId) (L₁ L₂ : Links) :
    last before (L₁ ++ L₂) = last (last before L₁) L₂ := by
  induction L₁ generalizing before with
  | nil => rfl
  | cons entry L₁ ih => exact ih entry.1

theorem last_eq_getD (before : PageId) (L : Links) :
    last before L = L.ids.getLast?.getD before := by
  induction L generalizing before with
  | nil => rfl
  | cons entry L ih =>
    rw [last, ih, ids_cons, List.getLast?_cons, Option.getD_some]

/-- A chain that has nodes ends at the same node, whatever comes before it. -/
theorem last_eq_last (before before' : PageId) (hne : L ≠ []) : last before L = last before' L := by
  cases L with
  | nil => exact absurd rfl hne
  | cons entry L => rfl

theorem first_mem (behind : PageId) (hne : L ≠ []) : first L behind ∈ L.ids := by
  cases L with
  | nil => exact absurd rfl hne
  | cons entry L => exact List.mem_cons_self

/-- Two stretches put together. -/
theorem on_append (L₁ L₂ : Links) :
    On c g size before (L₁ ++ L₂) behind ↔
      On c g size before L₁ (first L₂ behind) ∧ On c g size (last before L₁) L₂ behind := by
  induction L₁ generalizing before with
  | nil => exact ⟨fun h => ⟨trivial, h⟩, fun h => h.2⟩
  | cons entry L₁ ih =>
    rw [List.cons_append, On, On, first_append, ih, and_assoc]
    rfl

/-- A stretch and one more node. -/
theorem on_snoc (L : Links) (id : PageId) (slots : List PageId) :
    On c g size before (L ++ [(id, slots)]) behind ↔
      On c g size before L id ∧ NodeView.In ⟨last before L, behind, slots⟩ c g size id := by
  rw [on_append]
  exact and_congr Iff.rfl (and_iff_left trivial)

/-- Pages that are no nodes of the stretch make no difference to it. -/
theorem On.congr (h : On c g size before L behind) (hsame : ∀ id ∈ L.ids, c' g id = c g id) :
    On c' g size before L behind := by
  induction L generalizing before with
  | nil => trivial
  | cons entry L ih =>
    exact ⟨NodeView.In.congr h.1 (hsame entry.1 List.mem_cons_self),
      ih h.2 fun id hid => hsame id (List.mem_cons_of_mem _ hid)⟩

end Stretch

end Links

/-! ### Walking along a chain -/

namespace Chain

variable {m : Memory} {g : GroupId} {size : Nat} {id before behind : PageId} {L : Links}

/-- Reading from a node. -/
theorem readNode_ok {α : Type} {v : NodeView} (h : v.In m.contents g size id)
    (hformats : m.formats = .standard) {read : NodeFormat → Bytes → Result α} {a : α}
    (hread : ∀ page, v.On size id page → read .v1 page = .ok a) :
    ∃ m', readNode g id read m = .ok a m' ∧ m.Reaches g id m' ∧ m'.contents = m.contents := by
  obtain ⟨page, hpage, hon⟩ := h
  obtain ⟨m', hrun, hreach, hcontents⟩ := Memory.page_of_contents hpage
  refine ⟨m', ?_, hreach, hcontents⟩
  rw [readNode, hrun]
  simp only [hreach.formats, hformats, hon.ofPage, hread page hon]

/-- A blank page cannot be read as a node. -/
theorem readNode_blank {α : Type} {n : Nat} (h : m.contents g id = .ok (Bytes.zeros n))
    (read : NodeFormat → Bytes → Result α) :
    ∃ e m', readNode g id read m = .error e m' ∧ m.Peeks m' := by
  obtain ⟨m', hrun, hreach, hcontents⟩ := Memory.page_of_contents h
  obtain ⟨e, he⟩ := m'.formats.ofPage_blank n
  refine ⟨e, m', ?_, hreach.toLike, hcontents⟩
  rw [readNode, hrun]
  simp only [he]

theorem id_ne_null {v : NodeView} (h : v.In m.contents g size id) : id ≠ PageId.null := by
  obtain ⟨page, hpage, -⟩ := h
  exact (Memory.contents_eq_ok hpage).1

/-- Walking along a chain reads its nodes in order. -/
theorem nodesFrom_ok (h : L.On m.contents g size before PageId.null)
    (hformats : m.formats = .standard) (hnodup : L.ids.Nodup) {seen : List PageId}
    (hseen : ∀ id ∈ L.ids, id ∉ seen) :
    ∃ m', nodesFrom g seen (L.first PageId.null) m = .ok L.ids m' ∧ m.Peeks m' ∧
      (m.Numbered → ∀ id ∈ L.ids, m'.Issued g id) := by
  induction L generalizing m seen before with
  | nil =>
    refine ⟨m, ?_, .refl m, by simp [Links.ids]⟩
    rw [nodesFrom, Links.first, if_pos rfl]
    rfl
  | cons entry L ih =>
    obtain ⟨id, slots⟩ := entry
    obtain ⟨hnode, hrest⟩ := h
    obtain ⟨hid, hnodup⟩ := List.nodup_cons.1 hnodup
    -- the walk does not come back to the first node
    have hseen' : ∀ a ∈ Links.ids L, a ∉ id :: seen := by
      intro a ha
      rw [List.mem_cons, not_or]
      exact ⟨fun heq => hid (heq ▸ ha), hseen a (List.mem_cons_of_mem _ ha)⟩
    -- reading a node changes no page, so the rest of the chain is where it was
    obtain ⟨m₁, hread, hreach, hcontents⟩ : ∃ m₁, readNode g id (fun _ => Node.next) m = .ok _ m₁ ∧
        m.Reaches g id m₁ ∧ m₁.contents = m.contents :=
      readNode_ok hnode hformats fun page hon => hon.next
    rw [← hcontents] at hrest
    obtain ⟨m₂, hwalk, hpeeks, hissued⟩ := ih hrest (hreach.formats.trans hformats) hnodup hseen'
    have hpeeks₁ : m.Peeks m₁ := ⟨hreach.toLike, hcontents⟩
    refine ⟨m₂, ?_, hpeeks₁.trans hpeeks, fun hn a ha => ?_⟩
    · rw [nodesFrom, Links.first, if_neg (id_ne_null hnode),
        dif_neg (hseen id List.mem_cons_self)]
      split
      · rename_i hbad
        rw [hread] at hbad
        cases hbad
      · rename_i next m' hok
        rw [hread] at hok
        cases hok
        rw [hwalk]
        rfl
    · obtain rfl | ha := List.mem_cons.1 ha
      · exact hpeeks.issued g _ (hreach.touched hn)
      · exact hissued (hreach.numbered hn) a ha

/-- The nodes of a chain. -/
theorem nodes_ok (h : L.On m.contents g size before PageId.null) (hformats : m.formats = .standard)
    (hnodup : L.ids.Nodup) :
    ∃ m', nodes g (L.first PageId.null) m = .ok L.ids m' ∧ m.Peeks m' ∧
      (m.Numbered → ∀ id ∈ L.ids, m'.Issued g id) :=
  nodesFrom_ok h hformats hnodup fun _ _ => List.not_mem_nil

/-- The page numbers in the slots of the nodes of a stretch. -/
theorem slotsOf_ok (h : L.On m.contents g size before behind) (hformats : m.formats = .standard) :
    ∃ m', slotsOf g L.ids m = .ok L.held m' ∧ m.Peeks m' := by
  induction L generalizing m before with
  | nil => exact ⟨m, rfl, .refl m⟩
  | cons entry L ih =>
    obtain ⟨id, slots⟩ := entry
    obtain ⟨hnode, hrest⟩ := h
    obtain ⟨m₁, hread, hreach, hcontents⟩ : ∃ m₁,
        readNode g id (fun _ => Node.slots) m = .ok slots m₁ ∧
        m.Reaches g id m₁ ∧ m₁.contents = m.contents :=
      readNode_ok hnode hformats fun page hon => hon.slots_eq
    rw [← hcontents] at hrest
    obtain ⟨m₂, hothers, hpeeks⟩ := ih hrest (hreach.formats.trans hformats)
    have hpeeks₁ : m.Peeks m₁ := ⟨hreach.toLike, hcontents⟩
    refine ⟨m₂, ?_, hpeeks₁.trans hpeeks⟩
    rw [Links.ids_cons, slotsOf, Act.bind_of_ok hread, Act.bind_of_ok hothers]
    rfl

/-- The page numbers in the slots of a chain. -/
theorem pages_ok (h : L.On m.contents g size before PageId.null) (hformats : m.formats = .standard)
    (hnodup : L.ids.Nodup) :
    ∃ m', pages g (L.first PageId.null) m = .ok L.held m' ∧ m.Peeks m' := by
  obtain ⟨m₁, hnodes, hpeeks₁, -⟩ := nodes_ok h hformats hnodup
  rw [← hpeeks₁.contents] at h
  obtain ⟨m₂, hslots, hpeeks₂⟩ := slotsOf_ok h (hpeeks₁.formats.trans hformats)
  refine ⟨m₂, ?_, hpeeks₁.trans hpeeks₂⟩
  rw [pages, Act.bind_of_ok hnodes, hslots]

/-- The nodes of a stretch name the nodes before them. -/
theorem verifyFrom_ok (h : L.On m.contents g size before behind)
    (hformats : m.formats = .standard) :
    ∃ m', verifyFrom g before L.ids m = .ok () m' ∧ m.Peeks m' := by
  induction L generalizing m before with
  | nil => exact ⟨m, rfl, .refl m⟩
  | cons entry L ih =>
    obtain ⟨id, slots⟩ := entry
    obtain ⟨hnode, hrest⟩ := h
    obtain ⟨m₁, hread, hreach, hcontents⟩ : ∃ m₁,
        readNode g id (fun _ => Node.prev) m = .ok before m₁ ∧
        m.Reaches g id m₁ ∧ m₁.contents = m.contents :=
      readNode_ok hnode hformats fun page hon => hon.prev
    rw [← hcontents] at hrest
    obtain ⟨m₂, hothers, hpeeks⟩ := ih hrest (hreach.formats.trans hformats)
    have hpeeks₁ : m.Peeks m₁ := ⟨hreach.toLike, hcontents⟩
    refine ⟨m₂, ?_, hpeeks₁.trans hpeeks⟩
    rw [Links.ids_cons, verifyFrom, Act.bind_of_ok hread]
    simp only [ne_eq, not_true_eq_false, if_false]
    exact hothers

/-- A chain names the nodes before its nodes, and none before the first. -/
theorem verify_ok (h : L.On m.contents g size PageId.null PageId.null)
    (hformats : m.formats = .standard) (hnodup : L.ids.Nodup) :
    ∃ m', verify g (L.first PageId.null) m = .ok () m' ∧ m.Peeks m' := by
  obtain ⟨m₁, hnodes, hpeeks₁, -⟩ := nodes_ok h hformats hnodup
  rw [← hpeeks₁.contents] at h
  obtain ⟨m₂, hverify, hpeeks₂⟩ := verifyFrom_ok h (hpeeks₁.formats.trans hformats)
  refine ⟨m₂, ?_, hpeeks₁.trans hpeeks₂⟩
  rw [verify, Act.bind_of_ok hnodes, hverify]

end Chain

/-! ### The list on a chain -/

theorem firstRepeated?_eq_none {seen ids : List PageId} (hnodup : ids.Nodup)
    (hseen : ∀ id ∈ ids, id ∉ seen) : firstRepeated? seen ids = none := by
  induction ids generalizing seen with
  | nil => rfl
  | cons id ids ih =>
    obtain ⟨hid, hnodup⟩ := List.nodup_cons.1 hnodup
    rw [firstRepeated?, if_neg (hseen id List.mem_cons_self)]
    refine ih hnodup fun a ha => ?_
    rw [List.mem_cons, not_or]
    exact ⟨fun heq => hid (heq ▸ ha), hseen a (List.mem_cons_of_mem _ ha)⟩

namespace FreeList

variable {m : Memory} {g : GroupId} {size : Nat} {L : Links}

/-- What is kept beside a chain that holds no page number twice. -/
def ofLinks (g : GroupId) (L : Links) : FreeList :=
  ⟨g, L.first PageId.null, L.last PageId.null, L.ids, L.held⟩

theorem ofChain_ok (h : L.On m.contents g size PageId.null PageId.null)
    (hformats : m.formats = .standard) (hne : L ≠ []) (hnodup : L.ids.Nodup)
    (hheld : L.held.Nodup) :
    ∃ m', ofChain g (L.first PageId.null) m = .ok (ofLinks g L) m' ∧ m.Peeks m' ∧
      (m.Numbered → ∀ id ∈ L.ids, m'.Issued g id) := by
  have hhead : L.first PageId.null ≠ PageId.null := by
    cases L with
    | nil => exact absurd rfl hne
    | cons entry rest => exact Chain.id_ne_null h.1
  -- three walks, each of which leaves the chain to the next as it was
  obtain ⟨m₁, hverify, hpeeks₁⟩ := Chain.verify_ok h hformats hnodup
  rw [← hpeeks₁.contents] at h
  obtain ⟨m₂, hnodes, hpeeks₂, hissued⟩ := Chain.nodes_ok h (hpeeks₁.formats.trans hformats) hnodup
  rw [← hpeeks₂.contents] at h
  obtain ⟨m₃, hpages, hpeeks₃⟩ :=
    Chain.pages_ok h (hpeeks₂.formats.trans (hpeeks₁.formats.trans hformats)) hnodup
  refine ⟨m₃, ?_, hpeeks₁.trans (hpeeks₂.trans hpeeks₃), fun hn id hid =>
    hpeeks₃.issued g id (hissued (hpeeks₁.numbered hn) id hid)⟩
  simp only [ofChain, if_neg hhead]
  rw [Act.bind_of_ok hverify, Act.bind_of_ok hnodes, Act.bind_of_ok hpages]
  simp only [firstRepeated?_eq_none hheld fun _ _ => List.not_mem_nil]
  rw [← Links.last_eq_getD, Links.last_eq_last _ PageId.null hne]
  rfl

/-- Where the first page is blank there is no list. -/
theorem ofChain_blank {head : PageId} {n : Nat}
    (h : m.contents g head = .ok (Bytes.zeros n)) :
    ∃ e m', ofChain g head m = .error e m' ∧ m.Peeks m' := by
  have hhead : head ≠ PageId.null := (Memory.contents_eq_ok h).1
  obtain ⟨e, m', hread, hpeeks⟩ := Chain.readNode_blank h fun _ => Node.next
  refine ⟨e, m', ?_, hpeeks⟩
  -- the walk ends at its first page
  have hnodes : Chain.nodes g head m = .error e m' := by
    rw [Chain.nodes, Chain.nodesFrom, if_neg hhead, dif_neg List.not_mem_nil]
    split
    · rename_i hbad
      rw [hread] at hbad
      cases hbad
      rfl
    · rename_i hok
      rw [hread] at hok
      cases hok
  simp only [ofChain, if_neg hhead]
  exact Act.bind_of_error (Act.bind_of_error hnodes)

end FreeList

end PageLog
