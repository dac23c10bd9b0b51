import Mathlib.Data.List.Nodup
import PageLog.Proofs.Chains
import PageLog.Proofs.JournalRun

/-!
# Steps of free lists

A free list agrees with a chain on its pages when it knows the ends of the chain, its nodes, and the
page numbers in the slots.  On pages of a size for which the count of slots has enough bits it knows
no other page numbers.  Each operation takes a list and its chain to a list and its chain, changes
no page that is in use elsewhere, and shows on the pages in use only with its last change.

## Main definitions

* `FreeList.Lies` — the list agrees with the chain on the pages.
* `FreeList.Stepped` — an operation took a chain to another.

## Main results

* `FreeList.create_ok` — a new list.
* `FreeList.put_fills`, `FreeList.put_links` — giving back a page.
* `FreeList.take_slot`, `FreeList.take_node`, `FreeList.take_none` — taking a page.
-/

namespace PageLog

/-! ### Memories that lists are kept in -/

/-- Only the first format is known, numbers of touched pages are in use, and no page is smaller than
allowed. -/
structure Memory.Sound (m : Memory) : Prop where
  /-- Only the first format is known. -/
  formats : m.formats = .standard
  /-- The numbers of touched pages are in use. -/
  numbered : m.Numbered
  /-- No page is smaller than allowed. -/
  large : ∀ g size, m.pageSize g = .ok size → minPageSize ≤ size

theorem Memory.Sound.like {m m' : Memory} (hm : m.Sound) (h : m.Like m') : m'.Sound :=
  ⟨h.formats.trans hm.formats, h.numbered hm.numbered, fun g size hsize =>
    hm.large g size ((h.pageSize g).symm.trans hsize)⟩

theorem Memory.Untouched.sound {m : Memory} (h : m.Untouched) : m.Sound := by
  refine ⟨h.formats, h.numbered, fun g size hsize => ?_⟩
  unfold Memory.pageSize at hsize
  split at hsize
  · rename_i pages hg
    obtain ⟨pageSize, hlarge, rfl⟩ := h.groups g pages hg
    cases hsize
    exact hlarge
  · cases hsize

/-- A page whose number is not in use yet is blank. -/
theorem Memory.Numbered.contents_blank {m : Memory} {g : GroupId} {id : PageId} {size : Nat}
    (hm : m.Numbered) (hsize : m.pageSize g = .ok size) (hid : ¬m.Issued g id) :
    m.contents g id = .ok (Bytes.zeros size) := by
  unfold Memory.pageSize at hsize
  split at hsize
  · rename_i pages hg
    cases hsize
    have hnew : ¬pages.Issued id := by
      intro hissued
      refine hid fun other hother => ?_
      rw [hg] at hother
      cases hother
      exact hissued
    have hnull : id ≠ PageId.null := by
      rintro rfl
      exact hnew (hm g pages hg).null
    have hnone : pages.pages[id]? = none := by
      rw [Std.TreeMap.getElem?_eq_none]
      exact fun hmem => hnew ((hm g pages hg).touched id hmem)
    rw [Memory.contents_eq, if_neg hnull, hg]
    simp only [GroupPages.bytesOf, hnone]
  · cases hsize

/-! ### Changes that a journal carries out -/

namespace Journal

variable {j j' : Journal} {h : FileHeader} {rs : List Record} {ds : List PageDelta} {m₁ : Memory}

theorem applyBatch_map_delta (ds : List PageDelta) :
    applyBatch (ds.map .delta) = applyDeltas ds := by
  have hwhole : (ds.map Record.delta).any (·.delta?.isNone) = false := by
    simp [Record.delta?]
  have hchanges : (ds.map Record.delta).filterMap Record.delta? = ds := Record.changes_map_delta ds
  simp only [applyBatch, hwhole, hchanges]
  rfl

/-- Changes that can be carried out are carried out, also after steps on the pages that made no
difference. -/
theorem applyBatch_ok (hl : j.log.Holds h (rs.map Record.encode) []) (hlike : j.memory.Like m₁)
    (hsame : m₁.contents = j.memory.contents) {c : Contents}
    (hc : ds.foldlM (Contents.change j.memory) j.memory.contents = some c) :
    ∃ pointers j', applyBatch (ds.map .delta) { j with memory := m₁ } = .ok pointers j' ∧
      j.CarriedOut h rs ds j' ∧ j'.memory.contents = c ∧ m₁.Like j'.memory := by
  have hc₁ : ds.foldlM (Contents.change m₁) m₁.contents = some c := by
    rw [Contents.change_like hlike, hsame, hc]
  have happly := applyDeltas_eq (j := { j with memory := m₁ }) hl ds
  simp only [hc₁] at happly
  obtain ⟨pointers, j', hrun, hout, rfl⟩ := happly
  exact ⟨pointers, j', by rw [applyBatch_map_delta, hrun],
    ⟨hout.switches, hlike.trans hout.like, hc, hout.log, hout.counted⟩, rfl, hout.like⟩

/-- A change that can be carried out is carried out. -/
theorem apply_ok (hl : j.log.Holds h (rs.map Record.encode) []) (hlike : j.memory.Like m₁)
    (hsame : m₁.contents = j.memory.contents) {d : PageDelta} {c : Contents}
    (hc : j.memory.contents.change j.memory d = some c) :
    ∃ pointer j', Journal.apply (.delta d) { j with memory := m₁ } = .ok pointer j' ∧
      j.CarriedOut h rs [d] j' ∧ j'.memory.contents = c ∧ m₁.Like j'.memory := by
  have hc' : [d].foldlM (Contents.change j.memory) j.memory.contents = some c := by
    rw [List.foldlM_cons, hc]
    rfl
  obtain ⟨pointers, j', hrun, hmoved⟩ := applyBatch_ok hl hlike hsame hc'
  refine ⟨pointers.getLast?.join, j', ?_, hmoved⟩
  rw [Journal.apply, Act.bind_of_ok (show applyBatch [.delta d] _ = _ from hrun)]
  rfl

end Journal

/-! ### Lists on chains -/

/-- The page that a change makes a node with none before it. -/
def PageDelta.head? (d : PageDelta) : Option (GroupId × PageId) :=
  match d.change with
  | .init prev _ | .setPrev prev =>
      if prev = PageId.null then some (d.target.group, d.target.page) else none
  | .setNext _ | .add _ _ | .remove _ _ => none

theorem nodup_snoc {ids : List PageId} {id : PageId} (h : ids.Nodup) (hid : id ∉ ids) :
    (ids ++ [id]).Nodup := by
  refine List.nodup_append.2 ⟨h, List.pairwise_singleton _ _, ?_⟩
  rintro a ha b hb rfl
  exact hid (List.mem_singleton.1 hb ▸ ha)

namespace FreeList

/-- The list `l` agrees with the chain `L`, which the contents `c` show on pages of `size` bytes. -/
structure Lies (l : FreeList) (c : Contents) (size : Nat) (L : Links) : Prop where
  /-- There is a first node. -/
  nonempty : L ≠ []
  /-- The list knows the first node. -/
  head : l.head = L.first PageId.null
  /-- The list knows the last node. -/
  tail : l.tail = L.last PageId.null
  /-- The pages show the chain. -/
  on : L.On c l.group size PageId.null PageId.null
  /-- No node comes twice. -/
  distinct : L.ids.Nodup
  /-- The list knows the nodes. -/
  nodes : l.nodes.Perm L.ids
  /-- No page number comes twice. -/
  once : L.held.Nodup
  /-- The list knows the page numbers in the slots. -/
  held : L.held ⊆ l.free
  /-- The list knows no page number twice. -/
  known : l.free.Nodup
  /-- The list knows no other page numbers, if the count has enough bits for the slots. -/
  all : Node.capacity size < 2 ^ 16 → l.free ⊆ L.held

/-- The list with one more node, which holds one more page number. -/
def linked (l : FreeList) (node data : PageId) : FreeList :=
  { l with tail := node, nodes := l.nodes.insert node, free := l.free.insert data }

section Lies

variable {l : FreeList} {c c' : Contents} {size : Nat} {L : Links}

theorem Lies.congr (h : l.Lies c size L) (hsame : ∀ id ∈ L.ids, c' l.group id = c l.group id) :
    l.Lies c' size L :=
  { h with on := h.on.congr hsame }

/-- The list found on a chain agrees with it. -/
theorem lies_ofLinks {g : GroupId} (hon : L.On c g size PageId.null PageId.null) (hne : L ≠ [])
    (hdistinct : L.ids.Nodup) (honce : L.held.Nodup) : (ofLinks g L).Lies c size L :=
  ⟨hne, rfl, rfl, hon, hdistinct, .refl _, honce, List.Subset.refl _, honce,
    fun _ => List.Subset.refl _⟩

theorem Lies.free_perm (h : l.Lies c size L) (hsize : Node.capacity size < 2 ^ 16) :
    l.free.Perm L.held :=
  (List.perm_ext_iff_of_nodup h.known h.once).2 fun _ => ⟨fun ha => h.all hsize ha,
    fun ha => h.held ha⟩

/-- The slots of the last node change, and with them the page numbers that are known. -/
theorem Lies.refill {L₀ : Links} {t : PageId} {s s' free : List PageId}
    (h : l.Lies c size (L₀ ++ [(t, s)]))
    (hsame : ∀ id ∈ L₀.ids, c' l.group id = c l.group id)
    (hnode : NodeView.In ⟨L₀.last PageId.null, PageId.null, s'⟩ c' l.group size t)
    (honce : (L₀.held ++ s').Nodup) (hheld : L₀.held ++ s' ⊆ free) (hknown : free.Nodup)
    (hall : Node.capacity size < 2 ^ 16 → free ⊆ L₀.held ++ s') :
    { l with free := free }.Lies c' size (L₀ ++ [(t, s')]) := by
  refine ⟨by simp, ?_, ?_, ?_, ?_, ?_, ?_, ?_, hknown, ?_⟩
  · exact h.head.trans (by rw [Links.first_append, Links.first_append]; rfl)
  · exact h.tail.trans (by rw [Links.last_append, Links.last_append]; rfl)
  · exact (Links.on_snoc ..).2 ⟨((Links.on_snoc ..).1 h.on).1.congr hsame, hnode⟩
  · have hdistinct := h.distinct
    rwa [Links.ids_snoc] at hdistinct ⊢
  · have hnodes := h.nodes
    rwa [Links.ids_snoc] at hnodes ⊢
  · rwa [Links.held_snoc]
  · rwa [Links.held_snoc]
  · rwa [Links.held_snoc]

/-- A node is put behind the last. -/
theorem Lies.link {L₀ : Links} {t node data : PageId} {s : List PageId}
    (h : l.Lies c size (L₀ ++ [(t, s)])) (hnode : node ∉ Links.ids (L₀ ++ [(t, s)]))
    (hdata : data ∉ l.free) (hsame : ∀ id ∈ L₀.ids, c' l.group id = c l.group id)
    (htail : NodeView.In ⟨L₀.last PageId.null, node, s⟩ c' l.group size t)
    (hin : NodeView.In ⟨t, PageId.null, [data]⟩ c' l.group size node) :
    (l.linked node data).Lies c' size (L₀ ++ [(t, s)] ++ [(node, [data])]) := by
  have hheld := h.held
  -- what the list knows and what the chain holds grow by the same node and the same page
  refine ⟨by simp, ?_, ?_, ?_, ?_, ?_, ?_, ?_, h.known.insert, fun hbits => ?_⟩
  · refine h.head.trans ?_
    rw [Links.first_append, Links.first_append, Links.first_append]
    rfl
  · rw [Links.last_append]
    rfl
  · refine (Links.on_snoc ..).2 ⟨(Links.on_snoc ..).2 ⟨?_, htail⟩, ?_⟩
    · exact ((Links.on_snoc ..).1 h.on).1.congr hsame
    · rwa [Links.last_append]
  · rw [Links.ids_snoc]
    exact nodup_snoc h.distinct hnode
  · have hnew : node ∉ l.nodes := fun hmem => hnode (h.nodes.mem_iff.1 hmem)
    rw [Links.ids_snoc, linked, List.insert_of_not_mem hnew]
    exact (h.nodes.cons node).trans (List.perm_append_singleton _ _).symm
  · rw [Links.held_snoc]
    exact nodup_snoc h.once fun hmem => hdata (hheld hmem)
  · rw [Links.held_snoc]
    intro a ha
    obtain ha | ha := List.mem_append.1 ha
    · exact List.mem_insert_of_mem (hheld ha)
    · exact List.mem_singleton.1 ha ▸ List.mem_insert_self
  · rw [Links.held_snoc]
    intro a ha
    obtain rfl | ha := List.mem_insert_iff.1 ha
    · exact List.mem_append_right _ (List.mem_singleton_self a)
    · exact List.mem_append_left _ (h.all hbits ha)

/-- A last node without slots in use is taken away. -/
theorem Lies.unlink {L₀ : Links} {p t : PageId} {s : List PageId}
    (h : l.Lies c size (L₀ ++ [(p, s)] ++ [(t, [])]))
    (hsame : ∀ id ∈ L₀.ids, c' l.group id = c l.group id)
    (hnode : NodeView.In ⟨L₀.last PageId.null, PageId.null, s⟩ c' l.group size p) :
    { l with tail := p, nodes := l.nodes.erase t }.Lies c' size (L₀ ++ [(p, s)]) := by
  have hdistinct := h.distinct
  have hnodes := h.nodes
  have honce := h.once
  have hheld := h.held
  have hall := h.all
  rw [Links.ids_snoc] at hdistinct hnodes
  -- the node held no page, so that no page in use is lost with it
  rw [Links.held_snoc, List.append_nil] at honce hheld hall
  refine ⟨by simp, ?_, ?_, ?_, (List.nodup_append.1 hdistinct).1, ?_, honce, hheld, h.known, hall⟩
  · refine h.head.trans ?_
    rw [Links.first_append, Links.first_append, Links.first_append]
    rfl
  · rw [Links.last_append]
    rfl
  · have hon := ((Links.on_snoc ..).1 h.on).1
    exact (Links.on_snoc ..).2 ⟨((Links.on_snoc ..).1 hon).1.congr hsame, hnode⟩
  · have hperm := (hnodes.trans (List.perm_append_singleton _ _)).erase t
    rwa [List.erase_cons_head] at hperm

end Lies

/-- An operation took the chain `L` of group `g`, or nothing at all, to the chain `L'` of the list
`l'`, by the changes `ds`. -/
structure Stepped (g : GroupId) (size : Nat) (L L' : Links) (j : Journal) (h : FileHeader)
    (rs : List Record) (ds : List PageDelta) (l' : FreeList) (j' : Journal) : Prop where
  /-- The changes were carried out. -/
  out : j.CarriedOut h rs ds j'
  /-- The group. -/
  group : l'.group = g
  /-- The list agrees with its chain. -/
  lies : l'.Lies j'.memory.contents size L'
  /-- The nodes are in use. -/
  issued : ∀ id ∈ L'.ids, j'.memory.Issued g id
  /-- New nodes were not in use. -/
  fresh : ∀ id ∈ L'.ids, id ∈ L.ids ∨ ¬j.memory.Issued g id
  /-- Other pages in use stay as they are. -/
  spares : ∀ g' id, j.memory.Issued g' id → (g' = g → id ∉ L.ids) →
    j'.memory.contents g' id = j.memory.contents g' id
  /-- Before the last change all pages in use are as before. -/
  early : ∀ k < ds.length, ∃ c,
    (ds.take k).foldlM (Contents.change j.memory) j.memory.contents = some c ∧
      ∀ g' id, j.memory.Issued g' id → c g' id = j.memory.contents g' id
  /-- Only a single change makes a node with none before it, and that is the first of the list. -/
  heads : ∀ d ∈ ds, ∀ page, d.head? = some page → ds = [d] ∧ page = (g, l'.head)

section Step

variable {l : FreeList} {j : Journal} {h : FileHeader} {rs : List Record} {g : GroupId}
  {size : Nat} {L : Links}

/-- A single change comes as a whole. -/
theorem early_one {j : Journal} {d : PageDelta} : ∀ k < [d].length, ∃ c,
    ([d].take k).foldlM (Contents.change j.memory) j.memory.contents = some c ∧
      ∀ g' id, j.memory.Issued g' id → c g' id = j.memory.contents g' id := by
  intro k hk
  obtain rfl : k = 0 := by simpa using hk
  exact ⟨j.memory.contents, rfl, fun _ _ _ => rfl⟩

/-- An operation that changes one page of the chain, or a new page. -/
theorem Stepped.of_put {L' : Links} {d : PageDelta} {l' : FreeList} {j' : Journal} {id : PageId}
    {bs : Bytes} (hout : j.CarriedOut h rs [d] j')
    (hcontents : j'.memory.contents = j.memory.contents.put g id bs)
    (hid : id ∈ L.ids ∨ ¬j.memory.Issued g id)
    (hhead : ∀ page, d.head? = some page → page = (g, l'.head)) (hgroup : l'.group = g)
    (hlies : l'.Lies j'.memory.contents size L') (hissued : ∀ a ∈ L'.ids, j'.memory.Issued g a)
    (hfresh : ∀ a ∈ L'.ids, a ∈ L.ids ∨ ¬j.memory.Issued g a) :
    Stepped g size L L' j h rs [d] l' j' := by
  refine ⟨hout, hgroup, hlies, hissued, hfresh, fun g' a ha hna => ?_, early_one,
    fun d' hd' page hpage => ?_⟩
  · rw [hcontents, Contents.put_of_ne]
    rintro rfl rfl
    obtain hid | hid := hid
    · exact hna rfl hid
    · exact hid ha
  · obtain rfl := List.mem_singleton.1 hd'
    exact ⟨rfl, hhead page hpage⟩

/-- A new list, where there is a number for its node. -/
theorem create_ok (hm : j.memory.Sound) (hl : j.log.Holds h (rs.map Record.encode) [])
    {head : PageId} (hnext : j.memory.nextId g = some head) :
    ∃ size j' d, create g j = .ok ⟨g, head, head, [head], []⟩ j' ∧
      j.memory.pageSize g = .ok size ∧
      Stepped g size [] [(head, [])] j h rs [d] ⟨g, head, head, [head], []⟩ j' := by
  obtain ⟨m₁, hallocate⟩ := Memory.allocate_of_nextId hnext
  obtain ⟨-, hlike, hsame, hnew, hissued⟩ := Memory.allocate_ok hallocate
  obtain ⟨size, hsize⟩ := Memory.pageSize_of_nextId hnext
  obtain ⟨page', hchange, hnode⟩ := NodeView.change_init hm.formats hsize (hm.large g size hsize)
    (hm.numbered.contents_blank hsize hnew) (Bytes.length_zeros size) PageId.null PageId.null
  obtain ⟨pointer, j', hrun, hout, hcontents, hlike'⟩ := Journal.apply_ok hl hlike hsame hchange
  rw [if_pos rfl, ← hcontents] at hnode
  have hfirst : Journal.onMemory (Memory.allocate g) j = .ok head { j with memory := m₁ } :=
    Journal.onMemory_of_ok hallocate
  have hformat : Act.ofResult m₁.formats.latest { j with memory := m₁ } =
      .ok NodeFormat.v1 { j with memory := m₁ } := by
    rw [hlike.formats, hm.formats]
    rfl
  refine ⟨size, j', _, ?_, hsize, .of_put hout hcontents (.inr hnew)
    (fun page hpage => (Option.some.inj hpage).symm) rfl
    (lies_ofLinks (L := [(head, [])]) ⟨hnode, trivial⟩ (by simp) (List.pairwise_singleton _ _)
      List.nodup_nil) ?_ ?_⟩
  · rw [create, Act.bind_of_ok hfirst, Act.get_bind, Act.bind_of_ok hformat,
      Act.bind_of_ok (Act.discard_of_ok hrun)]
    rfl
  · intro a ha
    obtain rfl := List.mem_singleton.1 ha
    exact hlike'.issued g _ hissued
  · intro a ha
    obtain rfl := List.mem_singleton.1 ha
    exact .inr hnew

/-- Without a number for its node there is no new list. -/
theorem create_exhausted (hnext : j.memory.nextId g = none) : ∃ e, create g j = .error e j := by
  obtain ⟨e, hallocate⟩ := Memory.allocate_of_none hnext
  exact ⟨e, Act.bind_of_error (Journal.onMemory_of_error hallocate)⟩

/-! ### Giving back -/

/-- The page may be given back to the list. -/
structure Accepts (l : FreeList) (data : PageId) : Prop where
  /-- The null page is never given back. -/
  null : data ≠ PageId.null
  /-- The page is not free yet. -/
  free : data ∉ l.free
  /-- The page is no node of the list. -/
  nodes : data ∉ l.nodes

/-- What is asked of a list that is to change: its chain lies on pages in use. -/
structure Kept (l : FreeList) (j : Journal) (h : FileHeader) (rs : List Record) (size : Nat)
    (L : Links) : Prop where
  /-- The memory is sound. -/
  sound : j.memory.Sound
  /-- The log holds the records so far. -/
  log : j.log.Holds h (rs.map Record.encode) []
  /-- The size of the pages. -/
  pageSize : j.memory.pageSize l.group = .ok size
  /-- The list agrees with its chain. -/
  lies : l.Lies j.memory.contents size L
  /-- The nodes are in use. -/
  issued : ∀ id ∈ L.ids, j.memory.Issued l.group id

/-- A page that may not be given back is refused. -/
theorem put_refused {data : PageId} (hrefused : ¬l.Accepts data) :
    ∃ e, put l data j = .error e j := by
  by_cases hnull : data = PageId.null
  · exact ⟨_, by simp only [put, if_pos hnull]; rfl⟩
  cases hsize : j.memory.pageSize l.group with
  | error e =>
    refine ⟨e, ?_⟩
    simp only [put, if_neg hnull]
    rw [Act.get_bind, hsize]
    rfl
  | ok size =>
    by_cases hfree : data ∈ l.free
    · refine ⟨.invalidValue (.alreadyFree data), ?_⟩
      simp only [put, if_neg hnull]
      rw [Act.get_bind, hsize, Act.bind_of_ok (Act.ofResult_ok size j)]
      simp only [if_pos hfree]
      rfl
    · have hnode : data ∈ l.nodes := by
        by_contra hnode
        exact hrefused ⟨hnull, hfree, hnode⟩
      refine ⟨.invalidValue (.isNode data), ?_⟩
      simp only [put, if_neg hnull]
      rw [Act.get_bind, hsize, Act.bind_of_ok (Act.ofResult_ok size j)]
      simp only [if_neg hfree, if_pos hnode]
      rfl

/-- A list that was changed may be changed again. -/
theorem Stepped.kept {L' : Links} {ds : List PageDelta} {l' : FreeList} {j' : Journal}
    (hstep : Stepped g size L L' j h rs ds l' j') (hm : j.memory.Sound)
    (hsize : j.memory.pageSize g = .ok size) :
    l'.Kept j' h (rs ++ j.recordsOf ds) size L' := by
  refine ⟨hm.like hstep.out.like, hstep.out.log, ?_, hstep.lies, ?_⟩
  · rw [hstep.group, hstep.out.like.pageSize, hsize]
  · rw [hstep.group]
    exact hstep.issued

/-- Reading pages makes no difference to a list. -/
theorem Kept.peeks (hk : l.Kept j h rs size L) {m : Memory} (hpeeks : j.memory.Peeks m) :
    l.Kept { j with memory := m } h rs size L := by
  refine ⟨hk.sound.like hpeeks.toLike, hk.log, ?_, ?_, ?_⟩
  · exact (hpeeks.pageSize _).trans hk.pageSize
  · exact hk.lies.congr fun id _ => congrFun (congrFun hpeeks.contents _) id
  · exact fun id hid => hpeeks.issued _ id (hk.issued id hid)

section Beside

variable {l₂ : FreeList} {size₂ : Nat} {K L' : Links} {ds : List PageDelta} {l' : FreeList}
  {j' : Journal}

/-- A list no node of which is in the chain keeps its own chain. -/
theorem Stepped.kept_beside (hstep : Stepped g size L L' j h rs ds l' j')
    (hk : l₂.Kept j h rs size₂ K) (hapart : l₂.group = g → ∀ id ∈ K.ids, id ∉ L.ids) :
    l₂.Kept j' h (rs ++ j.recordsOf ds) size₂ K := by
  refine ⟨hk.sound.like hstep.out.like, hstep.out.log, ?_, ?_, ?_⟩
  · rw [hstep.out.like.pageSize, hk.pageSize]
  · refine hk.lies.congr fun id hid => ?_
    exact hstep.spares _ id (hk.issued id hid) fun hg => hapart hg id hid
  · exact fun id hid => hstep.out.like.issued _ id (hk.issued id hid)

/-- New nodes were not in use, so that the two chains stay apart. -/
theorem Stepped.apart (hstep : Stepped g size L L' j h rs ds l' j') (hk : l₂.Kept j h rs size₂ K)
    (hg : l₂.group = g) (hapart : ∀ id ∈ K.ids, id ∉ L.ids) : ∀ id ∈ K.ids, id ∉ L'.ids := by
  intro id hid hmem
  obtain hold | hfresh := hstep.fresh id hmem
  · exact hapart id hid hold
  · exact hfresh (hg ▸ hk.issued id hid)

end Beside

variable {L₀ : Links} {t : PageId} {s : List PageId} {data : PageId}

theorem Kept.tail_eq (hk : l.Kept j h rs size (L₀ ++ [(t, s)])) : l.tail = t := by
  rw [hk.lies.tail, Links.last_append]
  rfl

/-- What the last node says. -/
theorem Kept.tailNode (hk : l.Kept j h rs size (L₀ ++ [(t, s)])) :
    NodeView.In ⟨L₀.last PageId.null, PageId.null, s⟩ j.memory.contents l.group size t :=
  ((Links.on_snoc L₀ t s).1 hk.lies.on).2

/-- Reading from the last node. -/
theorem Kept.readTail (hk : l.Kept j h rs size (L₀ ++ [(t, s)])) {α : Type}
    {read : NodeFormat → Bytes → Result α} {a : α}
    (hread : ∀ page, NodeView.On ⟨L₀.last PageId.null, PageId.null, s⟩ size t page →
      read .v1 page = .ok a) :
    ∃ m₁, Journal.onMemory (Chain.readNode l.group l.tail read) j =
        .ok a { j with memory := m₁ } ∧
      j.memory.Peeks m₁ ∧ ∀ g, m₁.nextId g = j.memory.nextId g := by
  obtain ⟨m₁, hrun, hreach, hsame⟩ := Chain.readNode_ok hk.tailNode hk.sound.formats hread
  rw [hk.tail_eq]
  refine ⟨m₁, Journal.onMemory_of_ok hrun, ⟨hreach.toLike, hsame⟩, hreach.nextId (hk.issued t ?_)⟩
  rw [Links.ids_append]
  exact List.mem_append_right _ (List.mem_singleton_self t)

/-- A page that may be given back goes into the last node, or into a new one behind it. -/
theorem Kept.put_eq (hk : l.Kept j h rs size (L₀ ++ [(t, s)])) (haccepts : l.Accepts data) :
    ∃ m₁, j.memory.Peeks m₁ ∧ (∀ g, m₁.nextId g = j.memory.nextId g) ∧
      put l data j =
        (if s.length < Node.capacity size then
          fillSlot l (NodeFormat.v1.target l.group t) s.length data
        else linkNode l (NodeFormat.v1.target l.group t) data) { j with memory := m₁ } := by
  have hcount : ∀ page, NodeView.On ⟨L₀.last PageId.null, PageId.null, s⟩ size t page →
      (do return (NodeFormat.v1, ← Node.count page) : Result (NodeFormat × Nat)) =
        .ok (.v1, s.length) := by
    intro page hon
    rw [hon.count]
    rfl
  obtain ⟨m₁, hread, hpeeks, hnext⟩ : ∃ m₁,
      Journal.onMemory (Chain.readNode l.group l.tail fun format page => do
        return (format, ← Node.count page)) j = .ok (.v1, s.length) { j with memory := m₁ } ∧
      j.memory.Peeks m₁ ∧ ∀ g, m₁.nextId g = j.memory.nextId g := hk.readTail hcount
  refine ⟨m₁, hpeeks, hnext, ?_⟩
  simp only [put, if_neg haccepts.null]
  rw [Act.get_bind, hk.pageSize, Act.bind_of_ok (Act.ofResult_ok size j)]
  simp only [if_neg haccepts.free, if_neg haccepts.nodes]
  rw [Act.bind_of_ok hread, hk.tail_eq]
  rfl

theorem Kept.ids_ne (hk : l.Kept j h rs size (L₀ ++ [(t, s)])) : ∀ id ∈ L₀.ids, t ≠ id := by
  rintro id hid rfl
  have hdistinct := hk.lies.distinct
  rw [Links.ids_snoc] at hdistinct
  exact (List.nodup_append.1 hdistinct).2.2 _ hid _ (List.mem_singleton_self _) rfl

theorem Kept.tail_mem : t ∈ Links.ids (L₀ ++ [(t, s)]) := by
  rw [Links.ids_snoc]
  exact List.mem_append_right _ (List.mem_singleton_self t)

/-- While the last node has room, a page that is given back goes into its next slot. -/
theorem put_fills (hk : l.Kept j h rs size (L₀ ++ [(t, s)])) (haccepts : l.Accepts data)
    (hroom : s.length < Node.capacity size) :
    ∃ j', put l data j = .ok { l with free := l.free.insert data } j' ∧
      Stepped l.group size (L₀ ++ [(t, s)]) (L₀ ++ [(t, NodeView.filled s data)]) j h rs
        [⟨NodeFormat.v1.target l.group t, .add (.ofNat s.length) data⟩]
        { l with free := l.free.insert data } j' := by
  obtain ⟨m₁, hpeeks, -, hput⟩ := hk.put_eq haccepts
  obtain ⟨page', hchange, hnode⟩ :=
    hk.tailNode.change_add hk.sound.formats hk.pageSize hroom data
  obtain ⟨pointer, j', hrun, hout, hcontents, -⟩ :=
    Journal.apply_ok hk.log hpeeks.toLike hpeeks.contents hchange
  have hlies := hk.lies
  have honce := hlies.once
  have hheld := hlies.held
  have hall := hlies.all
  rw [Links.held_snoc] at honce hheld hall
  rw [← hcontents] at hnode
  -- what is in a slot is known, so that a page which is not known is in none
  have hnew : data ∉ L₀.held ++ s := fun hmem => haccepts.free (hheld hmem)
  refine ⟨j', ?_, .of_put hout hcontents (.inl Kept.tail_mem) nofun rfl
    (hlies.refill (fun id hid => ?_) hnode ?_ ?_ ?_ ?_) ?_ ?_⟩
  · rw [hput, if_pos hroom, fillSlot, Act.bind_of_ok (Act.discard_of_ok hrun)]
    rfl
  · rw [hcontents, Contents.put_of_ne _ _ fun _ => hk.ids_ne id hid]
  · refine (nodup_snoc honce hnew).sublist ?_
    rw [List.append_assoc]
    exact (NodeView.filled_sublist s data).append_left _
  · intro a ha
    have hmem : a ∈ (L₀.held ++ s) ++ [data] := by
      rw [List.append_assoc]
      exact ((NodeView.filled_sublist s data).append_left _).subset ha
    obtain ha | ha := List.mem_append.1 hmem
    · exact List.mem_insert_of_mem (hheld ha)
    · exact List.mem_singleton.1 ha ▸ List.mem_insert_self
  · exact hlies.known.insert
  · -- the count does not run past its 16 bits, so the slots only become one more
    intro hbits a ha
    rw [NodeView.filled, if_pos (by omega), ← List.append_assoc]
    obtain rfl | ha := List.mem_insert_iff.1 ha
    · exact List.mem_append_right _ (List.mem_singleton_self a)
    · exact List.mem_append_left _ (hall hbits ha)
  · intro a ha
    rw [Links.ids_snoc] at ha
    exact hout.like.issued _ a (hk.issued a (by rwa [Links.ids_snoc]))
  · intro a ha
    rw [Links.ids_snoc] at ha ⊢
    exact .inl ha

/-- A new page becomes a node behind the last, and then the last node points to it. -/
theorem Kept.change_link (hk : l.Kept j h rs size (L₀ ++ [(t, s)])) (hdata : data ≠ PageId.null)
    {node : PageId} (hnew : ¬j.memory.Issued l.group node) :
    ∃ page₁ page₂,
      j.memory.contents.change j.memory ⟨NodeFormat.v1.target l.group node, .init t data⟩ =
        some (j.memory.contents.put l.group node page₁) ∧
      (j.memory.contents.put l.group node page₁).change j.memory
          ⟨NodeFormat.v1.target l.group t, .setNext node⟩ =
        some ((j.memory.contents.put l.group node page₁).put l.group t page₂) ∧
      NodeView.In ⟨L₀.last PageId.null, node, s⟩
        ((j.memory.contents.put l.group node page₁).put l.group t page₂) l.group size t ∧
      NodeView.In ⟨t, PageId.null, [data]⟩
        ((j.memory.contents.put l.group node page₁).put l.group t page₂) l.group size node := by
  have hne : node ≠ t := fun heq => hnew (heq ▸ hk.issued t Kept.tail_mem)
  obtain ⟨page₁, hinit, hnode⟩ := NodeView.change_init hk.sound.formats hk.pageSize
    (hk.sound.large _ _ hk.pageSize) (hk.sound.numbered.contents_blank hk.pageSize hnew)
    (Bytes.length_zeros size) t data
  rw [if_neg hdata] at hnode
  have htail : NodeView.In ⟨L₀.last PageId.null, PageId.null, s⟩
      (j.memory.contents.put l.group node page₁) l.group size t :=
    hk.tailNode.congr (Contents.put_of_ne _ _ fun _ => hne)
  obtain ⟨page₂, hset, htail'⟩ := htail.change_setNext hk.sound.formats hk.pageSize node
  exact ⟨page₁, page₂, hinit, hset, htail',
    hnode.congr (Contents.put_of_ne _ _ fun _ => hne.symm)⟩

/-- Behind a full last node, a page that is given back goes into a new node, for which there is a
number. -/
theorem put_links (hk : l.Kept j h rs size (L₀ ++ [(t, s)])) (haccepts : l.Accepts data)
    (hfull : Node.capacity size ≤ s.length) {node : PageId}
    (hnext : j.memory.nextId l.group = some node) :
    ∃ j' d d', put l data j = .ok (l.linked node data) j' ∧
      Stepped l.group size (L₀ ++ [(t, s)]) (L₀ ++ [(t, s)] ++ [(node, [data])]) j h rs [d, d']
        (l.linked node data) j' := by
  obtain ⟨m₁, hpeeks, hnext₁, hput⟩ := hk.put_eq haccepts
  obtain ⟨m₂, hallocate⟩ := Memory.allocate_of_nextId ((hnext₁ l.group).trans hnext)
  obtain ⟨-, hlike₂, hsame₂, hnew₁, hissued₂⟩ := Memory.allocate_ok hallocate
  have hnew : ¬j.memory.Issued l.group node := fun hid => hnew₁ (hpeeks.issued _ _ hid)
  obtain ⟨page₁, page₂, hinit, hset, htail, hnode⟩ := hk.change_link haccepts.null hnew
  -- the first change shows on no page in use, and the second only on the last node
  have hother : ∀ g' id, j.memory.Issued g' id →
      j.memory.contents.put l.group node page₁ g' id = j.memory.contents g' id := by
    intro g' id hid
    refine Contents.put_of_ne _ _ ?_
    rintro rfl rfl
    exact hnew hid
  have hchanges : List.foldlM (Contents.change j.memory) j.memory.contents
      [⟨NodeFormat.v1.target l.group node, .init t data⟩,
        ⟨NodeFormat.v1.target l.group t, .setNext node⟩] =
      some ((j.memory.contents.put l.group node page₁).put l.group t page₂) := by
    rw [List.foldlM_cons, hinit, Option.bind_eq_bind, Option.bind_some, List.foldlM_cons, hset]
    rfl
  obtain ⟨pointers, j', hrun, hout, hcontents, hlike'⟩ := Journal.applyBatch_ok hk.log
    (hpeeks.toLike.trans hlike₂) (hsame₂.trans hpeeks.contents) hchanges
  have hsame : ∀ g' id, j.memory.Issued g' id → (g' = l.group → t ≠ id) →
      j'.memory.contents g' id = j.memory.contents g' id := by
    intro g' id hid hnt
    rw [hcontents, Contents.put_of_ne _ _ fun hg => hnt hg.symm, hother g' id hid]
  -- the call is made of these steps, and what it leaves is the chain with one node more
  refine ⟨j', _, _, ?_, hout, rfl, hk.lies.link ?_ haccepts.free ?_ ?_ ?_, ?_, ?_, ?_, ?_, ?_⟩
  · have hfirst : Journal.onMemory (Memory.allocate l.group) { j with memory := m₁ } =
        .ok node { j with memory := m₂ } := Journal.onMemory_of_ok hallocate
    have hformat : Act.ofResult m₂.formats.latest { j with memory := m₂ } =
        .ok NodeFormat.v1 { j with memory := m₂ } := by
      rw [(hpeeks.toLike.trans hlike₂).formats, hk.sound.formats]
      rfl
    replace hrun : Journal.applyBatch [
        .delta ⟨NodeFormat.v1.target l.group node, .init l.tail data⟩,
        .delta ⟨NodeFormat.v1.target l.group t, .setNext node⟩] { j with memory := m₂ } =
        .ok pointers j' := by
      rw [hk.tail_eq]
      exact hrun
    rw [hput, if_neg (Nat.not_lt.2 hfull), linkNode, Act.bind_of_ok hfirst, Act.get_bind,
      Act.bind_of_ok hformat, Act.bind_of_ok (Act.discard_of_ok hrun)]
    rfl
  · exact fun hmem => hnew (hk.issued node hmem)
  · intro id hid
    refine hsame _ id (hk.issued id ?_) fun _ => hk.ids_ne id hid
    rw [Links.ids_snoc]
    exact List.mem_append_left _ hid
  · rwa [hcontents]
  · rwa [hcontents]
  · intro a ha
    rw [Links.ids_snoc] at ha
    obtain ha | ha := List.mem_append.1 ha
    · exact hout.like.issued _ a (hk.issued a ha)
    · exact List.mem_singleton.1 ha ▸ hlike'.issued _ node hissued₂
  · intro a ha
    rw [Links.ids_snoc] at ha
    obtain ha | ha := List.mem_append.1 ha
    · exact .inl ha
    · exact .inr (List.mem_singleton.1 ha ▸ hnew)
  · exact fun g' id hid hna => hsame g' id hid fun hg heq => hna hg (heq ▸ Kept.tail_mem)
  · -- before the first change all is as it was, and before the second only the new page is not
    intro k hk
    match k, hk with
    | 0, _ => exact ⟨j.memory.contents, rfl, fun _ _ _ => rfl⟩
    | 1, _ =>
      refine ⟨j.memory.contents.put l.group node page₁, ?_, hother⟩
      rw [List.take_succ_cons, List.take_zero, List.foldlM_cons, hinit]
      rfl
  · -- the new node comes behind the last, which is no null page
    have ht : t ≠ PageId.null := Chain.id_ne_null hk.tailNode
    intro d hd page hpage
    obtain rfl | hd := List.mem_cons.1 hd
    · simp only [PageDelta.head?, if_neg ht] at hpage
      cases hpage
    · obtain rfl := List.mem_singleton.1 hd
      cases hpage

/-- Without a number for a new node, a page that is given back to full nodes is refused. -/
theorem put_exhausted (hk : l.Kept j h rs size (L₀ ++ [(t, s)])) (haccepts : l.Accepts data)
    (hfull : Node.capacity size ≤ s.length) (hnext : j.memory.nextId l.group = none) :
    ∃ e m, put l data j = .error e { j with memory := m } ∧ j.memory.Peeks m := by
  obtain ⟨m₁, hpeeks, hnext₁, hput⟩ := hk.put_eq haccepts
  obtain ⟨e, hallocate⟩ := Memory.allocate_of_none ((hnext₁ l.group).trans hnext)
  refine ⟨e, m₁, ?_, hpeeks⟩
  rw [hput, if_neg (Nat.not_lt.2 hfull), linkNode]
  exact Act.bind_of_error (Journal.onMemory_of_error hallocate)

/-- No slot of the last node is left for a further page number. -/
def Full (l : FreeList) (m : Memory) : Prop :=
  ∃ page n size, m.contents l.group l.tail = .ok page ∧ Node.count page = .ok n ∧
    m.pageSize l.group = .ok size ∧ Node.capacity size ≤ n

theorem Kept.full_iff (hk : l.Kept j h rs size (L₀ ++ [(t, s)])) :
    l.Full j.memory ↔ Node.capacity size ≤ s.length := by
  obtain ⟨page, hpage, hon⟩ := hk.tailNode
  rw [← hk.tail_eq] at hpage
  constructor
  · rintro ⟨page', n, size', hpage', hcount, hsize, hfull⟩
    rw [hpage] at hpage'
    cases hpage'
    rw [hk.pageSize] at hsize
    cases hsize
    rw [hon.count] at hcount
    cases hcount
    exact hfull
  · exact fun hfull => ⟨page, s.length, size, hpage, hon.count, hk.pageSize, hfull⟩

/-- Giving back the page `data` puts a new node `node` behind the last. -/
structure LinksTo (l : FreeList) (m : Memory) (data node : PageId) : Prop where
  /-- The page may be given back. -/
  accepts : l.Accepts data
  /-- The last node has no room. -/
  full : l.Full m
  /-- The next new page is this one. -/
  next : m.nextId l.group = some node

/-- What giving back a page comes to. -/
theorem put_cases (hk : l.Kept j h rs size L) (data : PageId) :
    (∃ e m, put l data j = .error e { j with memory := m } ∧ j.memory.Peeks m ∧
      ∀ node, ¬l.LinksTo j.memory data node) ∨
    (∃ L' d j', put l data j = .ok { l with free := l.free.insert data } j' ∧
      Stepped l.group size L L' j h rs [d] { l with free := l.free.insert data } j' ∧
      l.Accepts data ∧ ∀ node, ¬l.LinksTo j.memory data node) ∨
    ∃ node L' d d' j', put l data j = .ok (l.linked node data) j' ∧
      Stepped l.group size L L' j h rs [d, d'] (l.linked node data) j' ∧
      l.LinksTo j.memory data node := by
  -- refused at once, or put into the last node, or into a new one if there is a number for it
  by_cases haccepts : l.Accepts data
  · obtain rfl | ⟨L₀, ⟨t, s⟩, rfl⟩ := List.eq_nil_or_concat L
    · exact absurd rfl hk.lies.nonempty
    rw [List.concat_eq_append] at hk ⊢
    by_cases hroom : s.length < Node.capacity size
    · obtain ⟨j', hput, hstep⟩ := put_fills hk haccepts hroom
      refine .inr (.inl ⟨_, _, j', hput, hstep, haccepts, fun node hlinks => ?_⟩)
      exact absurd (hk.full_iff.1 hlinks.full) (Nat.not_le.2 hroom)
    · have hfull := Nat.not_lt.1 hroom
      cases hnext : j.memory.nextId l.group with
      | none =>
        obtain ⟨e, m, hput, hpeeks⟩ := put_exhausted hk haccepts hfull hnext
        refine .inl ⟨e, m, hput, hpeeks, fun node hlinks => ?_⟩
        rw [hlinks.next] at hnext
        cases hnext
      | some node =>
        obtain ⟨j', d, d', hput, hstep⟩ := put_links hk haccepts hfull hnext
        exact .inr (.inr ⟨node, _, d, d', j', hput, hstep, haccepts, hk.full_iff.2 hfull, hnext⟩)
  · obtain ⟨e, hput⟩ := put_refused haccepts (j := j)
    exact .inl ⟨e, j.memory, hput, .refl _, fun node hlinks => haccepts hlinks.accepts⟩

/-! ### Taking -/

/-- While a slot of the last node is in use, the page in the last such slot is taken. -/
theorem take_slot (hk : l.Kept j h rs size (L₀ ++ [(t, s ++ [data])])) :
    ∃ j', take l j = .ok (some data, { l with free := l.free.erase data }) j' ∧
      Stepped l.group size (L₀ ++ [(t, s ++ [data])]) (L₀ ++ [(t, s)]) j h rs
        [⟨NodeFormat.v1.target l.group t, .remove (.ofNat s.length) data⟩]
        { l with free := l.free.erase data } j' := by
  have hview : ∀ page, NodeView.On ⟨L₀.last PageId.null, PageId.null, s ++ [data]⟩ size t page →
      viewTail .v1 page = .ok ⟨.v1, some (s.length, data), L₀.last PageId.null⟩ := by
    intro page hon
    have hcount := hon.count
    rw [List.length_append, List.length_singleton] at hcount
    have hlast : Node.pageAt page s.length = .ok data := hon.pageAt (by simp)
    simp only [viewTail, hcount, hlast, hon.prev, bind, Except.bind, pure, Except.pure]
  obtain ⟨m₁, hread, hpeeks, -⟩ := hk.readTail hview
  obtain ⟨page', hchange, hnode⟩ := hk.tailNode.change_remove hk.sound.formats hk.pageSize rfl
  obtain ⟨pointer, j', hrun, hout, hcontents, -⟩ :=
    Journal.apply_ok hk.log hpeeks.toLike hpeeks.contents hchange
  have hlies := hk.lies
  have honce := hlies.once
  have hheld := hlies.held
  have hall := hlies.all
  rw [Links.held_snoc, ← List.append_assoc] at honce hheld hall
  rw [← hcontents] at hnode
  -- the page that is taken was in this slot only
  obtain ⟨honce, -, hnew⟩ := List.nodup_append.1 honce
  refine ⟨j', ?_, .of_put hout hcontents (.inl Kept.tail_mem) nofun rfl
    (hlies.refill (fun id hid => ?_) hnode honce ?_ (hlies.known.erase data) ?_) ?_ ?_⟩
  · rw [take, Act.bind_of_ok hread]
    simp only [emptySlot, hk.tail_eq]
    rw [Act.bind_of_ok (Act.discard_of_ok hrun)]
    rfl
  · rw [hcontents, Contents.put_of_ne _ _ fun _ => hk.ids_ne id hid]
  · intro a ha
    refine (List.mem_erase_of_ne ?_).2 (hheld (List.mem_append_left _ ha))
    exact hnew a ha data (List.mem_singleton_self data)
  · intro hbits a ha
    obtain ⟨hne, ha⟩ := hlies.known.mem_erase_iff.1 ha
    obtain ha | ha := List.mem_append.1 (hall hbits ha)
    · exact ha
    · exact absurd (List.mem_singleton.1 ha) hne
  · intro a ha
    rw [Links.ids_snoc] at ha
    exact hout.like.issued _ a (hk.issued a (by rwa [Links.ids_snoc]))
  · intro a ha
    rw [Links.ids_snoc] at ha ⊢
    exact .inl ha

/-- What `take` finds in a last node without slots in use. -/
theorem Kept.viewEmpty (hk : l.Kept j h rs size (L₀ ++ [(t, [])])) :
    ∃ m₁, Journal.onMemory (Chain.readNode l.group l.tail viewTail) j =
        .ok ⟨.v1, none, L₀.last PageId.null⟩ { j with memory := m₁ } ∧ j.memory.Peeks m₁ := by
  have hview : ∀ page, NodeView.On ⟨L₀.last PageId.null, PageId.null, []⟩ size t page →
      viewTail .v1 page = .ok ⟨.v1, none, L₀.last PageId.null⟩ := by
    intro page hon
    simp only [viewTail, hon.count, hon.prev]
    rfl
  obtain ⟨m₁, hread, hpeeks, -⟩ := hk.readTail hview
  exact ⟨m₁, hread, hpeeks⟩

/-- From a first node without slots in use, behind which there is no other, nothing is taken. -/
theorem take_none (hk : l.Kept j h rs size [(t, [])]) :
    ∃ m, take l j = .ok (none, l) { j with memory := m } ∧ j.memory.Peeks m := by
  have hk' : l.Kept j h rs size ([] ++ [(t, [])]) := hk
  obtain ⟨m₁, hread, hpeeks⟩ := hk'.viewEmpty
  have hhead : l.tail = l.head := by
    rw [hk.lies.tail, hk.lies.head]
    rfl
  refine ⟨m₁, ?_, hpeeks⟩
  rw [take, Act.bind_of_ok hread]
  simp only [if_pos hhead]
  rfl

/-- A last node without slots in use, before which there is another, is taken itself. -/
theorem take_node {p : PageId} (hk : l.Kept j h rs size (L₀ ++ [(p, s)] ++ [(t, [])])) :
    ∃ j' d, take l j = .ok (some t, { l with tail := p, nodes := l.nodes.erase t }) j' ∧
      Stepped l.group size (L₀ ++ [(p, s)] ++ [(t, [])]) (L₀ ++ [(p, s)]) j h rs [d]
        { l with tail := p, nodes := l.nodes.erase t } j' := by
  obtain ⟨m₁, hread, hpeeks⟩ := hk.viewEmpty
  have hlast : Links.last PageId.null (L₀ ++ [(p, s)]) = p := by
    rw [Links.last_append]
    rfl
  rw [hlast] at hread
  have hp : p ∈ Links.ids (L₀ ++ [(p, s)] ++ [(t, [])]) := by
    rw [Links.ids_snoc]
    exact List.mem_append_left _ Kept.tail_mem
  -- the node before the last is read for its format, and then points nowhere
  have hnode : NodeView.In ⟨L₀.last PageId.null, t, s⟩ j.memory.contents l.group size p :=
    ((Links.on_snoc ..).1 ((Links.on_snoc ..).1 hk.lies.on).1).2
  rw [← hpeeks.contents] at hnode
  obtain ⟨m₂, hformat, hreach, hsame₂⟩ : ∃ m₂,
      Chain.readNode l.group p (fun format _ => pure format) m₁ = .ok NodeFormat.v1 m₂ ∧
        m₁.Reaches l.group p m₂ ∧ m₂.contents = m₁.contents :=
    Chain.readNode_ok hnode (hpeeks.formats.trans hk.sound.formats) fun _ _ => rfl
  rw [hpeeks.contents] at hnode
  obtain ⟨page', hchange, hnode'⟩ :=
    hnode.change_setNext hk.sound.formats hk.pageSize PageId.null
  obtain ⟨pointer, j', hrun, hout, hcontents, -⟩ :=
    Journal.apply_ok hk.log (hpeeks.toLike.trans hreach.toLike) (hsame₂.trans hpeeks.contents)
      hchange
  rw [← hcontents] at hnode'
  -- no other node is the one before the last, so that the others stay as they are
  have hdistinct := hk.lies.distinct
  rw [Links.ids_snoc, Links.ids_snoc] at hdistinct
  have hne : ∀ id ∈ L₀.ids, p ≠ id := by
    rintro id hid rfl
    exact (List.nodup_append.1 (List.nodup_append.1 hdistinct).1).2.2 _ hid _
      (List.mem_singleton_self _) rfl
  refine ⟨j', _, ?_, .of_put hout hcontents (.inl hp) nofun rfl
    (hk.lies.unlink (fun id hid => ?_) hnode') ?_ ?_⟩
  · have hon : Journal.onMemory (Chain.readNode l.group p fun format _ => pure format)
        { j with memory := m₁ } = .ok NodeFormat.v1 { j with memory := m₂ } :=
      Journal.onMemory_of_ok hformat
    have hhead : l.tail ≠ l.head := by
      rw [hk.tail_eq, hk.lies.head, Links.first_append]
      exact hk.ids_ne _ (Links.first_mem _ (by simp))
    rw [take, Act.bind_of_ok hread]
    simp only [if_neg hhead, unlinkNode]
    rw [Act.bind_of_ok hon, Act.bind_of_ok (Act.discard_of_ok hrun), hk.tail_eq]
    rfl
  · rw [hcontents, Contents.put_of_ne _ _ fun _ => hne id hid]
  · intro a ha
    refine hout.like.issued _ a (hk.issued a ?_)
    rw [Links.ids_snoc]
    exact List.mem_append_left _ ha
  · intro a ha
    rw [Links.ids_snoc (L₀ ++ [(p, s)])]
    exact .inl (List.mem_append_left _ ha)

/-- What taking a page comes to. -/
theorem take_cases (hk : l.Kept j h rs size L) :
    (∃ m, take l j = .ok (none, l) { j with memory := m } ∧ j.memory.Peeks m) ∨
    (∃ data L' d j', take l j = .ok (some data, { l with free := l.free.erase data }) j' ∧
      Stepped l.group size L L' j h rs [d] { l with free := l.free.erase data } j' ∧
      data ∈ l.free) ∨
    ∃ t p L' d j', take l j = .ok (some t, { l with tail := p, nodes := l.nodes.erase t }) j' ∧
      Stepped l.group size L L' j h rs [d] { l with tail := p, nodes := l.nodes.erase t } j' ∧
      t ∈ l.nodes := by
  obtain rfl | ⟨L₀, ⟨t, s⟩, rfl⟩ := List.eq_nil_or_concat L
  · exact absurd rfl hk.lies.nonempty
  rw [List.concat_eq_append] at hk ⊢
  -- the last node holds a page; or it holds none, and is the only node or not
  obtain rfl | ⟨s₀, data, rfl⟩ := List.eq_nil_or_concat s
  · obtain rfl | ⟨L₁, ⟨p, s⟩, rfl⟩ := List.eq_nil_or_concat L₀
    · exact .inl (take_none hk)
    rw [List.concat_eq_append] at hk ⊢
    obtain ⟨j', d, htake, hstep⟩ := take_node hk
    exact .inr (.inr ⟨t, p, _, d, j', htake, hstep, hk.lies.nodes.mem_iff.2 Kept.tail_mem⟩)
  · rw [List.concat_eq_append] at hk ⊢
    obtain ⟨j', htake, hstep⟩ := take_slot hk
    refine .inr (.inl ⟨data, _, _, j', htake, hstep, hk.lies.held ?_⟩)
    rw [Links.held_snoc]
    simp

end Step

end FreeList

end PageLog
