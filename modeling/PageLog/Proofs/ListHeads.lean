import PageLog.Audit
import PageLog.Proofs.ChangeTargets
import PageLog.Proofs.CrashConsistency

/-!
# Where lists begin

A free list is recognized by its first node, which names none before it.  A page comes to look like
that only by a change that says so: one that makes it a node with none before it, or takes the node
before it away.  Operations on free lists make such a change for the first node of a new list and
for no other page.  What they leave behind elsewhere, whether it is a node that was taken, a page
that was handed out or a node that was made for a list but not linked to it before the log was cut
off, goes on naming the node before it.

## Main definitions

* `Depot.Heads` — which pages the records of a run make first nodes.

## Main results

* `Contents.isHead_of_changes` — a first node was made one by a change.
* `Depot.Halfway.isHead_iff` — **the first nodes on the pages are those of the lists**.
-/

namespace PageLog

/-! ### Bytes that are the same -/

/-- A window is the same on a string that has the same bytes in it. -/
theorem Bytes.window_of_same {bs bs' field : Bytes} {off width : Nat} (hwidth : 0 < width)
    (h : Bytes.window bs off width = some field)
    (hsame : ∀ i, i < bs.length → i < off + width → bs'[i]? = bs[i]?) :
    Bytes.window bs' off width = some field := by
  rw [window_eq] at h ⊢
  split at h
  · rename_i hfit
    cases h
    have hfit' : off + width ≤ bs'.length := by
      have hlt : off + width - 1 < bs.length := by omega
      have hlast := hsame _ hlt (by omega)
      rw [List.getElem?_eq_getElem hlt] at hlast
      have hlt' := (List.getElem?_eq_some_iff.1 hlast).1
      omega
    rw [if_pos hfit', Option.some.injEq]
    refine List.ext_getElem? fun i => ?_
    rw [List.getElem?_take, List.getElem?_take, List.getElem?_drop, List.getElem?_drop]
    split
    · exact hsame _ (by omega) (by omega)
    · rfl
  · cases h

/-- So is a number that can be read. -/
theorem Field.readU64_of_same {page page' : Bytes} {off : Nat} {v : UInt64}
    (h : readU64 page off = .ok v)
    (hsame : ∀ i, i < page.length → i < off + 8 → page'[i]? = page[i]?) :
    readU64 page' off = .ok v := by
  unfold readU64 read at h ⊢
  cases hwindow : Bytes.window page off 8 with
  | none =>
    rw [hwindow] at h
    cases h
  | some field =>
    rw [hwindow] at h
    rw [Bytes.window_of_same (by decide) hwindow hsame]
    exact h

/-- A number that could be written stands where it was written. -/
theorem Field.readU64_of_writeU64 {page page' : Bytes} {off : Nat} {v : UInt64}
    (h : writeU64 off v page = .ok () page') : readU64 page' off = .ok v := by
  by_cases hfit : off + 8 ≤ page.length
  · rw [writeU64_ok hfit] at h
    cases h
    exact readU64_there hfit
  · rw [writeU64, write_refused (by rw [length_bytesOfU64]; omega)] at h
    cases h

/-- The format of a page that has one is told by its header. -/
theorem Formats.ofPage_of_same {fs : Formats} {page page' : Bytes} {f : NodeFormat}
    (h : fs.ofPage page = .ok f)
    (hsame : ∀ i, i < PageHeader.size → page'[i]? = page[i]?) :
    fs.ofPage page' = .ok f := by
  have hparse : PageHeader.parse page' = PageHeader.parse page := by
    unfold PageHeader.parse
    cases hwindow : Bytes.window page 0 PageHeader.size with
    | none =>
      simp only [ofPage, PageHeader.parse, hwindow, bind, Except.bind] at h
      cases h
    | some header =>
      rw [Bytes.window_of_same (by decide) hwindow fun i _ hi => hsame i (by omega)]
  rw [ofPage, hparse]
  exact h

namespace Audit

/-- A page begins a list if it has a format and names the null page as the node before it. -/
theorem isHead_iff {fs : Formats} {page : Bytes} :
    isHead fs page = true ↔
      (∃ f, fs.ofPage page = .ok f) ∧ Node.prev page = .ok PageId.null := by
  unfold isHead
  cases hformat : fs.ofPage page with
  | error e =>
    constructor
    · intro h
      cases h
    · rintro ⟨⟨f, hf⟩, -⟩
      cases hf
  | ok f =>
    cases hprev : Node.prev page with
    | error e =>
      constructor
      · intro h
        cases h
      · rintro ⟨-, h⟩
        cases h
    | ok prev =>
      simp only [beq_iff_eq, Except.ok.injEq]
      exact ⟨fun h => ⟨⟨f, rfl⟩, h⟩, fun h => h.2⟩

/-- A blank page begins no list. -/
theorem isHead_zeros (fs : Formats) (n : Nat) : isHead fs (Bytes.zeros n) = false := by
  obtain ⟨e, he⟩ := fs.ofPage_blank n
  unfold isHead
  rw [he]

/-- Whether a page begins a list is told by its header and by the name of the node before it. -/
theorem isHead_of_same {fs : Formats} {page page' : Bytes} (h : isHead fs page = true)
    (hsame : ∀ i, i < Node.nextOffset → page'[i]? = page[i]?) : isHead fs page' = true := by
  obtain ⟨⟨f, hf⟩, hprev⟩ := isHead_iff.1 h
  have hformat := Formats.ofPage_of_same hf fun i hi => hsame i (Nat.lt_trans hi (by decide))
  exact isHead_iff.2 ⟨⟨f, hformat⟩, Field.readU64_of_same hprev fun i _ => hsame i⟩

end Audit

/-! ### What makes a page a first node -/

namespace Node

theorem countOffset_le_slotOffset (n : Nat) : countOffset ≤ slotOffset n := by
  simp only [countOffset, slotOffset, slotsOffset]
  omega

theorem spares_addWithin (limit : Nat) (data : PageId) (pageSize : Nat) :
    (addWithin limit data pageSize).Spares (countOffset ≤ ·) := by
  refine (Act.spares_look _).bind fun n => Act.spares_ite (Act.spares_throw _) ?_
  refine (spares_setPageAt data pageSize (fun i hi => ?_) fun i hi => hi.1).bind fun _ =>
    Act.spares_pure _
  exact Nat.le_trans (countOffset_le_slotOffset n) hi.1

/-- What a change of a slot is about stands behind the names of other nodes. -/
theorem countOffset_le_of_covers {n i : Nat}
    (h : (slotOffset n ≤ i ∧ i < slotOffset n + slotSize) ∨
      (countOffset ≤ i ∧ i < countOffset + 2)) : countOffset ≤ i := by
  obtain ⟨hslot, -⟩ | ⟨hcount, -⟩ := h
  · exact Nat.le_trans (countOffset_le_slotOffset n) hslot
  · exact hcount

end Node

namespace PageDelta

/-- The page that a change makes a first node is the one that the change is about. -/
theorem eq_target_of_head? {d : PageDelta} {page : GroupId × PageId} (h : d.head? = some page) :
    page = (d.target.group, d.target.page) := by
  cases hchange : d.change with
  | init prev data =>
    rw [head?, hchange, Option.ite_none_right_eq_some] at h
    exact (Option.some.inj h.2).symm
  | setPrev prev =>
    rw [head?, hchange, Option.ite_none_right_eq_some] at h
    exact (Option.some.inj h.2).symm
  | setNext next => simp only [head?, hchange, reduceCtorEq] at h
  | add slot data => simp only [head?, hchange, reduceCtorEq] at h
  | remove slot data => simp only [head?, hchange, reduceCtorEq] at h

variable {d : PageDelta} {fs : Formats} {size : Nat} {page page' : Bytes}

/-- A page that was made a node names the node before it that it was given. -/
theorem prev_of_initNode {target : PageTarget} {format : NodeFormat} {prev data : PageId}
    (h : initNode target format prev data size page = .ok () page') :
    Node.prev page' = .ok prev := by
  obtain ⟨_, page₁, -, hrest⟩ := Act.bind_eq_ok.1 h
  obtain ⟨_, page₂, hprev, hfill⟩ := Act.bind_eq_ok.1 hrest
  -- what is done after the name is written is about the slots and their count
  have hspares : ∀ i, ¬Node.countOffset ≤ i → page'[i]? = page₂[i]? := by
    intro i hi
    rw [← Act.left_of_ok hfill]
    refine Act.Spares.kept ?_ page₂ i hi
    refine Act.spares_ite ((Act.spares_look _).bind fun count => ?_) (Act.spares_pure _)
    exact Act.spares_ite (Act.spares_throw _) (Node.spares_addWithin ..).discard
  exact Field.readU64_of_same (Field.readU64_of_writeU64 hprev) fun i _ hi =>
    hspares i (Nat.not_le.2 (Nat.lt_of_lt_of_le hi (by decide)))

theorem prev_of_onCopy {target : PageTarget} {format : NodeFormat} {prev data : PageId}
    (h : onCopy size (initNode target format prev data size) page = .ok () page') :
    Node.prev page' = .ok prev := by
  unfold onCopy at h
  split at h
  · rename_i fresh hfresh
    cases h
    refine Field.readU64_of_same (prev_of_initNode hfresh) fun i hi _ => ?_
    exact List.getElem?_append_left hi
  · cases h

/-- A page that a change makes a first node was one before, or the change says so. -/
theorem isHead_of_apply (h : d.apply fs size page = .ok () page')
    (hhead : Audit.isHead fs page' = true) :
    Audit.isHead fs page = true ∨ d.head? = some (d.target.group, d.target.page) := by
  -- a change that is not about the bytes in front of the name of the node behind
  have hold : (∀ i, d.change.Covers size i → Node.nextOffset ≤ i) →
      Audit.isHead fs page = true := by
    intro hcovers
    refine Audit.isHead_of_same hhead fun i hi => ?_
    have hspares := (d.spares_apply fs size).kept page i fun h => Nat.not_lt.2 (hcovers i h) hi
    rw [Act.left_of_ok h] at hspares
    exact hspares.symm
  have hnull := (Audit.isHead_iff.1 hhead).2
  unfold apply at h
  cases hchange : d.change with
  | init prev data =>
    rw [hchange] at h
    obtain ⟨format, page₁, hlookup, hcopy⟩ := Act.bind_eq_ok.1 h
    rw [prev_of_onCopy hcopy] at hnull
    cases hnull
    exact .inr (by simp only [head?, hchange, if_pos])
  | setPrev prev =>
    rw [hchange] at h
    obtain ⟨format, page₁, hformat, hwrite⟩ := Act.bind_eq_ok.1 h
    have hprev : Node.prev page' = .ok prev := Field.readU64_of_writeU64 hwrite
    rw [hprev] at hnull
    cases hnull
    exact .inr (by simp only [head?, hchange, if_pos])
  | setNext next =>
    refine .inl (hold fun i hi => ?_)
    rw [hchange] at hi
    exact hi.1
  | add slot data =>
    refine .inl (hold fun i hi => ?_)
    rw [hchange] at hi
    exact Nat.le_trans (by decide) (Node.countOffset_le_of_covers hi)
  | remove slot data =>
    refine .inl (hold fun i hi => ?_)
    rw [hchange] at hi
    exact Nat.le_trans (by decide) (Node.countOffset_le_of_covers hi)

end PageDelta

namespace Contents

variable {m : Memory} {c c' : Contents} {g : GroupId} {id : PageId}

/-- The page begins a list. -/
def IsHead (c : Contents) (fs : Formats) (g : GroupId) (id : PageId) : Prop :=
  ∃ page, c g id = .ok page ∧ Audit.isHead fs page = true

/-- A first node was one before a change, or the change made it one. -/
theorem IsHead.of_change {d : PageDelta} (hhead : c'.IsHead m.formats g id)
    (h : c.change m d = some c') : c.IsHead m.formats g id ∨ d.head? = some (g, id) := by
  obtain ⟨page, page', hpage, happly, rfl⟩ := change_eq_some.1 h
  obtain ⟨page'', hpage'', hhead⟩ := hhead
  by_cases hhere : d.target.group = g ∧ d.target.page = id
  · rw [put, if_pos hhere, Except.ok.injEq] at hpage''
    subst hpage''
    obtain ⟨rfl, rfl⟩ := hhere
    obtain ⟨d', size, hd, -, -, happly⟩ := Record.apply_eq_ok.1 happly
    cases hd
    obtain hbefore | hmade := PageDelta.isHead_of_apply happly hhead
    · exact .inl ⟨page, hpage, hbefore⟩
    · exact .inr hmade
  · rw [put, if_neg hhere] at hpage''
    exact .inl ⟨page'', hpage'', hhead⟩

/-- A first node was one before changes, or one of the changes made it one. -/
theorem IsHead.of_changes {ds : List PageDelta} (hhead : c'.IsHead m.formats g id)
    (h : ds.foldlM (change m) c = some c') :
    c.IsHead m.formats g id ∨ ∃ d ∈ ds, d.head? = some (g, id) := by
  induction ds generalizing c with
  | nil =>
    cases h
    exact .inl hhead
  | cons d ds ih =>
    rw [List.foldlM_cons] at h
    obtain ⟨c₁, hchange, hrest⟩ := Option.bind_eq_some_iff.1 h
    obtain hbefore | ⟨d', hd', hmade⟩ := ih hrest
    · obtain hbefore | hmade := hbefore.of_change hchange
      · exact .inl hbefore
      · exact .inr ⟨d, List.mem_cons_self, hmade⟩
    · exact .inr ⟨d', List.mem_cons_of_mem d hd', hmade⟩

/-- No untouched page begins a list. -/
theorem not_isHead_of_untouched (hm : m.Untouched) (fs : Formats) (g : GroupId) (id : PageId) :
    ¬m.contents.IsHead fs g id := by
  rintro ⟨page, hpage, hhead⟩
  obtain ⟨-, pages, hg, rfl⟩ := Memory.contents_eq_ok hpage
  obtain ⟨size, -, rfl⟩ := hm.groups g pages hg
  have hblank : (GroupPages.empty size).bytesOf id = Bytes.zeros size := by
    simp [GroupPages.bytesOf, GroupPages.empty]
  rw [hblank, Audit.isHead_zeros] at hhead
  cases hhead

/-- On pages that were untouched, one of the changes made a first node one. -/
theorem IsHead.made {ds : List PageDelta} (hhead : c.IsHead m.formats g id) (hm : m.Untouched)
    (h : ds.foldlM (change m) m.contents = some c) : ∃ d ∈ ds, d.head? = some (g, id) := by
  obtain hbefore | hmade := hhead.of_changes h
  · exact absurd hbefore (not_isHead_of_untouched hm _ g id)
  · exact hmade

/-- The first node of a list that lies on pages begins a list. -/
theorem isHead_of_lies {l : FreeList} {size : Nat} {L : Links} (h : l.Lies c size L) :
    c.IsHead .standard l.group l.head := by
  rw [h.head]
  cases L with
  | nil => exact absurd rfl h.nonempty
  | cons entry rest =>
    obtain ⟨page, hpage, hon⟩ := h.on.1
    exact ⟨page, hpage, Audit.isHead_iff.2 ⟨⟨.v1, hon.ofPage⟩, hon.prev⟩⟩

end Contents

/-! ### The lists of a depot -/

namespace Depot

variable {d d' : Depot} {h : FileHeader} {groups : List (GroupId × Nat)} {rs : List Record}

/-- Whatever page the changes among the records make a first node is that of a list. -/
def Heads (d : Depot) (rs : List Record) : Prop :=
  ∀ δ ∈ Record.changes rs, ∀ page, δ.head? = some page →
    ∃ i l, d.list? i = some l ∧ page = (l.group, l.head)

theorem Heads.after {ds : List PageDelta} (hd : d.Heads rs)
    (hreached : d.Reached h groups rs ds d') : d'.Heads (rs ++ ds.map .delta) := by
  intro δ hδ page hpage
  rw [Record.changes_append, Record.changes_map_delta, List.mem_append] at hδ
  obtain hδ | hδ := hδ
  · obtain ⟨i, l, hi, rfl⟩ := hd δ hδ page hpage
    obtain ⟨l', hi', hgroup, hhead⟩ := hreached.lists i l hi
    exact ⟨i, l', hi', by rw [hgroup, hhead]⟩
  · exact (hreached.heads δ hδ page hpage).2

/-- The changes of the first records of a run make no other page a first node. -/
theorem Halfway.heads (hd : d.Halfway Heads h groups rs) : d.Heads rs := by
  obtain ⟨first, -, hheads, rfl | ⟨ds, d', n, hreached, hn, rfl⟩⟩ := hd
  · exact hheads
  · intro δ hδ page hpage
    rw [Record.changes_append, Record.changes_map_delta, List.mem_append] at hδ
    obtain hδ | hδ := hδ
    · exact hheads δ hδ page hpage
    · -- the change that makes a first node is the last of its operation
      obtain ⟨rfl, -⟩ := hreached.heads δ (List.mem_of_mem_take hδ) page hpage
      obtain rfl : n = 0 := by
        rw [List.length_singleton] at hn
        omega
      rw [List.take_zero] at hδ
      exact absurd hδ List.not_mem_nil

/-- **The first nodes on the pages are those of the lists**, also in the middle of an operation,
when the changes are carried out on untouched pages and show the lists. -/
theorem Halfway.isHead_iff (hd : d.Halfway Heads h groups rs) {m : Memory} {c : Contents}
    (hm : m.Untouched) (hc : (Record.changes rs).foldlM (Contents.change m) m.contents = some c)
    (hshown : d.ShownBy c) {g : GroupId} {id : PageId} :
    c.IsHead .standard g id ↔ ∃ i l, d.list? i = some l ∧ l.group = g ∧ l.head = id := by
  constructor
  · intro hhead
    rw [← hm.formats] at hhead
    obtain ⟨δ, hδ, hmade⟩ := hhead.made hm hc
    obtain ⟨i, l, hi, hpage⟩ := hd.heads δ hδ _ hmade
    cases hpage
    exact ⟨i, l, hi, rfl, rfl⟩
  · rintro ⟨i, l, hi, rfl, rfl⟩
    obtain ⟨first, hfirst, -⟩ := hd
    obtain ⟨size, L, hkept⟩ := hfirst.kept i l hi
    exact Contents.isHead_of_lies (hshown i l hi size L hkept.lies)

end Depot

end PageLog
