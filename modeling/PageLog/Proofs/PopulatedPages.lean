import PageLog.Proofs.Depots
import PageLog.Proofs.Rereading

/-!
# Rereading a log over populated pages

A log is begun when free lists have pages already, and the lists are used in any way.  Of each page
that was in use when the log was begun, the log has changes at its top only, whatever the lists and
the pages are like.  So the log can be read again over the page in any state in between, and ends in
the last one, unless it stops at a change that the page has already: at a slot behind a gap, or at a
slot that is not the last one any more.  Pages that only grow or only shrink never stop it.

## Main definitions

* `Record.changesOf` — the changes of one page among records.
* `Journal.Topped`, `Journal.Moved` — what an operation on a list does to the pages in use.
* `Depot.Tracked` — the log tells what became of the pages in use.

## Main results

* `FreeList.create_moved`, `FreeList.put_moved`, `FreeList.take_moved` — one operation.
* `Depot.Tracked.afterAll` — any operations.
* `Depot.after_put_fills`, `Depot.after_take_slot` — what single operations log.
* `reread_log_ends_or_stops` — **a log that is read again ends in the same pages or stops**.
-/

namespace PageLog

/-! ### The changes of one page -/

/-- The change is about the page `id` of group `g`. -/
def PageDelta.about (g : GroupId) (id : PageId) (d : PageDelta) : Bool :=
  d.target.group = g ∧ d.target.page = id

/-- The changes of one page among records. -/
def Record.changesOf (g : GroupId) (id : PageId) (rs : List Record) : List PageDelta :=
  (Record.changes rs).filter (PageDelta.about g id)

theorem PageDelta.about_iff {g : GroupId} {id : PageId} {d : PageDelta} :
    d.about g id = true ↔ d.target.group = g ∧ d.target.page = id := decide_eq_true_iff

theorem redo_like {m m' : Memory} (h : m.Like m') (ds : List PageDelta) :
    redo m' ds = redo m ds := by
  induction ds with
  | nil => rfl
  | cons c ds ih => rw [redo_cons, redo_cons, ih, Record.apply_like h]

/-- What changes make of one page is made by the changes of this page. -/
theorem Contents.changes_about {m : Memory} {c c' : Contents} {ds : List PageDelta} {g : GroupId}
    {id : PageId} {page : Bytes} (h : ds.foldlM (Contents.change m) c = some c')
    (hpage : c g id = .ok page) :
    ∃ page', c' g id = .ok page' ∧
      redo m (ds.filter (PageDelta.about g id)) page = .ok () page' := by
  induction ds generalizing c page with
  | nil =>
    cases h
    exact ⟨page, hpage, rfl⟩
  | cons d ds ih =>
    rw [List.foldlM_cons] at h
    rcases Option.bind_eq_some_iff.1 h with ⟨c₁, hchange, hrest⟩
    rcases Contents.change_eq_some.1 hchange with ⟨old, new, hold, hrun, rfl⟩
    by_cases habout : d.about g id = true
    · rcases PageDelta.about_iff.1 habout with ⟨rfl, rfl⟩
      rw [hpage] at hold
      cases hold
      have hnew : c.put d.target.group d.target.page new d.target.group d.target.page =
          .ok new := by
        rw [Contents.put, if_pos ⟨rfl, rfl⟩]
      rcases ih hrest hnew with ⟨page', hpage', hredo⟩
      refine ⟨page', hpage', ?_⟩
      rw [List.filter_cons, if_pos habout, redo_cons, Act.bind_of_ok hrun, hredo]
    · have hother : c.put d.target.group d.target.page new g id = .ok page := by
        rw [Contents.put_of_ne, hpage]
        exact fun hg hid => habout (PageDelta.about_iff.2 ⟨hg, hid⟩)
      rcases ih hrest hother with ⟨page', hpage', hredo⟩
      refine ⟨page', hpage', ?_⟩
      rw [List.filter_cons, if_neg habout, hredo]

namespace Journal

variable {j j' : Journal} {h : FileHeader} {rs : List Record} {ds : List PageDelta} {m₁ : Memory}
  {α β : Type} {P : α → Prop}

/-! ### Steps of a journal -/

/-- Of each page in use there is at most one change, and it is made at the top of the page. -/
def Topped (j : Journal) (ds : List PageDelta) : Prop :=
  ∀ g id page, j.memory.Issued g id → j.memory.contents g id = .ok page →
    ds.filter (PageDelta.about g id) = [] ∨
      ∃ d, ds.filter (PageDelta.about g id) = [d] ∧ d.change.AtTop page

/-- The journal `j'` comes from `j` by changes that were made at the top of pages in use, or on
pages that were not in use. -/
def Moved (j : Journal) (h : FileHeader) (rs : List Record) (j' : Journal) : Prop :=
  ∃ ds, j.CarriedOut h rs ds j' ∧ j.Topped ds

theorem Topped.nil (j : Journal) : j.Topped [] := fun _ _ _ _ _ => .inl rfl

theorem Topped.one {d : PageDelta}
    (htop : ∀ page, j.memory.contents d.target.group d.target.page = .ok page →
      d.change.AtTop page) : j.Topped [d] := by
  intro g id page _ hpage
  by_cases habout : d.about g id = true
  · rcases PageDelta.about_iff.1 habout with ⟨rfl, rfl⟩
    exact .inr ⟨d, List.filter_cons_of_pos habout, htop page hpage⟩
  · exact .inl (List.filter_cons_of_neg habout)

/-- A change of a page that was not in use does not count. -/
theorem Topped.cons {d : PageDelta} (hnew : ¬j.memory.Issued d.target.group d.target.page)
    (htop : j.Topped ds) : j.Topped (d :: ds) := by
  intro g id page hid hpage
  have habout : ¬d.about g id = true := by
    intro habout
    rcases PageDelta.about_iff.1 habout with ⟨rfl, rfl⟩
    exact hnew hid
  rw [List.filter_cons_of_neg habout]
  exact htop g id page hid hpage

theorem Moved.of_peeks (hl : j.log.Holds h (rs.map Record.encode) [])
    (hpeeks : j.memory.Peeks m₁) : j.Moved h rs { j with memory := m₁ } := by
  refine ⟨[], ⟨rfl, hpeeks.toLike, ?_, ?_, .refl _⟩, .nil j⟩
  · exact congrArg some hpeeks.contents.symm
  · show j.log.Holds h ((rs ++ []).map Record.encode) []
    rwa [List.append_nil]

/-- A step that reads pages of `j` or gives out a number, and finds `P` if it succeeds. -/
inductive Looked (j : Journal) (P : α → Prop) : EStateM.Result Error Journal α → Prop
  | ok {a : α} {m : Memory} (peeks : j.memory.Peeks m) (found : P a) :
      Looked j P (.ok a { j with memory := m })
  | error {e : Error} {m : Memory} (peeks : j.memory.Peeks m) :
      Looked j P (.error e { j with memory := m })

/-- A step after one that only reads. -/
theorem Moved.bind {x : Act Journal α} {f : α → Act Journal β}
    (hl : j.log.Holds h (rs.map Record.encode) []) (hx : Looked j P (x { j with memory := m₁ }))
    (hf : ∀ a m, j.memory.Peeks m → P a →
      j.Moved h rs ((f a).left { j with memory := m })) :
    j.Moved h rs ((x >>= f).left { j with memory := m₁ }) := by
  generalize hrun : x { j with memory := m₁ } = r at hx
  cases hx with
  | ok hpeeks hfound =>
    rw [Act.left_bind_of_ok hrun]
    exact hf _ _ hpeeks hfound
  | error hpeeks =>
    rw [Act.left_bind_of_error hrun]
    exact .of_peeks hl hpeeks

theorem looked_ofResult (hpeeks : j.memory.Peeks m₁) (r : Result α) :
    Looked j (fun a => r = .ok a) (Act.ofResult r { j with memory := m₁ }) := by
  cases r with
  | ok a => exact .ok hpeeks rfl
  | error e => exact .error hpeeks

theorem looked_allocate (hpeeks : j.memory.Peeks m₁) (g : GroupId) :
    Looked j (fun id => ¬j.memory.Issued g id)
      (onMemory (Memory.allocate g) { j with memory := m₁ }) := by
  cases hnext : m₁.nextId g with
  | none =>
    rcases Memory.allocate_of_none hnext with ⟨e, hrun⟩
    rw [onMemory_of_error hrun]
    exact .error hpeeks
  | some id =>
    rcases Memory.allocate_of_nextId hnext with ⟨m₂, hrun⟩
    rcases Memory.allocate_ok hrun with ⟨-, hlike, hsame, hnew, -⟩
    rw [onMemory_of_ok hrun]
    exact .ok (hpeeks.trans ⟨hlike, hsame⟩) fun hid => hnew (hpeeks.issued g id hid)

theorem looked_readNode (hpeeks : j.memory.Peeks m₁) (g : GroupId) (id : PageId)
    (read : NodeFormat → Bytes → Result α) :
    Looked j (fun a => ∃ f page, j.memory.contents g id = .ok page ∧ read f page = .ok a)
      (onMemory (Chain.readNode g id read) { j with memory := m₁ }) := by
  rw [← hpeeks.contents]
  -- a page may fail to be there, to be a node, or to be read; what is found is read from it
  cases hpage : m₁.contents g id with
  | error e =>
    have hrun : Chain.readNode g id read m₁ = .error e m₁ := by
      rw [Chain.readNode, Memory.page_of_error hpage]
    rw [onMemory_of_error hrun]
    exact .error hpeeks
  | ok page =>
    rcases Memory.page_of_contents hpage with ⟨m₂, hread, hreach, hsame⟩
    have hpeeks₂ := hpeeks.trans ⟨hreach.toLike, hsame⟩
    cases hformat : m₂.formats.ofPage page with
    | error e =>
      have hrun : Chain.readNode g id read m₁ = .error e m₂ := by
        simp only [Chain.readNode, hread, hformat]
      rw [onMemory_of_error hrun]
      exact .error hpeeks₂
    | ok f =>
      cases hfound : read f page with
      | error e =>
        have hrun : Chain.readNode g id read m₁ = .error e m₂ := by
          simp only [Chain.readNode, hread, hformat, hfound]
        rw [onMemory_of_error hrun]
        exact .error hpeeks₂
      | ok a =>
        have hrun : Chain.readNode g id read m₁ = .ok a m₂ := by
          simp only [Chain.readNode, hread, hformat, hfound]
        rw [onMemory_of_ok hrun]
        exact .ok hpeeks₂ ⟨f, page, rfl, hfound⟩

/-- Changes are carried out, or nothing is done. -/
theorem applyBatch_moved (hl : j.log.Holds h (rs.map Record.encode) [])
    (hpeeks : j.memory.Peeks m₁) (htop : j.Topped ds) :
    j.Moved h rs ((applyBatch (ds.map .delta)).left { j with memory := m₁ }) := by
  cases hc : ds.foldlM (Contents.change j.memory) j.memory.contents with
  | some c =>
    rcases applyBatch_ok hl hpeeks.toLike hpeeks.contents hc with ⟨pointers, j', hrun, hout, -⟩
    rw [Act.left_of_ok hrun]
    exact ⟨ds, hout, htop⟩
  | none =>
    have happly := applyDeltas_eq (j := { j with memory := m₁ }) hl ds
    rw [hpeeks.contents, Contents.change_like hpeeks.toLike] at happly
    simp only [hc] at happly
    rcases happly with ⟨e, m₂, hrun, hpeeks₂⟩
    rw [applyBatch_map_delta, Act.left_of_error hrun]
    exact .of_peeks hl (hpeeks.trans hpeeks₂)

theorem apply_moved (hl : j.log.Holds h (rs.map Record.encode) []) (hpeeks : j.memory.Peeks m₁)
    {d : PageDelta} (htop : j.Topped [d]) :
    j.Moved h rs ((Journal.apply (.delta d)).left { j with memory := m₁ }) := by
  have hmoved := applyBatch_moved hl hpeeks htop
  rwa [Journal.apply, Act.left_bind_pure]

end Journal

namespace FreeList

variable {j : Journal} {h : FileHeader} {rs : List Record} {l : FreeList} {m₁ : Memory}

/-! ### Operations on a list -/

theorem create_moved (hl : j.log.Holds h (rs.map Record.encode) []) (g : GroupId) :
    j.Moved h rs ((create g).left j) := by
  refine Journal.Moved.bind hl (Journal.looked_allocate (.refl _) g) fun head m hpeeks hnew => ?_
  rw [Act.left_get_bind]
  refine Journal.Moved.bind hl (Journal.looked_ofResult hpeeks _) fun format m' hpeeks' _ => ?_
  rw [Act.left_bind_pure, Act.left_discard]
  exact Journal.apply_moved hl hpeeks' (.cons hnew (.nil j))

theorem fillSlot_moved (hl : j.log.Holds h (rs.map Record.encode) []) (hpeeks : j.memory.Peeks m₁)
    {tail : PageTarget} {slot : Nat} {data : PageId} {page : Bytes}
    (hpage : j.memory.contents tail.group tail.page = .ok page)
    (hcount : Node.count page = .ok slot) :
    j.Moved h rs ((l.fillSlot tail slot data).left { j with memory := m₁ }) := by
  rw [fillSlot, Act.left_bind_pure, Act.left_discard]
  refine Journal.apply_moved hl hpeeks (.one fun page' hpage' => ?_)
  simp only [hpage, Except.ok.injEq] at hpage'
  subst hpage'
  refine .behind data ?_
  rw [UInt16.toNat_ofNat_of_lt' (Node.count_eq_ok.1 hcount).2.1, hcount]

theorem linkNode_moved (hl : j.log.Holds h (rs.map Record.encode) []) (hpeeks : j.memory.Peeks m₁)
    (tail : PageTarget) (data : PageId) :
    j.Moved h rs ((l.linkNode tail data).left { j with memory := m₁ }) := by
  refine Journal.Moved.bind hl (Journal.looked_allocate hpeeks _) fun node m hpeeks₂ hnew => ?_
  rw [Act.left_get_bind]
  refine Journal.Moved.bind hl (Journal.looked_ofResult hpeeks₂ _) fun format m' hpeeks₃ _ => ?_
  rw [Act.left_bind_pure, Act.left_discard]
  have htop : j.Topped [⟨format.target l.group node, .init l.tail data⟩, ⟨tail, .setNext node⟩] :=
    .cons hnew (.one fun page _ => .next node)
  exact Journal.applyBatch_moved hl hpeeks₃ htop

/-- Giving back a page. -/
theorem put_moved (hl : j.log.Holds h (rs.map Record.encode) []) (l : FreeList) (data : PageId) :
    j.Moved h rs ((l.put data).left j) := by
  by_cases hnull : data = PageId.null
  · simp only [put, if_pos hnull]
    exact .of_peeks hl (.refl _)
  simp only [put, if_neg hnull]
  rw [Act.left_get_bind]
  refine Journal.Moved.bind hl (Journal.looked_ofResult (.refl _) _) fun size m hpeeks _ => ?_
  by_cases hfree : data ∈ l.free
  · simp only [if_pos hfree]
    exact .of_peeks hl hpeeks
  by_cases hnode : data ∈ l.nodes
  · simp only [if_neg hfree, if_pos hnode]
    exact .of_peeks hl hpeeks
  simp only [if_neg hfree, if_neg hnode]
  refine Journal.Moved.bind hl (Journal.looked_readNode hpeeks l.group l.tail _)
    fun found m' hpeeks' hfound => ?_
  rcases hfound with ⟨f, page, hpage, hread⟩
  cases hcount : Node.count page with
  | error e =>
    rw [hcount] at hread
    cases hread
  | ok n =>
    rw [hcount] at hread
    cases hread
    by_cases hroom : n < f.capacity size
    · simp only [if_pos hroom]
      exact fillSlot_moved hl hpeeks' hpage hcount
    · simp only [if_neg hroom]
      exact linkNode_moved hl hpeeks' _ data

/-- The last slot as `take` finds it. -/
theorem viewTail_last {f : NodeFormat} {page : Bytes} {view : TailView} {slot : Nat} {data : PageId}
    (h : viewTail f page = .ok view) (hlast : view.last = some (slot, data)) :
    Node.count page = .ok (slot + 1) ∧ Node.pageAt page slot = .ok data := by
  -- the view was given, so each of the reads it consists of succeeded
  unfold viewTail at h
  cases hcount : Node.count page with
  | error e =>
    rw [hcount] at h
    cases h
  | ok n =>
    rw [hcount] at h
    cases n with
    | zero =>
      cases hprev : Node.prev page with
      | error e =>
        rw [hprev] at h
        cases h
      | ok prev =>
        rw [hprev] at h
        cases h
        cases hlast
    | succ n =>
      cases hholds : Node.pageAt page n with
      | error e =>
        simp only [bind, Except.bind, hholds] at h
        cases h
      | ok a =>
        cases hprev : Node.prev page with
        | error e =>
          simp only [bind, Except.bind, hholds, hprev] at h
          cases h
        | ok prev =>
          simp only [bind, Except.bind, hholds, hprev] at h
          cases h
          cases hlast
          exact ⟨rfl, hholds⟩

/-- Taking a page. -/
theorem take_moved (hl : j.log.Holds h (rs.map Record.encode) []) (l : FreeList) :
    j.Moved h rs (l.take.left j) := by
  rw [take]
  refine Journal.Moved.bind hl (Journal.looked_readNode (.refl _) l.group l.tail _)
    fun view m hpeeks hfound => ?_
  rcases hfound with ⟨f, page, hpage, hread⟩
  cases hlast : view.last with
  | some last =>
    rcases last with ⟨slot, data⟩
    rcases viewTail_last hread hlast with ⟨hcount, hholds⟩
    have hslot : (UInt16.ofNat slot).toNat = slot := by
      have hlt := (Node.count_eq_ok.1 hcount).2.1
      exact UInt16.toNat_ofNat_of_lt' (Nat.lt_of_succ_lt hlt)
    simp only [emptySlot]
    rw [Act.left_bind_pure, Act.left_discard]
    refine Journal.apply_moved hl hpeeks (.one fun page' hpage' => ?_)
    simp only [NodeFormat.target, hpage, Except.ok.injEq] at hpage'
    subst hpage'
    exact .last (by rw [hslot, hcount]) (by rw [hslot, hholds])
  | none =>
    simp only
    split
    · exact .of_peeks hl hpeeks
    · refine Journal.Moved.bind hl (Journal.looked_readNode hpeeks l.group view.prev _)
        fun format m' hpeeks' _ => ?_
      rw [Act.left_bind_pure, Act.left_discard]
      exact Journal.apply_moved hl hpeeks' (.one fun page _ => .next PageId.null)

/-! ### Chains of lists -/

/-- The chain of a list of one node and one page. -/
theorem Lies.eq_singleton {g : GroupId} {head tail data : PageId} {c : Contents}
    {size : Nat} {L : Links} (h : Lies ⟨g, head, tail, [head], [data]⟩ c size L)
    (hsize : Node.capacity size < 2 ^ 16) : L = [(head, [data])] := by
  have hnodes : L.ids = [head] := List.perm_singleton.1 h.nodes.symm
  have hheld : L.held = [data] := List.perm_singleton.1 (h.free_perm hsize).symm
  rcases List.map_eq_singleton_iff.1 hnodes with ⟨⟨a, s⟩, rfl, rfl⟩
  rw [Links.held, List.flatMap_singleton] at hheld
  rw [← hheld]

/-- The last node can be read. -/
theorem Kept.contents_tail {l : FreeList} {j : Journal} {h : FileHeader} {rs : List Record}
    {size : Nat} {L : Links} (hk : l.Kept j h rs size L) :
    ∃ page, j.memory.contents l.group l.tail = .ok page := by
  rcases List.eq_nil_or_concat L with rfl | ⟨L₀, ⟨t, s⟩, rfl⟩
  · exact absurd rfl hk.lies.nonempty
  rw [List.concat_eq_append] at hk
  rcases hk.tailNode with ⟨page, hpage, -⟩
  rw [hk.tail_eq]
  exact ⟨page, hpage⟩

end FreeList

namespace Depot

/-! ### Any operations -/

/-- Whatever is done with the lists, the journal goes on by changes at the top of pages. -/
theorem after_moved {d : Depot} {h : FileHeader} {rs : List Record}
    (hl : d.journal.log.Holds h (rs.map Record.encode) []) (op : ListOp) :
    d.journal.Moved h rs (d.after op).journal := by
  -- nothing is to be shown for an operation on a list that is not there; any other moves the
  -- journal itself, and the lists of the depot do not matter
  cases op with
  | create g =>
    have hmoved := FreeList.create_moved hl g
    cases hrun : FreeList.create g d.journal with
    | ok l j =>
      rw [Act.left_of_ok hrun] at hmoved
      simpa only [Depot.after, hrun] using hmoved
    | error e j =>
      rw [Act.left_of_error hrun] at hmoved
      simpa only [Depot.after, hrun] using hmoved
  | put i page =>
    cases hi : d.list? i with
    | none =>
      simp only [Depot.after, hi]
      exact .of_peeks hl (.refl _)
    | some l =>
      have hmoved := FreeList.put_moved hl l page
      cases hrun : l.put page d.journal with
      | ok l' j =>
        rw [Act.left_of_ok hrun] at hmoved
        simpa only [Depot.after, hi, hrun] using hmoved
      | error e j =>
        rw [Act.left_of_error hrun] at hmoved
        simpa only [Depot.after, hi, hrun] using hmoved
  | take i =>
    cases hi : d.list? i with
    | none =>
      simp only [Depot.after, hi]
      exact .of_peeks hl (.refl _)
    | some l =>
      have hmoved := FreeList.take_moved hl l
      cases hrun : l.take d.journal with
      | ok taken j =>
        rw [Act.left_of_ok hrun] at hmoved
        simpa only [Depot.after, hi, hrun] using hmoved
      | error e j =>
        rw [Act.left_of_error hrun] at hmoved
        simpa only [Depot.after, hi, hrun] using hmoved

/-- The log of the depot holds the records `rs`, and of the pages that were in use in the memory `m`
these tell what became of them, if their groups are logged. -/
structure Tracked (d : Depot) (h : FileHeader) (m : Memory) (rs : List Record) : Prop where
  log : d.journal.log.Holds h (rs.map Record.encode) []
  like : m.Like d.journal.memory
  logged : ∀ c ∈ Record.changes rs, d.journal.isLogged c = true
  pages : ∀ g id page, m.Issued g id → m.contents g id = .ok page →
    d.journal.switches.isEnabled g = true → ∃ page', d.journal.memory.contents g id = .ok page' ∧
      Node.Led m page (Record.changesOf g id rs) page'

section Tracked

variable {d : Depot} {h : FileHeader} {m : Memory} {rs : List Record}

theorem Tracked.after (hd : d.Tracked h m rs) (op : ListOp) :
    (d.after op).journal.switches = d.journal.switches ∧
      ∃ more, (d.after op).Tracked h m (rs ++ more) := by
  rcases after_moved hd.log op with ⟨ds, hout, htop⟩
  refine ⟨hout.switches, d.journal.recordsOf ds, hout.log, hd.like.trans hout.like, ?_, ?_⟩
  · intro c hc
    rw [Journal.isLogged, hout.switches]
    rw [Record.changes_append, Journal.recordsOf, Record.changes_map_delta] at hc
    rcases List.mem_append.1 hc with hc | hc
    · exact hd.logged c hc
    · exact (List.mem_filter.1 hc).2
  · intro g id page hid hpage hg
    rw [hout.switches] at hg
    rcases hd.pages g id page hid hpage hg with ⟨page₁, hpage₁, hled⟩
    rcases Contents.changes_about hout.changes hpage₁ with ⟨page₂, hpage₂, hredo⟩
    rw [redo_like hd.like] at hredo
    refine ⟨page₂, hpage₂, ?_⟩
    -- the changes of a page of a logged group are all recorded
    have hrecorded : Record.changesOf g id (rs ++ d.journal.recordsOf ds) =
        Record.changesOf g id rs ++ ds.filter (PageDelta.about g id) := by
      rw [Record.changesOf, Record.changes_append, List.filter_append, Journal.recordsOf,
        Record.changes_map_delta, List.filter_filter]
      refine congrArg _ (List.filter_congr fun c _ => ?_)
      cases habout : c.about g id with
      | false => rfl
      | true =>
        rw [Bool.true_and, Journal.isLogged, (PageDelta.about_iff.1 habout).1]
        exact hg
    rw [hrecorded]
    -- on this page the operation made one change at most, and that at the top
    rcases htop g id page₁ (hd.like.issued g id hid) hpage₁ with hnone | ⟨c, hone, hc⟩
    · rw [hnone] at hredo ⊢
      cases hredo
      rw [List.append_nil]
      exact hled
    · rw [hone] at hredo ⊢
      rw [redo_cons] at hredo
      rcases Act.bind_eq_ok.1 hredo with ⟨_, page₃, hrun, hlast⟩
      cases hlast
      exact hled.snoc hc hrun

theorem Tracked.afterAll (hd : d.Tracked h m rs) (ops : List ListOp) :
    (d.afterAll ops).journal.switches = d.journal.switches ∧
      ∃ more, (d.afterAll ops).Tracked h m (rs ++ more) := by
  induction ops generalizing d rs with
  | nil => exact ⟨rfl, [], by rwa [List.append_nil]⟩
  | cons op ops ih =>
    rcases hd.after op with ⟨hswitches, more, hd'⟩
    rcases ih hd' with ⟨hswitches', more', hd''⟩
    rw [List.append_assoc] at hd''
    exact ⟨hswitches'.trans hswitches, more ++ more', hd''⟩

end Tracked

/-! ### What single operations log -/

section Logs

variable {d : Depot} {l : FreeList} {i : Nat} {h : FileHeader} {rs : List Record} {size : Nat}
  {L₀ : Links} {t : PageId} {s : List PageId} {data : PageId}

/-- What the log tells of a page that is given back into a slot of the last node. -/
theorem after_put_fills (hi : d.list? i = some l)
    (hk : l.Kept d.journal h rs size (L₀ ++ [(t, s)])) (data : PageId)
    (haccepts : l.Accepts data) (hroom : s.length < Node.capacity size)
    (hbits : s.length + 1 < 2 ^ 16) (hg : d.journal.switches.isEnabled l.group = true) :
    let l' := { l with free := l.free.insert data }
    let d' := d.after (.put i data)
    d'.list? i = some l' ∧ d'.journal.switches = d.journal.switches ∧
      l'.Kept d'.journal h
        (rs ++ [.delta ⟨NodeFormat.v1.target l.group t, .add (.ofNat s.length) data⟩]) size
        (L₀ ++ [(t, s ++ [data])]) := by
  rcases FreeList.put_fills hk haccepts hroom with ⟨j', hput, hstep⟩
  have hafter : d.after (.put i data) =
      ⟨j', d.lists.set i (some { l with free := l.free.insert data })⟩ := by
    simp only [Depot.after, hi, hput]
  have hkept := hstep.kept hk.sound hk.pageSize
  have hlogged : d.journal.isLogged
      ⟨NodeFormat.v1.target l.group t, .add (.ofNat s.length) data⟩ = true := hg
  rw [NodeView.filled, if_pos hbits, Journal.recordsOf_singleton hlogged] at hkept
  simp only [hafter]
  refine ⟨?_, hstep.out.switches, hkept⟩
  rw [list?_set d j' hi, if_pos rfl]

/-- What the log tells of a page that is taken from a slot of the last node. -/
theorem after_take_slot (hi : d.list? i = some l)
    (hk : l.Kept d.journal h rs size (L₀ ++ [(t, s ++ [data])]))
    (hg : d.journal.switches.isEnabled l.group = true) :
    let l' := { l with free := l.free.erase data }
    let d' := d.after (.take i)
    d'.list? i = some l' ∧ d'.journal.switches = d.journal.switches ∧
      l'.Kept d'.journal h
        (rs ++ [.delta ⟨NodeFormat.v1.target l.group t, .remove (.ofNat s.length) data⟩]) size
        (L₀ ++ [(t, s)]) := by
  rcases FreeList.take_slot hk with ⟨j', htake, hstep⟩
  have hafter : d.after (.take i) =
      ⟨j', d.lists.set i (some { l with free := l.free.erase data })⟩ := by
    simp only [Depot.after, hi, htake]
  have hkept := hstep.kept hk.sound hk.pageSize
  have hlogged : d.journal.isLogged
      ⟨NodeFormat.v1.target l.group t, .remove (.ofNat s.length) data⟩ = true := hg
  rw [Journal.recordsOf_singleton hlogged] at hkept
  simp only [hafter]
  refine ⟨?_, hstep.out.switches, hkept⟩
  rw [list?_set d j' hi, if_pos rfl]

end Logs

end Depot

/-- The depot goes on with another log. -/
def Depot.relogged (d : Depot) (log : Log) : Depot := ⟨{ d.journal with log }, d.lists⟩

/-- **A log that is read again ends in the same pages or stops.**  A new log is begun over any pages
and any lists, and the lists are used in any way.  Take a page that was in use when the log was
begun, as it is after the first `k` of its changes in the log, and carry out all of its changes on
it.  They end in the last state of the page, which is its state in memory if its group is logged,
unless one of the first `k` changes is refused: it would fill a slot behind a gap, or empty a slot
that holds the page number but is not the last.  On pages of fewer than `2 ^ 16` slots this takes
both a slot that was filled and a slot that was emptied among these changes. -/
theorem reread_log_ends_or_stops {disk disk' : Disk} {options : LogOptions} {w : Writer}
    (hcalm : disk.Calm) (hnew : disk.file.len < FileHeader.size)
    (hopen : Writer.ofDisk options disk = .ok w disk') {d : Depot} (hd : d.journal.memory.Large)
    (ops : List ListOp) :
    let m := d.journal.memory
    let d' := (d.relogged ⟨disk', w⟩).afterAll ops
    ∃ rs, d'.journal.log.Holds ⟨options.salt, options.startLsn⟩ (rs.map Record.encode) [] ∧
      ∀ g id page, m.Issued g id → m.contents g id = .ok page →
        let ds := Record.changesOf g id rs
        ∃ final, (d.journal.switches.isEnabled g = true →
            d'.journal.memory.contents g id = .ok final) ∧
          ∀ k, ∃ page', redo m (ds.take k) page = .ok () page' ∧
            (redo m ds page' = .ok () final ∨
              Halts m (ds.take k) page' ∧
                (Node.capacity page.length < 2 ^ 16 → PageDelta.Mixed (ds.take k))) := by
  rcases Writer.ofDisk_short options hcalm hnew with ⟨w₀, disk₀, hopen₀, hl, -⟩
  rw [hopen] at hopen₀
  cases hopen₀
  -- nothing is recorded yet, so the pages are as they were
  have hbegin : (d.relogged ⟨disk', w⟩).Tracked ⟨options.salt, options.startLsn⟩
      d.journal.memory [] := by
    refine ⟨hl, .refl _, fun c hc => absurd hc List.not_mem_nil, fun g id page _ hpage _ => ?_⟩
    exact ⟨page, hpage, .nil page⟩
  rcases hbegin.afterAll ops with ⟨hswitches, rs, hend⟩
  have hswitches : ((d.relogged ⟨disk', w⟩).afterAll ops).journal.switches = d.journal.switches :=
    hswitches
  rw [List.nil_append] at hend
  refine ⟨rs, hend.log, fun g id page hid hpage => ?_⟩
  cases hg : d.journal.switches.isEnabled g with
  | true =>
    rcases hend.pages g id page hid hpage (by rw [hswitches]; exact hg) with ⟨final, hfinal, hled⟩
    exact ⟨final, fun _ => hfinal, fun k => hled.reread hd k⟩
  | false =>
    -- the log tells nothing of the page
    have hnone : Record.changesOf g id rs = [] := by
      refine List.filter_eq_nil_iff.2 fun c hc habout => ?_
      have hlogged := hend.logged c hc
      rw [Journal.isLogged, hswitches, (PageDelta.about_iff.1 habout).1, hg] at hlogged
      cases hlogged
    refine ⟨page, ?_, fun k => ?_⟩
    · intro hbad
      cases hbad
    have hled : Node.Led d.journal.memory page (Record.changesOf g id rs) page := hnone ▸ .nil page
    exact hled.reread hd k

/-- The only node of a list has a page when a new log is begun, and then gets two more. -/
theorem reread_log_ends_or_stops_of_second_log :
    ∃ d log, Depot.opened ⟨7, 1, .immediate⟩ (Disk.ofFile .inMemory) [(1, 64)] .empty = some d ∧
      Log.opened ⟨7, 1, .immediate⟩ (Disk.ofFile .inMemory) = some log ∧
      let d₁ := d.afterAll [.create 1, .put 0 10]
      let m := d₁.journal.memory
      let d₂ := (d₁.relogged log).afterAll [.put 0 20, .put 0 30]
      ∃ rs, d₂.journal.log.Holds ⟨7, 1⟩ (rs.map Record.encode) [] ∧
        ∃ page final, m.contents 1 1 = .ok page ∧ d₂.journal.memory.contents 1 1 = .ok final ∧
          let ds := Record.changesOf 1 1 rs
          ∀ k, ∃ page', redo m (ds.take k) page = .ok () page' ∧
            (redo m ds page' = .ok () final ∨
              Halts m (ds.take k) page' ∧
                (Node.capacity page.length < 2 ^ 16 → PageDelta.Mixed (ds.take k))) := by
  have hcalm : (Disk.ofFile .inMemory).Calm := fun _ _ => rfl
  have hnew : (Disk.ofFile .inMemory).file.len < FileHeader.size := by decide
  rcases Depot.opened_ok ⟨7, 1, .immediate⟩ hcalm hnew [(1, 64)] .empty with ⟨d, hd, -, hsound⟩
  rcases Writer.ofDisk_short ⟨7, 1, .immediate⟩ hcalm hnew with ⟨w, disk, hopen, -⟩
  rcases hsound.afterAll [.create 1, .put 0 10] with ⟨-, more, -, hsound₁, -⟩
  have hstate : ∀ d ∈ Depot.opened ⟨7, 1, .immediate⟩ (Disk.ofFile .inMemory) [(1, 64)] .empty,
      let d₁ := d.afterAll [.create 1, .put 0 10]
      (∀ pages ∈ d₁.journal.memory.groups[(1 : GroupId)]?, pages.nextId = some 2) ∧
        d₁.list? 0 = some ⟨1, 1, 1, [1], [10]⟩ ∧ d₁.journal.switches.isEnabled 1 = true := by
    decide +kernel
  rcases hstate d hd with ⟨hsecond, hlist, hlogged⟩
  rcases hsound₁.kept 0 _ hlist with ⟨size, L, hk⟩
  rcases hk.contents_tail with ⟨page, hpage⟩
  refine ⟨d, ⟨disk, w⟩, hd, Log.opened_eq_some.2 hopen, ?_⟩
  rcases reread_log_ends_or_stops hcalm hnew hopen hsound₁.memory.large [.put 0 20, .put 0 30] with
    ⟨rs, hl, hall⟩
  have hissued : (d.afterAll [.create 1, .put 0 10]).journal.memory.Issued 1 1 := by
    intro pages hpages next hnext
    rw [hsecond pages hpages, Option.some.injEq] at hnext
    rw [← hnext]
    decide
  rcases hall 1 1 page hissued hpage with ⟨final, hfinal, hagain⟩
  exact ⟨rs, hl, page, final, hpage, hfinal hlogged, hagain⟩

/-- The page 20 is given back and taken, and then the pages 30 and 40 are given back.  When the log
is read again, 20 comes into the slot of 30 and cannot be taken from there, as 40 is behind it. -/
theorem reread_log_stops_at_removal :
    ∃ d log, Depot.opened ⟨7, 1, .immediate⟩ (Disk.ofFile .inMemory) [(1, 64)] .empty = some d ∧
      Log.opened ⟨7, 1, .immediate⟩ (Disk.ofFile .inMemory) = some log ∧
      let d₁ := d.afterAll [.create 1, .put 0 10]
      let m := d₁.journal.memory
      let d₂ := (d₁.relogged log).afterAll [.put 0 20, .take 0, .put 0 30, .put 0 40]
      ∃ rs, d₂.journal.log.Holds ⟨7, 1⟩ (rs.map Record.encode) [] ∧
        Record.changesOf 1 1 rs = [⟨⟨1, 1, 12, 1⟩, .add 1 20⟩, ⟨⟨1, 1, 12, 1⟩, .remove 1 20⟩,
          ⟨⟨1, 1, 12, 1⟩, .add 1 30⟩, ⟨⟨1, 1, 12, 1⟩, .add 2 40⟩] ∧
        ∃ page final, m.contents 1 1 = .ok page ∧ d₂.journal.memory.contents 1 1 = .ok final ∧
          let ds := Record.changesOf 1 1 rs
          redo m ds page = .ok () final ∧
            ∃ page', redo m ds final = .error (.invalid .removalNotLast) page' := by
  have hcalm : (Disk.ofFile .inMemory).Calm := fun _ _ => rfl
  have hnew : (Disk.ofFile .inMemory).file.len < FileHeader.size := by decide
  rcases Depot.opened_ok ⟨7, 1, .immediate⟩ hcalm hnew [(1, 64)] .empty with ⟨d, hd, -, hsound⟩
  rcases Writer.ofDisk_short ⟨7, 1, .immediate⟩ hcalm hnew with ⟨w, disk, hopen, hl, -⟩
  rcases hsound.afterAll [.create 1, .put 0 10] with ⟨-, more, -, hsound₁, -⟩
  have hlog : Log.opened ⟨7, 1, .immediate⟩ (Disk.ofFile .inMemory) = some ⟨disk, w⟩ :=
    Log.opened_eq_some.2 hopen
  have hstate : ∀ d ∈ Depot.opened ⟨7, 1, .immediate⟩ (Disk.ofFile .inMemory) [(1, 64)] .empty,
      let d₁ := d.afterAll [.create 1, .put 0 10]
      d₁.list? 0 = some ⟨1, 1, 1, [1], [10]⟩ ∧ d₁.journal.switches.isEnabled 1 = true ∧
        d₁.journal.memory.pageSize 1 = .ok 64 := by
    decide +kernel
  have hredo : ∀ d ∈ Depot.opened ⟨7, 1, .immediate⟩ (Disk.ofFile .inMemory) [(1, 64)] .empty,
      ∀ log ∈ Log.opened ⟨7, 1, .immediate⟩ (Disk.ofFile .inMemory),
      let d₁ := d.afterAll [.create 1, .put 0 10]
      let m := d₁.journal.memory
      let d₂ := (d₁.relogged log).afterAll [.put 0 20, .take 0, .put 0 30, .put 0 40]
      let ds : List PageDelta := [⟨⟨1, 1, 12, 1⟩, .add 1 20⟩, ⟨⟨1, 1, 12, 1⟩, .remove 1 20⟩,
        ⟨⟨1, 1, 12, 1⟩, .add 1 30⟩, ⟨⟨1, 1, 12, 1⟩, .add 2 40⟩]
      (m.contents 1 1).toOption.all (fun page =>
        (d₂.journal.memory.contents 1 1).toOption.all fun final =>
          redo m ds page = .ok () final ∧
            redo m ds final = .error (.invalid .removalNotLast) ((redo m ds).left final)) =
        true := by
    decide +kernel
  rcases hstate d hd with ⟨hlist, hg, hsize⟩
  rcases hsound₁.kept 0 _ hlist with ⟨size, L, hk⟩
  rw [hk.pageSize] at hsize
  cases hsize
  obtain rfl := hk.lies.eq_singleton (by decide)
  rcases hk.contents_tail with ⟨page, hpage⟩
  have hk₀ : FreeList.Kept ⟨1, 1, 1, [1], [10]⟩
      ((d.afterAll [.create 1, .put 0 10]).relogged ⟨disk, w⟩).journal ⟨7, 1⟩ [] 64
      ([] ++ [(1, [10])]) := ⟨hk.sound, hl, hk.pageSize, hk.lies, hk.issued⟩
  have hlist₀ : ((d.afterAll [.create 1, .put 0 10]).relogged ⟨disk, w⟩).list? 0 =
      some ⟨1, 1, 1, [1], [10]⟩ := hlist
  rcases Depot.after_put_fills hlist₀ hk₀ 20 ⟨by decide, by decide, by decide⟩ (by decide)
    (by decide) hg with ⟨hlist₁, hswitches₁, hk₁⟩
  rcases Depot.after_take_slot hlist₁ hk₁ (by rw [hswitches₁]; exact hg) with
    ⟨hlist₂, hswitches₂, hk₂⟩
  rcases Depot.after_put_fills hlist₂ hk₂ 30 ⟨by decide, by decide, by decide⟩ (by decide)
    (by decide) (by rw [hswitches₂, hswitches₁]; exact hg) with ⟨hlist₃, hswitches₃, hk₃⟩
  rcases Depot.after_put_fills hlist₃ hk₃ 40 ⟨by decide, by decide, by decide⟩ (by decide)
    (by decide) (by rw [hswitches₃, hswitches₂, hswitches₁]; exact hg) with ⟨-, -, hk₄⟩
  have hops : ∀ d₀ : Depot, d₀.afterAll [.put 0 20, .take 0, .put 0 30, .put 0 40] =
      (((d₀.after (.put 0 20)).after (.take 0)).after (.put 0 30)).after (.put 0 40) := fun _ => rfl
  rw [← hops] at hk₄
  rcases hk₄.contents_tail with ⟨final, hfinal⟩
  refine ⟨d, ⟨disk, w⟩, hd, hlog, _, hk₄.log, rfl, page, final, hpage, hfinal, ?_⟩
  have hpages := (Option.all_eq_true ..).1 (hredo d hd _ hlog) page (congrArg Except.toOption hpage)
  have hpages := (Option.all_eq_true ..).1 hpages final (congrArg Except.toOption hfinal)
  rcases of_decide_eq_true hpages with ⟨hended, hstopped⟩
  exact ⟨hended, _, hstopped⟩

end PageLog
