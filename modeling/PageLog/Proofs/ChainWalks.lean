import PageLog.Proofs.Batches
import PageLog.Proofs.Chains
import PageLog.Proofs.SlotCounts

/-!
# Walks over damaged pages

Nothing is assumed here about what pages hold: nodes may name any page behind them, themselves
among others, and any page before them, and their counts may be too large for them.  A walk follows
the names of the nodes behind.  It passes only pages that were touched before it, so that it ends:
at the null page, at a page that it passed before, or at a page from which no node can be read.
Which of the three it is shows in what the walk gives.

## Main definitions

* `Memory.nodeAt`, `Memory.behind`, `Memory.before` — what is read from a node page.
* `Memory.Unmarked` — one memory came from another by reading, with no page opened for changing.
* `Chain.Walk` — which pages are passed from one page to another.
* `Chain.Ends` — how a walk ends.
* `Chain.Telling` — what walks tell about the pages that they pass.

## Main results

* `Chain.Walk.fork` — of two walks from one page, one goes on from where the other is.
* `Chain.nodesFrom_ends` — a walk ends in one of three ways.
* `chain_walks_tell_what_they_saw` — **walks end, and tell what they saw**.
-/

namespace PageLog

/-! ### Reading without marks -/

/-- What is read from a node page. -/
def Memory.nodeAt {α : Type} (m : Memory) (g : GroupId) (read : NodeFormat → Bytes → Result α)
    (id : PageId) : Result α := do
  let page ← m.contents g id
  let format ← m.formats.ofPage page
  read format page

/-- The page that a node names as the one behind it. -/
def Memory.behind (m : Memory) (g : GroupId) : PageId → Result PageId :=
  m.nodeAt g fun _ => Node.next

/-- The page that a node names as the one before it. -/
def Memory.before (m : Memory) (g : GroupId) : PageId → Result PageId :=
  m.nodeAt g fun _ => Node.prev

/-- The memory `m'` comes from `m` by reading pages, and none was opened for changing. -/
structure Memory.Unmarked (m m' : Memory) : Prop extends m.Peeks m' where
  /-- The same pages count as changed. -/
  marks : ∀ g, m'.dirtyPages g = m.dirtyPages g

namespace Memory

variable {m m' m'' : Memory} {g : GroupId} {id : PageId} {α β : Type}

theorem Unmarked.refl (m : Memory) : m.Unmarked m := ⟨.refl m, fun _ => rfl⟩

theorem Unmarked.trans (h : m.Unmarked m') (h' : m'.Unmarked m'') : m.Unmarked m'' :=
  ⟨h.toPeeks.trans h'.toPeeks, fun g => (h'.marks g).trans (h.marks g)⟩

/-- What is read from nodes stays the same. -/
theorem Unmarked.nodeAt (h : m.Unmarked m') (g : GroupId)
    (read : NodeFormat → Bytes → Result α) : m'.nodeAt g read = m.nodeAt g read := by
  funext id
  unfold Memory.nodeAt
  rw [h.contents, h.formats]

theorem Unmarked.behind (h : m.Unmarked m') (g : GroupId) : m'.behind g = m.behind g :=
  h.nodeAt g _

theorem Unmarked.before (h : m.Unmarked m') (g : GroupId) : m'.before g = m.before g :=
  h.nodeAt g _

/-- The step leaves no marks, whether it succeeds or fails. -/
def OnlyReads (act : Act Memory α) : Prop := ∀ m : Memory, m.Unmarked (act.left m)

theorem onlyReads_pure (a : α) : OnlyReads (pure a) := fun m => .refl m

theorem onlyReads_throw (e : Error) : OnlyReads (throw e : Act Memory α) := fun m => .refl m

theorem OnlyReads.bind {act : Act Memory α} {next : α → Act Memory β} (h : OnlyReads act)
    (h' : ∀ a, OnlyReads (next a)) : OnlyReads (act >>= next) := by
  intro m
  have hfirst := h m
  cases hact : act m with
  | ok a m' =>
    rw [Act.left_of_ok hact] at hfirst
    rw [Act.left_bind_of_ok hact]
    exact hfirst.trans (h' a m')
  | error e m' =>
    rw [Act.left_of_error hact] at hfirst
    rw [Act.left_bind_of_error hact]
    exact hfirst

theorem onlyReads_page (g : GroupId) (id : PageId) : OnlyReads (page g id) := by
  intro m
  refine ⟨?_, keepsMarks_page g id m⟩
  cases hpage : m.contents g id with
  | ok bytes =>
    obtain ⟨m', hrun, hreach, hcontents⟩ := page_of_contents hpage
    rw [Act.left_of_ok hrun]
    exact ⟨hreach.toLike, hcontents⟩
  | error e =>
    rw [Act.left_of_error (page_of_error hpage)]
    exact .refl m

end Memory

namespace Chain

open Memory

variable {m : Memory} {g : GroupId} {id : PageId} {α : Type}

/-- Reading from a node touches the page, and then looks only at its bytes. -/
theorem readNode_cases (g : GroupId) (id : PageId) (read : NodeFormat → Bytes → Result α)
    (m : Memory) :
    (readNode g id read).answer m = m.nodeAt g read id ∧
      (readNode g id read).left m = (page g id).left m := by
  have hread := onlyReads_page g id m
  unfold nodeAt contents Act.answer Act.left readNode
  unfold Act.left at hread
  cases hpage : page g id m with
  | error e m' => exact ⟨rfl, rfl⟩
  | ok bytes m' =>
    rw [hpage] at hread
    have hformats : m'.formats = m.formats := hread.formats
    simp only [hformats, bind, Except.bind]
    cases m.formats.ofPage bytes with
    | error e => exact ⟨rfl, rfl⟩
    | ok format =>
      simp only
      cases read format bytes with
      | error e => exact ⟨rfl, rfl⟩
      | ok a => exact ⟨rfl, rfl⟩

theorem readNode_answer (g : GroupId) (id : PageId) (read : NodeFormat → Bytes → Result α)
    (m : Memory) : (readNode g id read).answer m = m.nodeAt g read id :=
  (readNode_cases g id read m).1

theorem onlyReads_readNode (g : GroupId) (id : PageId) (read : NodeFormat → Bytes → Result α) :
    OnlyReads (readNode g id read) := by
  intro m
  rw [(readNode_cases g id read m).2]
  exact onlyReads_page g id m

/-- A page that names one behind it was touched before. -/
theorem present_of_behind {next : PageId} (h : m.behind g id = .ok next) : id ∈ present m g := by
  have hread := readNode_answer g id (fun _ => Node.next) m
  rw [← Memory.behind, h] at hread
  unfold Act.answer at hread
  split at hread
  · rename_i hrun
    exact (readNode_present hrun).1
  · cases hread

/-- The null page names no page behind it. -/
theorem behind_null (m : Memory) (g : GroupId) (next : PageId) :
    m.behind g PageId.null ≠ .ok next := by
  have hnull : m.contents g PageId.null = .error (.invalid .nullPage) := by
    rw [contents_eq, if_pos rfl]
  unfold Memory.behind nodeAt
  rw [hnull]
  intro h
  cases h

/-! ### Walks -/

/-- From `cur` a walk passes the pages of a list in order and comes to `last`, where `next` tells
which page comes behind a page. -/
inductive Walk (next : PageId → Result PageId) : PageId → List PageId → PageId → Prop
  /-- No page is passed. -/
  | here (cur : PageId) : Walk next cur [] cur
  /-- A page is passed on the way to the page behind it. -/
  | pass {cur id last : PageId} {passed : List PageId} (hnext : next cur = .ok id)
      (hrest : Walk next id passed last) : Walk next cur (cur :: passed) last

namespace Walk

variable {next : PageId → Result PageId} {cur last last' : PageId} {passed passed' : List PageId}

/-- From every page that is passed a walk can go on. -/
theorem leads (h : Walk next cur passed last) : ∀ id ∈ passed, ∃ a, next id = .ok a := by
  induction h with
  | here cur =>
    intro id hid
    cases hid
  | pass hnext _ ih =>
    intro id hid
    obtain rfl | hid := List.mem_cons.1 hid
    · exact ⟨_, hnext⟩
    · exact ih id hid

/-- Where no page comes behind, a walk is at its end. -/
theorem stuck (h : Walk next cur passed last) (hstop : ∀ a, next cur ≠ .ok a) :
    passed = [] ∧ cur = last := by
  cases h with
  | here => exact ⟨rfl, rfl⟩
  | pass hnext hrest => exact absurd hnext (hstop _)

/-- Of two walks from one page, one goes on from where the other is. -/
theorem fork (h : Walk next cur passed last) (h' : Walk next cur passed' last') :
    (∃ rest, passed' = passed ++ rest ∧ Walk next last rest last') ∨
      ∃ rest, passed = passed' ++ rest ∧ Walk next last' rest last := by
  induction h generalizing passed' with
  | here cur => exact .inl ⟨passed', rfl, h'⟩
  | pass hnext hrest ih =>
    cases h' with
    | here => exact .inr ⟨_, rfl, .pass hnext hrest⟩
    | pass hnext' hrest' =>
      rw [hnext] at hnext'
      cases hnext'
      obtain ⟨rest, rfl, hgoes⟩ | ⟨rest, rfl, hgoes⟩ := ih hrest'
      · exact .inl ⟨rest, rfl, hgoes⟩
      · exact .inr ⟨rest, rfl, hgoes⟩

/-- There is only one walk to a page behind which no page comes. -/
theorem unique (h : Walk next cur passed last) (hstop : ∀ a, next last ≠ .ok a)
    (h' : Walk next cur passed' last') (hstop' : ∀ a, next last' ≠ .ok a) :
    passed' = passed ∧ last' = last := by
  obtain ⟨rest, rfl, hgoes⟩ | ⟨rest, rfl, hgoes⟩ := h.fork h'
  · obtain ⟨rfl, rfl⟩ := hgoes.stuck hstop
    exact ⟨List.append_nil _, rfl⟩
  · obtain ⟨rfl, rfl⟩ := hgoes.stuck hstop'
    exact ⟨(List.append_nil _).symm, rfl⟩

/-- No walk comes back to a page if one that passes none twice comes to its end. -/
theorem not_back (h : Walk next cur passed last) (hstop : ∀ a, next last ≠ .ok a)
    (hnodup : passed.Nodup) (h' : Walk next cur passed' last') : last' ∉ passed' := by
  intro hback
  -- where the second walk is, it can go on, so that it is not where the first one ended
  obtain ⟨a, ha⟩ := h'.leads last' hback
  obtain ⟨rest, rfl, hgoes⟩ | ⟨rest, rfl, hgoes⟩ := h.fork h'
  · obtain ⟨-, rfl⟩ := hgoes.stuck hstop
    exact hstop a ha
  · cases hgoes with
    | here => exact hstop a ha
    | pass hnext hrest =>
      exact (List.nodup_append.1 hnodup).2.2 last' hback last' List.mem_cons_self rfl

end Walk

/-! ### How walks end -/

/-- How a walk from `cur` ends that began before, when it had passed the pages `seen`. -/
inductive Ends (next : PageId → Result PageId) (seen : List PageId) (cur : PageId) :
    Result (List PageId) → Prop
  /-- It comes to the null page. -/
  | null {passed : List PageId} (hwalk : Walk next cur passed PageId.null)
      (hnodup : passed.Nodup) (hfresh : ∀ id ∈ passed, id ∉ seen) :
      Ends next seen cur (.ok passed)
  /-- It comes to a page that it passed. -/
  | back {passed : List PageId} {last : PageId} (hwalk : Walk next cur passed last)
      (hseen : last ∈ seen ∨ last ∈ passed) :
      Ends next seen cur (.error (.corruption .chainCycle))
  /-- It comes to a page from which it cannot go on. -/
  | broken {passed : List PageId} {last : PageId} {e : Error} (hwalk : Walk next cur passed last)
      (hlast : last ≠ PageId.null) (hnodup : passed.Nodup) (hfresh : ∀ id ∈ passed, id ∉ seen)
      (herror : next last = .error e) : Ends next seen cur (.error e)

/-- What a walk gives from the page behind on tells how it ends from a page on. -/
theorem Ends.pass {next : PageId → Result PageId} {seen : List PageId} {cur id : PageId}
    {r : Result (List PageId)} (hcur : cur ∉ seen) (hnext : next cur = .ok id)
    (h : Ends next (cur :: seen) id r) : Ends next seen cur ((cur :: ·) <$> r) := by
  -- a page that was not passed when the walk left `cur` is not `cur`
  have hcons : ∀ passed : List PageId, passed.Nodup → (∀ a ∈ passed, a ∉ cur :: seen) →
      (cur :: passed).Nodup ∧ ∀ a ∈ cur :: passed, a ∉ seen := by
    intro passed hnodup hfresh
    refine ⟨List.nodup_cons.2 ⟨fun hmem => hfresh cur hmem List.mem_cons_self, hnodup⟩, ?_⟩
    intro a ha
    obtain rfl | ha := List.mem_cons.1 ha
    · exact hcur
    · exact fun hseen => hfresh a ha (List.mem_cons_of_mem _ hseen)
  cases h with
  | null hwalk hnodup hfresh =>
    obtain ⟨hnodup', hfresh'⟩ := hcons _ hnodup hfresh
    exact .null (.pass hnext hwalk) hnodup' hfresh'
  | back hwalk hseen =>
    refine .back (.pass hnext hwalk) ?_
    rw [List.mem_cons] at hseen ⊢
    obtain (rfl | hseen) | hpassed := hseen
    · exact .inr (.inl rfl)
    · exact .inl hseen
    · exact .inr (.inr hpassed)
  | broken hwalk hlast hnodup hfresh herror =>
    obtain ⟨hnodup', hfresh'⟩ := hcons _ hnodup hfresh
    exact .broken (.pass hnext hwalk) hlast hnodup' hfresh' herror

section Ends

variable {next : PageId → Result PageId} {cur : PageId} {r : Result (List PageId)}

theorem ne_ok_of_error {x : Result PageId} {e : Error} (h : x = .error e) (a : PageId) :
    x ≠ .ok a := by
  intro ha
  rw [h] at ha
  cases ha

/-- A walk gives pages just if it passes them, none of them twice, and comes to the null page. -/
theorem Ends.eq_ok_iff (h : Ends next [] cur r) (hnull : ∀ a, next PageId.null ≠ .ok a)
    (ns : List PageId) : r = .ok ns ↔ Walk next cur ns PageId.null ∧ ns.Nodup := by
  constructor
  · intro hr
    subst hr
    cases h with
    | null hwalk hnodup _ => exact ⟨hwalk, hnodup⟩
  · rintro ⟨hwalk, hnodup⟩
    cases h with
    | null hwalk' _ _ =>
      obtain ⟨rfl, -⟩ := hwalk.unique hnull hwalk' hnull
      rfl
    | back hwalk' hseen =>
      exact absurd (hseen.resolve_left List.not_mem_nil) (hwalk.not_back hnull hnodup hwalk')
    | broken hwalk' hlast _ _ herror =>
      exact absurd (hwalk.unique hnull hwalk' (ne_ok_of_error herror)).2 hlast

/-- A walk finds a cycle just if it comes to a page that it passed. -/
theorem Ends.eq_cycle_iff (h : Ends next [] cur r) (hnull : ∀ a, next PageId.null ≠ .ok a)
    (hcycle : ∀ id, next id ≠ .error (.corruption .chainCycle)) :
    r = .error (.corruption .chainCycle) ↔
      ∃ passed last, Walk next cur passed last ∧ last ∈ passed := by
  constructor
  · intro hr
    subst hr
    cases h with
    | back hwalk hseen => exact ⟨_, _, hwalk, hseen.resolve_left List.not_mem_nil⟩
    | broken _ _ _ _ herror => exact absurd herror (hcycle _)
  · rintro ⟨passed, last, hwalk, hback⟩
    cases h with
    | null hwalk' hnodup _ => exact absurd hback (hwalk'.not_back hnull hnodup hwalk)
    | back _ _ => rfl
    | broken hwalk' _ hnodup _ herror =>
      exact absurd hback (hwalk'.not_back (ne_ok_of_error herror) hnodup hwalk)

/-- Any other failure of a walk is that of reading a page to which it came. -/
theorem Ends.eq_error_iff (h : Ends next [] cur r) (hnull : ∀ a, next PageId.null ≠ .ok a)
    (hcycle : ∀ id, next id ≠ .error (.corruption .chainCycle)) (e : Error) :
    r = .error e ∧ e ≠ .corruption .chainCycle ↔
      ∃ passed last, (Walk next cur passed last ∧ passed.Nodup) ∧ last ≠ PageId.null ∧
        next last = .error e := by
  constructor
  · rintro ⟨hr, he⟩
    subst hr
    cases h with
    | back _ _ => exact absurd rfl he
    | broken hwalk hlast hnodup _ herror => exact ⟨_, _, ⟨hwalk, hnodup⟩, hlast, herror⟩
  · rintro ⟨passed, last, ⟨hwalk, hnodup⟩, hlast, herror⟩
    -- two walks from one page do not part, so both end at this page
    have hstop := ne_ok_of_error herror
    cases h with
    | null hwalk' _ _ => exact absurd (hwalk'.unique hnull hwalk hstop).2 hlast
    | back hwalk' hseen =>
      exact absurd (hseen.resolve_left List.not_mem_nil) (hwalk.not_back hstop hnodup hwalk')
    | broken hwalk' _ _ _ herror' =>
      obtain ⟨-, rfl⟩ := hwalk.unique hstop hwalk' (ne_ok_of_error herror')
      rw [herror] at herror'
      cases herror'
      refine ⟨rfl, ?_⟩
      rintro rfl
      exact hcycle _ herror

end Ends

/-- One step of a walk, and the rest of it. -/
theorem nodesFrom_eq (g : GroupId) {seen : List PageId} {cur : PageId} (hcur : cur ≠ PageId.null)
    (hseen : cur ∉ seen) :
    nodesFrom g seen cur = (do
      let next ← readNode g cur fun _ => Node.next
      let rest ← nodesFrom g (cur :: seen) next
      return cur :: rest) := by
  funext m
  rw [nodesFrom, if_neg hcur, dif_neg hseen, Act.bind_apply]
  split
  · rename_i hrun
    rw [hrun]
  · rename_i hrun
    rw [hrun]
    simp only [Act.bind_apply]
    cases nodesFrom g (cur :: seen) _ _ with
    | ok rest m' => rfl
    | error e m' => rfl

/-- A walk that passes a page ends as the walk from the page behind it does. -/
theorem nodesFrom_pass {seen : List PageId} {cur next : PageId} {m₁ : Memory}
    (hcur : cur ≠ PageId.null) (hseen : cur ∉ seen)
    (hrun : readNode g cur (fun _ => Node.next) m = .ok next m₁)
    (h : m₁.Unmarked ((nodesFrom g (cur :: seen) next).left m₁) ∧
      Ends (m₁.behind g) (cur :: seen) next ((nodesFrom g (cur :: seen) next).answer m₁)) :
    m.Unmarked ((nodesFrom g seen cur).left m) ∧
      Ends (m.behind g) seen cur ((nodesFrom g seen cur).answer m) := by
  obtain ⟨hunmarked, hends⟩ := h
  have hread := onlyReads_readNode g cur (fun _ => Node.next) m
  rw [Act.left_of_ok hrun] at hread
  have hbehind := readNode_answer g cur (fun _ => Node.next) m
  rw [Act.answer_of_ok hrun] at hbehind
  have hleft : (nodesFrom g seen cur).left m = (nodesFrom g (cur :: seen) next).left m₁ := by
    rw [nodesFrom_eq g hcur hseen, Act.left_bind_of_ok hrun, Act.left_bind_pure]
  have hanswer : (nodesFrom g seen cur).answer m =
      (cur :: ·) <$> (nodesFrom g (cur :: seen) next).answer m₁ := by
    rw [nodesFrom_eq g hcur hseen, Act.answer, Act.answer, Act.bind_of_ok hrun, Act.bind_apply]
    cases nodesFrom g (cur :: seen) next m₁ with
    | ok rest m' => rfl
    | error e m' => rfl
  rw [hread.behind g] at hends
  rw [hleft, hanswer]
  exact ⟨hread.trans hunmarked, hends.pass hseen hbehind.symm⟩

/-- A walk opens no page for changing, and ends in one of the three ways. -/
theorem nodesFrom_ends (g : GroupId) (seen : List PageId) (cur : PageId) (m : Memory) :
    m.Unmarked ((nodesFrom g seen cur).left m) ∧
      Ends (m.behind g) seen cur ((nodesFrom g seen cur).answer m) := by
  induction seen, cur, m using nodesFrom.induct g with
  | case1 seen m =>
    have hrun : nodesFrom g seen PageId.null m = .ok [] m := by
      rw [nodesFrom, if_pos rfl]
    rw [Act.left_of_ok hrun, Act.answer_of_ok hrun]
    exact ⟨.refl m, .null (.here _) List.nodup_nil fun _ hid => absurd hid List.not_mem_nil⟩
  | case2 seen cur m hcur hseen =>
    have hrun : nodesFrom g seen cur m = .error (.corruption .chainCycle) m := by
      rw [nodesFrom, if_neg hcur, dif_pos hseen]
    rw [Act.left_of_error hrun, Act.answer_of_error hrun]
    exact ⟨.refl m, .back (.here cur) (.inl hseen)⟩
  | case3 seen cur m hcur hseen e m' hrun =>
    -- the page cannot be read, and the walk breaks off there
    have hread := onlyReads_readNode g cur (fun _ => Node.next) m
    rw [Act.left_of_error hrun] at hread
    have hbehind := readNode_answer g cur (fun _ => Node.next) m
    rw [Act.answer_of_error hrun] at hbehind
    rw [nodesFrom_eq g hcur hseen, Act.left_bind_of_error hrun,
      Act.answer_of_error (Act.bind_of_error hrun)]
    exact ⟨hread, .broken (.here cur) hcur List.nodup_nil
      (fun _ hid => absurd hid List.not_mem_nil) hbehind.symm⟩
  | case4 seen cur m hcur hseen next m₁ hrun e m₂ hrest ih =>
    exact nodesFrom_pass hcur hseen hrun ih
  | case5 seen cur m hcur hseen next m₁ hrun rest m₂ hrest ih =>
    exact nodesFrom_pass hcur hseen hrun ih

theorem nodes_ends (m : Memory) (g : GroupId) (head : PageId) :
    Ends (m.behind g) [] head ((nodes g head).answer m) :=
  (nodesFrom_ends g [] head m).2

theorem onlyReads_nodes (g : GroupId) (head : PageId) : OnlyReads (nodes g head) :=
  fun m => (nodesFrom_ends g [] head m).1

/-- An error that neither of two readings gives is not given by one after the other. -/
theorem bind_ne_error {β : Type} {x : Result α} {f : α → Result β} {e : Error}
    (hx : x ≠ .error e) (hf : ∀ a, f a ≠ .error e) : x >>= f ≠ .error e := by
  cases x with
  | ok a => exact hf a
  | error e' =>
    intro h
    cases h
    exact hx rfl

/-- No page is read as if a walk had come back to it. -/
theorem behind_ne_cycle (m : Memory) (g : GroupId) (id : PageId) :
    m.behind g id ≠ .error (.corruption .chainCycle) := by
  have hfield : ∀ page off width, Field.read page off width ≠ .error (.corruption .chainCycle) := by
    intro page off width
    unfold Field.read
    split <;> nofun
  have hnumber : ∀ {β : Type} (f : Bytes → β) page off width,
      (Field.read page off width).map f ≠ .error (.corruption .chainCycle) := by
    intro β f page off width h
    cases hread : Field.read page off width with
    | ok bytes =>
      rw [hread] at h
      cases h
    | error e =>
      rw [hread] at h
      cases h
      exact hfield page off width hread
  -- reading a page fails for its group, its fields or its format
  refine bind_ne_error ?_ fun page => bind_ne_error (bind_ne_error ?_ fun header => ?_)
    fun format => hnumber _ page _ _
  · rw [contents_eq]
    split
    · nofun
    · split <;> nofun
  · unfold PageHeader.parse
    split
    · nofun
    · exact bind_ne_error (hnumber _ _ _ _) fun _ =>
        bind_ne_error (hnumber _ _ _ _) fun _ => bind_ne_error (hnumber _ _ _ _) nofun
  · unfold Formats.lookup
    dsimp only
    split
    · nofun
    · split
      · nofun
      · split <;> nofun

/-! ### What walks give -/

/-- The nodes of a chain are what a walk to the null page passes. -/
theorem nodes_answer_eq_ok (m : Memory) (g : GroupId) (head : PageId) (ns : List PageId) :
    (nodes g head).answer m = .ok ns ↔ Walk (m.behind g) head ns PageId.null ∧ ns.Nodup :=
  (nodes_ends m g head).eq_ok_iff (behind_null m g) ns

/-- The same nodes are found after other walks. -/
theorem nodes_answer_congr {m' : Memory} {head : PageId} {ns : List PageId} (h : m.Unmarked m') :
    (nodes g head).answer m' = .ok ns ↔ (nodes g head).answer m = .ok ns := by
  rw [nodes_answer_eq_ok, nodes_answer_eq_ok, h.behind g]

/-- Each page of a list names the one before it, and the first names `before`. -/
def Mirrored (prev : PageId → Result PageId) : (before : PageId) → List PageId → Prop
  | _, [] => True
  | before, id :: rest => prev id = .ok before ∧ Mirrored prev id rest

theorem onlyReads_verifyFrom (g : GroupId) (before : PageId) (ns : List PageId) :
    OnlyReads (verifyFrom g before ns) := by
  induction ns generalizing before with
  | nil => exact onlyReads_pure ()
  | cons id ns ih =>
    refine (onlyReads_readNode g id _).bind fun prev => ?_
    by_cases hprev : prev = before
    · rw [if_neg (not_not_intro hprev)]
      exact ih id
    · rw [if_pos hprev]
      exact onlyReads_throw _

/-- Nodes pass the check just if each names the one before it. -/
theorem verifyFrom_answer_eq_ok (g : GroupId) (before : PageId) (ns : List PageId) (m : Memory) :
    (verifyFrom g before ns).answer m = .ok () ↔ Mirrored (m.before g) before ns := by
  induction ns generalizing before m with
  | nil => exact ⟨fun _ => trivial, fun _ => rfl⟩
  | cons id ns ih =>
    have hothers := ih id ((readNode g id fun _ => Node.prev).left m)
    rw [(onlyReads_readNode g id (fun _ => Node.prev) m).before g] at hothers
    rw [verifyFrom, Act.answer_bind_eq_ok, readNode_answer, ← Memory.before, Mirrored]
    constructor
    · rintro ⟨prev, hprev, hrest⟩
      by_cases heq : prev = before
      · subst heq
        rw [if_neg (not_not_intro rfl)] at hrest
        exact ⟨hprev, hothers.1 hrest⟩
      · rw [if_pos heq] at hrest
        cases hrest
    · rintro ⟨hprev, hrest⟩
      refine ⟨before, hprev, ?_⟩
      rw [if_neg (not_not_intro rfl)]
      exact hothers.2 hrest

theorem onlyReads_verify (g : GroupId) (head : PageId) : OnlyReads (verify g head) :=
  (onlyReads_nodes g head).bind fun ns => onlyReads_verifyFrom g PageId.null ns

/-- A chain passes the check just if a walk to the null page passes nodes each of which names the
one before it. -/
theorem verify_answer_eq_ok (m : Memory) (g : GroupId) (head : PageId) :
    (verify g head).answer m = .ok () ↔
      ∃ ns, (nodes g head).answer m = .ok ns ∧ Mirrored (m.before g) PageId.null ns := by
  rw [verify, Act.answer_bind_eq_ok]
  simp only [verifyFrom_answer_eq_ok, (onlyReads_nodes g head m).before g]

theorem onlyReads_slotsOf (g : GroupId) (ns : List PageId) : OnlyReads (slotsOf g ns) := by
  induction ns with
  | nil => exact onlyReads_pure []
  | cons id ns ih =>
    exact (onlyReads_readNode g id _).bind fun ids => ih.bind fun others => onlyReads_pure _

/-- The page numbers in the slots of nodes are those of each of them. -/
theorem slotsOf_answer_eq_ok (g : GroupId) (ns ids : List PageId) (m : Memory) :
    (slotsOf g ns).answer m = .ok ids ↔
      ∃ L : Links, L.ids = ns ∧ L.held = ids ∧
        ∀ node ∈ L, m.nodeAt g (fun _ => Node.slots) node.1 = .ok node.2 := by
  induction ns generalizing ids m with
  | nil =>
    constructor
    · intro h
      cases h
      exact ⟨[], rfl, rfl, nofun⟩
    · rintro ⟨L, hids, rfl, -⟩
      cases List.map_eq_nil_iff.1 hids
      rfl
  | cons id ns ih =>
    -- reading a node changes nothing for the others
    have hothers := fun ids => ih ids ((readNode g id fun _ => Node.slots).left m)
    rw [(onlyReads_readNode g id (fun _ => Node.slots) m).nodeAt g] at hothers
    simp only [slotsOf, Act.answer_bind_eq_ok, readNode_answer]
    constructor
    · rintro ⟨slots, hslots, others, hrest, hids⟩
      cases hids
      obtain ⟨L, rfl, rfl, hL⟩ := (hothers _).1 hrest
      refine ⟨(id, slots) :: L, rfl, rfl, ?_⟩
      intro node hnode
      obtain rfl | hnode := List.mem_cons.1 hnode
      · exact hslots
      · exact hL node hnode
    · rintro ⟨L, hids, rfl, hL⟩
      obtain ⟨node, L, rfl, rfl, rfl⟩ := List.map_eq_cons_iff.1 hids
      refine ⟨node.2, hL node List.mem_cons_self, Links.held L, ?_, rfl⟩
      exact (hothers _).2 ⟨L, rfl, rfl, fun a ha => hL a (List.mem_cons_of_mem _ ha)⟩

theorem onlyReads_pages (g : GroupId) (head : PageId) : OnlyReads (pages g head) :=
  (onlyReads_nodes g head).bind fun ns => onlyReads_slotsOf g ns

theorem pages_answer_eq_ok (m : Memory) (g : GroupId) (head : PageId) (ids : List PageId) :
    (pages g head).answer m = .ok ids ↔
      ∃ L : Links, (nodes g head).answer m = .ok L.ids ∧ L.held = ids ∧
        ∀ node ∈ L, m.nodeAt g (fun _ => Node.slots) node.1 = .ok node.2 := by
  rw [pages, Act.answer_bind_eq_ok]
  simp only [slotsOf_answer_eq_ok, (onlyReads_nodes g head m).nodeAt g]
  constructor
  · rintro ⟨ns, hns, L, rfl, hheld, hL⟩
    exact ⟨L, hns, hheld, hL⟩
  · rintro ⟨L, hns, hheld, hL⟩
    exact ⟨L.ids, hns, L, rfl, hheld, hL⟩

end Chain

/-! ### Opening a list -/

/-- Where no repeated element is found there is none. -/
theorem nodup_of_firstRepeated? {seen ids : List PageId} (h : firstRepeated? seen ids = none) :
    ids.Nodup ∧ ∀ id ∈ ids, id ∉ seen := by
  induction ids generalizing seen with
  | nil => exact ⟨List.nodup_nil, nofun⟩
  | cons id ids ih =>
    rw [firstRepeated?] at h
    split at h
    · cases h
    · rename_i hid
      obtain ⟨hnodup, hseen⟩ := ih h
      refine ⟨List.nodup_cons.2 ⟨fun hmem => hseen id hmem List.mem_cons_self, hnodup⟩, ?_⟩
      intro a ha
      obtain rfl | ha := List.mem_cons.1 ha
      · exact hid
      · exact fun hmem => hseen a ha (List.mem_cons_of_mem _ hmem)

/-- A page counts as many slots as there are numbers in `ids`, has room for them, and holds these
numbers in them. -/
structure Node.Occupied (page : Bytes) (ids : List PageId) : Prop where
  /-- The count. -/
  count : Field.readU16 page countOffset = .ok (UInt16.ofNat ids.length)
  /-- The count has 16 bits. -/
  small : ids.length < 2 ^ 16
  /-- There is room. -/
  room : ids.length ≤ capacity page.length
  /-- The slots. -/
  slot : ∀ (i : Nat) (a : PageId), ids[i]? = some a →
    Field.readU64 page (slotOffset i) = .ok a

/-- The slots of a page can be read just if their count is within its capacity. -/
theorem Node.slots_eq_ok_iff {page : Bytes} {ids : List PageId} :
    slots page = .ok ids ↔ Occupied page ids := by
  -- a slot within the capacity lies on the page
  have hread : ∀ i, i < ids.length → ids.length ≤ capacity page.length →
      Field.readU64 page (slotOffset i) =
        .ok (Bytes.toU64 (((page.drop slotsOffset).drop (i * slotSize)).take slotSize)) := by
    intro i hi hroom
    rw [Field.readU64, Field.read_eq_ok (slotOffset_lt (Nat.lt_of_lt_of_le hi hroom)),
      List.drop_drop]
    rfl
  rw [slots_eq_ok, count_eq_ok]
  constructor
  · rintro ⟨⟨hcount, hsmall, hroom⟩, hwords⟩
    refine ⟨hcount, hsmall, hroom, ?_⟩
    intro i a hi
    have hlt := (List.getElem?_eq_some_iff.1 hi).1
    rw [← hwords, getElem?_words, if_pos hlt] at hi
    cases hi
    exact hread i hlt hroom
  · intro h
    refine ⟨⟨h.count, h.small, h.room⟩, ?_⟩
    refine List.ext_getElem? fun i => ?_
    rw [getElem?_words]
    split
    · rename_i hi
      have hslot := h.slot i ids[i] (List.getElem?_eq_getElem hi)
      rw [hread i hi h.room] at hslot
      rw [Except.ok.inj hslot, List.getElem?_eq_getElem hi]
    · rename_i hi
      rw [List.getElem?_eq_none (Nat.le_of_not_lt hi)]

/-- The slots of a node that names one behind it can be read just if their count can. -/
theorem Chain.slots_eq_ok_of_behind {m : Memory} {g : GroupId} {id next : PageId}
    {ids : List PageId} (h : m.behind g id = .ok next) :
    m.nodeAt g (fun _ => Node.slots) id = .ok ids ↔
      ∃ page, m.contents g id = .ok page ∧ Node.Occupied page ids := by
  unfold Memory.behind Memory.nodeAt at h
  unfold Memory.nodeAt
  cases hpage : m.contents g id with
  | error e =>
    rw [hpage] at h
    cases h
  | ok page =>
    rw [hpage] at h
    cases hformat : m.formats.ofPage page with
    | error e =>
      simp only [bind, Except.bind, hformat] at h
      cases h
    | ok format =>
      simp only [bind, Except.bind, hformat, Node.slots_eq_ok_iff, Except.ok.injEq]
      constructor
      · intro hoccupied
        exact ⟨page, rfl, hoccupied⟩
      · rintro ⟨_, rfl, hoccupied⟩
        exact hoccupied

namespace FreeList

open Memory Chain

theorem onlyReads_ofChain (g : GroupId) (head : PageId) : OnlyReads (ofChain g head) := by
  unfold ofChain
  by_cases hhead : head = PageId.null
  · rw [if_pos hhead]
    exact onlyReads_throw _
  · rw [if_neg hhead]
    refine (onlyReads_verify g head).bind fun _ => (onlyReads_nodes g head).bind fun nodes =>
      (onlyReads_pages g head).bind fun free => ?_
    cases firstRepeated? [] free with
    | some page => exact onlyReads_throw _
    | none => exact onlyReads_pure _

/-- The list on a chain ends with the last node that a walk passes. -/
theorem ofLinks_of_nodes {m : Memory} {g : GroupId} {head : PageId} {L : Links}
    (hhead : head ≠ PageId.null) (hnodes : (Chain.nodes g head).answer m = .ok L.ids) :
    (⟨g, head, L.ids.getLast?.getD head, L.ids, L.held⟩ : FreeList) = ofLinks g L := by
  obtain ⟨hwalk, -⟩ := (nodes_answer_eq_ok m g head L.ids).1 hnodes
  cases L with
  | nil =>
    cases hwalk
    exact absurd rfl hhead
  | cons node L =>
    cases hwalk
    rw [ofLinks, ← Links.last_eq_getD]
    rfl

/-- A list is opened just if its first node is not the null page, its chain passes the check, the
slots of all nodes can be read, and no page number comes twice in them. -/
theorem ofChain_answer_eq_ok (m : Memory) (g : GroupId) (head : PageId) (l : FreeList) :
    (ofChain g head).answer m = .ok l ↔
      head ≠ PageId.null ∧ (Chain.verify g head).answer m = .ok () ∧
        ∃ L : Links, (Chain.nodes g head).answer m = .ok L.ids ∧
          (∀ node ∈ L, m.nodeAt g (fun _ => Node.slots) node.1 = .ok node.2) ∧ L.held.Nodup ∧
          l = ofLinks g L := by
  by_cases hhead : head = PageId.null
  · have hrun : ofChain g head m = .error (.invalid .nullHead) m := by
      rw [ofChain, if_pos hhead]
      rfl
    rw [Act.answer_of_error hrun]
    constructor
    · intro h
      cases h
    · intro h
      exact absurd hhead h.1
  -- the second and the third walk find what the first one found
  have hverify := onlyReads_verify g head m
  have hboth := hverify.trans (onlyReads_nodes g head _)
  unfold ofChain
  simp only [if_neg hhead, Act.answer_bind_eq_ok, pages_answer_eq_ok,
    nodes_answer_congr hverify, nodes_answer_congr hboth, hboth.nodeAt g]
  constructor
  · rintro ⟨_, hv, ns, hns, free, ⟨L, hL, rfl, hslots⟩, hrest⟩
    rw [hL] at hns
    cases hns
    cases hrepeated : firstRepeated? [] L.held with
    | some page =>
      rw [hrepeated] at hrest
      cases hrest
    | none =>
      rw [hrepeated] at hrest
      cases hrest
      exact ⟨hhead, hv, L, hL, hslots, (nodup_of_firstRepeated? hrepeated).1,
        ofLinks_of_nodes hhead hL⟩
  · rintro ⟨-, hv, L, hL, hslots, hheld, rfl⟩
    refine ⟨(), hv, L.ids, hL, L.held, ⟨L, hL, rfl, hslots⟩, ?_⟩
    rw [firstRepeated?_eq_none hheld fun _ _ => List.not_mem_nil, ← ofLinks_of_nodes hhead hL]
    rfl

end FreeList

/-! ### What walks tell -/

/-- What walks along the chain at `head` tell, with any contents of pages. -/
structure Chain.Telling (m : Memory) (g : GroupId) (head : PageId) : Prop where
  /-- Walks pass only pages that were touched. -/
  present : ∀ passed last, Walk (m.behind g) head passed last → passed ⊆ present m g
  /-- Nodes are found just if a walk comes to the null page, and they are what it passes, in order
  and none of them twice. -/
  nodes : ∀ ns, (nodes g head).answer m = .ok ns ↔
    Walk (m.behind g) head ns PageId.null ∧ ns.Nodup
  /-- A cycle is found just if a walk comes to a page that it passed. -/
  cycle : (Chain.nodes g head).answer m = .error (.corruption .chainCycle) ↔
    ∃ passed last, Walk (m.behind g) head passed last ∧ last ∈ passed
  /-- Any other error is that of reading a page to which a walk comes. -/
  broken : ∀ e, (Chain.nodes g head).answer m = .error e ∧ e ≠ .corruption .chainCycle ↔
    ∃ passed last, (Walk (m.behind g) head passed last ∧ passed.Nodup) ∧ last ≠ PageId.null ∧
      m.behind g last = .error e
  /-- The chain passes the check just if there is such a path to the null page, and each node on it
  names the one before it, the first none. -/
  verify : (verify g head).answer m = .ok () ↔
    ∃ ns, (Walk (m.behind g) head ns PageId.null ∧ ns.Nodup) ∧
      Mirrored (m.before g) PageId.null ns
  /-- A list is opened just if it has a first node, its chain passes the check, the nodes on the
  path count no more slots than they have room for, and their slots hold no page number twice; it is
  the list of these nodes and page numbers. -/
  opened : ∀ (j : Journal) (l : FreeList),
    (FreeList.ofHead g head).answer { j with memory := m } = .ok l ↔
      head ≠ PageId.null ∧ (Chain.verify g head).answer m = .ok () ∧
        ∃ L : Links, (Walk (m.behind g) head L.ids PageId.null ∧ L.ids.Nodup) ∧
          (∀ node ∈ L, ∃ page, m.contents g node.1 = .ok page ∧ Node.Occupied page node.2) ∧
          L.held.Nodup ∧ l = FreeList.ofLinks g L
  /-- No walk changes a page or opens one for changing. -/
  nodes_unmarked : m.Unmarked ((Chain.nodes g head).left m)
  pages_unmarked : m.Unmarked ((pages g head).left m)
  verify_unmarked : m.Unmarked ((Chain.verify g head).left m)
  /-- Nor does opening a list, which leaves the rest of the journal as it is. -/
  opened_unmarked : ∀ j : Journal, ∃ m', m.Unmarked m' ∧
    (FreeList.ofHead g head).left { j with memory := m } = { j with memory := m' }

/-- **Walks end, and tell what they saw.**  Whatever the pages of a memory hold, a walk along the
names of the nodes behind ends and tells what it saw. -/
theorem chain_walks_tell_what_they_saw (m : Memory) (g : GroupId) (head : PageId) :
    Chain.Telling m g head where
  present := by
    intro passed last hwalk id hid
    obtain ⟨next, hnext⟩ := hwalk.leads id hid
    exact Chain.present_of_behind hnext
  nodes := Chain.nodes_answer_eq_ok m g head
  cycle := (Chain.nodes_ends m g head).eq_cycle_iff (Chain.behind_null m g)
    (Chain.behind_ne_cycle m g)
  broken := (Chain.nodes_ends m g head).eq_error_iff (Chain.behind_null m g)
    (Chain.behind_ne_cycle m g)
  verify := by
    rw [Chain.verify_answer_eq_ok]
    simp only [Chain.nodes_answer_eq_ok]
  opened := by
    intro j l
    rw [FreeList.ofHead, Journal.onMemory, Act.answer_on, FreeList.ofChain_answer_eq_ok]
    refine and_congr_right fun _ => and_congr_right fun _ => exists_congr fun L => ?_
    rw [Chain.nodes_answer_eq_ok]
    -- a node that was passed has a format, so that its slots can be read if they can be counted
    refine and_congr_right fun hpath => and_congr_left' (forall₂_congr fun node hnode => ?_)
    obtain ⟨next, hnext⟩ := hpath.1.leads node.1 (List.mem_map_of_mem hnode)
    exact Chain.slots_eq_ok_of_behind hnext
  nodes_unmarked := Chain.onlyReads_nodes g head m
  pages_unmarked := Chain.onlyReads_pages g head m
  verify_unmarked := Chain.onlyReads_verify g head m
  opened_unmarked := by
    intro j
    rw [FreeList.ofHead, Journal.onMemory, Act.left_on]
    exact ⟨_, FreeList.onlyReads_ofChain g head m, rfl⟩

end PageLog
