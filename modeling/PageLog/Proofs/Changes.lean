import PageLog.Journal
import PageLog.Proofs.MemoryContents

/-!
# What changes do to the contents of pages

A change takes the contents of all pages to other contents, or cannot be carried out.  Trying
changes out on copies finds out which, and carrying them out does what was found.  A change of one
group neither looks at other groups nor changes them, so the changes of some of the groups can be
carried out without the others.

## Main definitions

* `Contents.change` — the contents after a change.
* `Scratch.view` — the contents as they are seen through copies.
* `Memory.Peeks` — one memory came from another by reading.

## Main results

* `Memory.applyDelta_of_change`, `Journal.applyAll_of_changes` — carrying out changes.
* `stage_eq` — trying out changes.
* `Contents.changes_filter` — the changes of some of the groups.
-/

namespace PageLog

/-! ### Changes -/

/-- The contents after a change, if it can be carried out with the formats and page sizes of a
memory. -/
def Contents.change (m : Memory) (c : Contents) (d : PageDelta) : Option Contents :=
  match c d.target.group d.target.page with
  | .error _ => none
  | .ok page =>
      match (Record.delta d).apply m page with
      | .ok () page => some (c.put d.target.group d.target.page page)
      | .error _ _ => none

/-- A change depends on the formats and page sizes only. -/
theorem Record.apply_like {m m' : Memory} (h : m.Like m') (r : Record) :
    r.apply m' = r.apply m := by
  cases r with
  | snapshot id full => rfl
  | checkpoint id => rfl
  | delta d => simp only [Record.apply, h.formats, h.pageSize]

theorem Contents.change_like {m m' : Memory} (h : m.Like m') : change m' = change m := by
  funext c d
  simp only [change, Record.apply_like h]

theorem Contents.change_eq_some {m : Memory} {c c' : Contents} {d : PageDelta} :
    c.change m d = some c' ↔ ∃ page page', c d.target.group d.target.page = .ok page ∧
      (Record.delta d).apply m page = .ok () page' ∧
      c' = c.put d.target.group d.target.page page' := by
  unfold change
  cases hc : c d.target.group d.target.page with
  | error e => simp
  | ok page =>
    cases happly : (Record.delta d).apply m page with
    | ok u page' => simp [happly, eq_comm]
    | error e page' => simp [happly]

/-- A change that can be carried out on the contents is carried out on the pages. -/
theorem Memory.applyDelta_of_change {m : Memory} {c : Contents} {d : PageDelta}
    (h : m.contents.change m d = some c) :
    ∃ m', Memory.applyDelta d m = .ok () m' ∧ m.Reaches d.target.group d.target.page m' ∧
      m'.contents = c := by
  obtain ⟨page, page', hpage, happly, rfl⟩ := Contents.change_eq_some.1 h
  exact Memory.change_of_ok hpage happly

/-- Changes that can be carried out on the contents are carried out on the pages. -/
theorem Journal.applyAll_of_changes {m : Memory} {c : Contents} {ds : List PageDelta}
    (h : ds.foldlM (Contents.change m) m.contents = some c) :
    ∃ m', Journal.applyAll ds m = .ok () m' ∧ m.Like m' ∧ m'.contents = c := by
  induction ds generalizing m with
  | nil =>
    cases h
    exact ⟨m, rfl, .refl m, rfl⟩
  | cons d ds ih =>
    rw [List.foldlM_cons] at h
    obtain ⟨c₁, hchange, hrest⟩ := Option.bind_eq_some_iff.1 h
    obtain ⟨m₁, hrun, hreach, rfl⟩ := Memory.applyDelta_of_change hchange
    rw [← Contents.change_like hreach.toLike] at hrest
    obtain ⟨m₂, hall, hlike, hcontents⟩ := ih hrest
    refine ⟨m₂, ?_, hreach.toLike.trans hlike, hcontents⟩
    rw [Journal.applyAll, Act.bind_of_ok (Act.mapError_of_ok hrun), hall]

/-! ### Trying out -/

/-- The memory `m'` comes from `m` by reading pages. -/
structure Memory.Peeks (m m' : Memory) : Prop extends m.Like m' where
  /-- Nothing else is found on pages. -/
  contents : m'.contents = m.contents

theorem Memory.Peeks.refl (m : Memory) : m.Peeks m := ⟨.refl m, rfl⟩

theorem Memory.Peeks.trans {m m' m'' : Memory} (h : m.Peeks m') (h' : m'.Peeks m'') :
    m.Peeks m'' :=
  ⟨h.toLike.trans h'.toLike, h'.contents.trans h.contents⟩

/-- The contents as they are seen through copies. -/
def Scratch.view (scratch : Scratch) (c : Contents) : Contents := fun g id =>
  match scratch.lookup (g, id) with
  | some bytes => .ok bytes
  | none => c g id

theorem Scratch.view_nil (c : Contents) : Scratch.view [] c = c := rfl

/-- A further copy hides the page behind it. -/
theorem Scratch.view_cons (scratch : Scratch) (c : Contents) (g : GroupId) (id : PageId)
    (bs : Bytes) :
    Scratch.view (((g, id), bs) :: scratch) c = (scratch.view c).put g id bs := by
  funext a b
  simp only [view, Contents.put, List.lookup_cons]
  by_cases hab : g = a ∧ id = b
  · obtain ⟨rfl, rfl⟩ := hab
    simp
  · have hne : ((a, b) == (g, id)) = false := by
      rw [beq_eq_false_iff_ne, ne_eq, Prod.mk.injEq]
      exact fun h => hab ⟨h.1.symm, h.2.symm⟩
    simp only [hne, if_neg hab]

/-- The page on which a change is tried out. -/
theorem Scratch.page_eq (scratch : Scratch) (d : PageDelta) (m : Memory) :
    ∃ m', m.Peeks m' ∧
      match scratch.view m.contents d.target.group d.target.page with
      | .ok bytes => scratch.page d m = .ok bytes m'
      | .error e => scratch.page d m = .error e m' := by
  unfold page view
  cases scratch.lookup (d.target.group, d.target.page) with
  | some bytes => exact ⟨m, .refl m, rfl⟩
  | none =>
    simp only
    cases hpage : m.contents d.target.group d.target.page with
    | error e => exact ⟨m, .refl m, Memory.page_of_error hpage⟩
    | ok bytes =>
      obtain ⟨m', hrun, hreach, hcontents⟩ := Memory.page_of_contents hpage
      exact ⟨m', ⟨hreach.toLike, hcontents⟩, hrun⟩

theorem Scratch.apply_eq (scratch : Scratch) (d : PageDelta) (m : Memory) :
    ∃ m', m.Peeks m' ∧
      match (scratch.view m.contents).change m d with
      | some c => ∃ scratch', scratch.apply d m = .ok scratch' m' ∧ scratch'.view m.contents = c
      | none => ∃ e, scratch.apply d m = .error e m' := by
  obtain ⟨m', hpeeks, hpage⟩ := scratch.page_eq d m
  refine ⟨m', hpeeks, ?_⟩
  unfold Contents.change
  cases hover : scratch.view m.contents d.target.group d.target.page with
  | error e =>
    rw [hover] at hpage
    exact ⟨_, Act.bind_of_error (Act.mapError_of_error hpage)⟩
  | ok page =>
    rw [hover] at hpage
    have hstep : scratch.apply d m = _ := Act.bind_of_ok (Act.mapError_of_ok hpage)
    rw [Act.get_bind, Record.apply_like hpeeks.toLike] at hstep
    cases happly : (Record.delta d).apply m page with
    | error e page' =>
      rw [happly] at hstep
      simp only [happly]
      exact ⟨e, hstep⟩
    | ok u page' =>
      rw [happly] at hstep
      simp only [happly]
      exact ⟨_, hstep, Scratch.view_cons ..⟩

/-- Trying out changes succeeds just when they can be carried out, and makes no difference. -/
theorem stage_eq (scratch : Scratch) (ds : List PageDelta) (m : Memory) :
    ∃ m', m.Peeks m' ∧
      match ds.foldlM (Contents.change m) (scratch.view m.contents) with
      | some _ => stage scratch ds m = .ok () m'
      | none => ∃ e, stage scratch ds m = .error e m' := by
  induction ds generalizing scratch m with
  | nil => exact ⟨m, .refl m, rfl⟩
  | cons d ds ih =>
    obtain ⟨m₁, hpeeks, hfirst⟩ := scratch.apply_eq d m
    rw [List.foldlM_cons]
    cases hchange : (scratch.view m.contents).change m d with
    | none =>
      rw [hchange] at hfirst
      obtain ⟨e, hfirst⟩ := hfirst
      exact ⟨m₁, hpeeks, e, Act.bind_of_error hfirst⟩
    | some c =>
      rw [hchange] at hfirst
      obtain ⟨scratch', hfirst, rfl⟩ := hfirst
      -- the copies are seen over the pages as they were before the first change was tried
      obtain ⟨m₂, hpeeks₂, hrest⟩ := ih scratch' m₁
      rw [hpeeks.contents, Contents.change_like hpeeks.toLike] at hrest
      refine ⟨m₂, hpeeks.trans hpeeks₂, ?_⟩
      rw [stage, Act.bind_of_ok hfirst]
      exact hrest

/-! ### The changes of some of the groups -/

/-- The changes of some groups can be carried out without those of the others, with the same
outcome for these groups and none for the others. -/
theorem Contents.changes_filter {m : Memory} {ds : List PageDelta} {c c' e : Contents}
    (logged : GroupId → Bool) (h : ds.foldlM (change m) c = some c')
    (hsame : ∀ g, logged g = true → c g = e g) :
    ∃ e', (ds.filter fun d => logged d.target.group).foldlM (change m) e = some e' ∧
      (∀ g, logged g = true → c' g = e' g) ∧ ∀ g, logged g = false → e' g = e g := by
  induction ds generalizing c e with
  | nil =>
    cases h
    exact ⟨e, rfl, hsame, fun _ _ => rfl⟩
  | cons d ds ih =>
    rw [List.foldlM_cons] at h
    obtain ⟨c₁, hchange, hrest⟩ := Option.bind_eq_some_iff.1 h
    obtain ⟨page, page', hpage, happly, rfl⟩ := change_eq_some.1 hchange
    -- a change of a group that counts is carried out on both sides, any other on one side only
    cases hlogged : logged d.target.group with
    | true =>
      have hchange' : e.change m d = some (e.put d.target.group d.target.page page') :=
        change_eq_some.2 ⟨page, page', by rw [← hsame _ hlogged, hpage], happly, rfl⟩
      obtain ⟨e', hall, hsame', hothers⟩ := ih hrest
        (e := e.put d.target.group d.target.page page') (fun g hg => by
          funext id
          simp only [put, hsame g hg])
      refine ⟨e', ?_, hsame', fun g hg => ?_⟩
      · rw [List.filter_cons, if_pos hlogged, List.foldlM_cons, hchange']
        exact hall
      · rw [hothers g hg]
        funext id
        rw [put, if_neg]
        rintro ⟨rfl, -⟩
        rw [hlogged] at hg
        cases hg
    | false =>
      -- the change is not seen in the groups that count
      have hput : ∀ g, logged g = true → c.put d.target.group d.target.page page' g = e g := by
        intro g hg
        rw [← hsame g hg]
        funext id
        rw [put, if_neg]
        rintro ⟨rfl, -⟩
        rw [hlogged] at hg
        cases hg
      obtain ⟨e', hall, hrest'⟩ := ih hrest hput
      refine ⟨e', ?_, hrest'⟩
      rw [List.filter_cons, if_neg (by rw [hlogged]; decide)]
      exact hall

end PageLog
