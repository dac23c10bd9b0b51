import PageLog.Proofs.PageSteps
import PageLog.Proofs.ReplayedPages

/-!
# Replaying a log again

A replay that was interrupted leaves some pages changed.  Replaying the log again from its beginning
meets these pages, though the changes in the log were made on blank ones.  A page on which the two
replays differ is still blank in the one on fresh pages, and there the first change that can be
carried out makes it a node and an end of whatever the interrupted replay left.  If there is no such
change, then the interrupted replay cannot have changed the page.

## Main definitions

* `Contents.carry` — how carrying out a change ends, and the contents afterwards.
* `Replay.Resumed` — a replay on the pages of an interrupted one, beside the replay on fresh pages.
* `Replay.left`, `Log.recovery` — the pages that a replay leaves, and what it comes to.

## Main results

* `Replay.Resumed.step`, `Replay.Resumed.forM` — the two replays meet the same fate.
* `interrupted_replay_restarts` — **an interrupted replay can be begun again**.
-/

namespace PageLog

/-! ### Carrying out a change -/

namespace Contents

variable {m : Memory} {c c' : Contents} {d : PageDelta}

/-- How carrying out a change ends, and the contents afterwards. -/
def carry (m : Memory) (c : Contents) (d : PageDelta) : Result Unit × Contents :=
  match c d.target.group d.target.page with
  | .error e => (.error e, c)
  | .ok page =>
      match (Record.delta d).apply m page with
      | .ok () page => (.ok (), c.put d.target.group d.target.page page)
      | .error e page => (.error e, c.put d.target.group d.target.page page)

theorem carry_like {m' : Memory} (h : m.Like m') : carry m' = carry m := by
  funext c d
  simp only [carry, Record.apply_like h]

theorem carry_other {g : GroupId} {id : PageId} (h : d.target.group = g → d.target.page ≠ id) :
    (c.carry m d).2 g id = c g id := by
  unfold carry
  cases c d.target.group d.target.page with
  | error e => rfl
  | ok page =>
    simp only
    split <;> exact c.put_of_ne _ h

theorem carry_same (h : c' d.target.group d.target.page = c d.target.group d.target.page) :
    (c'.carry m d).1 = (c.carry m d).1 ∧
      (c'.carry m d).2 d.target.group d.target.page =
        (c.carry m d).2 d.target.group d.target.page := by
  cases hc : c d.target.group d.target.page with
  | error e =>
    rw [hc] at h
    simp only [carry, h, hc, and_self]
  | ok page =>
    rw [hc] at h
    simp only [carry, h, hc]
    split <;> exact ⟨rfl, by simp only [put, and_self, if_true]⟩

/-- A change either leaves a blank page blank, or gives the same page whatever stood there. -/
theorem carry_blank {size : Nat} {page : Bytes} (hformats : m.formats = .standard)
    (hsize : m.pageSize d.target.group = .ok size) (hlarge : minPageSize ≤ size)
    (hblank : c d.target.group d.target.page = .ok (Bytes.zeros size))
    (hpage : c' d.target.group d.target.page = .ok page) (hlen : page.length = size) :
    (∃ e, (c.carry m d).1 = .error e ∧
        (c.carry m d).2 d.target.group d.target.page = .ok (Bytes.zeros size)) ∨
      ((c'.carry m d).1 = (c.carry m d).1 ∧
        (c'.carry m d).2 d.target.group d.target.page =
          (c.carry m d).2 d.target.group d.target.page) := by
  have happly : ∀ bs : Bytes, bs.length = size →
      (Record.delta d).apply m bs = d.apply .standard size bs := by
    intro bs hbs
    rw [Record.apply_delta hsize (Nat.le_of_eq hbs.symm) rfl, hformats]
  rcases d.apply_blank hlarge with ⟨e, hrefused⟩ | ⟨fresh, hinit⟩
  · left
    refine ⟨e, ?_⟩
    simp only [carry, hblank, happly _ (Bytes.length_zeros size), hrefused, put, and_self, if_true]
  · right
    simp only [carry, hblank, hpage, happly _ (Bytes.length_zeros size), happly _ hlen,
      hinit _ (Bytes.length_zeros size), hinit _ hlen, put, and_self, if_true]

theorem carry_sized {g : GroupId} {id : PageId} {page : Bytes}
    (h : ∀ g id page, c g id = .ok page → m.pageSize g = .ok page.length)
    (hpage : (c.carry m d).2 g id = .ok page) : m.pageSize g = .ok page.length := by
  by_cases hd : d.target.group = g ∧ d.target.page = id
  · rcases hd with ⟨rfl, rfl⟩
    cases hc : c d.target.group d.target.page with
    | error e =>
      simp only [carry, hc] at hpage
      cases hpage
    | ok old =>
      have hlen := (Record.delta d).steady_apply m |>.length old
      simp only [carry, hc] at hpage
      rw [h _ _ _ hc, ← hlen]
      cases happly : (Record.delta d).apply m old with
      | ok u new =>
        simp only [happly, put, and_self, if_true, Except.ok.injEq] at hpage
        rw [Act.left_of_ok happly, hpage]
      | error e new =>
        simp only [happly, put, and_self, if_true, Except.ok.injEq] at hpage
        rw [Act.left_of_error happly, hpage]
  · rw [carry_other fun hg hid => hd ⟨hg, hid⟩] at hpage
    exact h g id page hpage

end Contents

namespace Memory

/-- Every page has the size of the pages of its group. -/
def Sized (m : Memory) : Prop :=
  ∀ g id page, m.contents g id = .ok page → m.pageSize g = .ok page.length

theorem Untouched.minPageSize_le {m : Memory} (h : m.Untouched) {g : GroupId} {size : Nat}
    (hsize : m.pageSize g = .ok size) : minPageSize ≤ size := by
  unfold Memory.pageSize at hsize
  split at hsize
  · rename_i pages hg
    rcases h.groups g pages hg with ⟨pageSize, hle, rfl⟩
    cases hsize
    exact hle
  · cases hsize

theorem Untouched.sized {m : Memory} (h : m.Untouched) : m.Sized := by
  intro g id page hpage
  rcases contents_eq_ok hpage with ⟨hid, pages, hg, -⟩
  have hsize : m.pageSize g = .ok pages.pageSize := by
    simp only [Memory.pageSize, hg]
  rw [h.contents_blank hsize hid] at hpage
  cases hpage
  rw [hsize, Bytes.length_zeros]

/-- Whether a page can be read depends on the page sizes only. -/
theorem contents_of_error {m m' : Memory} {g : GroupId} {id : PageId} {e : Error}
    (hsize : m'.pageSize g = m.pageSize g) (h : m.contents g id = .error e) :
    m'.contents g id = .error e := by
  rw [contents_eq] at h ⊢
  by_cases hid : id = PageId.null
  · rwa [if_pos hid] at h ⊢
  · rw [if_neg hid] at h ⊢
    cases hg : m.groups[g]? with
    | some pages =>
      rw [hg] at h
      cases h
    | none =>
      rw [hg] at h
      cases hg' : m'.groups[g]? with
      | none => exact h
      | some pages =>
        simp only [Memory.pageSize, hg, hg'] at hsize
        cases hsize

end Memory

/-- Carrying out a change on the pages is carrying it out on their contents. -/
theorem Memory.applyDelta_eq (m : Memory) (d : PageDelta) :
    ∃ m', m.Like m' ∧ m'.contents = (m.contents.carry m d).2 ∧
      Memory.applyDelta d m = match (m.contents.carry m d).1 with
        | .ok () => .ok () m'
        | .error e => .error e m' := by
  unfold Memory.applyDelta
  cases hpage : m.contents d.target.group d.target.page with
  | error e =>
    refine ⟨m, .refl m, ?_, ?_⟩
    · simp only [Contents.carry, hpage]
    · rw [Memory.change_of_no_page hpage]
      simp only [Contents.carry, hpage]
  | ok page =>
    rcases Memory.change_of_contents hpage ((Record.delta d).apply m) with
      ⟨m', hreach, hcontents, hchange⟩
    refine ⟨m', hreach.toLike, ?_, ?_⟩
    · rw [hcontents, Act.left]
      simp only [Contents.carry, hpage]
      cases (Record.delta d).apply m page <;> rfl
    · rw [hchange]
      simp only [Contents.carry, hpage]
      cases (Record.delta d).apply m page <;> rfl

/-! ### One frame -/

namespace Replay

/-- What becomes of a replay once the attempt to carry out a change has ended. -/
def answer (policy : ReplayPolicy) (lsn : Lsn) (d : PageDelta) : Result Unit → Act Replay Unit
  | .ok () => note fun r => { r with applied := r.applied + 1 }
  | .error e =>
      match policy with
      | .failFast => throw e
      | .quarantine => note fun r => { r with
          quarantined := r.quarantined ++ [⟨d.target.group, d.target.page, lsn, e⟩] }

theorem stepDelta_skips {policy : ReplayPolicy} {lsn : Lsn} {d : PageDelta} {r : Replay}
    (h : r.report.isQuarantined d.target = true) :
    stepDelta policy lsn d r =
      .ok () { r with report := { r.report with skipped := r.report.skipped + 1 } } := by
  rw [stepDelta, Act.get_bind]
  simp only [h, if_true]
  rfl

/-- The attempt is the same under all policies. -/
theorem stepDelta_tries {d : PageDelta} {r : Replay}
    (h : r.report.isQuarantined d.target = false) :
    ∃ m', r.memory.Like m' ∧ m'.contents = (r.memory.contents.carry r.memory d).2 ∧
      ∀ policy lsn, stepDelta policy lsn d r =
        answer policy lsn d ((r.memory.contents.carry r.memory d).1.mapError (·.during d))
          { r with memory := m' } := by
  rcases r.memory.applyDelta_eq d with ⟨m', hlike, hcontents, hrun⟩
  refine ⟨m', hlike, hcontents, fun policy lsn => ?_⟩
  have hattempt : Act.attempt (applyDelta d) r =
      .ok ((r.memory.contents.carry r.memory d).1.mapError (·.during d))
        { r with memory := m' } := by
    simp only [Act.attempt, applyDelta, Act.on, Act.mapError, hrun]
    cases (r.memory.contents.carry r.memory d).1 <;> rfl
  rw [stepDelta, Act.get_bind]
  simp only [h, Bool.false_eq_true, if_false]
  rw [Act.bind_of_ok hattempt]
  cases (r.memory.contents.carry r.memory d).1 <;> rfl

/-- The replay that has come to a frame. -/
def reached (r : Replay) (f : Frame) : Replay :=
  { r with report := { r.report with lastLsn := some f.pointer.lsn } }

/-- What a frame leads to: the end of the replay, a note in the report, or a change. -/
theorem step_cases (policy : ReplayPolicy) (f : Frame) :
    (∃ e, ∀ r, step policy f r = .error e (r.reached f)) ∨
      (∃ report : ReplayReport → ReplayReport, (∀ x, (report x).quarantined = x.quarantined) ∧
        ∀ r, step policy f r = .ok () { r with report := report r.report }) ∨
      ∃ d, ∀ r, step policy f r = stepDelta policy f.pointer.lsn d (r.reached f) := by
  cases hdecode : Record.decode f.payload with
  | error e =>
    left
    refine ⟨e, fun r => ?_⟩
    simp only [step, hdecode]
    rfl
  | ok record =>
    right
    -- a record that changes no page is only counted
    cases record with
    | snapshot id full =>
      left
      refine ⟨fun x => ⟨x.applied, x.skipped, x.whole + 1, some f.pointer.lsn, some (id, full),
        x.lastCheckpoint, x.quarantined, x.validUpTo⟩, fun x => rfl, fun r => ?_⟩
      simp only [step, hdecode]
      rfl
    | checkpoint id =>
      left
      refine ⟨fun x => ⟨x.applied, x.skipped, x.whole + 1, some f.pointer.lsn, x.lastSnapshot,
        some id, x.quarantined, x.validUpTo⟩, fun x => rfl, fun r => ?_⟩
      simp only [step, hdecode]
      rfl
    | delta d =>
      right
      refine ⟨d, fun r => ?_⟩
      simp only [step, hdecode]
      rfl

/-! ### Going on -/

/-- What is true of a replay is true of what it goes on to: pages keep their sizes, and those in
quarantine stay there and hold what they held. -/
structure Onward (r r' : Replay) : Prop where
  like : r.memory.Like r'.memory
  sized : r.memory.Sized → r'.memory.Sized
  quarantined : ∀ t, r.report.isQuarantined t = true → r'.report.isQuarantined t = true
  contents : ∀ t, r.report.isQuarantined t = true →
    r'.memory.contents t.group t.page = r.memory.contents t.group t.page

theorem Onward.trans {r r' r'' : Replay} (h : r.Onward r') (h' : r'.Onward r'') : r.Onward r'' :=
  ⟨h.like.trans h'.like, fun hs => h'.sized (h.sized hs),
    fun t ht => h'.quarantined t (h.quarantined t ht),
    fun t ht => (h'.contents t (h.quarantined t ht)).trans (h.contents t ht)⟩

theorem Onward.of_memory {r r' : Replay} (hmemory : r'.memory = r.memory)
    (hquarantined : r'.report.quarantined = r.report.quarantined) : r.Onward r' := by
  refine ⟨by rw [hmemory]; exact .refl _, by rw [hmemory]; exact id, fun t ht => ?_,
    fun t _ => by rw [hmemory]⟩
  rw [← ht, ReplayReport.isQuarantined, ReplayReport.isQuarantined, hquarantined]

theorem isQuarantined_append (report : ReplayReport) (q : QuarantinedPage) (t : PageTarget) :
    ReplayReport.isQuarantined { report with quarantined := report.quarantined ++ [q] } t =
      (report.isQuarantined t || (q.group == t.group && q.page == t.page)) := by
  simp only [ReplayReport.isQuarantined, List.any_append, List.any_cons, List.any_nil,
    Bool.or_false]

theorem left_answer (policy : ReplayPolicy) (lsn : Lsn) (d : PageDelta) (x : Result Unit)
    (r : Replay) : ((answer policy lsn d x).left r).memory = r.memory ∧
      ∀ t, r.report.isQuarantined t = true →
        ((answer policy lsn d x).left r).report.isQuarantined t = true := by
  cases x with
  | ok u => exact ⟨rfl, fun t ht => ht⟩
  | error e =>
    cases policy with
    | failFast => exact ⟨rfl, fun t ht => ht⟩
    | quarantine =>
      refine ⟨rfl, fun t ht => ?_⟩
      have hmore := isQuarantined_append r.report ⟨d.target.group, d.target.page, lsn, e⟩ t
      rw [ht, Bool.true_or] at hmore
      exact hmore

theorem onward_stepDelta (policy : ReplayPolicy) (lsn : Lsn) (d : PageDelta) (r : Replay) :
    r.Onward ((stepDelta policy lsn d).left r) := by
  cases hq : r.report.isQuarantined d.target with
  | true =>
    rw [Act.left_of_ok (stepDelta_skips hq)]
    exact .of_memory rfl rfl
  | false =>
    rcases stepDelta_tries hq with ⟨m', hlike, hcontents, hrun⟩
    rcases left_answer policy lsn d ((r.memory.contents.carry r.memory d).1.mapError (·.during d))
      { r with memory := m' } with ⟨hmemory, hquarantined⟩
    rw [Act.left, hrun, ← Act.left]
    refine ⟨by rw [hmemory]; exact hlike, fun hs => ?_, hquarantined, fun t ht => ?_⟩
    · rw [hmemory]
      intro g id page hpage
      rw [hcontents] at hpage
      rw [hlike.pageSize]
      exact Contents.carry_sized hs hpage
    · rw [hmemory, hcontents]
      refine Contents.carry_other fun hgroup hpage => ?_
      -- the page of the change is not in quarantine
      have hsame : r.report.isQuarantined d.target = r.report.isQuarantined t := by
        simp only [ReplayReport.isQuarantined, hgroup, hpage]
      rw [hq, ht] at hsame
      cases hsame

theorem onward_step (policy : ReplayPolicy) (f : Frame) (r : Replay) :
    r.Onward ((step policy f).left r) := by
  rcases step_cases policy f with ⟨e, hstep⟩ | ⟨report, hkeeps, hstep⟩ | ⟨d, hstep⟩
  · rw [Act.left_of_error (hstep r)]
    exact .of_memory rfl rfl
  · rw [Act.left_of_ok (hstep r)]
    exact .of_memory rfl (hkeeps r.report)
  · have hreached : r.Onward (r.reached f) := .of_memory rfl rfl
    have hdelta := onward_stepDelta policy f.pointer.lsn d (r.reached f)
    rw [Act.left, hstep, ← Act.left]
    exact hreached.trans hdelta

theorem onward_forM (policy : ReplayPolicy) (fs : List Frame) (r : Replay) :
    r.Onward ((fs.forM (step policy)).left r) := by
  induction fs generalizing r with
  | nil => exact .of_memory rfl rfl
  | cons f fs ih =>
    have hfirst := onward_step policy f r
    show r.Onward ((step policy f >>= fun _ => fs.forM (step policy)).left r)
    cases hrun : step policy f r with
    | ok u r₁ =>
      rw [Act.left_of_ok hrun] at hfirst
      rw [Act.left_bind_of_ok hrun]
      exact hfirst.trans (ih r₁)
    | error e r₁ =>
      rw [Act.left_of_error hrun] at hfirst
      rwa [Act.left_bind_of_error hrun]

/-! ### Two replays -/

/-- Two replays that came to the same. -/
structure Same (fresh : Memory) (r r' : Replay) : Prop where
  report : r'.report = r.report
  like : fresh.Like r.memory
  like' : fresh.Like r'.memory
  contents : r'.memory.contents = r.memory.contents

/-- The replay `r'` takes place on what an interrupted replay left, and `r` on fresh pages, which
will hold `last` when it has come as far as the interrupted one.  The two agree but for blank pages
that only the interrupted replay has changed yet. -/
structure Resumed (fresh : Memory) (last : Contents) (r r' : Replay) : Prop where
  report : r'.report = r.report
  like : fresh.Like r.memory
  like' : fresh.Like r'.memory
  pages : ∀ g id, r'.memory.contents g id = r.memory.contents g id ∨
    ∃ size page, fresh.pageSize g = .ok size ∧ page.length = size ∧
      r.memory.contents g id = .ok (Bytes.zeros size) ∧
      r'.memory.contents g id = .ok page ∧ last g id = .ok page

/-- Both replays go on, and `P` holds, or both end in the same way, and `Q` holds. -/
inductive Together (P Q : Replay → Replay → Prop) :
    EStateM.Result Error Replay PUnit → EStateM.Result Error Replay PUnit → Prop where
  | ok {r r' : Replay} (h : P r r') : Together P Q (.ok ⟨⟩ r) (.ok ⟨⟩ r')
  | error {e : Error} {r r' : Replay} (h : Q r r') : Together P Q (.error e r) (.error e r')

section

variable {fresh : Memory} {last : Contents} {r r' : Replay}

theorem Together.bind {P P' Q : Replay → Replay → Prop} {x : Act Replay Unit}
    {f : Unit → Act Replay PUnit} (h : Together P Q (x r) (x r'))
    (hf : ∀ s s', x r = .ok () s → P s s' → Together P' Q (f () s) (f () s')) :
    Together P' Q ((x >>= f) r) ((x >>= f) r') := by
  generalize hx : x r = y at h
  generalize hx' : x r' = y' at h
  cases h with
  | ok hP =>
    rw [Act.bind_of_ok hx, Act.bind_of_ok hx']
    exact hf _ _ hx hP
  | error hQ =>
    rw [Act.bind_of_error hx, Act.bind_of_error hx']
    exact .error hQ

theorem Same.resumed (h : Same fresh r r') : Resumed fresh last r r' :=
  ⟨h.report, h.like, h.like', fun g id => .inl (by rw [h.contents])⟩

/-- In the end there are no pages left that only one of the replays has changed. -/
theorem Resumed.same (h : Resumed fresh last r r') (hlast : last = r.memory.contents) :
    Same fresh r r' := by
  refine ⟨h.report, h.like, h.like', ?_⟩
  funext g id
  rcases h.pages g id with hsame | ⟨size, page, -, -, -, hpage', hpage⟩
  · exact hsame
  · rw [hpage', ← hpage, hlast]

/-- A change ends in the same way in both replays, and gives the same page: if it fails on a blank
page then the page is blank in the end too, and if it does not then it makes the page a node. -/
theorem Resumed.carry (h : Resumed fresh last r r') (hfresh : fresh.Untouched) {d : PageDelta}
    (hlast : ∀ e, (r.memory.contents.carry fresh d).1 = .error e →
      last d.target.group d.target.page =
        (r.memory.contents.carry fresh d).2 d.target.group d.target.page) :
    (r'.memory.contents.carry fresh d).1 = (r.memory.contents.carry fresh d).1 ∧
      (r'.memory.contents.carry fresh d).2 d.target.group d.target.page =
        (r.memory.contents.carry fresh d).2 d.target.group d.target.page := by
  rcases h.pages d.target.group d.target.page with
    hsame | ⟨size, page, hsize, hlen, hblank, hpage', hpage⟩
  · exact Contents.carry_same hsame
  · rcases Contents.carry_blank hfresh.formats hsize (hfresh.minPageSize_le hsize) hblank hpage'
      hlen with ⟨e, hfails, hstays⟩ | hsame
    · refine Contents.carry_same ?_
      rw [hpage', ← hpage, hlast e hfails, hstays, hblank]
    · exact hsame

theorem Resumed.stepDelta {policy : ReplayPolicy} {lsn : Lsn} {d : PageDelta}
    (h : Resumed fresh last r r') (hfresh : fresh.Untouched)
    (hstop : ∀ e r₁, stepDelta policy lsn d r = .error e r₁ → last = r₁.memory.contents)
    (hgo : ∀ r₁, stepDelta policy lsn d r = .ok () r₁ → ∀ t, r₁.report.isQuarantined t = true →
      last t.group t.page = r₁.memory.contents t.group t.page) :
    Together (Resumed fresh last) (Same fresh) (stepDelta policy lsn d r)
      (stepDelta policy lsn d r') := by
  have hreport := h.report
  cases hq : r.report.isQuarantined d.target with
  | true =>
    -- both replays have put the same pages into quarantine
    rw [stepDelta_skips hq, stepDelta_skips (by rwa [hreport])]
    exact .ok ⟨by rw [hreport], h.like, h.like', h.pages⟩
  | false =>
    rcases stepDelta_tries hq with ⟨m₁, hlike₁, hcontents₁, htries₁⟩
    rcases stepDelta_tries (r := r') (by rwa [hreport]) with ⟨m₂, hlike₂, hcontents₂, htries₂⟩
    have hrun₁ := htries₁ policy lsn
    have hrun₂ := htries₂ policy lsn
    rw [Contents.carry_like h.like] at hcontents₁ hrun₁
    rw [Contents.carry_like h.like', hreport] at hrun₂
    rw [Contents.carry_like h.like'] at hcontents₂
    -- a page on which the change fails is never changed again, so that the replay that was
    -- interrupted left it as it will be
    rcases h.carry hfresh (d := d) (by
      intro e he
      rw [he] at hrun₁
      rw [← hcontents₁]
      cases policy with
      | failFast => rw [hstop _ _ hrun₁]
      | quarantine =>
        refine hgo _ hrun₁ d.target ?_
        refine (isQuarantined_append r.report ⟨_, _, lsn, e.during d⟩ d.target).trans ?_
        simp only [beq_self_eq_true, Bool.and_self, Bool.or_true]) with ⟨hverdict, htarget⟩
    rw [hverdict] at hrun₂
    -- the other pages are not concerned
    have hpages : ∀ g id, m₂.contents g id = m₁.contents g id ∨
        ∃ size page, fresh.pageSize g = .ok size ∧ page.length = size ∧
          m₁.contents g id = .ok (Bytes.zeros size) ∧ m₂.contents g id = .ok page ∧
          last g id = .ok page := by
      intro g id
      rw [hcontents₁, hcontents₂]
      by_cases hd : d.target.group = g ∧ d.target.page = id
      · rcases hd with ⟨rfl, rfl⟩
        exact .inl htarget
      · have hother : d.target.group = g → d.target.page ≠ id := fun hg hid => hd ⟨hg, hid⟩
        rw [Contents.carry_other hother, Contents.carry_other hother]
        exact h.pages g id
    rw [hrun₁, hrun₂]
    have hlike := h.like.trans hlike₁
    have hlike' := h.like'.trans hlike₂
    cases hx : (r.memory.contents.carry fresh d).1 with
    | ok u => exact .ok ⟨rfl, hlike, hlike', hpages⟩
    | error e =>
      cases policy with
      | quarantine => exact .ok ⟨rfl, hlike, hlike', hpages⟩
      | failFast =>
        -- the replay ends here, and by then both have the same pages
        rw [hx] at hrun₁
        have hend : Resumed fresh last ⟨m₁, r.report⟩ ⟨m₂, r.report⟩ := ⟨rfl, hlike, hlike', hpages⟩
        exact .error (hend.same (hstop _ _ hrun₁))

/-- A frame leads to the same in both replays. -/
theorem Resumed.step {policy : ReplayPolicy} {f : Frame} (h : Resumed fresh last r r')
    (hfresh : fresh.Untouched)
    (hstop : ∀ e r₁, step policy f r = .error e r₁ → last = r₁.memory.contents)
    (hgo : ∀ r₁, step policy f r = .ok () r₁ → ∀ t, r₁.report.isQuarantined t = true →
      last t.group t.page = r₁.memory.contents t.group t.page) :
    Together (Resumed fresh last) (Same fresh) (step policy f r) (step policy f r') := by
  have hreport := h.report
  rcases step_cases policy f with ⟨e, hstep⟩ | ⟨report, -, hstep⟩ | ⟨d, hstep⟩
  · have hlast : last = r.memory.contents := hstop e (r.reached f) (hstep r)
    have hend := h.same hlast
    rw [hstep r, hstep r']
    exact .error ⟨by simp only [reached, hreport], h.like, h.like', hend.contents⟩
  · rw [hstep r, hstep r']
    exact .ok ⟨by rw [hreport], h.like, h.like', h.pages⟩
  · rw [hstep r] at hstop hgo
    rw [hstep r, hstep r']
    refine Resumed.stepDelta ?_ hfresh hstop hgo
    exact ⟨by simp only [reached, hreport], h.like, h.like', h.pages⟩

/-- Frames lead to the same in both replays, when they are those that the interrupted one met. -/
theorem Resumed.forM {policy : ReplayPolicy} {fs : List Frame} (h : Resumed fresh last r r')
    (hfresh : fresh.Untouched)
    (hlast : last = ((fs.forM (Replay.step policy)).left r).memory.contents) :
    Together (Same fresh) (Same fresh) (fs.forM (Replay.step policy) r)
      (fs.forM (Replay.step policy) r') := by
  induction fs generalizing r r' with
  | nil => exact .ok (h.same hlast)
  | cons f fs ih =>
    have hrest : ∀ r, (f :: fs).forM (Replay.step policy) r =
        (Replay.step policy f >>= fun _ => fs.forM (Replay.step policy)) r := fun _ => rfl
    have hfirst : Together (Resumed fresh last) (Same fresh) (Replay.step policy f r)
        (Replay.step policy f r') := by
      refine h.step hfresh (fun e r₁ hrun => ?_) (fun r₁ hrun t ht => ?_)
      · rw [hlast, Act.left, hrest, ← Act.left, Act.left_bind_of_error hrun]
      · rw [hlast, Act.left, hrest, ← Act.left, Act.left_bind_of_ok hrun]
        exact (onward_forM policy fs r₁).contents t ht
    rw [hrest, hrest]
    refine hfirst.bind fun r₁ r₁' hrun h₁ => ih h₁ ?_
    rw [hlast, Act.left, hrest, ← Act.left, Act.left_bind_of_ok hrun]

end

/-! ### From the beginning -/

/-- The pages that replaying frames onto some pages leaves, whether it succeeds or fails. -/
def left (policy : ReplayPolicy) (fs : List Frame) (m : Memory) : Memory :=
  ((fs.forM (step policy)).left ⟨m, .empty⟩).memory

/-- The pages that an interrupted replay left, beside the fresh ones. -/
theorem resumed_left {fresh : Memory} (hfresh : fresh.Untouched) (policy : ReplayPolicy)
    (fs : List Frame) :
    Resumed fresh (left policy fs fresh).contents ⟨fresh, .empty⟩
      ⟨left policy fs fresh, .empty⟩ := by
  have honward := onward_forM policy fs ⟨fresh, .empty⟩
  refine ⟨rfl, .refl fresh, honward.like, fun g id => ?_⟩
  cases hpage : fresh.contents g id with
  | error e =>
    left
    exact Memory.contents_of_error (honward.like.pageSize g) hpage
  | ok page =>
    right
    cases hpage' : (left policy fs fresh).contents g id with
    | error e =>
      rw [Memory.contents_of_error (honward.like.pageSize g).symm hpage'] at hpage
      cases hpage
    | ok page' =>
      have hsize' := honward.sized hfresh.sized g id page' hpage'
      rw [honward.like.pageSize] at hsize'
      rw [← hpage]
      exact ⟨page'.length, page', hsize', rfl,
        hfresh.contents_blank hsize' (Memory.contents_eq_ok hpage).1, rfl, rfl⟩

/-- The frames of a log are replayed on what replaying the first of them left. -/
theorem forM_left {fresh : Memory} (hfresh : fresh.Untouched) (policy : ReplayPolicy)
    (fs gs : List Frame) :
    Together (Same fresh) (Same fresh) ((fs ++ gs).forM (step policy) ⟨fresh, .empty⟩)
      ((fs ++ gs).forM (step policy) ⟨left policy fs fresh, .empty⟩) := by
  have happend : (fs ++ gs).forM (step policy) =
      fs.forM (step policy) >>= fun _ => gs.forM (step policy) := List.forM_append
  rw [happend]
  refine ((resumed_left hfresh policy fs).forM hfresh rfl).bind fun r r' _ hsame => ?_
  exact hsame.resumed.forM hfresh rfl

end Replay

/-! ### Logs -/

namespace Log

/-- What replaying a log onto pages returns, and what the pages hold afterwards. -/
def recovery (policy : ReplayPolicy) (log : Log) (m : Memory) : Result ReplayReport × Contents :=
  match Log.replay policy (log, m) with
  | .ok report (_, m) => (.ok report, m.contents)
  | .error e (_, m) => (.error e, m.contents)

variable {policy : ReplayPolicy} {log log' : Log} {scan : Scan}

theorem recovery_of_ok (m : Memory) (hscan : Log.scan log = .ok scan log') :
    recovery policy log m = match scan.replay policy (log'.disk, m) with
      | .ok report (_, m) => (.ok report, m.contents)
      | .error e (_, m) => (.error e, m.contents) := by
  have hfirst : Act.on Prod.fst (fun s log => (log, s.2)) Log.scan (log, m) =
      .ok scan ((log', m) : Log × Memory) := Act.on_of_ok hscan
  rw [recovery, Log.replay, Act.bind_of_ok hfirst]
  simp only [Act.on]
  cases scan.replay policy (log'.disk, m) <;> rfl

end Log

/-- **An interrupted replay can be begun again.**  Some of the frames of a log, from the first on,
are replayed onto fresh pages, with whatever success.  Then replaying the whole log onto the pages
that this left returns the same report, or fails in the same way, as replaying it onto fresh pages,
and every page holds the same in the end. -/
theorem interrupted_replay_restarts (policy : ReplayPolicy) (log : Log)
    (groups : List (GroupId × Nat)) (k : Nat) :
    log.recovery policy (Replay.left policy (log.found.take k) (Memory.fresh groups)) =
      log.recovery policy (Memory.fresh groups) := by
  cases hscan : Log.scan log with
  | error e log' =>
    have hnone : log.found = [] := by
      rw [Log.found, Log.frames, Act.bind_of_error hscan]
    rw [hnone, List.take_nil]
    rfl
  | ok scan log' =>
    rcases scan.exists_gives log'.disk with ⟨fs, x, hgives⟩
    have htogether := Replay.forM_left (Memory.fresh_untouched groups) policy (fs.take k)
      (fs.drop k)
    rw [List.take_append_drop] at htogether
    rw [Log.found_eq hscan hgives, Log.recovery_of_ok _ hscan, Log.recovery_of_ok _ hscan]
    generalize hx : fs.forM (Replay.step policy) ⟨Memory.fresh groups, .empty⟩ = y at htogether
    generalize hx' : fs.forM (Replay.step policy)
      ⟨Replay.left policy (fs.take k) (Memory.fresh groups), .empty⟩ = y' at htogether
    cases htogether with
    | ok hsame =>
      simp only [Scan.replay, hgives.forEach_ok hx, hgives.forEach_ok hx']
      cases x with
      | ok s d => simp only [Scan.ended, hsame.report, hsame.contents]
      | error e d => simp only [Scan.ended, hsame.contents]
    | error hsame =>
      rcases hgives.forEach_error hx with ⟨d₁, hwalk₁⟩
      rcases hgives.forEach_error hx' with ⟨d₂, hwalk₂⟩
      simp only [Scan.replay, hwalk₁, hwalk₂, hsame.contents]

end PageLog
