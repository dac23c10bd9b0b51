import Mathlib.Algebra.GroupWithZero.Nat
import PageLog.Proofs.RestartedReplay

/-!
# Replaying a log under quarantine

Under quarantine a page whose change cannot be carried out is left as it is from then on, and the
replay goes on with the others.  What becomes of a page is decided by the changes of this page
alone: they are carried out one after the other, up to the first that fails.  The report says of
every record what was done with it.

## Main definitions

* `PageDelta.carryOut` — the page that a change makes of a page.
* `PageFate` — what becomes of a page by its own changes.
* `Frame.changeOf?`, `Frame.snapshot?`, `Frame.checkpoint?` — what a frame records.
* `Memory.blank`, `Memory.fate` — a page before a replay, and what a log makes of it.
* `Replay.Treats` — what can be done with a change under quarantine.
* `Memory.registered` — a memory without touched pages, with given formats and groups.
* `Replay.Isolates`, `Replay.Accounts` — what pages and report are after some frames.

## Main results

* `Replay.Accounts.step`, `Replay.Accounts.forM` — one frame, and any number of frames.
* `Scan.Gives.increasing` — the numbers of the frames of a log increase.
* `quarantine_isolates_pages` — **under quarantine pages stand alone, and no record is lost
  track of**.
-/

namespace PageLog

/-! ### Sums -/

/-- A sum over distinct things grows by one if one of the summands does. -/
theorem sum_map_succ {α κ : Type} [DecidableEq κ] {key : α → κ} {k : κ} {xs : List α}
    {count count' : α → Nat} (honce : (xs.map key).Nodup) (hk : k ∈ xs.map key)
    (hcount : ∀ x, count' x = if key x = k then count x + 1 else count x) :
    (xs.map count').sum = (xs.map count).sum + 1 := by
  induction xs with
  | nil => cases hk
  | cons x xs ih =>
    simp only [List.map_cons, List.nodup_cons] at honce
    simp only [List.map_cons, List.sum_cons, hcount x]
    by_cases hx : key x = k
    · -- no other element has the key
      have hothers : xs.map count' = xs.map count := by
        refine List.map_congr_left fun y hy => ?_
        rw [hcount, if_neg]
        intro hy'
        exact honce.1 (List.mem_map.2 ⟨y, hy, hy'.trans hx.symm⟩)
      rw [if_pos hx, hothers]
      omega
    · have hrest : k ∈ xs.map key := by
        rcases List.mem_cons.1 hk with hk | hk
        · exact absurd hk.symm hx
        · exact hk
      rw [if_neg hx, ih honce.2 hrest]
      omega

/-! ### One page -/

/-- The page that carrying out a change gives, or why it cannot be carried out. -/
def PageDelta.carryOut (m : Memory) (d : PageDelta) : Result Bytes → Result Bytes
  | .error e => .error (e.during d)
  | .ok page =>
      match (Record.delta d).apply m page with
      | .ok () page => .ok page
      | .error e _ => .error (e.during d)

theorem PageDelta.carryOut_like {m m' : Memory} (h : m.Like m') (d : PageDelta) :
    d.carryOut m' = d.carryOut m := by
  funext page
  cases page with
  | error e => rfl
  | ok page => simp only [carryOut, Record.apply_like h]

/-- What becomes of a page when its changes are carried out up to the first that fails. -/
structure PageFate where
  /-- What the page holds in the end. -/
  contents : Result Bytes
  /-- The number of the first change that cannot be carried out, and why it cannot. -/
  failure : Option (Lsn × Error)
  /-- How many changes follow that one. -/
  late : Nat

namespace PageFate

/-- What becomes of a page by a row of numbered changes. -/
def of (m : Memory) : Result Bytes → List (Lsn × PageDelta) → PageFate
  | page, [] => ⟨page, none, 0⟩
  | page, (lsn, d) :: row =>
      match d.carryOut m page with
      | .ok page => of m (.ok page) row
      | .error e => ⟨page, some (lsn, e), row.length⟩

/-- What becomes of a page by one more change. -/
def andThen (m : Memory) (fate : PageFate) (lsn : Lsn) (d : PageDelta) : PageFate :=
  match fate.failure with
  | some _ => { fate with late := fate.late + 1 }
  | none =>
      match d.carryOut m fate.contents with
      | .ok page => { fate with contents := .ok page }
      | .error e => { fate with failure := some (lsn, e) }

variable {m : Memory} {page : Result Bytes} {row : List (Lsn × PageDelta)} {fate : PageFate}
  {lsn : Lsn} {d : PageDelta}

theorem of_snoc : of m page (row ++ [(lsn, d)]) = (of m page row).andThen m lsn d := by
  induction row generalizing page with
  | nil =>
    simp only [List.nil_append, of, andThen]
    cases d.carryOut m page <;> rfl
  | cons change row ih =>
    simp only [List.cons_append, of]
    cases change.2.carryOut m page with
    | ok page' => exact ih
    | error e => simp only [andThen, List.length_append, List.length_singleton]

/-- No change is late on a page on which none has failed. -/
theorem late_of_none (h : (of m page row).failure = none) : (of m page row).late = 0 := by
  induction row generalizing page with
  | nil => rfl
  | cons change row ih =>
    simp only [of] at h ⊢
    cases hrun : change.2.carryOut m page with
    | ok page' =>
      rw [hrun] at h
      exact ih h
    | error e =>
      rw [hrun] at h
      cases h

theorem andThen_of_some (h : fate.failure.isSome = true) :
    fate.andThen m lsn d = { fate with late := fate.late + 1 } := by
  obtain ⟨reason, hfailure⟩ := Option.isSome_iff_exists.1 h
  simp only [andThen, hfailure]

theorem andThen_of_ok {bs : Bytes} (h : fate.failure = none)
    (hrun : d.carryOut m fate.contents = .ok bs) :
    fate.andThen m lsn d = { fate with contents := .ok bs } := by
  simp only [andThen, h, hrun]

theorem andThen_of_error {e : Error} (h : fate.failure = none)
    (hrun : d.carryOut m fate.contents = .error e) :
    fate.andThen m lsn d = { fate with failure := some (lsn, e) } := by
  simp only [andThen, h, hrun]

end PageFate

/-- Carrying out a change changes its page if it succeeds, and nothing if it fails. -/
theorem Contents.carry_eq (m : Memory) (c : Contents) (d : PageDelta) :
    (c.carry m d).1.mapError (·.during d) =
        (d.carryOut m (c d.target.group d.target.page)).map (fun _ => ()) ∧
      (c.carry m d).2 =
        match d.carryOut m (c d.target.group d.target.page) with
        | .ok page => c.put d.target.group d.target.page page
        | .error _ => c := by
  cases hpage : c d.target.group d.target.page with
  | error e =>
    simp only [carry, PageDelta.carryOut, hpage, and_true]
    rfl
  | ok page =>
    cases happly : (Record.delta d).apply m page with
    | ok u page' =>
      simp only [carry, PageDelta.carryOut, hpage, happly, and_true]
      rfl
    | error e page' =>
      simp only [carry, PageDelta.carryOut, hpage, happly]
      refine ⟨rfl, ?_⟩
      -- what is put back is the page as it was
      obtain rfl := ((Record.delta d).harmless_apply m page).kept happly
      funext g id
      by_cases hd : d.target.group = g ∧ d.target.page = id
      · obtain ⟨rfl, rfl⟩ := hd
        rw [put, if_pos ⟨rfl, rfl⟩, hpage]
      · rw [put, if_neg hd]

/-! ### What a log says of a page -/

/-- The frames for records can be decoded. -/
theorem Tail.decode_frames (t : Tail) (records : List Record) :
    ∀ f ∈ t.frames (records.map Record.encode), ∃ record, Record.decode f.payload = .ok record := by
  intro f hf
  have hpayload : f.payload ∈ records.map Record.encode := by
    rw [← t.map_payload_frames (records.map Record.encode)]
    exact List.mem_map_of_mem hf
  obtain ⟨record, -, hrecord⟩ := List.mem_map.1 hpayload
  exact ⟨record, by rw [← hrecord, Record.decode_encode]⟩

namespace Frame

/-- The record in a frame. -/
def record? (f : Frame) : Option Record := (Record.decode f.payload).toOption

/-- The change of a page that a frame records, with its number. -/
def changeOf? (g : GroupId) (id : PageId) (f : Frame) : Option (Lsn × PageDelta) :=
  match f.record? with
  | some (.delta d) =>
      if d.target.group = g ∧ d.target.page = id then some (f.pointer.lsn, d) else none
  | _ => none

/-- The snapshot whose beginning a frame records. -/
def snapshot? (f : Frame) : Option (UInt64 × Bool) :=
  match f.record? with
  | some (.snapshot id full) => some (id, full)
  | _ => none

/-- The checkpoint that a frame records. -/
def checkpoint? (f : Frame) : Option UInt64 :=
  match f.record? with
  | some (.checkpoint id) => some id
  | _ => none

theorem record?_of_decode {f : Frame} {record : Record}
    (h : Record.decode f.payload = .ok record) : f.record? = some record := by
  rw [record?, h]
  rfl

/-- A frame that records a change records it of one page. -/
theorem changeOf?_delta {f : Frame} {d : PageDelta}
    (h : Record.decode f.payload = .ok (.delta d)) (g : GroupId) (id : PageId) :
    f.changeOf? g id =
      if d.target.group = g ∧ d.target.page = id then some (f.pointer.lsn, d) else none := by
  simp only [changeOf?, record?_of_decode h]

section Snoc

variable {α : Type} (k : Frame → Option α) (fs : List Frame) (f : Frame)

/-- What one more frame adds to what frames record. -/
theorem filterMap_snoc : (fs ++ [f]).filterMap k = fs.filterMap k ++ (k f).toList := by
  rw [List.filterMap_append, List.filterMap_cons]
  cases k f <;> rfl

theorem getLast?_filterMap_snoc :
    ((fs ++ [f]).filterMap k).getLast? = (k f).or (fs.filterMap k).getLast? := by
  rw [filterMap_snoc, List.getLast?_append]
  cases k f <;> rfl

end Snoc

end Frame

namespace Memory

/-- A page to which nothing was done. -/
def blank (m : Memory) (g : GroupId) (id : PageId) : Result Bytes :=
  if id = PageId.null then .error (.invalid .nullPage) else (m.pageSize g).map Bytes.zeros

/-- What becomes of a blank page by its own changes among those that frames record. -/
def fate (m : Memory) (fs : List Frame) (g : GroupId) (id : PageId) : PageFate :=
  .of m (m.blank g id) (fs.filterMap (·.changeOf? g id))

variable {m : Memory} {fs : List Frame} {f : Frame} {g : GroupId} {id : PageId}

theorem late_fate_of_none (h : (m.fate fs g id).failure = none) : (m.fate fs g id).late = 0 :=
  PageFate.late_of_none h

theorem fate_snoc_other (h : f.changeOf? g id = none) :
    m.fate (fs ++ [f]) g id = m.fate fs g id := by
  rw [fate, Frame.filterMap_snoc, h, Option.toList_none, List.append_nil, fate]

theorem fate_snoc_own {lsn : Lsn} {d : PageDelta} (h : f.changeOf? g id = some (lsn, d)) :
    m.fate (fs ++ [f]) g id = (m.fate fs g id).andThen m lsn d := by
  rw [fate, Frame.filterMap_snoc, h, Option.toList_some, PageFate.of_snoc, fate]

/-- What a change makes of its page, it makes of no other. -/
theorem fate_snoc_delta {d : PageDelta} {k : PageFate → PageFate}
    (h : Record.decode f.payload = .ok (.delta d))
    (hk : (m.fate fs d.target.group d.target.page).andThen m f.pointer.lsn d =
      k (m.fate fs d.target.group d.target.page)) (g : GroupId) (id : PageId) :
    m.fate (fs ++ [f]) g id =
      if d.target.group = g ∧ d.target.page = id then k (m.fate fs g id) else m.fate fs g id := by
  have hchange := Frame.changeOf?_delta h g id
  by_cases hd : d.target.group = g ∧ d.target.page = id
  · rw [if_pos hd] at hchange ⊢
    obtain ⟨rfl, rfl⟩ := hd
    rw [← hk]
    exact fate_snoc_own hchange
  · rw [if_neg hd] at hchange ⊢
    exact fate_snoc_other hchange

end Memory

/-! ### One change under quarantine -/

namespace Replay

/-- What can be done with a change under quarantine. -/
inductive Treats (lsn : Lsn) (d : PageDelta) (r : Replay) : Replay → Prop where
  /-- The page is in quarantine already. -/
  | skipped (quarantined : r.report.isQuarantined d.target = true) :
      Treats lsn d r { r with report := { r.report with skipped := r.report.skipped + 1 } }
  /-- The change is carried out. -/
  | applied {m : Memory} {page : Bytes} (free : r.report.isQuarantined d.target = false)
      (run : d.carryOut r.memory (r.memory.contents d.target.group d.target.page) = .ok page)
      (like : r.memory.Like m)
      (contents : m.contents = r.memory.contents.put d.target.group d.target.page page) :
      Treats lsn d r ⟨m, { r.report with applied := r.report.applied + 1 }⟩
  /-- The change fails, and the page goes into quarantine. -/
  | failed {m : Memory} {e : Error} (free : r.report.isQuarantined d.target = false)
      (run : d.carryOut r.memory (r.memory.contents d.target.group d.target.page) = .error e)
      (like : r.memory.Like m) (contents : m.contents = r.memory.contents) :
      Treats lsn d r ⟨m, { r.report with
        quarantined := r.report.quarantined ++ [⟨d.target.group, d.target.page, lsn, e⟩] }⟩

theorem stepDelta_treats (lsn : Lsn) (d : PageDelta) (r : Replay) :
    ∃ r', stepDelta .quarantine lsn d r = .ok () r' ∧ Treats lsn d r r' := by
  cases hq : r.report.isQuarantined d.target with
  | true => exact ⟨_, stepDelta_skips hq, .skipped hq⟩
  | false =>
    obtain ⟨m, hlike, hcontents, htries⟩ := stepDelta_tries hq
    have hrun := htries .quarantine lsn
    obtain ⟨hverdict, hpages⟩ := Contents.carry_eq r.memory r.memory.contents d
    rw [hverdict] at hrun
    rw [hpages] at hcontents
    cases htry : d.carryOut r.memory (r.memory.contents d.target.group d.target.page) with
    | ok page =>
      rw [htry] at hrun hcontents
      exact ⟨_, hrun, .applied hq htry hlike hcontents⟩
    | error e =>
      rw [htry] at hrun hcontents
      exact ⟨_, hrun, .failed hq htry hlike hcontents⟩

/-! ### Pages on their own -/

/-- The pages after the frames `fs` are what their own changes make of them, and those on which a
change failed are listed with the rest of their changes passed over. -/
structure Isolates (fresh : Memory) (fs : List Frame) (r : Replay) : Prop where
  /-- The formats and groups stay. -/
  like : fresh.Like r.memory
  /-- Every page is what its own changes make of it, up to the first that fails. -/
  pages : ∀ g id, r.memory.contents g id = (fresh.fate fs g id).contents
  /-- The pages in quarantine are those on which a change fails, by the first such change. -/
  listed : ∀ q, q ∈ r.report.quarantined ↔
    (fresh.fate fs q.group q.page).failure = some (q.lsn, q.reason)
  /-- No page is listed twice. -/
  once : (r.report.quarantined.map fun q => (q.group, q.page)).Nodup
  /-- The list is in the order of the log. -/
  order : (r.report.quarantined.map (·.lsn)).Sublist (fs.map (·.pointer.lsn))
  /-- What is passed over are the later changes of the listed pages. -/
  skipped : r.report.skipped =
    (r.report.quarantined.map fun q => (fresh.fate fs q.group q.page).late).sum

section Isolates

variable {fresh : Memory} {fs : List Frame} {f : Frame} {r r' : Replay} {d : PageDelta}

theorem Isolates.isQuarantined_eq (h : Isolates fresh fs r) (t : PageTarget) :
    r.report.isQuarantined t = (fresh.fate fs t.group t.page).failure.isSome := by
  rw [Bool.eq_iff_iff, ReplayReport.isQuarantined, List.any_eq_true, Option.isSome_iff_exists]
  constructor
  · rintro ⟨q, hq, hkey⟩
    simp only [Bool.and_eq_true, beq_iff_eq] at hkey
    obtain ⟨hgroup, hpage⟩ := hkey
    rw [← hgroup, ← hpage]
    exact ⟨_, (h.listed q).1 hq⟩
  · rintro ⟨⟨lsn, e⟩, hfailure⟩
    refine ⟨⟨t.group, t.page, lsn, e⟩, (h.listed _).2 hfailure, ?_⟩
    simp only [beq_self_eq_true, Bool.and_self]

/-- A page on which no change has failed is not listed. -/
theorem Isolates.not_listed (h : Isolates fresh fs r) {g : GroupId} {id : PageId}
    (hfree : (fresh.fate fs g id).failure = none) :
    (g, id) ∉ r.report.quarantined.map fun q => (q.group, q.page) := by
  intro hkey
  obtain ⟨q, hq, hsame⟩ := List.mem_map.1 hkey
  simp only [Prod.mk.injEq] at hsame
  have hlisted := (h.listed q).1 hq
  rw [hsame.1, hsame.2, hfree] at hlisted
  cases hlisted

/-- A frame that records no change leaves everything as it is. -/
theorem Isolates.marker (h : Isolates fresh fs r) (hf : ∀ g id, f.changeOf? g id = none)
    (hmemory : r'.memory = r.memory) (hquarantined : r'.report.quarantined = r.report.quarantined)
    (hskipped : r'.report.skipped = r.report.skipped) : Isolates fresh (fs ++ [f]) r' := by
  have hfate : fresh.fate (fs ++ [f]) = fresh.fate fs := by
    funext g id
    exact Memory.fate_snoc_other (hf g id)
  constructor
  · rw [hmemory]
    exact h.like
  · rw [hmemory, hfate]
    exact h.pages
  · rw [hquarantined, hfate]
    exact h.listed
  · rw [hquarantined]
    exact h.once
  · rw [hquarantined, List.map_append]
    exact h.order.trans (List.sublist_append_left ..)
  · rw [hskipped, hquarantined, hfate]
    exact h.skipped

/-- A change of a page in quarantine is passed over. -/
theorem Isolates.skip (h : Isolates fresh fs r) (hf : Record.decode f.payload = .ok (.delta d))
    (hq : r.report.isQuarantined d.target = true) :
    Isolates fresh (fs ++ [f])
      { r with report := { r.report with skipped := r.report.skipped + 1 } } := by
  rw [h.isQuarantined_eq] at hq
  have hfate := Memory.fate_snoc_delta (k := fun fate => { fate with late := fate.late + 1 }) hf
    (PageFate.andThen_of_some hq)
  refine ⟨h.like, fun g id => ?_, fun q => ?_, h.once, ?_, ?_⟩
  · rw [h.pages, hfate]
    split <;> rfl
  · rw [h.listed, hfate]
    split <;> rfl
  · rw [List.map_append]
    exact h.order.trans (List.sublist_append_left ..)
  · -- the page is listed once, so that one summand grows
    obtain ⟨⟨lsn, e⟩, hfailure⟩ := Option.isSome_iff_exists.1 hq
    have hlisted : (d.target.group, d.target.page) ∈
        r.report.quarantined.map fun q => (q.group, q.page) :=
      List.mem_map.2 ⟨⟨d.target.group, d.target.page, lsn, e⟩, (h.listed _).2 hfailure, rfl⟩
    refine (congrArg (· + 1) h.skipped).trans (sum_map_succ h.once hlisted fun q => ?_).symm
    rw [hfate]
    simp only [Prod.mk.injEq, eq_comm (a := q.group), eq_comm (a := q.page)]
    split <;> rfl

/-- A change that can be carried out changes its page. -/
theorem Isolates.carry (h : Isolates fresh fs r) (hf : Record.decode f.payload = .ok (.delta d))
    {m : Memory} {page : Bytes} {applied : Nat} (hfree : r.report.isQuarantined d.target = false)
    (hrun : d.carryOut r.memory (r.memory.contents d.target.group d.target.page) = .ok page)
    (hlike : r.memory.Like m)
    (hcontents : m.contents = r.memory.contents.put d.target.group d.target.page page) :
    Isolates fresh (fs ++ [f]) ⟨m, { r.report with applied }⟩ := by
  rw [h.isQuarantined_eq, Option.isSome_eq_false_iff, Option.isNone_iff_eq_none] at hfree
  rw [PageDelta.carryOut_like h.like, h.pages] at hrun
  have hfate := Memory.fate_snoc_delta (k := fun fate => { fate with contents := .ok page }) hf
    (PageFate.andThen_of_ok hfree hrun)
  refine ⟨h.like.trans hlike, fun g id => ?_, fun q => ?_, h.once, ?_, ?_⟩
  · simp only [hcontents, hfate, Contents.put]
    split
    · rfl
    · exact h.pages g id
  · rw [hfate]
    refine (h.listed q).trans ?_
    split <;> rfl
  · rw [List.map_append]
    exact h.order.trans (List.sublist_append_left ..)
  · refine h.skipped.trans (congrArg List.sum (List.map_congr_left fun q _ => ?_))
    rw [hfate]
    split <;> rfl

/-- A change that cannot be carried out puts its page into quarantine. -/
theorem Isolates.quarantine (h : Isolates fresh fs r)
    (hf : Record.decode f.payload = .ok (.delta d)) {m : Memory} {e : Error}
    (hfree : r.report.isQuarantined d.target = false)
    (hrun : d.carryOut r.memory (r.memory.contents d.target.group d.target.page) = .error e)
    (hlike : r.memory.Like m) (hcontents : m.contents = r.memory.contents) :
    Isolates fresh (fs ++ [f]) ⟨m, { r.report with quarantined := r.report.quarantined ++
      [⟨d.target.group, d.target.page, f.pointer.lsn, e⟩] }⟩ := by
  rw [h.isQuarantined_eq, Option.isSome_eq_false_iff, Option.isNone_iff_eq_none] at hfree
  rw [PageDelta.carryOut_like h.like, h.pages] at hrun
  -- only the failure of its page is news
  have hfate := Memory.fate_snoc_delta
    (k := fun fate => { fate with failure := some (f.pointer.lsn, e) }) hf
    (PageFate.andThen_of_error hfree hrun)
  refine ⟨h.like.trans hlike, fun g id => ?_, fun q => ?_, ?_, ?_, ?_⟩
  · simp only [hcontents, hfate]
    refine (h.pages g id).trans ?_
    split <;> rfl
  · rw [List.mem_append, List.mem_singleton, h.listed, hfate]
    -- either the entry is the new one, or its page has its old fate
    by_cases hd : d.target.group = q.group ∧ d.target.page = q.page
    · rcases q with ⟨g, id, lsn, reason⟩
      obtain ⟨rfl, rfl⟩ := hd
      rw [if_pos ⟨rfl, rfl⟩, hfree]
      simp only [reduceCtorEq, false_or, QuarantinedPage.mk.injEq, true_and, Option.some.injEq,
        Prod.mk.injEq, eq_comm]
    · rw [if_neg hd]
      refine or_iff_left fun hq => hd ?_
      rw [hq]
      exact ⟨rfl, rfl⟩
  · rw [List.map_append, List.map_singleton, List.nodup_append]
    refine ⟨h.once, List.pairwise_singleton .., fun key hkey key' hkey' heq => ?_⟩
    rw [heq, List.mem_singleton.1 hkey'] at hkey
    exact h.not_listed hfree hkey
  · simp only [List.map_append, List.map_singleton]
    exact h.order.append (List.Sublist.refl _)
  · -- the changes that came too late are as many as before
    have hlate : ∀ q : QuarantinedPage, (fresh.fate (fs ++ [f]) q.group q.page).late =
        (fresh.fate fs q.group q.page).late := by
      intro q
      rw [hfate]
      split <;> rfl
    simp only [List.map_append, List.map_singleton, List.sum_append, List.sum_singleton, hlate]
    rw [Memory.late_fate_of_none hfree, Nat.add_zero]
    exact h.skipped

/-- A change is dealt with as its page demands. -/
theorem Isolates.treats (h : Isolates fresh fs r)
    (hf : Record.decode f.payload = .ok (.delta d)) (ht : Treats f.pointer.lsn d r r') :
    Isolates fresh (fs ++ [f]) r' := by
  cases ht with
  | skipped hq => exact h.skip hf hq
  | applied hfree hrun hlike hcontents => exact h.carry hf hfree hrun hlike hcontents
  | failed hfree hrun hlike hcontents => exact h.quarantine hf hfree hrun hlike hcontents

end Isolates

/-! ### Frame by frame -/

/-- The report after the frames `fs` says of each of them what was done with it. -/
structure Accounts (fresh : Memory) (fs : List Frame) (r : Replay) : Prop
    extends Isolates fresh fs r where
  /-- Every frame is counted once. -/
  total : r.report.applied + r.report.skipped + r.report.whole + r.report.quarantined.length =
    fs.length
  /-- The records that change no page are those of snapshots and checkpoints. -/
  whole : r.report.whole =
    (fs.filterMap Frame.snapshot?).length + (fs.filterMap Frame.checkpoint?).length
  /-- The last record is that of the last frame. -/
  lastLsn : r.report.lastLsn = fs.getLast?.map (·.pointer.lsn)
  /-- The last snapshot is the last that the frames record. -/
  lastSnapshot : r.report.lastSnapshot = (fs.filterMap Frame.snapshot?).getLast?
  /-- The last checkpoint is the last that the frames record. -/
  lastCheckpoint : r.report.lastCheckpoint = (fs.filterMap Frame.checkpoint?).getLast?

/-- Before the first frame all pages are blank. -/
theorem accounts_nil {fresh : Memory} (hblank : fresh.contents = fresh.blank) :
    Accounts fresh [] ⟨fresh, .empty⟩ := by
  refine ⟨⟨.refl fresh, fun g id => ?_, fun q => ?_, .nil, .slnil, rfl⟩, rfl, rfl, rfl, rfl, rfl⟩
  · rw [hblank]
    rfl
  · simp only [ReplayReport.empty, List.not_mem_nil, Memory.fate, List.filterMap_nil, PageFate.of,
      reduceCtorEq]

section Accounts

variable {fresh : Memory} {fs : List Frame} {f : Frame} {r r' : Replay}

/-- A change is counted once, and is no marker. -/
theorem Treats.counts {lsn : Lsn} {d : PageDelta} (h : Treats lsn d r r') :
    r'.report.applied + r'.report.skipped + r'.report.quarantined.length =
        r.report.applied + r.report.skipped + r.report.quarantined.length + 1 ∧
      r'.report.whole = r.report.whole ∧ r'.report.lastLsn = r.report.lastLsn ∧
      r'.report.lastSnapshot = r.report.lastSnapshot ∧
      r'.report.lastCheckpoint = r.report.lastCheckpoint := by
  cases h with
  | skipped => exact ⟨by simp only; omega, rfl, rfl, rfl, rfl⟩
  | applied => exact ⟨by simp only; omega, rfl, rfl, rfl, rfl⟩
  | failed =>
    refine ⟨?_, rfl, rfl, rfl, rfl⟩
    simp only [List.length_append, List.length_singleton]
    omega

/-- A frame is accounted for if the report counts it, and notes what it marks. -/
theorem Accounts.snoc (h : Accounts fresh fs r) (hpages : Isolates fresh (fs ++ [f]) r')
    (htotal :
      r'.report.applied + r'.report.skipped + r'.report.whole + r'.report.quarantined.length =
        r.report.applied + r.report.skipped + r.report.whole + r.report.quarantined.length + 1)
    (hwhole : r'.report.whole =
      r.report.whole + f.snapshot?.toList.length + f.checkpoint?.toList.length)
    (hlsn : r'.report.lastLsn = some f.pointer.lsn)
    (hsnapshot : r'.report.lastSnapshot = f.snapshot?.or r.report.lastSnapshot)
    (hcheckpoint : r'.report.lastCheckpoint = f.checkpoint?.or r.report.lastCheckpoint) :
    Accounts fresh (fs ++ [f]) r' := by
  refine ⟨hpages, ?_, ?_, ?_, ?_, ?_⟩
  · rw [htotal, h.total, List.length_append, List.length_singleton]
  · rw [hwhole, h.whole, Frame.filterMap_snoc, Frame.filterMap_snoc, List.length_append,
      List.length_append]
    omega
  · rw [hlsn, List.getLast?_append, List.getLast?_singleton]
    rfl
  · rw [hsnapshot, h.lastSnapshot, Frame.getLast?_filterMap_snoc]
  · rw [hcheckpoint, h.lastCheckpoint, Frame.getLast?_filterMap_snoc]

/-- A frame that records no change is counted, and noted as what it marks. -/
theorem Accounts.mark (h : Accounts fresh fs r) (hf : ∀ g id, f.changeOf? g id = none)
    (hmark : f.snapshot?.toList.length + f.checkpoint?.toList.length = 1) :
    Accounts fresh (fs ++ [f]) { r with report := { r.report with
      whole := r.report.whole + 1
      lastLsn := some f.pointer.lsn
      lastSnapshot := f.snapshot?.or r.report.lastSnapshot
      lastCheckpoint := f.checkpoint?.or r.report.lastCheckpoint } } := by
  refine h.snoc (h.toIsolates.marker hf rfl rfl rfl) ?_ ?_ rfl rfl rfl
  · simp only
    omega
  · simp only
    omega

theorem Accounts.step {record : Record} (h : Accounts fresh fs r)
    (hf : Record.decode f.payload = .ok record) :
    ∃ r', Replay.step .quarantine f r = .ok () r' ∧ Accounts fresh (fs ++ [f]) r' := by
  have hrecord := Frame.record?_of_decode hf
  rw [step_of_decode hf]
  cases record with
  | snapshot id full =>
    have hsnapshot : f.snapshot? = some (id, full) := by simp only [Frame.snapshot?, hrecord]
    have hcheckpoint : f.checkpoint? = none := by simp only [Frame.checkpoint?, hrecord]
    -- a mark is no change of any page
    have hother : ∀ g page, f.changeOf? g page = none := by
      intro g page
      simp only [Frame.changeOf?, hrecord]
    have hmark := h.mark hother (by rw [hsnapshot, hcheckpoint]; rfl)
    rw [hsnapshot, hcheckpoint] at hmark
    exact ⟨_, rfl, hmark⟩
  | checkpoint id =>
    have hsnapshot : f.snapshot? = none := by simp only [Frame.snapshot?, hrecord]
    have hcheckpoint : f.checkpoint? = some id := by simp only [Frame.checkpoint?, hrecord]
    have hother : ∀ g page, f.changeOf? g page = none := by
      intro g page
      simp only [Frame.changeOf?, hrecord]
    have hmark := h.mark hother (by rw [hsnapshot, hcheckpoint]; rfl)
    rw [hsnapshot, hcheckpoint] at hmark
    exact ⟨_, rfl, hmark⟩
  | delta d =>
    have hsnapshot : f.snapshot? = none := by simp only [Frame.snapshot?, hrecord]
    have hcheckpoint : f.checkpoint? = none := by simp only [Frame.checkpoint?, hrecord]
    obtain ⟨r', hrun, htreats⟩ := stepDelta_treats f.pointer.lsn d (r.reached f)
    -- to have reached the frame changes nothing that is isolated
    have hreached : Isolates fresh fs (r.reached f) :=
      ⟨h.like, h.pages, h.listed, h.once, h.order, h.skipped⟩
    obtain ⟨hcount, hwhole, hlsn, hlast, hlast'⟩ := htreats.counts
    simp only [reached] at hcount hwhole
    refine ⟨r', hrun, h.snoc (hreached.treats hf htreats) ?_ ?_ hlsn ?_ ?_⟩
    · omega
    · rw [hwhole, hsnapshot, hcheckpoint]
      rfl
    · rw [hlast, hsnapshot]
      rfl
    · rw [hlast', hcheckpoint]
      rfl

/-- Frames whose records can be decoded are replayed to the end. -/
theorem Accounts.forM {gs : List Frame} (h : Accounts fresh fs r)
    (hgs : ∀ f ∈ gs, ∃ record, Record.decode f.payload = .ok record) :
    ∃ r', gs.forM (Replay.step .quarantine) r = .ok ⟨⟩ r' ∧ Accounts fresh (fs ++ gs) r' := by
  induction gs generalizing fs r with
  | nil => exact ⟨r, rfl, by rwa [List.append_nil]⟩
  | cons f gs ih =>
    obtain ⟨record, hf⟩ := hgs f List.mem_cons_self
    obtain ⟨r₁, hfirst, h₁⟩ := h.step hf
    obtain ⟨r₂, hothers, h₂⟩ := ih h₁ fun g hg => hgs g (List.mem_cons_of_mem f hg)
    rw [List.append_assoc, List.singleton_append] at h₂
    exact ⟨r₂, Act.bind_eq_ok.2 ⟨_, r₁, hfirst, hothers⟩, h₂⟩

end Accounts

end Replay

/-! ### Fresh pages -/

namespace Memory

/-- The memory in which certain formats and the groups of a list are known, and no page was
touched. -/
def registered (formats : Formats) (groups : List (GroupId × Nat)) : Memory :=
  ((empty formats).registerAll groups).2

theorem register_formats (m : Memory) (formats : Formats) (g : GroupId) (size : Nat) :
    { m with formats }.register g size = (m.register g size).map ({ · with formats }) := by
  unfold register
  split
  · rfl
  · simp only
    cases m.groups[g]? with
    | none => rfl
    | some pages =>
      simp only
      split <;> rfl

theorem registerAll_formats (m : Memory) (formats : Formats) (groups : List (GroupId × Nat)) :
    ({ m with formats }.registerAll groups).2 = { (m.registerAll groups).2 with formats } := by
  induction groups generalizing m with
  | nil => rfl
  | cons entry groups ih =>
    obtain ⟨g, size⟩ := entry
    rw [registerAll, registerAll, register_formats]
    cases m.register g size with
    | ok m' => exact ih m'
    | error e => exact ih m

theorem Untouched.contents_eq_blank {m : Memory} (h : m.Untouched) : m.contents = m.blank := by
  funext g id
  by_cases hid : id = PageId.null
  · rw [contents_eq, blank, if_pos hid, if_pos hid]
  · rw [blank, if_neg hid]
    cases hsize : m.pageSize g with
    | ok size => exact h.contents_blank hsize hid
    | error e =>
      rw [contents_eq, if_neg hid]
      unfold pageSize at hsize
      cases hg : m.groups[g]? with
      | some pages =>
        rw [hg] at hsize
        cases hsize
      | none =>
        rw [hg] at hsize
        cases hsize
        rfl

/-- All pages are blank as long as none was touched, whatever the formats. -/
theorem registered_contents (formats : Formats) (groups : List (GroupId × Nat)) :
    (registered formats groups).contents = (registered formats groups).blank := by
  have hfresh : registered formats groups = { fresh groups with formats } :=
    registerAll_formats (empty .standard) formats groups
  have hcontents : (registered formats groups).contents = (fresh groups).contents := by
    funext g id
    rw [hfresh, contents_eq, contents_eq]
  have hblank : (registered formats groups).blank = (fresh groups).blank := by
    rw [hfresh]
    rfl
  rw [hcontents, hblank, (fresh_untouched groups).contents_eq_blank]

end Memory

/-! ### Whole logs -/

theorem Scan.ofHeader_eq_ok {h : FileHeader} {d d' : Disk} {s : Scan}
    (hs : ofHeader h d = .ok s d') : s = .whole h d.file.len := by
  obtain ⟨limit, d₁, hlen, hrest⟩ := Act.bind_eq_ok.1 hs
  have hlimit : limit = d.file.len := by
    unfold Disk.len Disk.call at hlen
    simp only at hlen
    split at hlen
    · cases hlen
    · cases hlen
      rfl
  simp only at hrest
  split at hrest
  · cases hrest
  · cases hrest
    rw [hlimit]
    rfl

/-- What is read from a log up to its end is what a scan of the whole file gives. -/
theorem Log.frames_eq_ok {log log' : Log} {found : Scan.Harvest}
    (hframes : Log.frames log = .ok found log') (hend : found.failure = none) :
    ∃ scan d s', Log.scan log = .ok scan ⟨d, log'.writer⟩ ∧
      scan = .whole log.writer.header log.disk.file.len ∧
      scan.Gives d found.frames (.ok s' log'.disk) := by
  obtain ⟨scan, ⟨d, w⟩, hscan, hrest⟩ := Act.bind_eq_ok.1 hframes
  have hheader : scan = .whole log.writer.header log.disk.file.len ∧ w = log.writer := by
    have hread : Log.onDisk (Scan.ofHeader log.writer.header) log = .ok scan ⟨d, w⟩ := hscan
    cases hfile : Scan.ofHeader log.writer.header log.disk with
    | ok s d₁ =>
      rw [Log.onDisk_of_ok hfile] at hread
      cases hread
      exact ⟨Scan.ofHeader_eq_ok hfile, rfl⟩
    | error e d₁ =>
      rw [Log.onDisk_of_error hfile] at hread
      cases hread
  -- what is collected is what the scan gives
  obtain ⟨fs, x, hgives⟩ := scan.exists_gives d
  have hwalk := hgives.forEach_ok (Scan.collect_frames fs [])
  rw [List.append_nil] at hwalk
  have hharvest : (scan.harvest d).1 = found ∧ log' = ⟨(scan.harvest d).2, w⟩ := by
    cases hrest
    exact ⟨rfl, rfl⟩
  obtain ⟨rfl, rfl⟩ := hharvest
  cases x with
  | ok s' d' =>
    rw [Scan.harvest_eq hwalk]
    exact ⟨scan, d, s', hscan, hheader.1, hgives⟩
  | error e d' =>
    unfold Scan.harvest at hend
    rw [hwalk] at hend
    cases hend

/-- **Under quarantine pages stand alone, and no record is lost track of.**  A log is read to its
end, and the records in all frames can be decoded.  Then its replay onto untouched pages succeeds.
Every page ends as its own changes make it, up to the first of them that fails, and the report
accounts for every frame: pages in quarantine are listed once, in the order of the log. -/
theorem quarantine_isolates_pages (formats : Formats) (groups : List (GroupId × Nat))
    {log log' : Log} {found : Scan.Harvest} (hlen : log.disk.file.len < 2 ^ 64)
    (hframes : Log.frames log = .ok found log') (hend : found.failure = none)
    (hdecode : ∀ f ∈ found.frames, ∃ record, Record.decode f.payload = .ok record) :
    ∃ report m, Log.replay .quarantine (log, Memory.registered formats groups) =
        .ok report (log', m) ∧
      Replay.Accounts (Memory.registered formats groups) found.frames ⟨m, report⟩ ∧
      report.quarantined.Pairwise (fun q q' => q.lsn < q'.lsn) ∧
      report.validUpTo = (found.frames.getLast?.map Frame.stop).getD FileHeader.size := by
  obtain ⟨scan, d, s', hscan, rfl, hgives⟩ := Log.frames_eq_ok hframes hend
  obtain ⟨r, hrun, hr⟩ := (Replay.accounts_nil (Memory.registered_contents formats groups)).forM
    hdecode
  rw [List.nil_append] at hr
  have hreplay := Log.replay_of_ok hscan (Scan.replay_of_forEach (hgives.forEach_ok hrun))
  refine ⟨_, _, hreplay, ?_, ?_, ?_⟩
  · exact ⟨⟨hr.like, hr.pages, hr.listed, hr.once, hr.order, hr.skipped⟩, hr.total, hr.whole,
      hr.lastLsn, hr.lastSnapshot, hr.lastCheckpoint⟩
  · have hincreasing := (hgives.increasing hlen (UInt64.le_refl _) (Nat.le_add_right ..)).2
    exact List.pairwise_map.1 (hincreasing.sublist hr.order)
  · exact hgives.validUpTo rfl

/-- A log in which the first change of a page is one for a node, which the page is not yet.  The
change that would make it one comes too late. -/
theorem quarantine_isolates_pages_of_refused_page :
    let h : FileHeader := ⟨7, 1⟩
    let records : List Record :=
      [.delta ⟨⟨1, 2, 12, 1⟩, .setNext 3⟩, .delta ⟨⟨1, 1, 12, 1⟩, .init 0 5⟩, .checkpoint 9,
        .delta ⟨⟨1, 2, 12, 1⟩, .init 0 6⟩]
    let ps := records.map Record.encode
    let log : Log := ⟨.ofFile ⟨.ofBytes (h.image ps), .memory⟩,
      ⟨.off, h, (Tail.start h).pushAll ps, .zero⟩⟩
    ∃ log' report m, Log.replay .quarantine (log, Memory.registered .standard [(1, 64)]) =
        .ok report (log', m) ∧
      Replay.Accounts (Memory.registered .standard [(1, 64)]) ((Tail.start h).frames ps)
        ⟨m, report⟩ ∧
      ∃ e, ⟨1, 2, 1, e⟩ ∈ report.quarantined := by
  intro h records ps log
  have hl : log.Holds h ps [] := Log.holds_image h .off (Record.admissible_map_encode records)
  have hnumbers : h.Numbers ps.length := FileHeader.numbers_of_le (by decide)
  have hlen : log.disk.file.len < 2 ^ 64 := by
    rw [← File.length_bytes, hl.disk.bytes, List.append_nil, FileHeader.length_image]
    decide +kernel
  obtain ⟨log', hframes⟩ := hl.frames_eq hnumbers (h.ends_nil ps)
  have hdecode := (Tail.start h).decode_frames records
  obtain ⟨report, m, hreplay, haccounts, -⟩ :=
    quarantine_isolates_pages .standard [(1, 64)] hlen hframes rfl hdecode
  have hfate : ((Memory.registered .standard [(1, 64)]).fate ((Tail.start h).frames ps)
      1 2).failure.map Prod.fst = some 1 := by decide +kernel
  obtain ⟨⟨lsn, e⟩, hfailure, rfl⟩ := Option.map_eq_some_iff.1 hfate
  exact ⟨log', report, m, hreplay, haccounts, e, (haccounts.listed ⟨1, 2, 1, e⟩).2 hfailure⟩

end PageLog
