import PageLog.Audit
import PageLog.Proofs.Batches
import PageLog.Proofs.ListHeads

/-!
# The pages of an audit

An audit replays a log onto pages that nobody has touched, in the groups that the settings or the
log mention and with the page sizes that the settings give.  Where these are the sizes that the log
was written with, the changes do the same there as on the pages of the store, whatever other groups
there are.  The pages that the replay changed are looked through for first nodes in order.

## Main definitions

* `Memory.SizedBy` — untouched pages with the sizes that the settings give.

## Main results

* `Audit.freshPages_ok` — the pages that an audit begins with.
* `Contents.changes_elsewhere` — the same changes on other untouched pages.
* `Memory.Marked.mem_heads` — which pages are taken for first nodes.
-/

namespace PageLog

/-! ### Page sizes that settings give -/

/-- Settings that pass the check make no page smaller than allowed. -/
theorem Settings.minPageSize_le_pageSize {s : Settings} (h : s.check = .ok ()) (g : GroupId) :
    minPageSize ≤ s.pageSize g := by
  obtain ⟨hdefault, hgroups, -⟩ := s.check_ok_iff.1 h
  unfold pageSize
  cases hfound : s.groups.find? (·.id == g) with
  | none => exact hdefault
  | some settings =>
    cases hsize : settings.pageSize with
    | none => simpa only [Option.bind_some, hsize, Option.getD_none] using hdefault
    | some size =>
      have hlarge := hgroups settings (List.mem_of_find?_eq_some hfound) size hsize
      simpa only [Option.bind_some, hsize, Option.getD_some] using hlarge

/-- No page was touched, and the groups have the page sizes that the settings give. -/
structure Memory.SizedBy (m : Memory) (s : Settings) : Prop extends m.Untouched where
  /-- The sizes of pages. -/
  sizes : ∀ (g : GroupId) (pages : GroupPages), m.groups[g]? = some pages →
    pages.pageSize = s.pageSize g

namespace Memory.SizedBy

variable {m : Memory} {s : Settings} {g : GroupId}

theorem pageSize (hm : m.SizedBy s) (hg : g ∈ m.groups) : m.pageSize g = .ok (s.pageSize g) := by
  rw [Std.TreeMap.mem_iff_isSome_getElem?, Option.isSome_iff_exists] at hg
  obtain ⟨pages, hg⟩ := hg
  rw [Memory.pageSize, hg, ← hm.sizes g pages hg]

/-- A further group is made known with the size that the settings give. -/
theorem register (hm : m.SizedBy s) (hs : s.check = .ok ()) (g : GroupId) :
    ∃ m', m.register g (s.pageSize g) = .ok m' ∧ m'.SizedBy s ∧ g ∈ m'.groups ∧
      ∀ a ∈ m.groups, a ∈ m'.groups := by
  have hlarge := Nat.not_lt.2 (Settings.minPageSize_le_pageSize hs g)
  cases hg : m.groups[g]? with
  | none =>
    have hregister : m.register g (s.pageSize g) =
        .ok { m with groups := m.groups.insert g (.empty (s.pageSize g)) } := by
      simp only [Memory.register, if_neg hlarge, hg]
    refine ⟨_, hregister, ⟨hm.toUntouched.register hregister, fun a pages ha => ?_⟩, ?_, ?_⟩
    · simp only [Std.TreeMap.getElem?_insert, Std.LawfulEqCmp.compare_eq_iff_eq] at ha
      split at ha
      · rename_i heq
        cases ha
        rw [← heq]
        rfl
      · exact hm.sizes a pages ha
    · simp
    · intro a ha
      exact Std.TreeMap.mem_insert.2 (.inr ha)
  | some pages =>
    have hregister : m.register g (s.pageSize g) = .ok m := by
      simp only [Memory.register, if_neg hlarge, hg, hm.sizes g pages hg, if_true]
    -- a group that is known has the size of the settings already
    refine ⟨m, hregister, hm, ?_, fun a ha => ha⟩
    rw [Std.TreeMap.mem_iff_isSome_getElem?, hg]
    rfl

end Memory.SizedBy

/-- The groups that have settings are made known. -/
theorem Settings.memory_ok {s : Settings} (hs : s.check = .ok ()) :
    ∃ m, s.memory = .ok m ∧ m.SizedBy s := by
  have hall : ∀ (gs : List GroupSettings) (m : Memory), m.SizedBy s →
      ∃ m', gs.foldlM (fun m g => m.register g.id (s.pageSize g.id)) m = Except.ok m' ∧
        m'.SizedBy s := by
    intro gs
    induction gs with
    | nil => exact fun m hm => ⟨m, rfl, hm⟩
    | cons g gs ih =>
      intro m hm
      obtain ⟨m₁, hregister, hm₁, -⟩ := hm.register hs g.id
      obtain ⟨m₂, hrest, hm₂⟩ := ih m₁ hm₁
      refine ⟨m₂, ?_, hm₂⟩
      rw [List.foldlM_cons, hregister]
      exact hrest
  refine hall s.groups (.empty .standard) ⟨⟨rfl, fun g pages hg => ?_⟩, fun g pages hg => ?_⟩
  · simp [Memory.empty] at hg
  · simp [Memory.empty] at hg

/-! ### The groups that a log mentions -/

namespace Audit

variable {s : Settings}

/-- The group that a record changes a page of is made known. -/
theorem registerLogged_ok (hs : s.check = .ok ()) {m : Memory} (hm : m.SizedBy s) {f : Frame}
    {r : Record} (hf : f.payload = r.encode) :
    ∃ m', registerLogged s f m = .ok () m' ∧ m'.SizedBy s ∧ (∀ a ∈ m.groups, a ∈ m'.groups) ∧
      ∀ d ∈ Record.changes [r], d.target.group ∈ m'.groups := by
  have hdecode : (Record.decode f.payload).toOption.bind Record.delta? = r.delta? := by
    rw [hf, Record.decode_encode]
    rfl
  unfold registerLogged
  rw [hdecode]
  cases hdelta : r.delta? with
  | none =>
    refine ⟨m, rfl, hm, fun a ha => ha, fun d hd => ?_⟩
    simp [Record.changes, hdelta] at hd
  | some d =>
    have honly : Record.changes [r] = [d] := by simp [Record.changes, hdelta]
    rw [honly]
    simp only [List.mem_singleton, forall_eq]
    by_cases hknown : d.target.group ∈ m.groups
    · refine ⟨m, ?_, hm, fun a ha => ha, hknown⟩
      rw [if_pos (Std.TreeMap.contains_iff_mem.2 hknown)]
    · obtain ⟨m', hregister, hm', hmem, hkeeps⟩ := hm.register hs d.target.group
      refine ⟨m', ?_, hm', hkeeps, hmem⟩
      rw [if_neg (fun h => hknown (Std.TreeMap.contains_iff_mem.1 h)), hregister]

/-- The groups of all changes of a log are made known. -/
theorem registerAllLogged_ok (hs : s.check = .ok ()) {m : Memory} (hm : m.SizedBy s)
    {fs : List Frame} {rs : List Record} (hfs : fs.map Frame.payload = rs.map Record.encode) :
    ∃ m', fs.forM (registerLogged s) m = .ok ⟨⟩ m' ∧ m'.SizedBy s ∧
      (∀ a ∈ m.groups, a ∈ m'.groups) ∧ ∀ d ∈ Record.changes rs, d.target.group ∈ m'.groups := by
  induction rs generalizing fs m with
  | nil =>
    obtain rfl := List.map_eq_nil_iff.1 hfs
    exact ⟨m, rfl, hm, fun a ha => ha, fun d hd => absurd hd List.not_mem_nil⟩
  | cons r rs ih =>
    cases fs with
    | nil => cases hfs
    | cons f fs =>
      simp only [List.map_cons, List.cons.injEq] at hfs
      obtain ⟨m₁, hfirst, hm₁, hkeeps₁, hknown₁⟩ := registerLogged_ok hs hm hfs.1
      obtain ⟨m₂, hrest, hm₂, hkeeps₂, hknown₂⟩ := ih hm₁ hfs.2
      refine ⟨m₂, Act.bind_eq_ok.2 ⟨_, m₁, hfirst, hrest⟩, hm₂,
        fun a ha => hkeeps₂ a (hkeeps₁ a ha), fun d hd => ?_⟩
      rw [← List.singleton_append, Record.changes_append, List.mem_append] at hd
      obtain hd | hd := hd
      · exact hkeeps₂ _ (hknown₁ d hd)
      · exact hknown₂ d hd

/-- The pages that an audit begins with. -/
theorem freshPages_ok (hs : s.check = .ok ()) {log : Log} {h : FileHeader} {rs : List Record}
    {rest : Bytes} (hl : log.Holds h (rs.map Record.encode) rest) (hn : h.Numbers rs.length)
    (hends : h.Ends (rs.map Record.encode) rest) :
    ∃ m log', freshPages s log = .ok m log' ∧ m.SizedBy s ∧
      (∀ d ∈ Record.changes rs, d.target.group ∈ m.groups) ∧
      log'.Holds h (rs.map Record.encode) rest := by
  obtain ⟨m₀, hmemory, hm₀⟩ := Settings.memory_ok hs
  obtain ⟨d₁, hscan, hd₁⟩ := hl.scan
  obtain ⟨m, hregister, hm, -, hknown⟩ := registerAllLogged_ok hs hm₀
    (Tail.map_payload_frames (Tail.start h) (rs.map Record.encode))
  obtain ⟨d₂, hd₂, hwalk⟩ := Scan.forEach_image hd₁ hl.admissible (by rwa [List.length_map]) hends
    hregister
  refine ⟨m, { log with disk := d₂ }, ?_, hm, hknown, { hl with disk := hd₂ }⟩
  have hstart : Act.ofResult s.memory log = .ok m₀ log := Act.ofResult_eq_ok.2 ⟨hmemory, rfl⟩
  refine Act.bind_eq_ok.2 ⟨m₀, log, hstart, Act.bind_eq_ok.2 ⟨_, _, hscan, ?_⟩⟩
  simp only [hwalk]

end Audit

/-! ### The same changes elsewhere -/

/-- Untouched groups with pages of one size are the same. -/
theorem Memory.Untouched.contents_eq {m m' : Memory} (hm : m.Untouched) (hm' : m'.Untouched)
    {g : GroupId} (hsize : m'.pageSize g = m.pageSize g) : m'.contents g = m.contents g := by
  refine Memory.contents_of_groups ?_
  unfold Memory.pageSize at hsize
  cases hg : m.groups[g]? with
  | none =>
    cases hg' : m'.groups[g]? with
    | none => rfl
    | some pages' =>
      rw [hg, hg'] at hsize
      cases hsize
  | some pages =>
    cases hg' : m'.groups[g]? with
    | none =>
      rw [hg, hg'] at hsize
      cases hsize
    | some pages' =>
      obtain ⟨size, -, rfl⟩ := hm.groups g pages hg
      obtain ⟨size', -, rfl⟩ := hm'.groups g pages' hg'
      rw [hg, hg'] at hsize
      cases hsize
      rfl

namespace Contents

variable {m m' : Memory} {ds : List PageDelta} {c c' : Contents}

/-- The groups of changes that can be carried out are known. -/
theorem pageSize_of_changes (h : ds.foldlM (change m) c = some c') :
    ∀ d ∈ ds, ∃ size, m.pageSize d.target.group = .ok size := by
  induction ds generalizing c with
  | nil => exact fun d hd => absurd hd List.not_mem_nil
  | cons d ds ih =>
    rw [List.foldlM_cons] at h
    obtain ⟨c₁, hchange, hrest⟩ := Option.bind_eq_some_iff.1 h
    intro d' hd'
    obtain rfl | hd' := List.mem_cons.1 hd'
    · obtain ⟨page, page', -, happly, -⟩ := change_eq_some.1 hchange
      obtain ⟨d, size, hd, hsize, -⟩ := Record.apply_eq_ok.1 happly
      cases hd
      exact ⟨size, hsize⟩
    · exact ih hrest d' hd'

/-- Changes depend on the page sizes of their groups only. -/
theorem changes_congr (hformats : m'.formats = m.formats)
    (hsizes : ∀ d ∈ ds, m'.pageSize d.target.group = m.pageSize d.target.group) :
    ds.foldlM (change m') c = ds.foldlM (change m) c := by
  induction ds generalizing c with
  | nil => rfl
  | cons d ds ih =>
    have hfirst : c.change m' d = c.change m d := by
      simp only [change, Record.apply, hformats, hsizes d List.mem_cons_self]
    rw [List.foldlM_cons, List.foldlM_cons, hfirst]
    congr 1
    funext c₁
    exact ih fun d' hd' => hsizes d' (List.mem_cons_of_mem d hd')

/-- Changes of untouched pages do the same on other untouched pages of the same sizes. -/
theorem changes_elsewhere (hm : m.Untouched) (hm' : m'.Untouched)
    (hsizes : ∀ d ∈ ds, m'.pageSize d.target.group = m.pageSize d.target.group)
    (h : ds.foldlM (change m) m.contents = some c) :
    ∃ c', ds.foldlM (change m') m'.contents = some c' ∧
      ∀ d ∈ ds, c' d.target.group = c d.target.group := by
  let changed (g : GroupId) : Bool := ds.any (·.target.group == g)
  have hchanged : ∀ d ∈ ds, changed d.target.group = true := by
    intro d hd
    exact List.any_eq_true.2 ⟨d, hd, beq_self_eq_true _⟩
  obtain ⟨c', hc', hsame, -⟩ := changes_filter changed h (e := m'.contents) (by
    intro g hg
    obtain ⟨d, hd, hdg⟩ := List.any_eq_true.1 hg
    rw [← beq_iff_eq.1 hdg]
    exact (hm.contents_eq hm' (hsizes d hd)).symm)
  rw [List.filter_eq_self.2 hchanged,
    ← changes_congr (hm'.formats.trans hm.formats.symm) hsizes] at hc'
  exact ⟨c', hc', fun d hd => (hsame _ (hchanged d hd)).symm⟩

end Contents

/-! ### Looking for first nodes -/

namespace Memory

variable {m : Memory} {g : GroupId} {id : PageId}

theorem mem_groupIds : g ∈ m.groupIds ↔ g ∈ m.groups := by
  rw [groupIds, Std.TreeMap.map_fst_toList_eq_keys, Std.TreeMap.mem_keys]

theorem groupIds_sorted (m : Memory) : m.groupIds.Pairwise (· < ·) := by
  rw [groupIds, Std.TreeMap.map_fst_toList_eq_keys]
  refine Std.TreeMap.ordered_keys.imp fun h => ?_
  exact Std.compare_eq_lt.1 h

/-- A page counts as changed just if it was touched and is marked. -/
theorem mem_dirtyPages {bs : Bytes} :
    (id, bs) ∈ m.dirtyPages g ↔
      ∃ pages, m.groups[g]? = some pages ∧ pages.pages[id]? = some ⟨bs, true⟩ := by
  unfold dirtyPages
  cases hg : m.groups[g]? with
  | none => simp
  | some pages =>
    simp only [GroupPages.dirtyPages, List.mem_filterMap, Option.some.injEq, exists_eq_left']
    constructor
    · rintro ⟨⟨a, bs', dirty⟩, hmem, hpage⟩
      cases dirty with
      | false => cases hpage
      | true =>
        cases hpage
        exact Std.TreeMap.mem_toList_iff_getElem?_eq_some.1 hmem
    · intro h
      exact ⟨(id, ⟨bs, true⟩), Std.TreeMap.mem_toList_iff_getElem?_eq_some.2 h, rfl⟩

theorem dirtyPages_sorted (m : Memory) (g : GroupId) :
    (m.dirtyPages g).Pairwise (·.1 < ·.1) := by
  unfold dirtyPages
  cases m.groups[g]? with
  | none => exact .nil
  | some pages =>
    simp only [GroupPages.dirtyPages_eq_toList]
    exact Std.TreeMap.ordered_keys_toList.imp fun h => Std.compare_eq_lt.1 h

theorem heads_sorted (m : Memory) (g : GroupId) : (Audit.heads m g).Pairwise (· < ·) :=
  List.pairwise_map.2 ((m.dirtyPages_sorted g).filter _)

theorem mem_groupIds_of_heads (h : id ∈ Audit.heads m g) : g ∈ m.groupIds := by
  obtain ⟨⟨a, bs⟩, hdirty, -⟩ := List.mem_map.1 h
  obtain ⟨pages, hg, -⟩ := mem_dirtyPages.1 (List.mem_filter.1 hdirty).1
  rw [mem_groupIds, Std.TreeMap.mem_iff_isSome_getElem?, hg]
  rfl

/-- The pages taken for first nodes are those that look like it. -/
theorem Marked.mem_heads (hm : m.Marked) :
    id ∈ Audit.heads m g ↔ m.contents.IsHead m.formats g id := by
  simp only [Audit.heads, List.mem_map, List.mem_filter, Prod.exists, exists_and_right,
    exists_eq_right]
  constructor
  · rintro ⟨bs, hdirty, hhead⟩
    obtain ⟨pages, hg, hpage⟩ := mem_dirtyPages.1 hdirty
    refine ⟨bs, ?_, hhead⟩
    rw [contents_eq, if_neg (hm g pages hg id _ hpage).1, hg]
    simp only [GroupPages.bytesOf, hpage]
  · rintro ⟨bs, hbs, hhead⟩
    obtain ⟨-, pages, hg, rfl⟩ := contents_eq_ok hbs
    refine ⟨_, mem_dirtyPages.2 ⟨pages, hg, ?_⟩, hhead⟩
    -- a page that was not changed is blank
    unfold GroupPages.bytesOf at hhead ⊢
    cases hpage : pages.pages[id]? with
    | none =>
      rw [hpage, Audit.isHead_zeros] at hhead
      cases hhead
    | some page =>
      obtain ⟨bs, dirty⟩ := page
      rw [hpage] at hhead
      obtain rfl | rfl := (hm g pages hg id _ hpage).2
      · rfl
      · rw [Audit.isHead_zeros] at hhead
        cases hhead

end Memory

end PageLog
