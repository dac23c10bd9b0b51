import PageLog.Proofs.Depots

/-!
# Restarts

After a restart only the file of the log is left.  Opening and replaying it brings back the pages of
logged groups; a list of such a group is found again from its first node, and a list of any other
group is lost, since its first page is blank.

## Main definitions

* `Depot.reattach`, `Depot.restart` — finding the lists again.
* `Turn`, `Depot.turns` — operations and restarts.
* `FreeList.Agrees` — the list found again has the same nodes, and free pages of the list before.

## Main results

* `Depot.Sound.restart` — what a restart leaves of the lists.
* `Depot.Sound.turns` — the lists agree with their chains through operations and restarts.
-/

namespace PageLog

/-! ### Lists found again -/

/-- The list `l'` has the nodes of the list `l`, and no free pages but those of `l`. -/
structure FreeList.Agrees (l l' : FreeList) : Prop where
  /-- The group. -/
  group : l'.group = l.group
  /-- The nodes. -/
  nodes : l'.nodes.Perm l.nodes
  /-- The free pages. -/
  free : l'.free ⊆ l.free

/-- The list `l`, if the pages of the memory `m` show it, was found again as `l'`, and its nodes are
in use in the memory `m'`. -/
def FreeList.FoundAs (l l' : FreeList) (m m' : Memory) : Prop :=
  ∃ size L, m.pageSize l.group = .ok size ∧ l.Lies m.contents size L ∧
    l' = FreeList.ofLinks l.group L ∧ ∀ id ∈ L.ids, m'.Issued l.group id

theorem FreeList.FoundAs.agrees {l l' : FreeList} {m m' : Memory} (h : l.FoundAs l' m m') :
    l.Agrees l' := by
  obtain ⟨size, L, -, hlies, rfl, -⟩ := h
  exact ⟨rfl, hlies.nodes.symm, hlies.held⟩

namespace Depot

/-- A list found again on the pages of a journal, if it is not lost. -/
def again : Option FreeList → Journal → Option FreeList × Journal
  | none, j => (none, j)
  | some l, j =>
      match FreeList.ofHead l.group l.head j with
      | .ok l j => (some l, j)
      | .error _ j => (none, j)

/-- The lists found again on the pages of a journal, each in its place. -/
def reattach : List (Option FreeList) → Journal → List (Option FreeList) × Journal
  | [], j => ([], j)
  | entry :: rest, j =>
      let (entry, j) := again entry j
      let (rest, j) := reattach rest j
      (entry :: rest, j)

/-- The depot after a restart.  Whatever is not in the file of the log is gone. -/
def restart (options : LogOptions) (groups : List (GroupId × Nat)) (d : Depot) : Depot :=
  match Journal.recovered options groups d.journal.switches d.journal.log.disk with
  | none => d
  | some j =>
      let (lists, j) := reattach d.lists j
      ⟨j, lists⟩

/-- The pages of the memory show a chain with which the list agrees if its group is logged, and
otherwise its first page is blank. -/
structure Settled (logged : GroupId → Bool) (l : FreeList) (m : Memory) : Prop where
  /-- What is shown of a logged list. -/
  shown : logged l.group = true →
    ∃ size L, m.pageSize l.group = .ok size ∧ l.Lies m.contents size L
  /-- What is shown of any other list. -/
  blank : logged l.group = false → ∃ n, m.contents l.group l.head = .ok (Bytes.zeros n)

theorem Settled.peeks {logged : GroupId → Bool} {l : FreeList} {m m' : Memory}
    (h : Settled logged l m) (hpeeks : m.Peeks m') : Settled logged l m' := by
  constructor <;> rw [hpeeks.contents]
  · rw [hpeeks.pageSize]
    exact h.shown
  · exact h.blank

section Found

variable {logged : GroupId → Bool} {j : Journal}

/-- A list that is found again is there as its chain, and one whose first page is blank is lost. -/
theorem again_spec {entry : Option FreeList} (hm : j.memory.Sound)
    (hentry : ∀ l, entry = some l → Settled logged l j.memory) :
    ∃ entry' m, again entry j = (entry', { j with memory := m }) ∧ j.memory.Peeks m ∧
      ∀ l', entry' = some l' → ∃ l, entry = some l ∧ l.FoundAs l' j.memory m := by
  cases entry with
  | none => exact ⟨none, j.memory, rfl, .refl _, nofun⟩
  | some l =>
    have hsettled := hentry l rfl
    cases hg : logged l.group with
    | true =>
      obtain ⟨size, L, hsize, hlies⟩ := hsettled.shown hg
      obtain ⟨m, hchain, hpeeks, hissued⟩ :=
        FreeList.ofChain_ok hlies.on hm.formats hlies.nonempty hlies.distinct hlies.once
      rw [← hlies.head] at hchain
      have hfound : FreeList.ofHead l.group l.head j =
          .ok (FreeList.ofLinks l.group L) { j with memory := m } :=
        Journal.onMemory_of_ok hchain
      refine ⟨some (FreeList.ofLinks l.group L), m, by simp only [again, hfound], hpeeks, ?_⟩
      intro l' hl'
      exact ⟨l, rfl, size, L, hsize, hlies, (Option.some.inj hl').symm, hissued hm.numbered⟩
    | false =>
      -- a chain does not begin on a blank page
      obtain ⟨n, hblank⟩ := hsettled.blank hg
      obtain ⟨e, m, hchain, hpeeks⟩ := FreeList.ofChain_blank hblank
      have hlost : FreeList.ofHead l.group l.head j = .error e { j with memory := m } :=
        Journal.onMemory_of_error hchain
      exact ⟨none, m, by simp only [again, hlost], hpeeks, nofun⟩

theorem reattach_spec (lists : List (Option FreeList)) (hm : j.memory.Sound)
    (hlists : ∀ l, some l ∈ lists → Settled logged l j.memory) :
    ∃ lists' m, reattach lists j = (lists', { j with memory := m }) ∧ j.memory.Peeks m ∧
      ∀ (i : Nat) (l' : FreeList), lists'[i]? = some (some l') →
        ∃ l : FreeList, lists[i]? = some (some l) ∧ l.FoundAs l' j.memory m := by
  induction lists generalizing j with
  | nil => exact ⟨[], j.memory, rfl, .refl _, by simp⟩
  | cons entry lists ih =>
    -- finding the first list only reads pages, so that the others are found on the same ones
    obtain ⟨entry', m₁, hfirst, hpeeks₁, hfound₁⟩ :=
      again_spec hm fun l hl => hlists l (hl ▸ List.mem_cons_self)
    obtain ⟨lists', m₂, hrest, hpeeks₂, hfound₂⟩ := ih (j := { j with memory := m₁ })
      (hm.like hpeeks₁.toLike) fun l hl => (hlists l (List.mem_cons_of_mem _ hl)).peeks hpeeks₁
    refine ⟨entry' :: lists', m₂, ?_, hpeeks₁.trans hpeeks₂, ?_⟩
    · simp only [reattach, hfirst, hrest]
    · intro i l' hi
      cases i with
      | zero =>
        obtain ⟨l, hl, size, L, hsize, hlies, hl', hissued⟩ := hfound₁ l' (Option.some.inj hi)
        exact ⟨l, congrArg some hl, size, L, hsize, hlies, hl',
          fun id hid => hpeeks₂.issued _ id (hissued id hid)⟩
      | succ i =>
        obtain ⟨l, hl, size, L, hsize, hlies, hfound⟩ := hfound₂ i l' hi
        refine ⟨l, hl, size, L, (hpeeks₁.pageSize _).symm.trans hsize, ?_, hfound⟩
        rwa [← hpeeks₁.contents]

end Found

section Sound

variable {d : Depot} {h : FileHeader} {groups : List (GroupId × Nat)} {rs : List Record}

/-- What replayed pages show of a list: its chain if its group is logged, and otherwise nothing. -/
theorem Sound.settled (hd : d.Sound h groups rs) {m : Memory} (hlike : (Memory.fresh groups).Like m)
    (hlogged : ∀ g, d.journal.switches.isEnabled g = true →
      m.contents g = d.journal.memory.contents g)
    (hspares : ∀ g, d.journal.switches.isEnabled g = false →
      m.groups[g]? = (Memory.fresh groups).groups[g]?) {i : Nat} {l : FreeList}
    (hi : d.list? i = some l) : Settled d.journal.switches.isEnabled l m := by
  obtain ⟨size, L, hk⟩ := hd.kept i l hi
  have hsize : (Memory.fresh groups).pageSize l.group = .ok size :=
    (hd.recorded.like.pageSize l.group).symm.trans hk.pageSize
  refine ⟨fun hg => ?_, fun hg => ?_⟩
  · refine ⟨size, L, (hlike.pageSize _).trans hsize, hk.lies.congr fun id _ => ?_⟩
    rw [hlogged l.group hg]
  · refine ⟨size, ?_⟩
    rw [Memory.contents_of_groups (hspares l.group hg)]
    refine (Memory.fresh_untouched groups).contents_blank hsize ?_
    have hon := hk.lies.on
    rw [hk.lies.head]
    cases L with
    | nil => exact absurd rfl hk.lies.nonempty
    | cons node L => exact Chain.id_ne_null hon.1

/-- Opening and replaying the log gives a journal with the same records. -/
theorem Sound.recovered (hd : d.Sound h groups rs) (options : LogOptions) (hn : h.Numbers rs.length)
    (hsalt : options.salt = h.salt) :
    ∃ j, Journal.recovered options groups d.journal.switches d.journal.log.disk = some j ∧
      j.Recorded h (Memory.fresh groups) rs ∧ j.memory.Sound ∧ j.switches = d.journal.switches ∧
      ∀ l, some l ∈ d.lists → Settled d.journal.switches.isEnabled l j.memory := by
  obtain ⟨c, hc, hpages⟩ := hd.recorded.pages
  obtain ⟨j, hrecovered, hlike, hcontents, hswitches, hspares, hl⟩ :=
    Journal.recovered_ok options d.journal.switches hd.recorded.log.disk hn (h.ends_nil _) hsalt hc
  -- no record is about a group that is not logged
  have hlogged : ∀ delta ∈ Record.changes rs,
      d.journal.switches.isEnabled delta.target.group = true := hd.recorded.logged
  refine ⟨j, hrecovered, ⟨hl, hlike, fun delta hdelta => ?_, c, hc, fun g _ => ?_⟩,
    (Memory.fresh_untouched groups).sound.like hlike, hswitches, fun l hl => ?_⟩
  · rw [Journal.isLogged, hswitches]
    exact hlogged delta hdelta
  · rw [hcontents]
  · obtain ⟨i, hi⟩ := List.mem_iff_getElem?.1 hl
    have hlist : d.list? i = some l := by
      rw [list?, hi]
      rfl
    refine hd.settled hlike (fun g hg => ?_) (fun g hg => hspares g fun delta hdelta => ?_) hlist
    · rw [hcontents, hpages g hg]
    · rintro rfl
      rw [hlogged delta hdelta] at hg
      cases hg

/-- A restart finds the lists of logged groups again and loses the others. -/
theorem Sound.restart (hd : d.Sound h groups rs) (options : LogOptions) (hn : h.Numbers rs.length)
    (hsalt : options.salt = h.salt) :
    (d.restart options groups).Sound h groups rs ∧
      (d.restart options groups).journal.switches = d.journal.switches ∧
      ∀ i l', (d.restart options groups).list? i = some l' →
        ∃ l, d.list? i = some l ∧ l.Agrees l' := by
  obtain ⟨j, hrecovered, hrecorded, hmemory, hswitches, hlists⟩ := hd.recovered options hn hsalt
  obtain ⟨lists', m, hreattach, hpeeks, hfound⟩ := reattach_spec d.lists hmemory hlists
  have hrestart : d.restart options groups = ⟨{ j with memory := m }, lists'⟩ := by
    simp only [Depot.restart, hrecovered, hreattach]
  -- every list that is there afterwards was there before
  have hback : ∀ i l', (d.restart options groups).list? i = some l' →
      ∃ l, d.list? i = some l ∧ l.FoundAs l' j.memory m := by
    rw [hrestart]
    intro i l' hi
    obtain ⟨l, hl, hfoundAs⟩ := hfound i l' (getElem?_of_list? hi)
    exact ⟨l, by rw [list?, hl]; rfl, hfoundAs⟩
  refine ⟨⟨?_, ?_, fun i l' hi => ?_, fun i i' l₁ l₂ hi hi' hne hg id hid hid' => ?_⟩, ?_,
    fun i l' hi => ?_⟩
  · rw [hrestart]
    exact hrecorded.peeks hpeeks
  · rw [hrestart]
    exact hmemory.like hpeeks.toLike
  · -- a list that was found lies on its pages as before
    obtain ⟨l, -, size, L, hsize, hlies, rfl, hissued⟩ := hback i l' hi
    rw [hrestart]
    refine ⟨size, L, hmemory.like hpeeks.toLike, hrecorded.log, (hpeeks.pageSize _).trans hsize, ?_,
      hissued⟩
    refine FreeList.lies_ofLinks ?_ hlies.nonempty hlies.distinct hlies.once
    rw [hpeeks.contents]
    exact hlies.on
  · -- two lists have the nodes that they had, which are apart
    obtain ⟨l, hl, hfoundAs⟩ := hback i l₁ hi
    obtain ⟨l', hl', hfoundAs'⟩ := hback i' l₂ hi'
    have hsame := hfoundAs.agrees
    have hsame' := hfoundAs'.agrees
    refine hd.apart i i' l l' hl hl' hne ?_ id (hsame.nodes.mem_iff.1 hid)
      (hsame'.nodes.mem_iff.1 hid')
    rw [← hsame.group, ← hsame'.group, hg]
  · rw [hrestart]
    exact hswitches
  · obtain ⟨l, hl, hfoundAs⟩ := hback i l' hi
    exact ⟨l, hl, hfoundAs.agrees⟩

end Sound

end Depot

/-! ### Operations and restarts -/

/-- An operation or a restart. -/
inductive Turn where
  /-- An operation on the lists. -/
  | op (op : ListOp)
  /-- The log is opened again and replayed. -/
  | restart (start : Lsn) (mode : SyncMode)
  deriving DecidableEq, Repr

namespace Depot

/-- The depot after an operation or a restart. -/
def turn (salt : UInt64) (groups : List (GroupId × Nat)) (d : Depot) : Turn → Depot
  | .op op => d.after op
  | .restart start mode => d.restart ⟨salt, start, mode⟩ groups

/-- The depot after several operations and restarts. -/
def turns (salt : UInt64) (groups : List (GroupId × Nat)) (d : Depot) (ts : List Turn) : Depot :=
  ts.foldl (turn salt groups) d

theorem length_reattach (lists : List (Option FreeList)) (j : Journal) :
    (reattach lists j).1.length = lists.length := by
  induction lists generalizing j with
  | nil => rfl
  | cons entry lists ih => simp [reattach, ih]

/-- No list loses its place. -/
theorem length_le_turn (d : Depot) (salt : UInt64) (groups : List (GroupId × Nat)) (t : Turn) :
    d.lists.length ≤ (d.turn salt groups t).lists.length := by
  match t with
  | .op (.create g) =>
    simp only [turn, after]
    split <;> simp
  | .op (.put i page) =>
    simp only [turn, after]
    split
    · exact Nat.le_refl _
    · split <;> simp
  | .op (.take i) =>
    simp only [turn, after]
    split
    · exact Nat.le_refl _
    · split <;> simp
  | .restart start mode =>
    simp only [turn, restart]
    split
    · exact Nat.le_refl _
    · exact Nat.le_of_eq (length_reattach ..).symm

section Turns

variable {d : Depot} {h : FileHeader} {groups : List (GroupId × Nat)} {rs : List Record}

theorem turns_take_succ {salt : UInt64} {ts : List Turn} {k : Nat} {t : Turn}
    (ht : ts[k]? = some t) :
    d.turns salt groups (ts.take (k + 1)) =
      (d.turns salt groups (ts.take k)).turn salt groups t := by
  rw [turns, turns, List.take_add_one, ht, List.foldl_append]
  rfl

/-- Operations and restarts leave lists that agree with their chains, and at most two records. -/
theorem Sound.turn (hd : d.Sound h groups rs) (hn : h.Numbers rs.length) (t : Turn) :
    ∃ more, more.length ≤ 2 ∧ (d.turn h.salt groups t).Sound h groups (rs ++ more) := by
  cases t with
  | op op =>
    obtain ⟨ds, hreached⟩ := hd.after op
    refine ⟨d.journal.recordsOf ds, ?_, hreached.sound⟩
    exact Nat.le_trans (d.journal.length_recordsOf_le ds) hreached.few
  | restart start mode =>
    obtain ⟨hd', -⟩ := hd.restart ⟨h.salt, start, mode⟩ hn rfl
    exact ⟨[], Nat.zero_le 2, by rwa [List.append_nil]⟩

/-- Through operations and restarts the lists go on agreeing with their chains, as long as the
numbers of records do not run past the last one. -/
theorem Sound.turns (hd : d.Sound h groups rs) (ts : List Turn)
    (hlsn : h.startLsn.toNat + (rs.length + 2 * ts.length) ≤ 2 ^ 64) :
    ∃ rs', rs'.length ≤ rs.length + 2 * ts.length ∧
      (d.turns h.salt groups ts).Sound h groups rs' := by
  induction ts generalizing d rs with
  | nil => exact ⟨rs, Nat.le_refl _, hd⟩
  | cons t ts ih =>
    rw [List.length_cons] at hlsn
    obtain ⟨more, hmore, hd'⟩ := hd.turn (FileHeader.numbers_of_le (by omega)) t
    have hlength : (rs ++ more).length ≤ rs.length + 2 := by
      rw [List.length_append]
      omega
    obtain ⟨rs', hrs', hd''⟩ := ih hd' (by omega)
    refine ⟨rs', ?_, hd''⟩
    rw [List.length_cons]
    omega

end Turns

end Depot

end PageLog
