import PageLog.Proofs.FreeListSteps
import PageLog.Proofs.ReplayedPages

/-!
# Free lists over one journal

Several free lists share a journal, and pages of one group may belong to several lists.  Whatever is
done with one of them leaves the chains of the others alone, since a new node was no page in use
before and every other change is one of a node of the list itself.

## Main definitions

* `Depot`, `ListOp`, `Depot.after` — free lists over one journal, and what is done with them.
* `Depot.Sound` — every list agrees with its chain, and no node is in two lists.
* `Depot.Reached` — what an operation did.
* `Depot.begin` — a depot of no lists.

## Main results

* `Depot.Sound.after`, `Depot.Sound.afterAll` — the lists go on agreeing with their chains.
-/

namespace PageLog

/-- Free lists over one journal.  A list that was lost has left its place to none. -/
structure Depot where
  /-- The journal. -/
  journal : Journal
  /-- The lists. -/
  lists : List (Option FreeList)

/-- What is done with the lists of a depot. -/
inductive ListOp where
  /-- A list is begun in a group. -/
  | create (group : GroupId)
  /-- A page is given back to a list. -/
  | put (i : Nat) (page : PageId)
  /-- A page is taken from a list. -/
  | take (i : Nat)
  deriving DecidableEq, Repr

namespace Depot

/-- A list of the depot. -/
def list? (d : Depot) (i : Nat) : Option FreeList := d.lists[i]?.join

/-- The depot after an operation, which may have been refused. -/
def after (d : Depot) : ListOp → Depot
  | .create group =>
      match FreeList.create group d.journal with
      | .ok l j => ⟨j, d.lists ++ [some l]⟩
      | .error _ j => ⟨j, d.lists⟩
  | .put i page =>
      match d.list? i with
      | none => d
      | some l =>
          match l.put page d.journal with
          | .ok l j => ⟨j, d.lists.set i (some l)⟩
          | .error _ j => ⟨j, d.lists⟩
  | .take i =>
      match d.list? i with
      | none => d
      | some l =>
          match l.take d.journal with
          | .ok (_, l) j => ⟨j, d.lists.set i (some l)⟩
          | .error _ j => ⟨j, d.lists⟩

/-- The depot after several operations. -/
def afterAll (d : Depot) (ops : List ListOp) : Depot := ops.foldl after d

theorem list?_append (d : Depot) (j : Journal) (l : FreeList) (k : Nat) :
    list? ⟨j, d.lists ++ [some l]⟩ k = if k = d.lists.length then some l else d.list? k := by
  simp only [list?, List.getElem?_append]
  split
  · rw [if_neg (by omega)]
  · split
    · simp [*]
    · rename_i hlt hne
      rw [List.getElem?_eq_none (by simp; omega), List.getElem?_eq_none (by omega)]

theorem getElem?_of_list? {d : Depot} {i : Nat} {l : FreeList} (hi : d.list? i = some l) :
    d.lists[i]? = some (some l) := Option.join_eq_some_iff.1 hi

theorem set_list? {d : Depot} {i : Nat} {l : FreeList} (hi : d.list? i = some l) :
    d.lists.set i (some l) = d.lists := by
  obtain ⟨hlt, hget⟩ := List.getElem?_eq_some_iff.1 (getElem?_of_list? hi)
  rw [← hget, List.set_getElem_self]

theorem list?_set (d : Depot) (j : Journal) {i : Nat} {l l' : FreeList} (hi : d.list? i = some l)
    (k : Nat) :
    list? ⟨j, d.lists.set i (some l')⟩ k = if k = i then some l' else d.list? k := by
  obtain ⟨hlt, -⟩ := List.getElem?_eq_some_iff.1 (getElem?_of_list? hi)
  simp only [list?, List.getElem?_set]
  by_cases hk : k = i
  · rw [if_pos hk, if_pos hk.symm, if_pos hlt]
    rfl
  · rw [if_neg hk, if_neg (Ne.symm hk)]

/-- The records `rs` tell what the pages of logged groups hold, every list agrees with its chain,
and no page is a node of two lists. -/
structure Sound (d : Depot) (h : FileHeader) (groups : List (GroupId × Nat)) (rs : List Record) :
    Prop where
  /-- The records tell what the pages hold. -/
  recorded : d.journal.Recorded h (Memory.fresh groups) rs
  /-- The memory is sound. -/
  memory : d.journal.memory.Sound
  /-- The lists agree with their chains. -/
  kept : ∀ i l, d.list? i = some l → ∃ size L, l.Kept d.journal h rs size L
  /-- No page is a node of two lists. -/
  apart : ∀ i i' l l', d.list? i = some l → d.list? i' = some l' → i ≠ i' → l.group = l'.group →
    ∀ id ∈ l.nodes, id ∉ l'.nodes

section Sound

variable {d : Depot} {h : FileHeader} {groups : List (GroupId × Nat)} {rs : List Record}

/-- Reading pages makes no difference. -/
theorem Sound.peeks (hd : d.Sound h groups rs) {m : Memory} (hpeeks : d.journal.memory.Peeks m) :
    Sound ⟨{ d.journal with memory := m }, d.lists⟩ h groups rs := by
  refine ⟨hd.recorded.peeks hpeeks, hd.memory.like hpeeks.toLike, fun i l hi => ?_, hd.apart⟩
  obtain ⟨size, L, hk⟩ := hd.kept i l hi
  exact ⟨size, L, hk.peeks hpeeks⟩

/-- An operation on list `i`, which is new or lies on the chain `L`, leaves the other lists
alone. -/
theorem Sound.step (hd : d.Sound h groups rs) {i : Nat} {g : GroupId} {size : Nat} {L L' : Links}
    {ds : List PageDelta} {l' : FreeList} {d' : Depot}
    (hstep : FreeList.Stepped g size L L' d.journal h rs ds l' d'.journal)
    (hsize : d.journal.memory.pageSize g = .ok size)
    (hold : ∀ id ∈ L.ids, ∃ l, d.list? i = some l ∧ l.group = g ∧ id ∈ l.nodes)
    (hlists : ∀ k, d'.list? k = if k = i then some l' else d.list? k) :
    d'.Sound h groups (rs ++ d.journal.recordsOf ds) := by
  -- the chain of another list has no node in common with the chain of this one
  have hother : ∀ k l size' K, k ≠ i → d.list? k = some l → l.Kept d.journal h rs size' K →
      l.group = g → ∀ id ∈ K.ids, id ∉ L.ids := by
    intro k l size' K hki hk hkept hg id hid hmem
    obtain ⟨l₀, hi, hg₀, hid₀⟩ := hold id hmem
    exact hd.apart k i l l₀ hk hi hki (hg.trans hg₀.symm) id (hkept.lies.nodes.mem_iff.2 hid) hid₀
  have hnodes : ∀ k l, k ≠ i → d.list? k = some l → l.group = g →
      ∀ id ∈ l.nodes, id ∉ l'.nodes := by
    intro k l hki hk hg id hid hmem
    obtain ⟨size', K, hkept⟩ := hd.kept k l hk
    exact hstep.apart hkept hg (hother k l size' K hki hk hkept hg) id
      (hkept.lies.nodes.mem_iff.1 hid) (hstep.lies.nodes.mem_iff.1 hmem)
  refine ⟨hd.recorded.carriedOut hstep.out, hd.memory.like hstep.out.like, fun k l hk => ?_,
    fun k k' l₁ l₂ hk hk' hne hg => ?_⟩
  · rw [hlists] at hk
    split at hk
    · cases hk
      exact ⟨size, L', hstep.kept hd.memory hsize⟩
    · rename_i hki
      obtain ⟨size', K, hkept⟩ := hd.kept k l hk
      exact ⟨size', K, hstep.kept_beside hkept (hother k l size' K hki hk hkept)⟩
  · -- of two lists at most one is that of the operation
    rw [hlists] at hk hk'
    intro id hid hid'
    split at hk
    · cases hk
      rw [if_neg (by omega)] at hk'
      exact hnodes k' l₂ (by omega) hk' (hg.symm.trans hstep.group) id hid' hid
    · rename_i hki
      split at hk'
      · cases hk'
        exact hnodes k l₁ hki hk (hg.trans hstep.group) id hid hid'
      · exact hd.apart k k' l₁ l₂ hk hk' hne hg id hid hid'

/-- The depot `d'` comes from `d`, in which the records are `rs`, by the changes `ds`. -/
structure Reached (d : Depot) (h : FileHeader) (groups : List (GroupId × Nat)) (rs : List Record)
    (ds : List PageDelta) (d' : Depot) : Prop where
  /-- The lists go on agreeing with their chains. -/
  sound : d'.Sound h groups (rs ++ d.journal.recordsOf ds)
  /-- The switches stay. -/
  switches : d'.journal.switches = d.journal.switches
  /-- The records were counted. -/
  counted : d.journal.log.Counted (d.journal.recordsOf ds).length d'.journal.log
  /-- There are no more than two changes. -/
  few : ds.length ≤ 2
  /-- Before the last change all pages in use are as before. -/
  early : ∀ k < ds.length, ∃ c,
    (ds.take k).foldlM (Contents.change d.journal.memory) d.journal.memory.contents = some c ∧
      ∀ g id, d.journal.memory.Issued g id → c g id = d.journal.memory.contents g id
  /-- The lists stay where they begin. -/
  lists : ∀ i l, d.list? i = some l →
    ∃ l', d'.list? i = some l' ∧ l'.group = l.group ∧ l'.head = l.head
  /-- Only a single change makes a node with none before it, and that is the first of a list. -/
  heads : ∀ δ ∈ ds, ∀ page, δ.head? = some page →
    ds = [δ] ∧ ∃ i l, d'.list? i = some l ∧ page = (l.group, l.head)

/-- Nothing was done but reading pages. -/
theorem Sound.reached_peeks (hd : d.Sound h groups rs) {m : Memory}
    (hpeeks : d.journal.memory.Peeks m) :
    d.Reached h groups rs [] ⟨{ d.journal with memory := m }, d.lists⟩ := by
  refine ⟨?_, rfl, .refl _, Nat.zero_le 2, fun k hk => absurd hk (Nat.not_lt_zero k),
    fun i l hi => ⟨l, hi, rfl, rfl⟩, nofun⟩
  have hsound := hd.peeks hpeeks
  rwa [← List.append_nil rs] at hsound

/-- An operation on list `i`, which lies on the chain `L`. -/
theorem Sound.reached_step (hd : d.Sound h groups rs) {i : Nat} {l l' : FreeList} {size : Nat}
    {L L' : Links} {ds : List PageDelta} {j' : Journal} (hi : d.list? i = some l)
    (hk : l.Kept d.journal h rs size L)
    (hstep : FreeList.Stepped l.group size L L' d.journal h rs ds l' j') (hfew : ds.length ≤ 2)
    (hhead : l'.head = l.head) :
    d.Reached h groups rs ds ⟨j', d.lists.set i (some l')⟩ := by
  have hlists : ∀ k, list? ⟨j', d.lists.set i (some l')⟩ k =
      if k = i then some l' else d.list? k := list?_set d j' hi
  refine ⟨hd.step hstep hk.pageSize (fun _ hid => ⟨l, hi, rfl, hk.lies.nodes.mem_iff.2 hid⟩)
    hlists, hstep.out.switches, hstep.out.counted, hfew, hstep.early, fun k l₁ hk => ?_,
    fun δ hδ page hpage => ?_⟩
  · rw [hlists]
    split
    · rename_i heq
      rw [heq, hi] at hk
      cases hk
      exact ⟨l', rfl, hstep.group, hhead⟩
    · exact ⟨l₁, hk, rfl, rfl⟩
  · obtain ⟨hone, rfl⟩ := hstep.heads δ hδ page hpage
    exact ⟨hone, i, l', by rw [hlists, if_pos rfl], by rw [hstep.group]⟩

/-- Whatever is done with the lists, they go on agreeing with their chains. -/
theorem Sound.after (hd : d.Sound h groups rs) (op : ListOp) :
    ∃ ds, d.Reached h groups rs ds (d.after op) := by
  cases op with
  | create g =>
    cases hnext : d.journal.memory.nextId g with
    | none =>
      obtain ⟨e, hcreate⟩ := FreeList.create_exhausted hnext
      refine ⟨[], ?_⟩
      simp only [Depot.after, hcreate]
      exact hd.reached_peeks (.refl _)
    | some head =>
      -- a new list lies on a chain of its own, so that no other list is concerned
      obtain ⟨size, j', c, hcreate, hsize, hstep⟩ :=
        FreeList.create_ok hd.memory hd.recorded.log hnext
      refine ⟨[c], ?_⟩
      simp only [Depot.after, hcreate]
      have hlists := list?_append d j' ⟨g, head, head, [head], []⟩
      refine ⟨hd.step hstep hsize (fun _ hid => absurd hid List.not_mem_nil) hlists,
        hstep.out.switches, hstep.out.counted, by simp, hstep.early, fun i l hi => ?_,
        fun δ hδ page hpage => ?_⟩
      · have hlt := (List.getElem?_eq_some_iff.1 (getElem?_of_list? hi)).1
        exact ⟨l, by rw [hlists, if_neg (Nat.ne_of_lt hlt), hi], rfl, rfl⟩
      · obtain ⟨hone, rfl⟩ := hstep.heads δ hδ page hpage
        exact ⟨hone, d.lists.length, _, by rw [hlists, if_pos rfl], rfl⟩
  | put i page =>
    simp only [Depot.after]
    -- a list that is not there is left alone
    split
    · exact ⟨[], hd.reached_peeks (.refl _)⟩
    · rename_i l hi
      obtain ⟨size, L, hk⟩ := hd.kept i l hi
      obtain ⟨e, m, hput, hpeeks, -⟩ | ⟨L', c, j', hput, hstep, -⟩ |
        ⟨node, L', c, c', j', hput, hstep, -⟩ := FreeList.put_cases hk page
      · rw [hput]
        exact ⟨[], hd.reached_peeks hpeeks⟩
      · rw [hput]
        exact ⟨_, hd.reached_step hi hk hstep (by simp) rfl⟩
      · rw [hput]
        exact ⟨_, hd.reached_step hi hk hstep (by simp) rfl⟩
  | take i =>
    simp only [Depot.after]
    split
    · exact ⟨[], hd.reached_peeks (.refl _)⟩
    · rename_i l hi
      obtain ⟨size, L, hk⟩ := hd.kept i l hi
      obtain ⟨m, htake, hpeeks⟩ | ⟨data, L', c, j', htake, hstep, -⟩ |
        ⟨t, p, L', c, j', htake, hstep, -⟩ := FreeList.take_cases hk
      · rw [htake]
        simp only [set_list? hi]
        exact ⟨[], hd.reached_peeks hpeeks⟩
      · rw [htake]
        exact ⟨_, hd.reached_step hi hk hstep (by simp) rfl⟩
      · rw [htake]
        exact ⟨_, hd.reached_step hi hk hstep (by simp) rfl⟩

/-- However the lists are used, they go on agreeing with their chains, and each operation leaves at
most two records. -/
theorem Sound.afterAll (hd : d.Sound h groups rs) (ops : List ListOp) :
    (d.afterAll ops).journal.switches = d.journal.switches ∧
      ∃ more, more.length ≤ 2 * ops.length ∧ (d.afterAll ops).Sound h groups (rs ++ more) ∧
        d.journal.log.Counted more.length (d.afterAll ops).journal.log := by
  induction ops generalizing d rs with
  | nil => exact ⟨rfl, [], Nat.zero_le _, by rwa [List.append_nil], .refl _⟩
  | cons op ops ih =>
    obtain ⟨ds, hreached⟩ := hd.after op
    obtain ⟨hswitches, more, hfew, hd', hcounted⟩ := ih hreached.sound
    refine ⟨hswitches.trans hreached.switches, d.journal.recordsOf ds ++ more, ?_, ?_, ?_⟩
    · have hrecords := d.journal.length_recordsOf_le ds
      have htwo := hreached.few
      rw [List.length_append, List.length_cons]
      omega
    · rw [← List.append_assoc]
      exact hd'
    · rw [List.length_append]
      exact hreached.counted.trans hcounted

end Sound

/-! ### Beginnings -/

/-- A depot of no lists over a new log and untouched pages. -/
def begin (log : Log) (groups : List (GroupId × Nat)) (switches : Switches) : Depot :=
  ⟨⟨log, Memory.fresh groups, switches⟩, []⟩

theorem sound_begin {log : Log} {h : FileHeader} (hl : log.Holds h [] [])
    (groups : List (GroupId × Nat)) (switches : Switches) :
    (begin log groups switches).Sound h groups [] := by
  have hnone : ∀ i, (begin log groups switches).list? i = none := fun _ => rfl
  refine ⟨Journal.recorded_new hl _ _, (Memory.fresh_untouched groups).sound,
    fun i l hi => ?_, fun i i' l l' hi => ?_⟩
  · rw [hnone] at hi
    cases hi
  · rw [hnone] at hi
    cases hi

/-- A depot of no lists over a log that is opened on a disk. -/
def opened (options : LogOptions) (disk : Disk) (groups : List (GroupId × Nat))
    (switches : Switches) : Option Depot :=
  match Writer.ofDisk options disk with
  | .error _ _ => none
  | .ok w disk => some (begin ⟨disk, w⟩ groups switches)

/-- On a file without a header a new log is begun. -/
theorem opened_ok (options : LogOptions) {disk : Disk} (hcalm : disk.Calm)
    (hnew : disk.file.len < FileHeader.size) (groups : List (GroupId × Nat)) (switches : Switches) :
    ∃ d, opened options disk groups switches = some d ∧ d.lists = [] ∧
      d.Sound ⟨options.salt, options.startLsn⟩ groups [] := by
  obtain ⟨w, disk', hopen, hl, -⟩ := Writer.ofDisk_short options hcalm hnew
  exact ⟨_, by simp only [opened, hopen], rfl, sound_begin hl groups switches⟩

end Depot

end PageLog
